/-
Doubly linked chains in a memory of nodes.

`Seg m p cs n` says that the cells `cs`, pairs of an address and the value stored
there, are laid out in `m` as one doubly linked stretch: each cell points forward to
the next and back to the one before, the first points back to `p` and the last points
forward to `n`.  A stretch splits wherever its list of cells does (`seg_append`), and
a write outside it is invisible (`Seg.frame`).

Everything a list operation does to a chain is one of two things: it writes or frees
cells that are not in the part kept, and it patches the two pointers at the seam.
`Seg.relink` is that second half, once and for all: whatever stands between `pre`
and `post`, setting the last `next` of `pre` and the first `prev` of `post` makes one
chain of the three.
-/
import TagHighlight.Lib.Fault
import Mathlib.Logic.Function.Basic
import Mathlib.Data.List.Nodup

namespace DList

variable {α : Type}

/-- A cell of a doubly linked chain. -/
structure Node (α : Type) where
  data : α
  prev : Option Nat
  next : Option Nat

/-- The memory the cells live in; `none` is an address that is not allocated. -/
abbrev Mem (α : Type) := Nat → Option (Node α)

namespace Mem

/-- Load the node a pointer refers to. -/
def read (m : Mem α) : Option Nat → Except Fault (Node α)
  | none => .error .undefined
  | some a => match m a with
    | none => .error .undefined
    | some node => .ok node

/-- `p ? p->next : NULL`. -/
def nextOf (m : Mem α) (p : Option Nat) : Except Fault (Option Nat) :=
  if p.isSome then do .ok (← m.read p).next else .ok none

/-- `p ? p->prev : NULL`. -/
def prevOf (m : Mem α) (p : Option Nat) : Except Fault (Option Nat) :=
  if p.isSome then do .ok (← m.read p).prev else .ok none

/-- The memory with a node written at `a`. -/
def store (m : Mem α) (a : Nat) (node : Node α) : Mem α := Function.update m a (some node)

/-- `free (p)`: freeing NULL does nothing, freeing what is not allocated is undefined. -/
def free (m : Mem α) : Option Nat → Except Fault (Mem α)
  | none => .ok m
  | some a => if (m a).isSome then .ok (Function.update m a none) else .error .undefined

/-- The memory after `p->next = v`. -/
def setNext (m : Mem α) (p v : Option Nat) : Mem α :=
  match p with
  | none => m
  | some a => Function.update m a ((m a).map fun node => { node with next := v })

/-- The memory after `p->prev = v`. -/
def setPrev (m : Mem α) (p v : Option Nat) : Mem α :=
  match p with
  | none => m
  | some a => Function.update m a ((m a).map fun node => { node with prev := v })

/-- `p->next = v`, which needs `p` to point to a node. -/
def writeNext (m : Mem α) (p v : Option Nat) : Except Fault (Mem α) := do
  let _ ← m.read p
  .ok (m.setNext p v)

/-- `p->prev = v`, which needs `p` to point to a node. -/
def writePrev (m : Mem α) (p v : Option Nat) : Except Fault (Mem α) := do
  let _ ← m.read p
  .ok (m.setPrev p v)

/-- `p->data = v`, which needs `p` to point to a node. -/
def writeData (m : Mem α) (p : Option Nat) (v : α) : Except Fault (Mem α) :=
  match p with
  | none => .error .undefined
  | some a => do .ok (m.store a { (← m.read (some a)) with data := v })

/-- `if (p) p->next = v`. -/
def writeNext? (m : Mem α) (p v : Option Nat) : Except Fault (Mem α) :=
  if p.isSome then m.writeNext p v else .ok m

/-- `if (p) p->prev = v`. -/
def writePrev? (m : Mem α) (p v : Option Nat) : Except Fault (Mem α) :=
  if p.isSome then m.writePrev p v else .ok m

theorem read_some {m : Mem α} {a : Nat} {node : Node α} (h : m a = some node) :
    m.read (some a) = .ok node := by
  simp [read, h]

theorem nextOf_some {m : Mem α} {a : Nat} {node : Node α} (h : m a = some node) :
    m.nextOf (some a) = .ok node.next := by
  simp [nextOf, read_some h]

theorem prevOf_some {m : Mem α} {a : Nat} {node : Node α} (h : m a = some node) :
    m.prevOf (some a) = .ok node.prev := by
  simp [prevOf, read_some h]

@[simp] theorem nextOf_none (m : Mem α) : m.nextOf none = .ok none := rfl

@[simp] theorem prevOf_none (m : Mem α) : m.prevOf none = .ok none := rfl

@[simp] theorem store_self (m : Mem α) (a : Nat) (node : Node α) : m.store a node a = some node :=
  Function.update_self _ _ _

theorem store_ne {m : Mem α} {a b : Nat} {node : Node α} (h : b ≠ a) : m.store a node b = m b :=
  Function.update_of_ne h _ _

theorem free_some {m : Mem α} {a : Nat} (h : m a ≠ none) :
    m.free (some a) = .ok (Function.update m a none) := by
  simp [free, Option.isSome_iff_ne_none, h]

theorem writeNext_some {m : Mem α} {a : Nat} (v : Option Nat) (h : m a ≠ none) :
    m.writeNext (some a) v = .ok (m.setNext (some a) v) := by
  obtain ⟨node, hnode⟩ := Option.ne_none_iff_exists'.mp h
  simp [writeNext, read_some hnode]

theorem writePrev_some {m : Mem α} {a : Nat} (v : Option Nat) (h : m a ≠ none) :
    m.writePrev (some a) v = .ok (m.setPrev (some a) v) := by
  obtain ⟨node, hnode⟩ := Option.ne_none_iff_exists'.mp h
  simp [writePrev, read_some hnode]

theorem writeData_some {m : Mem α} {a : Nat} {node : Node α} (v : α) (h : m a = some node) :
    m.writeData (some a) v = .ok (m.store a { node with data := v }) := by
  simp [writeData, read_some h]

theorem writeNext?_eq {m : Mem α} {p : Option Nat} (v : Option Nat)
    (h : ∀ a, p = some a → m a ≠ none) : m.writeNext? p v = .ok (m.setNext p v) := by
  cases p with
  | none => rfl
  | some a => simp [writeNext?, writeNext_some v (h a rfl)]

theorem writePrev?_eq {m : Mem α} {p : Option Nat} (v : Option Nat)
    (h : ∀ a, p = some a → m a ≠ none) : m.writePrev? p v = .ok (m.setPrev p v) := by
  cases p with
  | none => rfl
  | some a => simp [writePrev?, writePrev_some v (h a rfl)]

theorem setNext_ne {m : Mem α} {p v : Option Nat} {b : Nat} (h : p ≠ some b) :
    m.setNext p v b = m b := by
  cases p with
  | none => rfl
  | some a => exact Function.update_of_ne (fun hc => h (by rw [hc])) _ _

theorem setPrev_ne {m : Mem α} {p v : Option Nat} {b : Nat} (h : p ≠ some b) :
    m.setPrev p v b = m b := by
  cases p with
  | none => rfl
  | some a => exact Function.update_of_ne (fun hc => h (by rw [hc])) _ _

theorem setNext_self {m : Mem α} {a : Nat} {v : Option Nat} {node : Node α}
    (h : m a = some node) : m.setNext (some a) v a = some { node with next := v } := by
  simp [setNext, h]

theorem setPrev_self {m : Mem α} {a : Nat} {v : Option Nat} {node : Node α}
    (h : m a = some node) : m.setPrev (some a) v a = some { node with prev := v } := by
  simp [setPrev, h]

/-- Patching pointers neither allocates nor frees. -/
@[simp] theorem setNext_eq_none {m : Mem α} {p v : Option Nat} {b : Nat} :
    m.setNext p v b = none ↔ m b = none := by
  cases p with
  | none => rfl
  | some a =>
      by_cases hab : b = a
      · subst hab; simp [setNext]
      · rw [setNext_ne (by simpa using fun hc : a = b => hab hc.symm)]

@[simp] theorem setPrev_eq_none {m : Mem α} {p v : Option Nat} {b : Nat} :
    m.setPrev p v b = none ↔ m b = none := by
  cases p with
  | none => rfl
  | some a =>
      by_cases hab : b = a
      · subst hab; simp [setPrev]
      · rw [setPrev_ne (by simpa using fun hc : a = b => hab hc.symm)]

/-- The two patches touch different fields, so their order does not matter. -/
theorem setNext_setPrev_comm (m : Mem α) (p v q w : Option Nat) :
    (m.setNext p v).setPrev q w = (m.setPrev q w).setNext p v := by
  cases p with
  | none => rfl
  | some a => cases q with
    | none => rfl
    | some b =>
        funext c
        by_cases hca : c = a <;> by_cases hcb : c = b
        · subst hca; subst hcb
          cases hm : m c <;> simp [setNext, setPrev, hm]
        · subst hca
          have hcb' : b ≠ c := fun hc => hcb hc.symm
          rw [setPrev_ne (by simpa using hcb')]
          simp [setNext, setPrev_ne (show some b ≠ some c by simpa using hcb')]
        · subst hcb
          have hca' : a ≠ c := fun hc => hca hc.symm
          rw [setNext_ne (m := m.setPrev (some c) w) (by simpa using hca')]
          simp [setPrev, setNext_ne (show some a ≠ some c by simpa using hca')]
        · have h1 : some a ≠ some c := by simpa using fun hc : a = c => hca hc.symm
          have h2 : some b ≠ some c := by simpa using fun hc : b = c => hcb hc.symm
          rw [setPrev_ne h2, setNext_ne h1, setNext_ne h1, setPrev_ne h2]

/-! ### What no write allocates -/

/-- Nothing is allocated from the address `b` on. -/
def FreeFrom (m : Mem α) (b : Nat) : Prop := ∀ a, b ≤ a → m a = none

namespace FreeFrom

open Fault

variable {m : Mem α} {b : Nat}

theorem store (h : m.FreeFrom b) (node : Node α) : (m.store b node).FreeFrom (b + 1) := by
  intro a ha
  rw [store_ne (by omega)]
  exact h a (by omega)

theorem setNext (h : m.FreeFrom b) (p v : Option Nat) : (m.setNext p v).FreeFrom b := by
  intro a ha
  exact setNext_eq_none.mpr (h a ha)

theorem setPrev (h : m.FreeFrom b) (p v : Option Nat) : (m.setPrev p v).FreeFrom b := by
  intro a ha
  exact setPrev_eq_none.mpr (h a ha)

theorem writeNext (h : m.FreeFrom b) (p v : Option Nat) :
    Yields (m.writeNext p v) (FreeFrom · b) :=
  yields_bind fun _ => yields_ok (h.setNext p v)

theorem writePrev (h : m.FreeFrom b) (p v : Option Nat) :
    Yields (m.writePrev p v) (FreeFrom · b) :=
  yields_bind fun _ => yields_ok (h.setPrev p v)

theorem writeNext? (h : m.FreeFrom b) (p v : Option Nat) :
    Yields (m.writeNext? p v) (FreeFrom · b) :=
  yields_ite (fun _ => h.writeNext p v) fun _ => yields_ok h

theorem writePrev? (h : m.FreeFrom b) (p v : Option Nat) :
    Yields (m.writePrev? p v) (FreeFrom · b) :=
  yields_ite (fun _ => h.writePrev p v) fun _ => yields_ok h

theorem writeData (h : m.FreeFrom b) (p : Option Nat) (v : α) :
    Yields (m.writeData p v) (FreeFrom · b) := by
  intro m' hm'
  cases p with
  | none => cases hm'
  | some a =>
      obtain ⟨node, hread, heq⟩ := bind_eq_ok.mp hm'
      rw [← Except.ok.inj heq]
      intro c hc
      have hne : c ≠ a := by
        rintro rfl
        rw [read, h c hc] at hread
        cases hread
      rw [store_ne hne]
      exact h c hc

theorem free (h : m.FreeFrom b) (p : Option Nat) : Yields (m.free p) (FreeFrom · b) := by
  cases p with
  | none => exact yields_ok h
  | some a =>
      refine yields_ite (fun _ => yields_ok fun c hc => ?_) fun _ => yields_error _
      by_cases hca : c = a
      · rw [hca, Function.update_self]
      · rw [Function.update_of_ne hca]
        exact h c hc

end FreeFrom

end Mem

/-! ### Stretches of cells -/

/-- The address a stretch starts at, or `n` if it is empty. -/
def firstOr (cs : List (Nat × α)) (n : Option Nat) : Option Nat :=
  match cs with
  | [] => n
  | c :: _ => some c.1

/-- The address a stretch ends at, or `p` if it is empty. -/
def lastOr (p : Option Nat) : List (Nat × α) → Option Nat
  | [] => p
  | c :: cs => lastOr (some c.1) cs

/-- The addresses of a stretch. -/
def addrs (cs : List (Nat × α)) : List Nat := cs.map Prod.fst

/-- The values stored in a stretch. -/
def vals (cs : List (Nat × α)) : List α := cs.map Prod.snd

/-- `cs` is laid out in `m` as one chain, pointing back to `p` and forward to `n`. -/
def Seg (m : Mem α) : Option Nat → List (Nat × α) → Option Nat → Prop
  | _, [], _ => True
  | p, c :: cs, n => m c.1 = some ⟨c.2, p, firstOr cs n⟩ ∧ Seg m (some c.1) cs n

@[simp] theorem firstOr_nil (n : Option Nat) : firstOr ([] : List (Nat × α)) n = n := rfl

@[simp] theorem firstOr_cons (c : Nat × α) (cs : List (Nat × α)) (n : Option Nat) :
    firstOr (c :: cs) n = some c.1 := rfl

@[simp] theorem lastOr_nil (p : Option Nat) : lastOr p ([] : List (Nat × α)) = p := rfl

@[simp] theorem lastOr_cons (p : Option Nat) (c : Nat × α) (cs : List (Nat × α)) :
    lastOr p (c :: cs) = lastOr (some c.1) cs := rfl

@[simp] theorem firstOr_append (as bs : List (Nat × α)) (n : Option Nat) :
    firstOr (as ++ bs) n = firstOr as (firstOr bs n) := by
  cases as <;> rfl

@[simp] theorem lastOr_append (as : List (Nat × α)) :
    ∀ (p : Option Nat) (bs : List (Nat × α)), lastOr p (as ++ bs) = lastOr (lastOr p as) bs := by
  induction as with
  | nil => intro p bs; rfl
  | cons c as ih => intro p bs; exact ih (some c.1) bs

@[simp] theorem addrs_nil : addrs ([] : List (Nat × α)) = [] := rfl

@[simp] theorem addrs_cons (c : Nat × α) (cs : List (Nat × α)) :
    addrs (c :: cs) = c.1 :: addrs cs := rfl

@[simp] theorem addrs_append (as bs : List (Nat × α)) :
    addrs (as ++ bs) = addrs as ++ addrs bs := List.map_append

@[simp] theorem vals_nil : vals ([] : List (Nat × α)) = [] := rfl

@[simp] theorem vals_cons (c : Nat × α) (cs : List (Nat × α)) :
    vals (c :: cs) = c.2 :: vals cs := rfl

@[simp] theorem vals_append (as bs : List (Nat × α)) :
    vals (as ++ bs) = vals as ++ vals bs := List.map_append

@[simp] theorem vals_length (cs : List (Nat × α)) : (vals cs).length = cs.length :=
  List.length_map _

theorem firstOr_mem {cs : List (Nat × α)} {a : Nat} (h : firstOr cs none = some a) :
    a ∈ addrs cs := by
  cases cs with
  | nil => simp at h
  | cons c cs => simp_all

theorem lastOr_mem (cs : List (Nat × α)) :
    ∀ {p : Option Nat} {a : Nat}, lastOr p cs = some a → p = some a ∨ a ∈ addrs cs := by
  induction cs with
  | nil => intro p a h; exact Or.inl h
  | cons c cs ih =>
      intro p a h
      rcases ih h with hc | hc
      · simp_all
      · exact Or.inr (List.mem_cons_of_mem _ hc)

theorem lastOr_none_mem {cs : List (Nat × α)} {a : Nat} (h : lastOr none cs = some a) :
    a ∈ addrs cs := (lastOr_mem cs h).resolve_left (Option.some_ne_none a).symm

theorem lastOr_ne_none (cs : List (Nat × α)) : ∀ a : Nat, lastOr (some a) cs ≠ none := by
  induction cs with
  | nil => intro a; simp
  | cons c cs ih => intro a; exact ih c.1

theorem firstOr_ne_none (cs : List (Nat × α)) (a : Nat) : firstOr cs (some a) ≠ none := by
  cases cs <;> simp

/-- A write through the end of a chain that is there is defined. -/
theorem writeNext?_lastOr {m : Mem α} {cs : List (Nat × α)} (v : Option Nat)
    (h : ∀ a ∈ addrs cs, m a ≠ none) :
    m.writeNext? (lastOr none cs) v = .ok (m.setNext (lastOr none cs) v) :=
  Mem.writeNext?_eq v fun a ha => h a (lastOr_none_mem ha)

theorem writePrev?_firstOr {m : Mem α} {cs : List (Nat × α)} (v : Option Nat)
    (h : ∀ a ∈ addrs cs, m a ≠ none) :
    m.writePrev? (firstOr cs none) v = .ok (m.setPrev (firstOr cs none) v) :=
  Mem.writePrev?_eq v fun a ha => h a (firstOr_mem ha)

/-! ### Ends that are only replaced when there are none -/

/-- An end that is there is kept. -/
theorem ite_isNone {o : Option Nat} (h : o ≠ none) (v : Option Nat) :
    (if o.isNone then v else o) = o := by
  cases o with
  | none => exact absurd rfl h
  | some a => rfl

theorem firstOr_ite (cs : List (Nat × α)) (b : Nat) :
    (if (firstOr cs none).isNone then some b else firstOr cs none) = firstOr cs (some b) := by
  cases cs <;> rfl

theorem lastOr_ite (cs : List (Nat × α)) (b : Nat) :
    (if (lastOr none cs).isNone then some b else lastOr none cs) = lastOr (some b) cs := by
  cases cs with
  | nil => rfl
  | cons c cs => simp [lastOr_ne_none]

/-- The new first node, when `b` is put before the node `a` that ends `cs`. -/
theorem firstOr_before {cs : List (Nat × α)} {a : Nat} (ha : a ∉ addrs cs) (b : Nat) :
    (if (firstOr cs (some a)).isNone || some a == firstOr cs (some a) then some b
      else firstOr cs (some a)) = firstOr cs (some b) := by
  cases cs with
  | nil => simp
  | cons c cs =>
      have hne : a ≠ c.1 := fun hc => ha (by simp [hc])
      simp [hne]

/-- The new last node, when `b` is put after the node `a` that starts `cs`. -/
theorem lastOr_after {cs : List (Nat × α)} {a : Nat} (ha : a ∉ addrs cs) (b : Nat) :
    (if (lastOr (some a) cs).isNone || some a == lastOr (some a) cs then some b
      else lastOr (some a) cs) = lastOr (some b) cs := by
  cases cs with
  | nil => simp
  | cons c cs =>
      have hne : some a ≠ lastOr (some c.1) cs := by
        intro hc
        rcases lastOr_mem cs hc.symm with h | h
        · exact ha (by simp [Option.some.inj h])
        · exact ha (by simp [h])
      simp [lastOr_ne_none, hne]

theorem seg_append (m : Mem α) (as : List (Nat × α)) :
    ∀ (p : Option Nat) (bs : List (Nat × α)) (n : Option Nat),
      Seg m p (as ++ bs) n ↔ Seg m p as (firstOr bs n) ∧ Seg m (lastOr p as) bs n := by
  induction as with
  | nil => intro p bs n; simp [Seg]
  | cons c as ih =>
      intro p bs n
      simp only [List.cons_append, Seg, firstOr_append, ih, lastOr_cons, and_assoc]

namespace Seg

variable {m m' : Mem α} {p n : Option Nat} {cs : List (Nat × α)}

/-- A stretch only depends on its own cells. -/
theorem frame : ∀ {cs : List (Nat × α)} {p n : Option Nat},
    Seg m p cs n → (∀ a ∈ addrs cs, m' a = m a) → Seg m' p cs n := by
  intro cs
  induction cs with
  | nil => intro p n _ _; trivial
  | cons c cs ih =>
      intro p n h hm
      exact ⟨(hm c.1 (by simp)).trans h.1, ih h.2 fun a ha => hm a (by simp [ha])⟩

/-- The cells of a stretch are allocated. -/
theorem alloc : ∀ {cs : List (Nat × α)} {p n : Option Nat},
    Seg m p cs n → ∀ a ∈ addrs cs, m a ≠ none := by
  intro cs
  induction cs with
  | nil => intro p n _ a ha; simp at ha
  | cons c cs ih =>
      intro p n h a ha
      rcases List.mem_cons.mp ha with rfl | ha'
      · rw [h.1]; simp
      · exact ih h.2 a ha'

/-- Two stretches of one memory that start alike and are equally long are the same. -/
theorem unique : ∀ {cs ds : List (Nat × α)} {p n q k : Option Nat}, Seg m p cs n → Seg m q ds k →
    cs.length = ds.length → (cs ≠ [] → firstOr cs n = firstOr ds k) → cs = ds := by
  intro cs
  induction cs with
  | nil =>
      intro ds p n q k _ _ hlen _
      exact (List.length_eq_zero_iff.mp hlen.symm).symm
  | cons c cs ih =>
      intro ds p n q k h h' hlen hfirst
      cases ds with
      | nil => simp at hlen
      | cons d ds =>
          have haddr : c.1 = d.1 := by simpa using hfirst
          have hnode := h.1.symm.trans (haddr ▸ h'.1)
          simp only [Option.some.injEq, Node.mk.injEq] at hnode
          have hrest := ih h.2 h'.2 (by simpa using hlen) fun _ => hnode.2.2
          rw [hrest, show c = d from Prod.ext haddr hnode.1]

/-- Overwriting the value of one cell. -/
theorem setData {pre post : List (Nat × α)} {a : Nat} {x y : α}
    (h : Seg m p (pre ++ (a, x) :: post) n) (hpre : a ∉ addrs pre) (hpost : a ∉ addrs post) :
    Seg (m.store a ⟨y, lastOr p pre, firstOr post n⟩) p (pre ++ (a, y) :: post) n := by
  rw [seg_append] at h ⊢
  refine ⟨h.1.frame fun b hb => Mem.store_ne fun hc => hpre (hc ▸ hb), Mem.store_self _ _ _, ?_⟩
  exact h.2.2.frame fun b hb => Mem.store_ne fun hc => hpost (hc ▸ hb)

/-- Redirecting the last `next` of a stretch moves its far end. -/
theorem setNext : ∀ {cs : List (Nat × α)} {p n : Option Nat} (v : Option Nat),
    Seg m p cs n → (addrs cs).Nodup → ∀ q, Seg (m.setNext (lastOr q cs) v) p cs v := by
  intro cs
  induction cs with
  | nil => intro p n v _ _ q; trivial
  | cons c cs ih =>
      intro p n v h hnd q
      obtain ⟨hc, hrest⟩ := h
      obtain ⟨hnot, hnd'⟩ : c.1 ∉ addrs cs ∧ (addrs cs).Nodup := List.nodup_cons.mp hnd
      refine ⟨?_, ih v hrest hnd' (some c.1)⟩
      cases cs with
      | nil => simp [lastOr, Mem.setNext, hc]
      | cons d ds =>
          have hne : lastOr (some d.1) ds ≠ some c.1 := by
            intro heq
            rcases lastOr_mem ds heq with hd | hd
            · exact hnot (by simp [Option.some.inj hd])
            · exact hnot (by simp [hd])
          rw [show lastOr q (c :: d :: ds) = lastOr (some d.1) ds from rfl, Mem.setNext_ne hne, hc]
          rfl

/-- Redirecting the first `prev` of a stretch moves its near end. -/
theorem setPrev (v : Option Nat) (h : Seg m p cs n) (hnd : (addrs cs).Nodup) (q : Option Nat) :
    Seg (m.setPrev (firstOr cs q) v) v cs n := by
  cases cs with
  | nil => trivial
  | cons c cs =>
      refine ⟨by simp [Mem.setPrev_self h.1], h.2.frame fun a ha => ?_⟩
      have hnot : c.1 ∉ addrs cs := (List.nodup_cons.mp hnd).1
      exact Mem.setPrev_ne fun heq => hnot (by rw [Option.some.inj heq]; exact ha)

/--
**Patching a seam.**  Three stretches laid out apart from each other become one chain
when the last `next` of the first and the first `prev` of the third are redirected to
the middle, or to each other if the middle is empty.
-/
theorem relink {pre mid post : List (Nat × α)} {x y : Option Nat}
    (hpre : Seg m none pre x) (hmid : Seg m (lastOr none pre) mid (firstOr post none))
    (hpost : Seg m y post none) (hnd : (addrs (pre ++ mid ++ post)).Nodup) :
    Seg ((m.setNext (lastOr none pre) (firstOr mid (firstOr post none))).setPrev
        (firstOr post none) (lastOr (lastOr none pre) mid)) none (pre ++ mid ++ post) none := by
  simp only [addrs_append] at hnd
  obtain ⟨hnd12, hnd3, hdisj3⟩ := List.nodup_append.mp hnd
  obtain ⟨hnd1, hnd2, hdisj2⟩ := List.nodup_append.mp hnd12
  -- The two patched addresses lie in `pre` and in `post`, so no other stretch sees them.
  have hlast : ∀ a, a ∉ addrs pre → lastOr none pre ≠ some a :=
    fun a ha heq => ha (lastOr_none_mem heq)
  have hfirst : ∀ a, a ∉ addrs post → firstOr post none ≠ some a :=
    fun a ha heq => ha (firstOr_mem heq)
  rw [seg_append, seg_append]
  refine ⟨⟨?_, ?_⟩, ?_⟩
  · refine (hpre.setNext _ hnd1 none).frame fun a ha => Mem.setPrev_ne (hfirst a fun hp => ?_)
    exact hdisj3 a (List.mem_append_left _ ha) a hp rfl
  · refine hmid.frame fun a ha => ?_
    rw [Mem.setPrev_ne (hfirst a fun hp => hdisj3 a (List.mem_append_right _ ha) a hp rfl),
      Mem.setNext_ne (hlast a fun hp => hdisj2 a hp a ha rfl)]
  · rw [lastOr_append, Mem.setNext_setPrev_comm]
    refine (hpost.setPrev _ hnd3 none).frame fun a ha => Mem.setNext_ne (hlast a fun hp => ?_)
    exact hdisj3 a (List.mem_append_left _ hp) a ha rfl

end Seg

end DList
