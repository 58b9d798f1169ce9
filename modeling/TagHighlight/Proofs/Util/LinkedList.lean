/-
What the list operations do to the sequence a list stands for.

`Rep l cells` ties a list to its cells in order: the cells form one chain from NULL
to NULL, `head` and `tail` are its ends, `qty` counts it, and every address from
`brk` on is still free.  Each operation gets one lemma of the form "from `Rep l cells`
the call returns, and the list it returns is `Rep` of the cells one expects".

All of them go through `Rep.splice`.  An operation replaces some stretch `old` between
`pre` and `post` by `mid`; it writes or frees cells outside `pre` and `post`, and then
patches the seam.  What is left for each operation is to see that the C code's case
distinctions compute exactly that patch.
-/
import TagHighlight.Util.LinkedList
import Mathlib.Data.List.Induction
import Mathlib.Data.List.Perm.Subperm

namespace TagHighlight

open DList

variable {α : Type}

namespace Rep

variable {l l' : LinkedList α} {cells pre old mid post : List (Nat × α)}

/-- The nodes of a list lie below the next free address. -/
theorem lt_brk (h : Rep l cells) {a : Nat} (ha : a ∈ addrs cells) : a < l.brk := by
  by_contra hc
  exact h.chain.alloc a ha (h.fresh a (Nat.not_lt.mp hc))

/-- Reading a node of the list. -/
theorem node {c : Nat × α} (h : Rep l (pre ++ c :: post)) :
    l.mem c.1 = some ⟨c.2, lastOr none pre, firstOr post none⟩ :=
  ((seg_append l.mem pre none (c :: post) none).mp h.chain).2.1

/--
**Replacing a stretch.**  If `m` agrees with the list's memory on what is kept and has
`mid` laid out between the two ends, then patching the seam gives the list with `old`
replaced by `mid`.
-/
theorem splice {m : Mem α} (h : Rep l (pre ++ old ++ post))
    (hkeep : ∀ a ∈ addrs (pre ++ post), m a = l.mem a)
    (hmid : Seg m (lastOr none pre) mid (firstOr post none))
    (hnd : (addrs (pre ++ mid ++ post)).Nodup) (hfresh : ∀ a, l'.brk ≤ a → m a = none)
    (hmem : l'.mem = (m.setNext (lastOr none pre) (firstOr mid (firstOr post none))).setPrev
      (firstOr post none) (lastOr (lastOr none pre) mid))
    (hhead : l'.head = firstOr (pre ++ mid ++ post) none)
    (htail : l'.tail = lastOr none (pre ++ mid ++ post))
    (hqty : l'.qty = (pre ++ mid ++ post).length) : Rep l' (pre ++ mid ++ post) := by
  have hchain := h.chain
  rw [List.append_assoc, seg_append, seg_append] at hchain
  obtain ⟨hpre, -, hpost⟩ := hchain
  refine ⟨?_, hhead, htail, hqty, hnd, ?_⟩
  · rw [hmem]
    refine Seg.relink (hpre.frame fun a ha => hkeep a ?_) hmid (hpost.frame fun a ha => hkeep a ?_) hnd
    · rw [addrs_append]; exact List.mem_append_left _ ha
    · rw [addrs_append]; exact List.mem_append_right _ ha
  · intro a ha
    rw [hmem]
    simp [hfresh a ha]

/-! ### Linking new nodes in

A new node is written first, with pointers to both of its neighbours, and then these are turned to
it.  The nodes on both sides were there before and stay there, so the writes that go through them
are defined; and an end of the list is replaced just if there is nobody on that side.
-/

/-- The nodes `talloc` hands out for the values `ds`, starting at address `b`. -/
def freshCells : (b : Nat) → List α → List (Nat × α)
  | _, [] => []
  | b, d :: ds => (b, d) :: freshCells (b + 1) ds

@[simp] theorem vals_freshCells : ∀ (ds : List α) (b : Nat), vals (freshCells b ds) = ds := by
  intro ds
  induction ds with
  | nil => intro b; rfl
  | cons d ds ih => intro b; simp [freshCells, ih]

@[simp] theorem length_freshCells (ds : List α) (b : Nat) :
    (freshCells b ds).length = ds.length := by
  rw [← vals_length, vals_freshCells]

theorem mem_freshCells : ∀ {ds : List α} {b a : Nat}, a ∈ addrs (freshCells b ds) →
    b ≤ a ∧ a < b + ds.length := by
  intro ds
  induction ds with
  | nil => intro b a h; exact absurd h (List.not_mem_nil)
  | cons d ds ih =>
      intro b a h
      rcases List.mem_cons.mp h with rfl | h'
      · simp
      · have := ih h'
        simp only [List.length_cons]
        omega

theorem nodup_freshCells : ∀ (ds : List α) (b : Nat), (addrs (freshCells b ds)).Nodup := by
  intro ds
  induction ds with
  | nil => intro b; exact List.nodup_nil
  | cons d ds ih =>
      intro b
      refine List.nodup_cons.mpr ⟨fun hc => ?_, ih (b + 1)⟩
      have := (mem_freshCells hc).1
      omega

/--
The list after the nodes at `l.brk`, …, `last` have been linked in between `pre` and
`post`; `n` of them, already written in `m`.
-/
def linked (l : LinkedList α) (pre post : List (Nat × α)) (n last : Nat) (m : Mem α) :
    LinkedList α :=
  { head := firstOr pre (some l.brk)
    tail := lastOr (some last) post
    qty := l.qty + n
    mem := (m.setNext (lastOr none pre) (some l.brk)).setPrev (firstOr post none) (some last)
    brk := l.brk + n }

theorem rep_linked {ds : List α} {last : Nat} {m : Mem α} (h : Rep l (pre ++ post))
    (hds : ds ≠ []) (hlast : some last = lastOr none (freshCells l.brk ds))
    (hkeep : ∀ a, a < l.brk → m a = l.mem a)
    (hseg : Seg m (lastOr none pre) (freshCells l.brk ds) (firstOr post none))
    (hfresh : ∀ a, l.brk + ds.length ≤ a → m a = none) :
    Rep (linked l pre post ds.length last m) (pre ++ freshCells l.brk ds ++ post) := by
  obtain ⟨d, ds, rfl⟩ := List.exists_cons_of_ne_nil hds
  have hlast' : ∀ p, lastOr p (freshCells l.brk (d :: ds)) = some last := fun _ => hlast.symm
  have hall : Rep l (pre ++ [] ++ post) := by rwa [List.append_nil]
  refine hall.splice (m := m) (fun a ha => hkeep a (h.lt_brk ha)) hseg ?_ hfresh ?_ ?_ ?_ ?_
  · -- The new addresses start where the old ones end.
    have hperm : (pre ++ freshCells l.brk (d :: ds) ++ post).Perm
        (freshCells l.brk (d :: ds) ++ (pre ++ post)) := by
      rw [List.append_assoc]
      exact List.perm_append_comm_assoc pre _ post
    refine (hperm.map Prod.fst).nodup_iff.mpr ?_
    rw [List.map_append]
    refine List.nodup_append.mpr ⟨nodup_freshCells _ _, h.nodup, fun a ha b hb => ?_⟩
    have h1 := (mem_freshCells ha).1
    have h2 := h.lt_brk hb
    omega
  · simp only [linked, hlast']
    rfl
  · simp [linked, freshCells]
  · simp only [linked, lastOr_append, hlast']
  · simp only [linked, h.qty, List.length_append, length_freshCells]
    omega

/-- The same for one node, written where `talloc` puts it. -/
theorem rep_linked_one (h : Rep l (pre ++ post)) (data : α) :
    Rep (linked l pre post 1 l.brk
        (l.mem.store l.brk ⟨data, lastOr none pre, firstOr post none⟩))
      (pre ++ (l.brk, data) :: post) := by
  have hlast : some l.brk = lastOr none (freshCells l.brk [data]) := rfl
  have := h.rep_linked
    (m := l.mem.store l.brk ⟨data, lastOr none pre, firstOr post none⟩) (by simp) hlast
    (fun a ha => Mem.store_ne (Nat.ne_of_lt ha)) ⟨Mem.store_self _ _ _, trivial⟩
    (fun a ha => by
      have ha' : l.brk + 1 ≤ a := ha
      rw [Mem.store_ne (by omega)]
      exact h.fresh a (by omega))
  simpa [freshCells] using this

/-- An empty list has NULL for both ends. -/
theorem ends_nil (h : Rep l []) : l.head = none ∧ l.tail = none := ⟨h.head, h.tail⟩

/-- The nodes on both sides of a seam stay there when a new one is written. -/
theorem alloc_store {b : Nat} {node : Node α} (h : Rep l cells) {a : Nat} (ha : a ∈ addrs cells) :
    l.mem.store b node a ≠ none := by
  by_cases hab : a = b
  · subst hab
    simp
  · rw [Mem.store_ne hab]
    exact h.chain.alloc a ha

theorem prepend (h : Rep l cells) (data : α) :
    ∃ l', llPrepend l data = .ok l' ∧ Rep l' ((l.brk, data) :: cells) := by
  have h' : Rep l ([] ++ cells) := h
  refine ⟨_, ?_, h'.rep_linked_one data⟩
  rw [llPrepend]
  have hw : ∀ node, (l.mem.store l.brk node).writePrev? (firstOr cells none) (some l.brk) =
      .ok ((l.mem.store l.brk node).setPrev (firstOr cells none) (some l.brk)) :=
    fun node => writePrev?_firstOr _ fun a ha => h.alloc_store ha
  simp only [h.head, h.tail, hw, Fault.ok_bind, lastOr_ite]
  rfl

theorem append (h : Rep l cells) (data : α) :
    ∃ l', llAppend l data = .ok l' ∧ Rep l' (cells ++ [(l.brk, data)]) := by
  have h' : Rep l (cells ++ []) := by simpa using h
  refine ⟨_, ?_, h'.rep_linked_one data⟩
  rw [llAppend]
  have hw : ∀ node, (l.mem.store l.brk node).writeNext? (lastOr none cells) (some l.brk) =
      .ok ((l.mem.store l.brk node).setNext (lastOr none cells) (some l.brk)) :=
    fun node => writeNext?_lastOr _ fun a ha => h.alloc_store ha
  simp only [h.head, h.tail, hw, Fault.ok_bind, firstOr_ite]
  rfl

/-- Neither neighbour of a node is the node itself. -/
theorem not_mem_sides {c : Nat × α} (h : Rep l (pre ++ c :: post)) :
    c.1 ∉ addrs pre ∧ c.1 ∉ addrs post := by
  have hnd := h.nodup
  rw [addrs_append, addrs_cons] at hnd
  obtain ⟨-, hnd2, hdisj⟩ := List.nodup_append.mp hnd
  exact ⟨fun hc => hdisj _ hc _ List.mem_cons_self rfl, (List.nodup_cons.mp hnd2).1⟩

theorem insertAfter {c : Nat × α} (h : Rep l (pre ++ c :: post)) (data : α) :
    ∃ l', llInsertAfter l (some c.1) data = .ok l' ∧
      Rep l' (pre ++ c :: (l.brk, data) :: post) := by
  have h' : Rep l ((pre ++ [c]) ++ post) := by simpa using h
  refine ⟨_, ?_, by simpa using h'.rep_linked_one data⟩
  obtain ⟨-, hpost⟩ := h.not_mem_sides
  set mem := l.mem.store l.brk ⟨data, some c.1, firstOr post none⟩ with hmem
  have hmem0 : ∀ a ∈ addrs (pre ++ c :: post), mem a ≠ none := fun a ha => h.alloc_store ha
  have hw1 : mem.writeNext? (some c.1) (some l.brk) = .ok (mem.setNext (some c.1) (some l.brk)) :=
    Mem.writeNext_some _ (hmem0 c.1 (by simp))
  have hw2 : (mem.setNext (some c.1) (some l.brk)).writePrev? (firstOr post none) (some l.brk)
      = .ok ((mem.setNext (some c.1) (some l.brk)).setPrev (firstOr post none) (some l.brk)) :=
    writePrev?_firstOr _ fun a ha => by
      simpa using hmem0 a (by simp [ha])
  -- The node is linked in after `c`, which is what the final assertion checks.
  have hc : mem c.1 = some ⟨c.2, lastOr none pre, firstOr post none⟩ := by
    rw [hmem, Mem.store_ne (Nat.ne_of_lt (h.lt_brk (by simp)))]
    exact h.node
  have hafter : ((mem.setNext (some c.1) (some l.brk)).setPrev (firstOr post none)
      (some l.brk)).nextOf (some c.1) = .ok (some l.brk) := by
    have hnode : ((mem.setNext (some c.1) (some l.brk)).setPrev (firstOr post none)
        (some l.brk)) c.1 = some ⟨c.2, lastOr none pre, some l.brk⟩ := by
      rw [Mem.setPrev_ne fun hf => hpost (firstOr_mem hf), Mem.setNext_self hc]
    exact Mem.nextOf_some hnode
  rw [llInsertAfter, Mem.nextOf_some h.node]
  simp only [Fault.ok_bind, ← hmem, hw1, hw2, hafter, h.head, h.tail, firstOr_append, lastOr_append,
    firstOr_cons, lastOr_cons, lastOr_after hpost, ite_isNone (firstOr_ne_none pre c.1)]
  simp [linked, hmem]

theorem insertBefore {c : Nat × α} (h : Rep l (pre ++ c :: post)) (data : α) :
    ∃ l', llInsertBefore l (some c.1) data = .ok l' ∧
      Rep l' (pre ++ (l.brk, data) :: c :: post) := by
  refine ⟨_, ?_, h.rep_linked_one data⟩
  obtain ⟨hpre, -⟩ := h.not_mem_sides
  have hne : lastOr none pre ≠ some c.1 := fun hf => hpre (lastOr_none_mem hf)
  set mem := l.mem.store l.brk ⟨data, lastOr none pre, some c.1⟩ with hmem
  have hmem0 : ∀ a ∈ addrs (pre ++ c :: post), mem a ≠ none := fun a ha => h.alloc_store ha
  have hw1 : mem.writePrev? (some c.1) (some l.brk) = .ok (mem.setPrev (some c.1) (some l.brk)) :=
    Mem.writePrev_some _ (hmem0 c.1 (by simp))
  have hw2 : (mem.setPrev (some c.1) (some l.brk)).writeNext? (lastOr none pre) (some l.brk)
      = .ok ((mem.setPrev (some c.1) (some l.brk)).setNext (lastOr none pre) (some l.brk)) :=
    writeNext?_lastOr _ fun a ha => by
      simpa using hmem0 a (by simp [ha])
  have hc : mem c.1 = some ⟨c.2, lastOr none pre, firstOr post none⟩ := by
    rw [hmem, Mem.store_ne (Nat.ne_of_lt (h.lt_brk (by simp)))]
    exact h.node
  have hbefore : ((mem.setPrev (some c.1) (some l.brk)).setNext (lastOr none pre)
      (some l.brk)).prevOf (some c.1) = .ok (some l.brk) := by
    have hnode : ((mem.setPrev (some c.1) (some l.brk)).setNext (lastOr none pre)
        (some l.brk)) c.1 = some ⟨c.2, some l.brk, firstOr post none⟩ := by
      rw [Mem.setNext_ne hne, Mem.setPrev_self hc]
    exact Mem.prevOf_some hnode
  rw [llInsertBefore, Mem.prevOf_some h.node]
  simp only [Fault.ok_bind, ← hmem, hw1, hw2, hbefore, h.head, h.tail, firstOr_append, lastOr_append,
    firstOr_cons, lastOr_cons, firstOr_before hpre, ite_isNone (lastOr_ne_none post c.1)]
  simp [linked, hmem, Mem.setNext_setPrev_comm]

theorem insertAfter_nil (h : Rep l []) (data : α) :
    ∃ l', llInsertAfter l none data = .ok l' ∧ Rep l' [(l.brk, data)] := by
  have h' : Rep l ([] ++ []) := h
  refine ⟨_, ?_, h'.rep_linked_one data⟩
  obtain ⟨hhead, htail⟩ := h.ends_nil
  simp [llInsertAfter, Mem.writeNext?, Mem.writePrev?, linked, hhead, htail, Mem.setNext, Mem.setPrev]

theorem insertBefore_nil (h : Rep l []) (data : α) :
    ∃ l', llInsertBefore l none data = .ok l' ∧ Rep l' [(l.brk, data)] := by
  have h' : Rep l ([] ++ []) := h
  refine ⟨_, ?_, h'.rep_linked_one data⟩
  obtain ⟨hhead, htail⟩ := h.ends_nil
  simp [llInsertBefore, Mem.writeNext?, Mem.writePrev?, linked, hhead, htail, Mem.setNext,
    Mem.setPrev]

/-! ### Inserting a slice

`create_nodes` makes a chain of new nodes, at addresses one after the other, and moves the strings
into them.  Only then is the chain linked in at both ends.  So this is two lemmas, one for the
chain by itself and one for the seam.
-/

/-- `ds` stands in `blist` from index `x` on, none of it moved out yet. -/
def Slice (blist : BList α) (x : Nat) (ds : List α) : Prop :=
  ∀ i, i < ds.length → blist[x + i]? = some ds[i]?

theorem Slice.move {blist : BList α} {x : Nat} {d : α} {ds : List α} (h : Slice blist x (d :: ds)) :
    blist.move x = .ok (d, blist.set x none) ∧ Slice (blist.set x none) (x + 1) ds := by
  have h0 : blist[x]? = some (some d) := h 0 (by simp)
  refine ⟨by simp [BList.move, h0], fun i hi => ?_⟩
  have hi' := h (i + 1) (by simpa using hi)
  rw [List.getElem?_set_ne (by omega), show x + 1 + i = x + (i + 1) by omega, hi']
  simp

theorem Slice.entry {blist : BList α} {x : Nat} {d : α} {ds : List α}
    (h : Slice blist x (d :: ds)) : x < blist.length ∧ blist.getD x none = some d := by
  have h0 : blist[x]? = some (some d) := h 0 (by simp)
  refine ⟨(List.getElem?_eq_some_iff.mp h0).1, ?_⟩
  rw [List.getD_eq_getElem?_getD, h0]
  rfl

/--
What `create_nodes` leaves behind: the nodes for `ds` chained after `prev`, everything
else as it was.  The induction is on `ds`; the node of one round is the `prev` of the
next.
-/
theorem createNodes_spec : ∀ (ds : List α) (x i prev : Nat) (l : LinkedList α) (blist : BList α)
    (d : α) (p : Option Nat), Slice blist x ds → i ≤ x → l.mem prev = some ⟨d, p, none⟩ → prev < l.brk →
    (∀ a, l.brk ≤ a → l.mem a = none) →
    ∃ (mem : Mem α) (blist' : BList α) (last : Nat),
      createNodes ds.length x i prev l blist =
        .ok ({ l with mem := mem, brk := l.brk + ds.length, qty := l.qty + ds.length },
          blist', last) ∧
      Seg mem p ((prev, d) :: freshCells l.brk ds) none ∧
      some last = lastOr (some prev) (freshCells l.brk ds) ∧
      (∀ a, a ≠ prev → a < l.brk → mem a = l.mem a) ∧
      (∀ a, l.brk + ds.length ≤ a → mem a = none) := by
  intro ds
  induction ds with
  | nil =>
      intro x i prev l blist d p _ _ hprev _ hfresh
      refine ⟨l.mem, blist, prev, by simp [createNodes], ⟨hprev, trivial⟩, rfl, fun _ _ _ => rfl, ?_⟩
      simpa using hfresh
  | cons d' ds ih =>
      intro x i prev l blist d p hslice hix hprev hlt hfresh
      obtain ⟨hmove, hslice'⟩ := hslice.move
      have hne : prev ≠ l.brk := Nat.ne_of_lt hlt
      set mem := (l.mem.store l.brk ⟨d', some prev, none⟩).setNext (some prev) (some l.brk) with hmem
      have hstore : l.mem.store l.brk ⟨d', some prev, none⟩ prev = some ⟨d, p, none⟩ := by
        rw [Mem.store_ne hne, hprev]
      have hw : (l.mem.store l.brk ⟨d', some prev, none⟩).writeNext (some prev) (some l.brk)
          = .ok mem := Mem.writeNext_some _ (by rw [hstore]; simp)
      obtain ⟨mem', blist', last, hrun, hseg, hlast, hkeep, hfresh'⟩ :=
        ih (x + 1) (i + 1) l.brk { l with mem := mem, brk := l.brk + 1, qty := l.qty + 1 }
          (blist.set x none) d' (some prev) hslice' (Nat.succ_le_succ hix)
          (by
            show mem l.brk = _
            rw [hmem, Mem.setNext_ne (by simpa using hne), Mem.store_self])
          (Nat.lt_succ_self _)
          (fun a ha => by
            have ha' : l.brk + 1 ≤ a := ha
            show mem a = none
            rw [hmem, Mem.setNext_ne (by simp; omega), Mem.store_ne (by omega)]
            exact hfresh a (by omega))
      refine ⟨mem', blist', last, ?_, ⟨?_, hseg⟩, hlast, fun a ha hab => ?_, fun a ha => ?_⟩
      · obtain ⟨hi, hx⟩ := hslice.entry
        simp only [List.length_cons, createNodes, if_neg (not_not_intro (Nat.lt_of_le_of_lt hix hi)),
          hx, Option.isNone_some, Bool.false_eq_true, if_false, hmove, Fault.ok_bind, hw, hrun]
        simp only [Except.ok.injEq, Prod.mk.injEq, and_true, LinkedList.mk.injEq, true_and]
        omega
      · show mem' prev = _
        rw [hkeep prev hne (Nat.lt_succ_of_lt hlt)]
        exact Mem.setNext_self hstore
      · rw [hkeep a (by omega) (by show a < l.brk + 1; omega)]
        show mem a = l.mem a
        rw [hmem, Mem.setNext_ne (by simpa using fun hc : prev = a => ha hc.symm),
          Mem.store_ne (by omega)]
      · exact hfresh' a (by
          show l.brk + 1 + ds.length ≤ a
          simp only [List.length_cons] at ha
          omega)

/-- The whole slice: `narr[0]`, pointing back to `p`, and `create_nodes` for the rest. -/
theorem sliceNodes_spec {blist : BList α} {x : Nat} {d : α} {ds : List α} (p : Option Nat)
    (hslice : Slice blist x (d :: ds)) (hfresh : ∀ a, l.brk ≤ a → l.mem a = none) :
    ∃ (mem : Mem α) (blist' : BList α) (last : Nat),
      sliceNodes l blist x (x + (d :: ds).length) p =
        .ok ({ l with mem := mem, brk := l.brk + (d :: ds).length
                      qty := l.qty + (d :: ds).length }, blist', last) ∧
      Seg mem p (freshCells l.brk (d :: ds)) none ∧
      some last = lastOr none (freshCells l.brk (d :: ds)) ∧
      (∀ a, a < l.brk → mem a = l.mem a) ∧
      (∀ a, l.brk + (d :: ds).length ≤ a → mem a = none) := by
  obtain ⟨hmove, hslice'⟩ := hslice.move
  obtain ⟨mem, blist', last, hrun, hseg, hlast, hkeep, hfresh'⟩ :=
    createNodes_spec ds (x + 1) 1 l.brk
      { l with mem := l.mem.store l.brk ⟨d, p, none⟩, brk := l.brk + 1, qty := l.qty + 1 }
      (blist.set x none) d p hslice' (Nat.succ_le_succ (Nat.zero_le x)) (Mem.store_self _ _ _)
      (Nat.lt_succ_self _)
      (fun a ha => by
        have ha' : l.brk + 1 ≤ a := ha
        show l.mem.store l.brk ⟨d, p, none⟩ a = none
        rw [Mem.store_ne (by omega)]
        exact hfresh a (by omega))
  refine ⟨mem, blist', last, ?_, hseg, hlast, fun a ha => ?_, fun a ha => ?_⟩
  · rw [sliceNodes, if_neg (by simp only [List.length_cons]; omega)]
    have hx : ((x : Int)).toNat = x := rfl
    have hcount : ((x : Int) + ((d :: ds).length : Nat) - x - 1).toNat = ds.length := by
      simp only [List.length_cons]; omega
    simp only [hx, hcount, hmove, Fault.ok_bind, hrun]
    simp only [Except.ok.injEq, Prod.mk.injEq, and_true, LinkedList.mk.injEq, true_and,
      List.length_cons]
    omega
  · rw [hkeep a (Nat.ne_of_lt ha) (Nat.lt_succ_of_lt ha)]
    exact Mem.store_ne (Nat.ne_of_lt ha)
  · exact hfresh' a (by
      show l.brk + 1 + ds.length ≤ a
      simp only [List.length_cons] at ha
      omega)

/-- What the callers establish about the slice arguments of the two insertions. -/
structure SliceArgs (blist : BList α) (start stop : Int) (x : Nat) (ds : List α) : Prop where
  start : resolveNegativeIndex start blist.length = x
  stop : resolveNegativeIndex stop blist.length = x + ds.length
  nonempty : ds ≠ []
  within : x + ds.length ≤ blist.length
  slice : Slice blist x ds

theorem SliceArgs.assertions {blist : BList α} {start stop : Int} {x : Nat} {ds : List α}
    (h : SliceArgs blist start stop x ds) :
    sliceAssertions x (x + ds.length) blist.length = .ok () := by
  have hpos : 0 < ds.length := List.length_pos_iff.mpr h.nonempty
  have hle := h.within
  rw [sliceAssertions, if_neg (by omega), if_neg (by omega), if_neg (by omega), if_neg (by omega)]

/-- A slice of one entry is read in place. -/
theorem SliceArgs.get {blist : BList α} {start stop : Int} {x : Nat} {d : α} {ds : List α}
    (h : SliceArgs blist start stop x (d :: ds)) : blist.get x = .ok d := by
  have h0 : blist[x]? = some (some d) := h.slice 0 (by simp)
  simp [BList.get, h0]

/-- Where the last node of a slice lies. -/
theorem last_fresh {ds : List α} {b last : Nat} {m : Mem α} {p n : Option Nat}
    (hlast : some last = lastOr none (freshCells b ds)) (hseg : Seg m p (freshCells b ds) n) :
    b ≤ last ∧ m last ≠ none := by
  have hmem := lastOr_none_mem hlast.symm
  exact ⟨(mem_freshCells hmem).1, hseg.alloc _ hmem⟩

theorem insertBlistAfter {c : Nat × α} {blist : BList α} {start stop : Int} {x : Nat}
    {ds : List α} (h : Rep l (pre ++ c :: post)) (hargs : SliceArgs blist start stop x ds) :
    ∃ l' blist', llInsertBlistAfter l (some c.1) blist start stop = .ok (l', blist') ∧
      Rep l' (pre ++ c :: freshCells l.brk ds ++ post) := by
  obtain ⟨d, ds, rfl⟩ := List.exists_cons_of_ne_nil hargs.nonempty
  rw [llInsertBlistAfter]
  simp only [hargs.start, hargs.stop, hargs.assertions, Fault.ok_bind]
  cases ds with
  | nil =>
      -- A slice of one entry goes through `ll_insert_after`.
      obtain ⟨l', hrun, hrep⟩ := h.insertAfter d
      refine ⟨l', blist, ?_, by simpa [freshCells] using hrep⟩
      rw [if_pos (by simp only [List.length_singleton]; omega)]
      simp [hargs.get, hrun]
  | cons d' ds =>
      have h' : Rep l ((pre ++ [c]) ++ post) := by simpa using h
      obtain ⟨-, hpost⟩ := h.not_mem_sides
      obtain ⟨mem, blist', last, hrun, hseg, hlast, hkeep, hfresh⟩ :=
        sliceNodes_spec (some c.1) hargs.slice h.fresh
      have hclt : c.1 < l.brk := h.lt_brk (by simp)
      obtain ⟨hlastge, hlastalloc⟩ := last_fresh hlast hseg
      set m := mem.setNext (some last) (firstOr post none) with hm
      have hkeep' : ∀ a, a < l.brk → m a = l.mem a := by
        intro a ha
        rw [hm, Mem.setNext_ne (by simp; omega), hkeep a ha]
      refine ⟨_, blist', ?_, by
        have := h'.rep_linked (m := m) hargs.nonempty hlast hkeep'
          (by simpa [hlast, hm] using hseg.setNext (firstOr post none) (nodup_freshCells _ _) none)
          (fun a ha => by simpa [hm] using hfresh a ha)
        simpa using this⟩
      have hnext : mem.nextOf (some c.1) = .ok (firstOr post none) := by
        have hnode : mem c.1 = some ⟨c.2, lastOr none pre, firstOr post none⟩ := by
          rw [hkeep _ hclt]
          exact h.node
        exact Mem.nextOf_some hnode
      have hmem0 : ∀ a ∈ addrs (pre ++ c :: post), m a ≠ none := fun a ha => by
        rw [hkeep' a (h.lt_brk ha)]
        exact h.chain.alloc a ha
      have hw1 : m.writeNext? (some c.1) (some l.brk) = .ok (m.setNext (some c.1) (some l.brk)) :=
        Mem.writeNext_some _ (hmem0 c.1 (by simp))
      have hw2 : (m.setNext (some c.1) (some l.brk)).writePrev? (firstOr post none) (some last)
          = .ok ((m.setNext (some c.1) (some l.brk)).setPrev (firstOr post none) (some last)) :=
        writePrev?_firstOr _ fun a ha => by
          simpa using hmem0 a (by simp [ha])
      rw [if_neg (by simp only [List.length_cons]; omega)]
      simp only [hrun, Fault.ok_bind, hnext, Mem.writeNext_some _ hlastalloc, ← hm, hw1, hw2,
        h.head, h.tail, firstOr_append, lastOr_append, firstOr_cons, lastOr_cons,
        lastOr_after hpost, ite_isNone (firstOr_ne_none pre c.1)]
      simp [linked]

theorem insertBlistBefore {c : Nat × α} {blist : BList α} {start stop : Int} {x : Nat}
    {ds : List α} (h : Rep l (pre ++ c :: post)) (hargs : SliceArgs blist start stop x ds) :
    ∃ l' blist', llInsertBlistBefore l (some c.1) blist start stop = .ok (l', blist') ∧
      Rep l' (pre ++ freshCells l.brk ds ++ c :: post) := by
  obtain ⟨d, ds, rfl⟩ := List.exists_cons_of_ne_nil hargs.nonempty
  rw [llInsertBlistBefore]
  simp only [hargs.start, hargs.stop, hargs.assertions, Fault.ok_bind]
  cases ds with
  | nil =>
      obtain ⟨l', hrun, hrep⟩ := h.insertBefore d
      refine ⟨l', blist, ?_, by simpa [freshCells] using hrep⟩
      rw [if_pos (by simp only [List.length_singleton]; omega)]
      simp [hargs.get, hrun]
  | cons d' ds =>
      obtain ⟨hpre, -⟩ := h.not_mem_sides
      obtain ⟨mem, blist', last, hrun, hseg, hlast, hkeep, hfresh⟩ :=
        sliceNodes_spec none hargs.slice h.fresh
      have hclt : c.1 < l.brk := h.lt_brk (by simp)
      obtain ⟨hlastge, hlastalloc⟩ := last_fresh hlast hseg
      set m1 := mem.setNext (some last) (some c.1) with hm1
      set m := m1.setPrev (some l.brk) (lastOr none pre) with hm
      have hkeep1 : ∀ a, a < l.brk → m1 a = l.mem a := by
        intro a ha
        rw [hm1, Mem.setNext_ne (by simp; omega), hkeep a ha]
      have hkeep' : ∀ a, a < l.brk → m a = l.mem a := by
        intro a ha
        rw [hm, Mem.setPrev_ne (by simp; omega), hkeep1 a ha]
      have hseg1 : Seg m1 none (freshCells l.brk (d :: d' :: ds)) (some c.1) := by
        simpa [hlast, hm1] using hseg.setNext (some c.1) (nodup_freshCells _ _) none
      have hseg' : Seg m (lastOr none pre) (freshCells l.brk (d :: d' :: ds)) (some c.1) :=
        hseg1.setPrev (lastOr none pre) (nodup_freshCells _ _) none
      refine ⟨_, blist', ?_, h.rep_linked (m := m) hargs.nonempty hlast hkeep' hseg'
        (fun a ha => by simpa [hm, hm1] using hfresh a ha)⟩
      have hprev : m1.prevOf (some c.1) = .ok (lastOr none pre) := by
        have hnode : m1 c.1 = some ⟨c.2, lastOr none pre, firstOr post none⟩ := by
          rw [hkeep1 _ hclt]
          exact h.node
        exact Mem.prevOf_some hnode
      have hw0 : m1.writePrev (some l.brk) (lastOr none pre) = .ok m :=
        Mem.writePrev_some _ (hseg1.alloc _ (by simp [freshCells]))
      have hmem0 : ∀ a ∈ addrs (pre ++ c :: post), m a ≠ none := fun a ha => by
        rw [hkeep' a (h.lt_brk ha)]
        exact h.chain.alloc a ha
      have hw1 : m.writePrev? (some c.1) (some last) = .ok (m.setPrev (some c.1) (some last)) :=
        Mem.writePrev_some _ (hmem0 c.1 (by simp))
      have hw2 : (m.setPrev (some c.1) (some last)).writeNext? (lastOr none pre) (some l.brk)
          = .ok ((m.setPrev (some c.1) (some last)).setNext (lastOr none pre) (some l.brk)) :=
        writeNext?_lastOr _ fun a ha => by
          simpa using hmem0 a (by simp [ha])
      rw [if_neg (by simp only [List.length_cons]; omega)]
      simp only [hrun, Fault.ok_bind, Mem.writeNext_some _ hlastalloc, ← hm1, hprev, hw0, hw1, hw2,
        h.head, h.tail, firstOr_append, lastOr_append, firstOr_cons, lastOr_cons,
        firstOr_before hpre, ite_isNone (lastOr_ne_none post c.1)]
      simp [linked, Mem.setNext_setPrev_comm]

/-- With NULL for the node, a slice becomes the whole of an empty list. -/
theorem insertBlistAfter_nil {blist : BList α} {start stop : Int} {x : Nat} {ds : List α}
    (h : Rep l []) (hargs : SliceArgs blist start stop x ds) :
    ∃ l' blist', llInsertBlistAfter l none blist start stop = .ok (l', blist') ∧
      Rep l' (freshCells l.brk ds) := by
  obtain ⟨d, ds, rfl⟩ := List.exists_cons_of_ne_nil hargs.nonempty
  rw [llInsertBlistAfter]
  simp only [hargs.start, hargs.stop, hargs.assertions, Fault.ok_bind]
  cases ds with
  | nil =>
      obtain ⟨l', hrun, hrep⟩ := h.insertAfter_nil d
      refine ⟨l', blist, ?_, by simpa [freshCells] using hrep⟩
      rw [if_pos (by simp only [List.length_singleton]; omega)]
      simp [hargs.get, hrun]
  | cons d' ds =>
      have h' : Rep l ([] ++ []) := h
      obtain ⟨hhead, htail⟩ := h.ends_nil
      obtain ⟨mem, blist', last, hrun, hseg, hlast, hkeep, hfresh⟩ :=
        sliceNodes_spec none hargs.slice h.fresh
      obtain ⟨hlastge, hlastalloc⟩ := last_fresh hlast hseg
      set m := mem.setNext (some last) none with hm
      refine ⟨_, blist', ?_, by
        have := h'.rep_linked (m := m) hargs.nonempty hlast
          (fun a ha => by rw [hm, Mem.setNext_ne (by simp; omega), hkeep a ha])
          (by simpa [hlast, hm] using hseg.setNext none (nodup_freshCells _ _) none)
          (fun a ha => by simpa [hm] using hfresh a ha)
        simpa using this⟩
      rw [if_neg (by simp only [List.length_cons]; omega)]
      simp only [hrun, Fault.ok_bind, Mem.nextOf_none, Mem.writeNext_some _ hlastalloc, ← hm,
        hhead, htail]
      simp [linked, Mem.writeNext?, Mem.writePrev?, Mem.setNext, Mem.setPrev]

theorem insertBlistBefore_nil {blist : BList α} {start stop : Int} {x : Nat} {ds : List α}
    (h : Rep l []) (hargs : SliceArgs blist start stop x ds) :
    ∃ l' blist', llInsertBlistBefore l none blist start stop = .ok (l', blist') ∧
      Rep l' (freshCells l.brk ds) := by
  obtain ⟨d, ds, rfl⟩ := List.exists_cons_of_ne_nil hargs.nonempty
  rw [llInsertBlistBefore]
  simp only [hargs.start, hargs.stop, hargs.assertions, Fault.ok_bind]
  cases ds with
  | nil =>
      obtain ⟨l', hrun, hrep⟩ := h.insertBefore_nil d
      refine ⟨l', blist, ?_, by simpa [freshCells] using hrep⟩
      rw [if_pos (by simp only [List.length_singleton]; omega)]
      simp [hargs.get, hrun]
  | cons d' ds =>
      have h' : Rep l ([] ++ []) := h
      obtain ⟨hhead, htail⟩ := h.ends_nil
      obtain ⟨mem, blist', last, hrun, hseg, hlast, hkeep, hfresh⟩ :=
        sliceNodes_spec none hargs.slice h.fresh
      obtain ⟨hlastge, hlastalloc⟩ := last_fresh hlast hseg
      set m1 := mem.setNext (some last) none with hm1
      set m := m1.setPrev (some l.brk) none with hm
      have hseg1 : Seg m1 none (freshCells l.brk (d :: d' :: ds)) none := by
        simpa [hlast, hm1] using hseg.setNext none (nodup_freshCells _ _) none
      have hw0 : m1.writePrev (some l.brk) none = .ok m :=
        Mem.writePrev_some _ (hseg1.alloc _ (by simp [freshCells]))
      refine ⟨_, blist', ?_, by
        have := h'.rep_linked (m := m) hargs.nonempty hlast
          (fun a ha => by
            rw [hm, Mem.setPrev_ne (by simp; omega), hm1, Mem.setNext_ne (by simp; omega),
              hkeep a ha])
          (hseg1.setPrev none (nodup_freshCells _ _) none)
          (fun a ha => by simpa [hm, hm1] using hfresh a ha)
        simpa using this⟩
      rw [if_neg (by simp only [List.length_cons]; omega)]
      simp only [hrun, Fault.ok_bind, Mem.prevOf_none, Mem.writeNext_some _ hlastalloc, ← hm1, hw0,
        hhead, htail]
      simp [linked, Mem.writeNext?, Mem.writePrev?, Mem.setNext, Mem.setPrev]

/-! ### Deleting

The nodes of a range are freed from the front, and then what is kept is linked over the gap.
Freeing touches no node that is kept, so the two can be looked at one after the other.  For a
single node there are four branches, and they come to the same.
-/

/-- The C code asks whether a node is the first by comparing it with `head`. -/
theorem eq_head_iff {c : Nat × α} (h : Rep l (pre ++ c :: post)) :
    some c.1 = l.head ↔ pre = [] := by
  obtain ⟨hpre, -⟩ := h.not_mem_sides
  rw [h.head]
  cases pre with
  | nil => simp
  | cons d pre => simpa using fun hc : c.1 = d.1 => hpre (by simp [hc])

theorem eq_tail_iff {c : Nat × α} (h : Rep l (pre ++ c :: post)) :
    some c.1 = l.tail ↔ post = [] := by
  obtain ⟨-, hpost⟩ := h.not_mem_sides
  rw [h.tail, lastOr_append, lastOr_cons]
  constructor
  · intro hc
    cases post with
    | nil => rfl
    | cons d post =>
        rcases lastOr_mem post hc.symm with hd | hd
        · exact absurd (by simp [Option.some.inj hd]) hpost
        · exact absurd (by simp [hd]) hpost
  · intro heq
    subst heq
    rfl

/-- Freeing what the list no longer reaches changes nothing. -/
theorem free {a : Nat} (h : Rep l cells) (ha : a ∉ addrs cells) :
    Rep { l with mem := Function.update l.mem a none } cells := by
  refine ⟨h.chain.frame fun b hb => ?_, h.head, h.tail, h.qty, h.nodup, fun b hb => ?_⟩
  · exact Function.update_of_ne (fun hc : b = a => ha (hc ▸ hb)) _ _
  · show Function.update l.mem a none b = none
    by_cases hba : b = a
    · subst hba; exact Function.update_self _ _ _
    · rw [Function.update_of_ne hba]; exact h.fresh b hb

/--
The list after the cells between `pre` and `post` have been cut out of the chain;
`removed` of them, with `m` the memory before the seam is patched.
-/
def unlinked (l : LinkedList α) (pre post : List (Nat × α)) (removed : Int) (m : Mem α) :
    LinkedList α :=
  { head := firstOr (pre ++ post) none
    tail := lastOr none (pre ++ post)
    qty := l.qty - removed
    mem := (m.setNext (lastOr none pre) (firstOr post none)).setPrev (firstOr post none)
      (lastOr none pre)
    brk := l.brk }

theorem rep_unlinked {m : Mem α} (h : Rep l (pre ++ old ++ post))
    (hkeep : ∀ a ∈ addrs (pre ++ post), m a = l.mem a) (hfresh : ∀ a, l.brk ≤ a → m a = none) :
    Rep (unlinked l pre post old.length m) (pre ++ post) := by
  have hchain := h.chain
  rw [List.append_assoc, seg_append, seg_append] at hchain
  have hnd : (addrs (pre ++ post)).Nodup := by
    refine h.nodup.sublist (List.Sublist.map _ ?_)
    exact List.Sublist.append_right (List.sublist_append_left pre old) post
  have : Rep (unlinked l pre post old.length m) (pre ++ [] ++ post) :=
    h.splice hkeep trivial (by simpa using hnd) hfresh rfl (by simp [unlinked])
      (by simp [unlinked]) (by
        simp only [unlinked, h.qty, List.length_append, List.append_nil]
        omega)
  simpa using this

/-- All four ways of unlinking a node come to the same. -/
theorem unlinkNode_eq {c : Nat × α} (h : Rep l (pre ++ c :: post)) :
    unlinkNode l (some c.1) = .ok { unlinked l pre post 1 l.mem with qty := l.qty } := by
  obtain ⟨hpre, -⟩ := h.not_mem_sides
  rw [unlinkNode]
  have hread := Mem.read_some h.node
  have hhead := h.eq_head_iff
  have htail := h.eq_tail_iff
  have hqty := h.qty
  cases pre with
  | nil =>
      cases post with
      | nil =>
          rw [if_pos (by simpa using hqty)]
          rfl
      | cons d post =>
          rw [if_neg (by simp at hqty; omega), if_pos (by simpa using hhead)]
          have hw : l.mem.writePrev? (some d.1) none = .ok (l.mem.setPrev (some d.1) none) :=
            Mem.writePrev_some _ (h.chain.alloc d.1 (by simp))
          simp only [hread, Fault.ok_bind, firstOr_cons, hw]
          simp [unlinked, h.tail, Mem.setNext]
  | cons e pre =>
      rw [if_neg (by simp at hqty; omega), if_neg (by simpa using hhead)]
      have hlast := lastOr_ne_none pre e.1
      obtain ⟨p, hp⟩ := Option.ne_none_iff_exists'.mp hlast
      have hp' : lastOr none (e :: pre) = some p := hp
      have hpmem : p ∈ addrs (e :: pre) := lastOr_none_mem hp'
      have hpalloc : l.mem p ≠ none := h.chain.alloc p (by simp at hpmem ⊢; tauto)
      cases post with
      | nil =>
          rw [if_pos (by simpa using htail)]
          have hw : l.mem.writeNext? (some p) none = .ok (l.mem.setNext (some p) none) :=
            Mem.writeNext_some _ hpalloc
          simp only [hread, Fault.ok_bind, hp', hw]
          simp [unlinked, h.head, Mem.setPrev, hp]
      | cons d post =>
          rw [if_neg (by simpa using htail)]
          have hne : (some p : Option Nat) ≠ some c.1 := by
            intro hc
            exact hpre (Option.some.inj hc ▸ hpmem)
          have hread' : (l.mem.setNext (some p) (some d.1)).read (some c.1) =
              .ok ⟨c.2, some p, some d.1⟩ := by
            refine Mem.read_some ?_
            rw [Mem.setNext_ne hne, h.node, hp', firstOr_cons]
          have hdalloc : l.mem.setNext (some p) (some d.1) d.1 ≠ none := by
            simpa using h.chain.alloc d.1 (by simp)
          simp only [hread, Fault.ok_bind, hp', firstOr_cons, Mem.writeNext_some _ hpalloc, hread',
            Mem.writePrev_some _ hdalloc]
          simp [unlinked, h.head, h.tail, hp]

theorem deleteNode {c : Nat × α} (h : Rep l (pre ++ c :: post)) :
    ∃ l', llDeleteNode l (some c.1) = .ok l' ∧ Rep l' (pre ++ post) := by
  have h' : Rep l (pre ++ [c] ++ post) := by simpa using h
  obtain ⟨hpre, hpost⟩ := h.not_mem_sides
  have hrep := h'.rep_unlinked (m := l.mem) (fun _ _ => rfl) h.fresh
  refine ⟨_, ?_, hrep.free (a := c.1) (by simp [hpre, hpost])⟩
  have hc : (unlinked l pre post 1 l.mem).mem c.1 ≠ none := by
    simp [unlinked, h.node]
  rw [llDeleteNode, h.unlinkNode_eq]
  simp only [Fault.ok_bind, Mem.free_some hc]
  rfl

/-- The loop of `ll_delete_range` frees a prefix and leaves `next` behind it. -/
theorem deleteLoop_spec : ∀ (range : Nat) (cells : List (Nat × α)) (l : LinkedList α)
    (p : Option Nat), Seg l.mem p cells none → (addrs cells).Nodup →
    ∃ m, deleteLoop range (firstOr cells none) (firstOr cells none) l =
        .ok ({ l with mem := m, qty := l.qty - (cells.take range).length },
          firstOr (cells.drop range) none) ∧
      (∀ a, a ∉ addrs (cells.take range) → m a = l.mem a) ∧
      (∀ a, l.mem a = none → m a = none) := by
  intro range
  induction range with
  | zero => intro cells l p _ _; exact ⟨l.mem, by simp [deleteLoop], fun _ _ => rfl, fun _ h => h⟩
  | succ range ih =>
      intro cells l p hseg hnd
      cases cells with
      | nil => exact ⟨l.mem, by simp [deleteLoop], fun _ _ => rfl, fun _ h => h⟩
      | cons c cells =>
          obtain ⟨hc, hrest⟩ := hseg
          obtain ⟨hnot, hnd'⟩ : c.1 ∉ addrs cells ∧ (addrs cells).Nodup := List.nodup_cons.mp hnd
          obtain ⟨m, hrun, hkeep, hnone⟩ := ih cells
            { l with mem := Function.update l.mem c.1 none, qty := l.qty - 1 } (some c.1)
            (hrest.frame fun a ha => Function.update_of_ne (fun hac => hnot (by rwa [← hac])) _ _) hnd'
          refine ⟨m, ?_, fun a ha => ?_, fun a ha => hnone a ?_⟩
          · simp only [firstOr_cons, deleteLoop, Mem.read_some hc, Fault.ok_bind,
              Mem.free_some (show l.mem c.1 ≠ none by simp [hc]), hrun]
            simp only [List.take_succ_cons, List.length_cons, List.drop_succ_cons, Except.ok.injEq,
              Prod.mk.injEq, and_true, LinkedList.mk.injEq, true_and]
            omega
          · simp only [List.take_succ_cons, addrs_cons, List.mem_cons, not_or] at ha
            rw [hkeep a ha.2]
            exact Function.update_of_ne ha.1 _ _
          · show Function.update l.mem c.1 none a = none
            by_cases hac : a = c.1
            · subst hac; exact Function.update_self _ _ _
            · rwa [Function.update_of_ne hac]

/-- What is kept lies outside the part that is cut out. -/
theorem not_mem_cut (h : Rep l (pre ++ old ++ post)) {a : Nat} (ha : a ∈ addrs (pre ++ post)) :
    a ∉ addrs old := by
  intro hold
  have hperm : (pre ++ old ++ post).Perm (old ++ (pre ++ post)) := by
    rw [List.append_assoc]
    exact List.perm_append_comm_assoc pre old post
  have hnd := (hperm.map Prod.fst).nodup_iff.mp h.nodup
  rw [List.map_append] at hnd
  exact (List.nodup_append.mp hnd).2.2 a hold a ha rfl

/-- The head is replaced exactly if the range starts there. -/
theorem head_unlinked {c : Nat × α} {rest : List (Nat × α)} (h : Rep l (pre ++ c :: post)) :
    (if (some c.1 == l.head || l.head.isNone) = true then firstOr rest none else l.head) =
      firstOr (pre ++ rest) none := by
  have hiff := h.eq_head_iff
  cases pre with
  | nil => simp [(hiff.mpr rfl).symm]
  | cons d pre =>
      rw [if_neg, h.head]
      · rfl
      · simpa [h.head] using hiff

/-- The tail is replaced exactly if the range ends there. -/
theorem tail_unlinked (h : Rep l (pre ++ old ++ post)) :
    (if (firstOr post none).isSome = true then l.tail else lastOr none pre) =
      lastOr none (pre ++ post) := by
  rw [h.tail]
  cases post <;> simp

/-- Deleting a range, which ends where the list does. -/
theorem deleteRange {c : Nat × α} (h : Rep l (pre ++ c :: post)) (range : Nat) :
    ∃ l', llDeleteRange l (some c.1) range = .ok l' ∧
      Rep l' (pre ++ (c :: post).drop range) := by
  rw [llDeleteRange]
  by_cases h0 : range = 0
  · subst h0
    exact ⟨l, by simp, by simpa using h⟩
  by_cases h1 : range = 1
  · subst h1
    simpa using h.deleteNode
  rw [if_neg (by omega), if_neg (by omega)]
  have hsplit : pre ++ (c :: post).take range ++ (c :: post).drop range = pre ++ c :: post := by
    rw [List.append_assoc, List.take_append_drop]
  have h' : Rep l (pre ++ (c :: post).take range ++ (c :: post).drop range) := by rwa [hsplit]
  have hseg := ((seg_append l.mem pre none (c :: post) none).mp h.chain).2
  have hnd := h.nodup
  rw [addrs_append] at hnd
  obtain ⟨-, hnd2, -⟩ := List.nodup_append.mp hnd
  obtain ⟨m, hrun, hkeep, hnone⟩ := deleteLoop_spec range (c :: post) l _ hseg hnd2
  have hrun' : deleteLoop (range : Int).toNat (some c.1) none l =
      .ok ({ l with mem := m, qty := l.qty - ((c :: post).take range).length },
        firstOr ((c :: post).drop range) none) := by
    obtain ⟨k, rfl⟩ := Nat.exists_eq_succ_of_ne_zero h0
    exact hrun
  set cut := (c :: post).take range with hcut
  set rest := (c :: post).drop range with hrest
  have hkeep' : ∀ a ∈ addrs (pre ++ rest), m a = l.mem a :=
    fun a ha => hkeep a (h'.not_mem_cut ha)
  have hmem0 : ∀ a ∈ addrs (pre ++ rest), m a ≠ none := by
    intro a ha
    rw [hkeep' a ha]
    refine h'.chain.alloc a ?_
    simp only [addrs_append, List.mem_append] at ha ⊢
    exact ha.imp_left Or.inl
  have hrep := h'.rep_unlinked hkeep' fun a ha => hnone a (h.fresh a ha)
  refine ⟨_, ?_, hrep⟩
  have hqty : l.qty - (cut.length : Int) = (pre ++ rest).length := by
    rw [h'.qty]
    simp only [List.length_append]
    omega
  have hw1 : m.writeNext? (lastOr none pre) (firstOr rest none) =
      .ok (m.setNext (lastOr none pre) (firstOr rest none)) :=
    writeNext?_lastOr _ fun a ha => hmem0 a (by simp [ha])
  have hw2 : (m.setNext (lastOr none pre) (firstOr rest none)).writePrev? (firstOr rest none)
      (lastOr none pre) = .ok ((m.setNext (lastOr none pre) (firstOr rest none)).setPrev
        (firstOr rest none) (lastOr none pre)) :=
    writePrev?_firstOr _ fun a ha => by
      simpa using hmem0 a (by simp [ha])
  simp only [Mem.prevOf_some h.node, Fault.ok_bind, hrun', apply_ite LinkedList.mem, ite_self, hw1, hw2]
  have hneg : ¬(l.qty - (cut.length : Int) < 0) := by omega
  simp only [unlinked, apply_ite LinkedList.head, apply_ite LinkedList.qty,
    apply_ite LinkedList.tail, apply_ite LinkedList.brk, ite_self, hneg, if_false,
    h.head_unlinked, h'.tail_unlinked]

/-- On an empty list there is nothing to delete, and a longer range says so. -/
theorem deleteRange_nil (h : Rep l []) (range : Nat) (hne : range ≠ 1) :
    ∃ l', llDeleteRange l none range = .ok l' ∧ Rep l' [] := by
  obtain ⟨hhead, htail⟩ := h.ends_nil
  have hqty := h.qty
  by_cases h0 : range = 0
  · subst h0
    exact ⟨l, by simp [llDeleteRange], h⟩
  refine ⟨{ l with head := none, tail := none }, ?_, ⟨trivial, rfl, rfl, hqty, h.nodup, h.fresh⟩⟩
  obtain ⟨k, rfl⟩ := Nat.exists_eq_succ_of_ne_zero h0
  rw [llDeleteRange, if_neg (by omega), if_neg (by omega)]
  have hloop : deleteLoop ((k + 1 : Nat) : Int).toNat none none l = .ok (l, none) := rfl
  simp only [Mem.prevOf_none, Fault.ok_bind, hhead, hloop]
  simp [Mem.writeNext?, Mem.writePrev?, hqty]

/-! ### Overwriting and looking up

An index counts from the front, or from the back if it is negative, and the walk starts at
whichever end is nearer.  The two walks go through the same nodes in opposite order, so they meet
the same node; the number of steps is what has to come out right.
-/

/-- Giving a node another value. -/
theorem setData {a : Nat} {x : α} (h : Rep l (pre ++ (a, x) :: post)) (y : α) :
    ∃ mem, l.mem.writeData (some a) y = .ok mem ∧
      Rep { l with mem := mem } (pre ++ (a, y) :: post) := by
  obtain ⟨hpre, hpost⟩ := h.not_mem_sides
  refine ⟨_, Mem.writeData_some y h.node, h.chain.setData hpre hpost, ?_, ?_, ?_, ?_, fun b hb => ?_⟩
  · simpa using h.head
  · simpa using h.tail
  · simpa using h.qty
  · simpa using h.nodup
  · show l.mem.store a _ b = none
    have hlt : a < l.brk := h.lt_brk (by simp)
    have hb' : l.brk ≤ b := hb
    rw [Mem.store_ne (by omega)]
    exact h.fresh b hb

/-- A list has one sequence of cells only. -/
theorem unique {cells' : List (Nat × α)} (h : Rep l cells) (h' : Rep l cells') : cells = cells' := by
  refine h.chain.unique h'.chain ?_ fun _ => h.head.symm.trans h'.head
  have h1 := h.qty
  have h2 := h'.qty
  omega

theorem walkNext_spec {m : Mem α} : ∀ (as : List (Nat × α)) {bs : List (Nat × α)} {p n : Option Nat},
    Seg m p (as ++ bs) n → walkNext m as.length (firstOr (as ++ bs) n) = .ok (firstOr bs n) := by
  intro as
  induction as with
  | nil => intro bs p n _; rfl
  | cons c as ih =>
      intro bs p n h
      simp only [List.cons_append, List.length_cons, firstOr_cons, walkNext, Mem.read_some h.1,
        Fault.ok_bind]
      exact ih h.2

theorem walkPrev_spec {m : Mem α} (as : List (Nat × α)) : ∀ (bs : List (Nat × α)) {n : Option Nat},
    Seg m none (as ++ bs) n → walkPrev m bs.length (lastOr none (as ++ bs)) = .ok (lastOr none as) := by
  intro bs
  induction bs using List.reverseRecOn with
  | nil => intro n _; simp [walkPrev]
  | append_singleton bs b ih =>
      intro n h
      rw [← List.append_assoc, seg_append] at h
      obtain ⟨hinit, hlast, -⟩ := h
      have hread : m.read (lastOr none (as ++ (bs ++ [b]))) =
          .ok ⟨b.2, lastOr none (as ++ bs), n⟩ := by
        simpa using Mem.read_some hlast
      simp only [List.length_append, List.length_singleton, walkPrev, hread, Fault.ok_bind]
      exact ih hinit

/-- From whichever end `ll_at` walks, it gets to the node. -/
theorem walk_node {c : Nat × α} (h : Rep l (pre ++ c :: post)) :
    (if (pre.length : Int) < (l.qty - 1) / 2 then walkNext l.mem (pre.length : Int).toNat l.head
      else walkPrev l.mem (l.qty - 1 - (pre.length : Int)).toNat l.tail) = .ok (some c.1) := by
  have hqty := h.qty
  simp only [List.length_append, List.length_cons] at hqty
  split
  · have hwalk := walkNext_spec pre h.chain
    rw [h.head]
    exact hwalk
  · have h' : Seg l.mem none ((pre ++ [c]) ++ post) none := by simpa using h.chain
    have := walkPrev_spec (pre ++ [c]) post h'
    rw [h.tail, show (l.qty - 1 - (pre.length : Int)).toNat = post.length by omega]
    simpa using this

/-- Every position of the list is found. -/
theorem at_node {c : Nat × α} (h : Rep l (pre ++ c :: post)) :
    llAt l pre.length = .ok (some c.1) := by
  have hqty := h.qty
  simp only [List.length_append, List.length_cons] at hqty
  rw [llAt, if_neg (by omega)]
  by_cases h0 : (pre.length : Int) = 0
  · have hpre : pre = [] := List.length_eq_zero_iff.mp (by omega)
    subst hpre
    simp [h.head]
  have hnonneg : ¬(pre.length : Int) < 0 := by omega
  simp only [if_neg h0, if_neg hnonneg]
  rw [if_neg (by omega), if_neg (by omega)]
  exact h.walk_node

/-- The same counted from the end, which also gets to the first node by walking. -/
theorem at_node_negative {c : Nat × α} (h : Rep l (pre ++ c :: post)) (hpost : post ≠ []) :
    llAt l ((pre.length : Int) - l.qty) = .ok (some c.1) := by
  have hqty := h.qty
  have hpos := List.length_pos_iff.mpr hpost
  simp only [List.length_append, List.length_cons] at hqty
  have hneg : (pre.length : Int) - l.qty < 0 := by omega
  rw [llAt, if_neg (by omega), if_neg (by omega), if_neg (by omega)]
  simp only [if_pos hneg, Int.sub_add_cancel]
  rw [if_neg (by omega)]
  exact h.walk_node

/-- Below zero, only the last node is looked up without walking. -/
theorem at_neg_one (h : Rep l cells) : llAt l (-1) = .ok l.tail := by
  rw [llAt, h.qty]
  by_cases h0 : cells = []
  · subst h0
    simp [h.tail]
  · have hpos : 0 < cells.length := List.length_pos_iff.mpr h0
    rw [if_neg (by omega), if_neg (by omega), if_pos (Or.inl rfl)]

/-- The length of the list, as an index, stands for its last node. -/
theorem at_length (h : Rep l cells) : llAt l cells.length = .ok l.tail := by
  rw [llAt, h.qty]
  by_cases h0 : cells = []
  · subst h0
    simp [h.tail]
  · have hpos : 0 < cells.length := List.length_pos_iff.mpr h0
    rw [if_neg (by omega), if_neg (by omega), if_pos (Or.inr rfl)]

/-- What is neither the length nor a position from either end is not found. -/
theorem at_outside (h : Rep l cells) {index : Int}
    (hout : index < -cells.length ∨ (cells.length : Int) < index) (hne : index ≠ -1) :
    llAt l index = .ok none := by
  rw [llAt, h.qty]
  by_cases h0 : (cells.length : Int) = 0
  · rw [if_pos h0]
  rw [if_neg h0, if_neg (by omega), if_neg (by omega)]
  by_cases hneg : index < 0
  · simp only [if_pos hneg]
    rw [if_pos (by omega)]
  · simp only [if_neg hneg]
    rw [if_pos (by omega)]

/--
The node an index stands for: positions from 0 on, the length and -1 for the last node, and
the negative ones counted from the end.
-/
def atIndex (cells : List (Nat × α)) (index : Int) : Option Nat :=
  let qty : Int := cells.length
  if 0 ≤ index ∧ index < qty then (addrs cells)[index.toNat]?
  else if index = qty ∨ index = -1 then lastOr none cells
  else if -qty ≤ index ∧ index < 0 then (addrs cells)[(qty + index).toNat]?
  else none

/-- A position splits the cells at the node it stands for. -/
theorem split_at {k : Nat} (hk : k < cells.length) :
    ∃ pre c post, cells = pre ++ c :: post ∧ pre.length = k ∧ (addrs cells)[k]? = some c.1 := by
  refine ⟨cells.take k, cells[k], cells.drop (k + 1), ?_, ?_, ?_⟩
  · rw [List.getElem_cons_drop, List.take_append_drop]
  · rw [List.length_take]
    omega
  · rw [addrs, List.getElem?_map, List.getElem?_eq_getElem hk]
    rfl

/-- **Looking an index up** finds the node it stands for, without a step off the list. -/
theorem at_index (h : Rep l cells) (index : Int) : llAt l index = .ok (atIndex cells index) := by
  have hqty := h.qty
  rw [atIndex]
  by_cases hpos : 0 ≤ index ∧ index < cells.length
  · obtain ⟨k, rfl⟩ := Int.eq_ofNat_of_zero_le hpos.1
    have hk : k < cells.length := by omega
    obtain ⟨pre, c, post, rfl, rfl, hc⟩ := split_at hk
    rw [if_pos hpos, h.at_node, Int.toNat_natCast, hc]
  rw [if_neg hpos]
  by_cases hend : index = cells.length ∨ index = -1
  · rw [if_pos hend, ← h.tail]
    rcases hend with rfl | rfl
    · exact h.at_length
    · exact h.at_neg_one
  rw [if_neg hend]
  by_cases hneg : -(cells.length : Int) ≤ index ∧ index < 0
  · -- Counted from the front, the node is at `qty + index`, and it is not the last one.
    have hlt : ((cells.length : Int) + index).toNat < cells.length := by omega
    obtain ⟨pre, c, post, hcells, hk, hc⟩ := split_at hlt
    have hpost : post ≠ [] := by
      rintro rfl
      have := congrArg List.length hcells
      simp only [List.length_append, List.length_cons, List.length_nil] at this
      omega
    have hindex : (pre.length : Int) - l.qty = index := by omega
    rw [if_pos hneg, hc, ← hindex]
    exact (hcells ▸ h).at_node_negative hpost
  · rw [if_neg hneg]
    exact h.at_outside (by omega) (by omega)

/-! ### Going through the list -/

/-- The addresses below `brk` are enough for the nodes of the list. -/
theorem length_le_brk (h : Rep l cells) : cells.length ≤ l.brk := by
  have hsub : addrs cells ⊆ List.range l.brk := fun a ha => List.mem_range.mpr (h.lt_brk ha)
  have := (List.subperm_of_subset h.nodup hsub).length_le
  rwa [List.length_range, addrs, List.length_map] at this

theorem foreachNode_spec {σ : Type} {m : Mem α} (body : α → σ → Except Fault (ForInStep σ)) :
    ∀ {cells : List (Nat × α)} {p : Option Nat} {n : Nat} (s : σ), Seg m p cells none →
    cells.length ≤ n →
    foreachNode m body n (firstOr cells none) s = forIn (vals cells) s body := by
  intro cells
  induction cells with
  | nil =>
      intro p n s _ _
      cases n <;> rfl
  | cons c cells ih =>
      intro p n s hseg hn
      obtain ⟨n, rfl⟩ := Nat.exists_eq_succ_of_ne_zero (Nat.ne_zero_of_lt hn)
      obtain ⟨hc, hrest⟩ := hseg
      rw [firstOr_cons, foreachNode, Mem.read_some hc, Fault.ok_bind, vals_cons, List.forIn_cons]
      refine bind_congr fun step => ?_
      cases step with
      | done s => rfl
      | yield s => exact ih s hrest (Nat.le_of_succ_le_succ hn)

/-- Going through a list is going through its data in order. -/
theorem foreach {σ : Type} (h : Rep l cells) (s : σ) (body : α → σ → Except Fault (ForInStep σ)) :
    llForeach l s body = forIn (vals cells) s body := by
  rw [llForeach, h.head]
  exact foreachNode_spec body s h.chain h.length_le_brk

end Rep

/-- A list of the nodes at 0, 1 and 2. -/
def threeNodes : LinkedList Nat :=
  { head := some 0, tail := some 2, qty := 3
    mem := fun a => [(⟨10, none, some 1⟩ : Node Nat), ⟨11, some 0, some 2⟩, ⟨12, some 1, none⟩][a]?
    brk := 3 }

theorem rep_threeNodes : Rep threeNodes [(0, 10), (1, 11), (2, 12)] := by
  refine ⟨⟨rfl, rfl, rfl, trivial⟩, rfl, rfl, rfl, by decide, fun a ha => ?_⟩
  exact List.getElem?_eq_none ha

/-- The first node, counted from the end. -/
theorem at_index_three : llAt threeNodes (-3) = .ok (some 0) := rep_threeNodes.at_index (-3)

end TagHighlight
