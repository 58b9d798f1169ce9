/-
While Neovim and the plugin are in step, no event of an attached buffer is fatal.

Two relations have to hold at every moment.  A buffer that Neovim is attached to is one
the plugin has a `Buffer` for, or one that the thread with `autocmd_mutex` is just making
another `Buffer` for.  And a buffer with an event on its way is of the first kind.  The
second is what the theorem about the event loop needs, and each side can break it: Neovim
with an event in the wrong moment, the plugin by forgetting a buffer too early.

The registry part of the invariant says what a thread may rely on after it let go of all
locks: what `find_buffer` gave it may be closed or freed by now, but its address is not
used for another buffer.
-/
import TagHighlight.Events.Attach
import TagHighlight.Proofs.Buffer.Registry

namespace TagHighlight

namespace Registry

/-! ### What holds of the registry between two steps

The registry by itself is sound whenever nobody is in the middle of opening a buffer.  The thread
with `autocmd_mutex` may be, and there is one such thread; so the two exceptions, a node that is
open without a `Buffer` and a `Buffer` without its lines, are parameters that say which one it is.
-/

/-- `p` is a `Buffer` for the number, or was one before it was freed. -/
def IsFor (r : Registry) (p num : Nat) : Prop :=
  p < r.fresh ∧ ∀ bdata, r.buffers p = some bdata → bdata.num = num

/-- The registry while the node `opening` is being opened and the `Buffer` `unfilled` is new. -/
structure Steady (r : Registry) (opening unfilled : Option Nat) : Prop extends Listed r where
  unusedNode : ∀ a, r.fresh ≤ a → r.nodes a = none
  isFor : ∀ num p, r.opened num = some p → r.IsFor p num
  /-- An open node has a `Buffer`, unless it is just being opened. -/
  full : ∀ a ∈ r.bufferList, ∀ bnode, r.nodes a = some bnode →
    (bnode.bdata = none ↔ bnode.isopen = false ∨ opening = some a)
  /-- A `Buffer` that a look-up finds has its lines, unless it is new. -/
  filled : ∀ num p, r.opened num = some p → ∀ bdata, r.buffers p = some bdata →
    bdata.initialized = true ∨ unfilled = some p

theorem steady_empty : Steady empty none none where
  alive := by simp [empty]
  same := by simp [empty]
  unusedNode := fun _ _ => rfl
  isFor := by simp [opened, entry, empty]
  full := by simp [empty]
  filled := by simp [opened, entry, empty]

variable {r r' : Registry} {opening unfilled : Option Nat}

theorem Steady.lt_fresh (h : r.Steady opening unfilled) {a : Nat} (ha : r.nodes a ≠ none) :
    a < r.fresh := by
  by_contra hle
  exact ha (h.unusedNode a (Nat.le_of_not_lt hle))

/-! ### Steps that open and close nothing

Many steps only free a `Buffer` that no entry refers to any more, or note that one has its lines.
The entries are the same after them, and with the entries all that look-ups find.
-/

/--
The two registries have the same entries.  Some `Buffer`s may be freed or filled, and what
is not listed may come and go.
-/
structure Alike (r r' : Registry) : Prop where
  bufferList : r'.bufferList = r.bufferList
  nodes : ∀ a ∈ r.bufferList, r'.nodes a = r.nodes a
  fresh : r.fresh ≤ r'.fresh
  unusedNode : (∀ a, r.fresh ≤ a → r.nodes a = none) → ∀ a, r'.fresh ≤ a → r'.nodes a = none
  buffers : ∀ p after, r'.buffers p = some after → ∃ before, r.buffers p = some before ∧
    after.num = before.num ∧ (before.initialized = true → after.initialized = true)

namespace Alike

theorem refl (r : Registry) : Alike r r where
  bufferList := rfl
  nodes := fun _ _ => rfl
  fresh := Nat.le_refl _
  unusedNode := id
  buffers := fun _ bdata hbuffer => ⟨bdata, hbuffer, rfl, id⟩

theorem setBuffer {p : Nat} {before after : Bufdata} (hbuffer : r.buffers p = some before)
    (hnum : after.num = before.num)
    (hinit : before.initialized = true → after.initialized = true) :
    Alike r (r.setBuffer p after) where
  bufferList := rfl
  nodes := fun _ _ => rfl
  fresh := Nat.le_refl _
  unusedNode := id
  buffers := by
    intro q bdata hq
    by_cases hqp : q = p
    · simp only [Registry.setBuffer, hqp, Function.update_self, Option.some.injEq] at hq
      exact ⟨before, by rw [hqp, hbuffer], by rw [← hq, hnum], by rwa [← hq]⟩
    · simp only [Registry.setBuffer, Function.update_of_ne hqp] at hq
      exact ⟨bdata, hq, rfl, id⟩

theorem freeBuffer (p : Nat) : Alike r (r.freeBuffer p) where
  bufferList := rfl
  nodes := fun _ _ => rfl
  fresh := Nat.le_refl _
  unusedNode := id
  buffers := by
    intro q bdata hq
    by_cases hqp : q = p
    · simp [Registry.freeBuffer, hqp] at hq
    · simp only [Registry.freeBuffer, Function.update_of_ne hqp] at hq
      exact ⟨bdata, hq, rfl, id⟩

variable (h : Alike r r')
include h

theorem isFor {p num : Nat} (hfor : r.IsFor p num) : r'.IsFor p num := by
  refine ⟨Nat.lt_of_lt_of_le hfor.1 h.fresh, fun after hafter => ?_⟩
  obtain ⟨before, hbefore, hnum, -⟩ := h.buffers p after hafter
  rw [hnum, hfor.2 before hbefore]

theorem numOf {a : Nat} (ha : a ∈ r.bufferList) : r'.numOf a = r.numOf a := by
  rw [Registry.numOf, Registry.numOf, h.nodes a ha]

variable (hsteady : r.Steady opening unfilled)
include hsteady

theorem listed : Listed r' where
  alive := by
    rw [h.bufferList]
    intro a ha
    rw [h.nodes a ha]
    exact hsteady.alive a ha
  same := by
    rw [h.bufferList]
    intro a ha b hb hab
    rw [h.numOf ha, h.numOf hb] at hab
    exact hsteady.same a ha b hb hab

theorem entry (num : Nat) : r'.entry num = r.entry num := by
  refine Option.ext fun a => ?_
  rw [(h.listed hsteady).entry_eq_some, hsteady.entry_eq_some, h.bufferList]
  exact and_congr_right fun ha => by rw [h.numOf ha]

theorem opened (num : Nat) : r'.opened num = r.opened num := by
  refine Option.ext fun p => ?_
  rw [(h.listed hsteady).opened_eq_some, hsteady.opened_eq_some, h.bufferList]
  refine exists_congr fun a => and_congr_right fun ha => ?_
  rw [h.nodes a ha]

theorem steady : r'.Steady opening unfilled where
  toListed := h.listed hsteady
  unusedNode := h.unusedNode hsteady.unusedNode
  isFor := fun num p hp => h.isFor (hsteady.isFor num p (h.opened hsteady num ▸ hp))
  full := by
    rw [h.bufferList]
    intro a ha
    rw [h.nodes a ha]
    exact hsteady.full a ha
  filled := by
    intro num p hp after hafter
    obtain ⟨before, hbefore, -, hinit⟩ := h.buffers p after hafter
    exact (hsteady.filled num p (h.opened hsteady num ▸ hp) before hbefore).imp_left hinit

end Alike

theorem finishDestroy_eq_ok {p : Nat} (hfinish : r.finishDestroy p = .ok r') :
    r' = r.freeBuffer p := by
  obtain ⟨_, -, hr'⟩ := Fault.bind_eq_ok.mp hfinish
  exact (Except.ok.inj hr').symm

/-! ### Closing a node

A node that is closed keeps its place and its number and loses its `Buffer`.  So the look-up for
its number finds nothing, and all others find what they did.
-/

/-- The registry after the node `a` was closed and its `Buffer` `p` marked. -/
def shut (r : Registry) (a p : Nat) (bdata : Bufdata) : Registry :=
  (r.setNode a { num := bdata.num, isopen := false, bdata := none }).setBuffer p
    { bdata with initialized := false }

theorem Steady.closeBuffer_eq (h : r.Steady opening unfilled) {p : Nat}
    (hclose : r.closeBuffer p = .ok r') :
    ∃ bdata a, r.buffers p = some bdata ∧ r.entry bdata.num = some a ∧
      r' = r.shut a p bdata := by
  obtain ⟨mid, hmid, hrest⟩ := Fault.bind_eq_ok.mp hclose
  obtain ⟨bdata, hbuffer, hnode⟩ := Fault.bind_eq_ok.mp hmid
  rw [buffer_eq_ok] at hbuffer
  rw [h.findBufferNode, Fault.ok_bind] at hnode
  cases hentry : r.entry bdata.num with
  | none => simp [hentry] at hnode
  | some a =>
      obtain ⟨bnode, hbnode, hnum⟩ := numOf_eq_some.mp (h.entry_eq_some.mp hentry).2
      simp only [hentry, node_eq_ok.mpr hbnode, Fault.ok_bind, Except.ok.injEq] at hnode
      have hsame : mid.buffer p = .ok bdata := buffer_eq_ok.mpr (by rw [← hnode]; exact hbuffer)
      rw [hsame, Fault.ok_bind] at hrest
      refine ⟨bdata, a, hbuffer, hentry, ?_⟩
      rw [← Except.ok.inj hrest, ← hnode, shut, ← hnum]

section Shut

variable {a p : Nat} {bdata : Bufdata} (h : r.Steady opening unfilled)
  (hentry : r.entry bdata.num = some a)
include h hentry

theorem numOf_shut : (r.shut a p bdata).numOf = r.numOf :=
  funext fun b => numOf_setNode ⟨bdata.num, false, none⟩ (h.entry_eq_some.mp hentry).2 b

theorem entry_shut (num : Nat) : (r.shut a p bdata).entry num = r.entry num :=
  entry_setNode ⟨bdata.num, false, none⟩ (h.entry_eq_some.mp hentry).2 num

theorem opened_shut (num : Nat) :
    (r.shut a p bdata).opened num = if bdata.num = num then none else r.opened num := by
  obtain ⟨hmem, hnum⟩ := h.entry_eq_some.mp hentry
  have hiff : r.entry num = some a ↔ bdata.num = num := by
    rw [h.entry_eq_some, hnum, Option.some.injEq]
    exact and_iff_right hmem
  have hopened := opened_setNode ⟨bdata.num, false, none⟩ hnum num
  simp only [hiff] at hopened
  exact hopened.trans (by simp)

omit h hentry in
theorem isFor_shut (hbuffer : r.buffers p = some bdata) {q num : Nat} (hfor : r.IsFor q num) :
    (r.shut a p bdata).IsFor q num := by
  refine ⟨hfor.1, fun after hafter => ?_⟩
  by_cases hqp : q = p
  · simp only [shut, setBuffer, hqp, Function.update_self, Option.some.injEq] at hafter
    rw [← hafter, ← hfor.2 bdata (hqp ▸ hbuffer)]
  · simp only [shut, setBuffer, Function.update_of_ne hqp] at hafter
    exact hfor.2 after hafter

theorem Steady.shut (hbuffer : r.buffers p = some bdata) :
    (r.shut a p bdata).Steady opening unfilled where
  alive := (h.toListed.setNode ⟨bdata.num, false, none⟩ (h.entry_eq_some.mp hentry).2).alive
  same := by rw [numOf_shut h hentry]; exact h.same
  unusedNode := by
    intro b hb
    have hne : b ≠ a := by
      intro heq
      subst heq
      exact h.alive b (h.entry_eq_some.mp hentry).1 (h.unusedNode b hb)
    simpa [Registry.shut, Function.update_of_ne hne] using h.unusedNode b hb
  isFor := by
    intro num q hq
    rw [opened_shut h hentry] at hq
    exact isFor_shut hbuffer (h.isFor num q (Option.ite_none_left_eq_some.mp hq).2)
  full := by
    intro b hb bnode hbnode
    by_cases hba : b = a
    · simp only [Registry.shut, nodes_setBuffer, nodes_setNode, hba, Function.update_self,
        Option.some.injEq] at hbnode
      simp [← hbnode]
    · simp only [Registry.shut, nodes_setBuffer, nodes_setNode, Function.update_of_ne hba] at hbnode
      exact h.full b hb bnode hbnode
  filled := by
    intro num q hq after hafter
    rw [opened_shut h hentry] at hq
    obtain ⟨hne, hq⟩ := Option.ite_none_left_eq_some.mp hq
    -- The `Buffer` that was marked is for the number that was closed.
    have hqp : q ≠ p := by
      intro heq
      subst heq
      exact hne ((h.isFor num q hq).2 bdata hbuffer)
    simp only [Registry.shut, setBuffer, Function.update_of_ne hqp] at hafter
    exact h.filled num q hq after hafter

end Shut

/-! ### Opening a node

`new_buffer` marks a node before it asks Neovim for the file type, and other threads run in
between.  For a number without an entry the node is not in the list yet, so they cannot notice;
for one that has an entry they meet a node that is open and empty, and wait for its lock.
-/

/-- The node as `new_buffer` leaves it while it asks for the file type. -/
structure Marked (r : Registry) (num a : Nat) : Prop where
  node : r.nodes a = some { num := num, isopen := true, bdata := none }
  place : a ∈ r.bufferList ∨ r.entry num = none

/-- The result of marking a node: nothing else has changed. -/
structure MarkedFrom (r r' : Registry) (num a : Nat) : Prop where
  steady : r'.Steady (some a) none
  marked : r'.Marked num a
  opened : ∀ n, r'.opened n = r.opened n
  entry : ∀ n, r'.entry n = r.entry n

namespace Steady

/-- A number without an entry gets a new node, which is not listed yet. -/
theorem mark_unseen (h : r.Steady none none) {num : Nat} (hentry : r.entry num = none) :
    ∃ r', (r.newBufferNode num).1.startOpening r.fresh = .ok (r', true) ∧
      r.MarkedFrom r' num r.fresh := by
  let r' := { r.setNode r.fresh { num := num, isopen := true, bdata := none } with
    fresh := r.fresh + 1 }
  have hold : ∀ b ∈ r.bufferList, b ≠ r.fresh := fun b hb =>
    Nat.ne_of_lt (h.lt_fresh (h.alive b hb))
  have halike : r.Alike r' := {
    bufferList := rfl
    nodes := fun b hb => Function.update_of_ne (hold b hb) _ _
    fresh := Nat.le_succ _
    unusedNode := fun hunused b hb =>
      (Function.update_of_ne (Nat.ne_of_gt hb) _ _).trans (hunused b (Nat.le_of_succ_le hb))
    buffers := (Alike.refl r).buffers }
  have hsteady := halike.steady h
  refine ⟨r', by simp [startOpening, node, newBufferNode, r', setNode], ?_, ?_,
    halike.opened h, halike.entry h⟩
  · refine { hsteady with full := fun b hb bnode hbnode => ?_ }
    have hne : some r.fresh ≠ some b := fun heq => hold b hb (Option.some.inj heq).symm
    simpa [hne] using hsteady.full b hb bnode hbnode
  · exact ⟨Function.update_self _ _ _, Or.inr ((halike.entry h num).trans hentry)⟩

/-- A number with an entry gets the node of the entry, which was closed. -/
theorem mark_seen (h : r.Steady none none) {num a : Nat} (hentry : r.entry num = some a)
    (hclosed : r.opened num = none) :
    ∃ r', r.startOpening a = .ok (r', true) ∧ r.MarkedFrom r' num a := by
  obtain ⟨hmem, hnum⟩ := h.entry_eq_some.mp hentry
  obtain ⟨bnode, hnode, rfl⟩ := numOf_eq_some.mp hnum
  have hfull := h.full a hmem bnode hnode
  have hopen : bnode.isopen = false := by
    by_contra hopen
    rw [Bool.not_eq_false] at hopen
    have hnone : bnode.bdata = none := by simpa [opened, hentry, hnode, hopen] using hclosed
    simpa [hopen] using hfull.mp hnone
  have hnone : bnode.bdata = none := hfull.mpr (Or.inl hopen)
  have hopened := opened_setNode ⟨bnode.num, true, none⟩ hnum
  have hsame : ∀ n, (r.setNode a ⟨bnode.num, true, none⟩).opened n = r.opened n := by
    intro n
    rw [hopened]
    by_cases hn : r.entry n = some a
    · simp [hn, opened, hnode, hopen]
    · simp [hn]
  have hlisted : Listed (r.setNode a ⟨bnode.num, true, none⟩) :=
    h.toListed.setNode ⟨bnode.num, true, none⟩ hnum
  refine ⟨r.setNode a ⟨bnode.num, true, none⟩, ?_, ?_, ⟨by simp, Or.inl hmem⟩, hsame,
    entry_setNode ⟨bnode.num, true, none⟩ hnum⟩
  · simp [startOpening, node_eq_ok.mpr hnode, hopen, hnone]
  · refine { hlisted with unusedNode := ?_, isFor := ?_, full := ?_, filled := ?_ }
    · intro b hb
      have hne : b ≠ a := Nat.ne_of_gt (Nat.lt_of_lt_of_le (h.lt_fresh (h.alive a hmem)) hb)
      simpa [Function.update_of_ne hne] using h.unusedNode b hb
    · exact fun num p hp => h.isFor num p (hsame num ▸ hp)
    · intro b hb other hother
      by_cases hba : b = a
      · simp only [nodes_setNode, hba, Function.update_self, Option.some.injEq] at hother
        simp [← hother, hba]
      · simp only [nodes_setNode, Function.update_of_ne hba] at hother
        simpa [Ne.symm hba] using h.full b hb other hother
    · exact fun num p hp => h.filled num p (hsame num ▸ hp)

/-- `new_buffer` up to its request, for a number that is not open. -/
theorem mark (h : r.Steady none none) {num : Nat} (hclosed : r.opened num = none) :
    ∃ mid a r', r.nodeFor num = .ok (mid, a) ∧ mid.startOpening a = .ok (r', true) ∧
      r.MarkedFrom r' num a := by
  cases hentry : r.entry num with
  | none =>
      obtain ⟨r', hstart, hmarked⟩ := h.mark_unseen hentry
      exact ⟨_, _, r', by simp [nodeFor, h.findBufferNode, hentry, newBufferNode], hstart, hmarked⟩
  | some a =>
      obtain ⟨r', hstart, hmarked⟩ := h.mark_seen hentry hclosed
      exact ⟨r, a, r', by simp [nodeFor, h.findBufferNode, hentry], hstart, hmarked⟩

end Steady

/-! ### The end of `new_buffer`

With a file type that is wanted the node gets its `Buffer`, and a new node is put into the list.
With another one a new node is freed again without a trace.  The node of an entry would be freed
too, which the condition on the thread excludes.
-/

/-- The registry with a new `Buffer` in the node, and the node listed. -/
def filledIn (r : Registry) (num a : Nat) (ft : BString) : Registry :=
  { (r.setBuffer r.fresh { num := num, ft := ft, initialized := false }).setNode a
      { num := num, isopen := true, bdata := some r.fresh } with
    bufferList := r.bufferList ++ [a]
    fresh := r.fresh + 1 }

section Marked

variable {fts : Filetypes} {num a : Nat} {ft : BString} (h : r.Steady (some a) none)
  (hmarked : r.Marked num a)
include hmarked

theorem Marked.numOf : r.numOf a = some num := by simp [Registry.numOf, hmarked.node]

theorem Marked.finish_wanted {ftname : BString} (hft : fts.wanted (some ftname) = some ft) :
    ∃ mid, r.finishOpening fts a (some ftname) = .ok (mid, some r.fresh) ∧
      mid.settle a (some r.fresh) = .ok (r.filledIn num a ft) := by
  simp [finishOpening, node_eq_ok.mpr hmarked.node, hft, settle, filledIn, setNode, setBuffer]

theorem numOf_filledIn : (r.filledIn num a ft).numOf = r.numOf :=
  funext fun b => numOf_setNode ⟨num, true, some r.fresh⟩ hmarked.numOf b

include h

theorem Marked.same {b : Nat} (hb : b ∈ r.bufferList) (hnum : r.numOf b = some num) : b = a := by
  rcases hmarked.place with hmem | hnone
  · exact h.same b hb a hmem (hnum.trans hmarked.numOf.symm)
  · exact absurd hnum (entry_eq_none.mp hnone b hb)

theorem listed_filledIn : Listed (r.filledIn num a ft) where
  alive := by
    intro b hb
    by_cases hba : b = a
    · simp [filledIn, hba]
    · have hb := (List.mem_append.mp hb).resolve_right (by simpa using hba)
      simpa [filledIn, Function.update_of_ne hba] using h.alive b hb
  same := by
    rw [numOf_filledIn hmarked]
    intro b hb c hc hbc
    rcases List.mem_append.mp hb with hb | hb <;> rcases List.mem_append.mp hc with hc | hc
    · exact h.same b hb c hc hbc
    · rw [List.mem_singleton.mp hc] at hbc ⊢
      exact hmarked.same h hb (hbc.trans hmarked.numOf)
    · rw [List.mem_singleton.mp hb] at hbc ⊢
      exact (hmarked.same h hc (hbc.symm.trans hmarked.numOf)).symm
    · rw [List.mem_singleton.mp hb, List.mem_singleton.mp hc]

theorem entry_filledIn (n : Nat) :
    (r.filledIn num a ft).entry n = if num = n then some a else r.entry n := by
  have hlist : (r.filledIn num a ft).bufferList = r.bufferList ++ [a] := rfl
  refine Option.ext fun b => ?_
  rw [(listed_filledIn h hmarked).entry_eq_some, numOf_filledIn hmarked, hlist,
    List.mem_append, List.mem_singleton]
  by_cases hn : num = n
  · subst hn
    rw [if_pos rfl, Option.some.injEq]
    constructor
    · intro hand
      obtain ⟨hb | rfl, hnum⟩ := hand
      · exact (hmarked.same h hb hnum).symm
      · rfl
    · intro heq
      subst heq
      exact ⟨Or.inr rfl, hmarked.numOf⟩
  · rw [if_neg hn, h.entry_eq_some]
    refine and_congr_left fun hnum => or_iff_left ?_
    intro heq
    subst heq
    exact hn (Option.some.inj (hmarked.numOf.symm.trans hnum))

theorem opened_filledIn (n : Nat) :
    (r.filledIn num a ft).opened n = if num = n then some r.fresh else r.opened n := by
  unfold opened
  rw [entry_filledIn h hmarked]
  by_cases hn : num = n
  · simp [hn, filledIn]
  · rw [if_neg hn, if_neg hn]
    cases hentry : r.entry n with
    | none => rfl
    | some b =>
        have hne : b ≠ a := by
          intro heq
          subst heq
          exact hn (Option.some.inj (hmarked.numOf.symm.trans (h.entry_eq_some.mp hentry).2))
        simp [filledIn, setBuffer, Function.update_of_ne hne]

/-- The `Buffer` found before is not the new one. -/
theorem steady_filledIn : (r.filledIn num a ft).Steady none (some r.fresh) where
  toListed := listed_filledIn h hmarked
  unusedNode := by
    intro b hb
    have hlt : a < r.fresh := h.lt_fresh (by simp [hmarked.node])
    have hne : b ≠ a := Nat.ne_of_gt (Nat.lt_of_lt_of_le hlt (Nat.le_of_succ_le hb))
    simpa [filledIn, Function.update_of_ne hne] using h.unusedNode b (Nat.le_of_succ_le hb)
  isFor := by
    intro n p hp
    rw [opened_filledIn h hmarked] at hp
    by_cases hn : num = n
    · rw [if_pos hn, Option.some.injEq] at hp
      subst hp
      exact ⟨Nat.lt_succ_self _, by simp [filledIn, setBuffer, hn]⟩
    · rw [if_neg hn] at hp
      obtain ⟨hlt, hfor⟩ := h.isFor n p hp
      refine ⟨Nat.lt_succ_of_lt hlt, fun bdata hbuffer => hfor bdata ?_⟩
      simpa [filledIn, setBuffer, Function.update_of_ne (Nat.ne_of_lt hlt)] using hbuffer
  full := by
    intro b hb bnode hbnode
    by_cases hba : b = a
    · simp only [filledIn, nodes_setNode, hba, Function.update_self, Option.some.injEq] at hbnode
      simp [← hbnode]
    · have hb := (List.mem_append.mp hb).resolve_right (by simpa using hba)
      simp only [filledIn, nodes_setNode, Function.update_of_ne hba] at hbnode
      simpa [Ne.symm hba] using h.full b hb bnode hbnode
  filled := by
    intro n p hp bdata hbuffer
    rw [opened_filledIn h hmarked] at hp
    by_cases hn : num = n
    · rw [if_pos hn] at hp
      exact Or.inr hp
    · rw [if_neg hn] at hp
      have hne := Nat.ne_of_lt (h.isFor n p hp).1
      simp only [filledIn, buffers_setNode, setBuffer, Function.update_of_ne hne] at hbuffer
      exact (h.filled n p hp bdata hbuffer).imp_right (by simp)

/-- A node that is not listed is freed again, if the file type is not wanted. -/
theorem Marked.finish_unwanted {ftname : BString} (hft : fts.wanted (some ftname) = none)
    (hnew : a ∉ r.bufferList) :
    ∃ r', r.finishOpening fts a (some ftname) = .ok (r, none) ∧ r.settle a none = .ok r' ∧
      r'.Steady none none ∧ r.Alike r' := by
  let r' := { r with nodes := Function.update r.nodes a none }
  have hold : ∀ b ∈ r.bufferList, b ≠ a := fun b hb hba => hnew (hba ▸ hb)
  have halike : r.Alike r' := {
    bufferList := rfl
    nodes := fun b hb => Function.update_of_ne (hold b hb) _ _
    fresh := Nat.le_refl _
    unusedNode := fun hunused b hb => by
      by_cases hba : b = a
      · simp [r', hba]
      · exact (Function.update_of_ne hba _ _).trans (hunused b hb)
    buffers := (Alike.refl r).buffers }
  have hsteady := halike.steady h
  refine ⟨r', ?_, ?_, { hsteady with full := fun b hb bnode hbnode => ?_ }, halike⟩
  · simp [finishOpening, node_eq_ok.mpr hmarked.node, hft]
  · simp [settle, freeNode, node_eq_ok.mpr hmarked.node, r']
  · have hne : a ≠ b := fun hab => hold b hb hab.symm
    simpa [hne] using hsteady.full b hb bnode hbnode

end Marked

/-! ### The locks on the way

A look-up takes the lock of each node that it passes.  So it cannot pass the node that is being
opened, and whoever gets to the entry of that number waits.
-/

/-- A look-up passes the lock of the entry it finds. -/
theorem entry_mem_walked {num a : Nat} (hentry : r.entry num = some a) :
    a ∈ r.walked num := by
  suffices hwalk : ∀ l : List Nat, l.find? (fun b => r.numOf b = some num) = some a →
      a ∈ l.takeWhile (fun b => decide (r.numOf b ≠ some num)) ++
        (l.dropWhile fun b => decide (r.numOf b ≠ some num)).take 1 from hwalk _ hentry
  intro l hfind
  induction l with
  | nil => simp at hfind
  | cons b rest ih =>
      by_cases hb : r.numOf b = some num
      · simp only [hb, decide_true, List.find?_cons_of_pos, Option.some.injEq] at hfind
        subst hfind
        simp [hb]
      · simp only [hb, decide_false, Bool.false_eq_true, not_false_eq_true,
          List.find?_cons_of_neg] at hfind
        simp only [hb, ne_eq, not_false_eq_true, decide_true, List.takeWhile_cons_of_pos,
          List.dropWhile_cons_of_pos, List.cons_append]
        exact List.mem_cons_of_mem _ (ih hfind)

end Registry

namespace Attach

open Registry

/-! ### What the event handlers decide

A handler looks at the current buffer once, and decides: to attach it if it is not open, and to
ask for the file type if it is.  What it has seen may be out of date when it goes on, but only in
ways that do no harm: a `Buffer` can have been closed in between, and none can have been opened.
-/

/-- What a decision tells about the current buffer. -/
def Decision.Fits (r : Registry) (num : Nat) : Decision → Prop
  | .finished => True
  | .attach => r.opened num = none
  | .filetype p => r.opened num = some p

variable {r : Registry} {prev : Option Nat} {num : Nat} {event : VimlEvent} {d : Decision}

/-- An open buffer has its lines whenever `event_buffer_changed` looks, so it is left alone. -/
theorem eventBufferChanged_fits_first (h : r.Steady none none)
    (hd : eventBufferChanged r none num = .ok d) : d.Fits r num := by
  unfold eventBufferChanged at hd
  rw [h.findBuffer, Fault.ok_bind, if_neg (by simp)] at hd
  cases hnum : r.opened num with
  | none =>
      rw [hnum] at hd
      exact Except.ok.inj hd ▸ hnum
  | some p =>
      rw [hnum] at hd
      obtain ⟨bdata, hbuffer, hd⟩ := Fault.bind_eq_ok.mp hd
      have hinit := h.filled num p hnum bdata (buffer_eq_ok.mp hbuffer)
      rw [hinit.resolve_right (by simp), if_pos rfl] at hd
      exact Except.ok.inj hd ▸ trivial

/-- What is done about the previous buffer makes no difference. -/
theorem eventBufferChanged_fits (h : r.Steady none none)
    (hd : eventBufferChanged r prev num = .ok d) : d.Fits r num := by
  by_cases hsame : prev = some num ∧ (r.opened num).isSome
  · unfold eventBufferChanged at hd
    rw [h.findBuffer, Fault.ok_bind, if_pos hsame] at hd
    exact Except.ok.inj hd ▸ trivial
  · cases prev with
    | none => exact eventBufferChanged_fits_first h hd
    | some prev =>
        refine eventBufferChanged_fits_first h ?_
        unfold eventBufferChanged at hd ⊢
        rw [h.findBuffer, Fault.ok_bind, if_neg hsame] at hd
        rw [h.findBuffer, Fault.ok_bind, if_neg (by simp)]
        dsimp only at hd
        rw [h.findBuffer, Fault.ok_bind] at hd
        cases hprev : r.opened prev with
        | none =>
            rw [hprev] at hd
            exact hd
        | some q =>
            rw [hprev] at hd
            obtain ⟨_, -, hd⟩ := Fault.bind_eq_ok.mp hd
            exact hd

theorem decision_fits (h : r.Steady none none) (hd : decision r prev num event = .ok d) :
    d.Fits r num := by
  cases event with
  | bufNew => exact eventBufferChanged_fits h hd
  | bufChanged => exact eventBufferChanged_fits h hd
  | syntaxChanged =>
      simp only [decision, eventSyntaxChanged, h.findBuffer, Fault.ok_bind] at hd
      cases hnum : r.opened num <;> rw [hnum] at hd <;> obtain rfl := Except.ok.inj hd
      · trivial
      · exact hnum
  | updateTags =>
      simp only [decision, eventWantUpdate, h.findBuffer, h.haveSeenBufnum, Fault.ok_bind] at hd
      cases hnum : r.opened num <;> rw [hnum] at hd <;> obtain rfl := Except.ok.inj hd
      · by_cases hseen : (r.entry num).isSome <;> simp [hseen, Decision.Fits, hnum]
      · trivial
  | updateTagsForce =>
      simp only [decision, eventForceUpdate, h.findBuffer, Fault.ok_bind] at hd
      cases hnum : r.opened num <;> rw [hnum] at hd <;> obtain rfl := Except.ok.inj hd
      · exact hnum
      · trivial
  | clearBuffer =>
      simp only [decision, eventClearBuffer, h.findBuffer, Fault.ok_bind] at hd
      exact Except.ok.inj hd ▸ trivial

/-! ### The invariant

The part for the thread says, for each place where it may stand, what it knows of the registry
there.  The part for Neovim says that what is attached is known, or is just being opened again;
and while there is an event on its way, only the first is allowed.
-/

namespace Autocmd

/-- The node that the thread is opening. -/
def marked : Option Autocmd → Option Nat
  | some (.opening _ a) => some a
  | _ => none

/-- The `Buffer` that the thread has made and not filled yet. -/
def unfilled : Option Autocmd → Option Nat
  | some (.attaching _ p) | some (.loading _ p) => some p
  | _ => none

/-- What the thread knows of the registry where it stands. -/
def Fits (r : Registry) : Option Autocmd → Prop
  | some (.comparing num p) | some (.closing num p) => r.IsFor p num
  | some (.freeing num _) | some (.attach num) => r.opened num = none
  | some (.opening num a) => r.Marked num a
  | _ => True

end Autocmd

namespace Session

structure Inv (s : Session) : Prop where
  steady : s.reg.Steady (Autocmd.marked s.autocmd) (Autocmd.unfilled s.autocmd)
  fits : Autocmd.Fits s.reg s.autocmd
  /-- An attached buffer is known, or about to be known again. -/
  attached : ∀ n, s.attached n = true →
    s.reg.opened n ≠ none ∨ Autocmd.Reopening n s.autocmd ∧ s.reg.entry n ≠ none
  asked : ∀ n, s.query = some (.attach n) →
    s.reg.opened n ≠ none ∧ ∃ p, s.autocmd = some (.attaching n p)
  coming : ∀ n, s.Coming n → s.reg.opened n ≠ none
  notFatal : ∀ m, s.outcome = .uninitialized m → ∀ n, m ≠ .lines n ∧ m ≠ .changedtick n

variable {s s' : Session} {fts : Filetypes}

theorem Inv.survives (h : Inv s) : Survives s where
  notFatal := h.notFatal
  known := by
    intro n hcoming
    obtain ⟨p, hp⟩ := Option.ne_none_iff_exists'.mp (h.coming n hcoming)
    exact ⟨p, by rw [h.steady.findBuffer, hp]⟩

theorem inv_start : Inv start where
  steady := steady_empty
  fits := trivial
  attached := by simp [start]
  asked := by simp [start]
  coming := by simp [start, Coming]
  notFatal := by simp [start]

/-! ### Steps that leave the registry's entries alone -/

/-- The thread goes on with the same entries, and nothing new is on its way. -/
theorem Inv.goOn (h : Inv s) {before : Option Autocmd} (hbefore : s.autocmd = before)
    (hreg : s.reg.Alike s'.reg)
    (hmarked : Autocmd.marked before = Autocmd.marked s'.autocmd)
    (hunfilled : Autocmd.unfilled before = Autocmd.unfilled s'.autocmd)
    (hfits : Autocmd.Fits s'.reg s'.autocmd)
    (hreopening : ∀ n, Autocmd.Reopening n before → Autocmd.Reopening n s'.autocmd)
    (hattached : s'.attached = s.attached)
    (hasked : ∀ n, s'.query ≠ some (.attach n))
    (hcoming : ∀ n, s'.Coming n → s.Coming n)
    (hout : ∀ m, s'.outcome = .uninitialized m → s.outcome = .uninitialized m) : Inv s' where
  steady := hmarked ▸ hunfilled ▸ hbefore ▸ hreg.steady h.steady
  fits := hfits
  attached := by
    intro n hn
    rw [hreg.opened h.steady, hreg.entry h.steady]
    exact (h.attached n (hattached ▸ hn)).imp_right fun hin =>
      ⟨hreopening n (hbefore ▸ hin.1), hin.2⟩
  asked := fun n hn => absurd hn (hasked n)
  coming := by
    intro n hn
    rw [hreg.opened h.steady]
    exact h.coming n (hcoming n hn)
  notFatal := fun m hm => h.notFatal m (hout m hm)

/-- Steps of the others: of Neovim, the event loop or a destroyer. -/
theorem Inv.others (h : Inv s) (hreg : s.reg.Alike s'.reg) (hnodes : s'.reg.nodes = s.reg.nodes)
    (hautocmd : s'.autocmd = s.autocmd)
    (hattached : ∀ n, s'.attached n = true →
      s.attached n = true ∨ s.query = some (.attach n))
    (hasked : ∀ n, s'.query = some (.attach n) → s.query = some (.attach n))
    (hcoming : ∀ n, s'.Coming n → s.Coming n ∨ s.attached n = true ∧
      ¬ Autocmd.Reopening n s.autocmd)
    (hout : ∀ m, s'.outcome = .uninitialized m → s.outcome = .uninitialized m ∨
      ∀ n, m ≠ .lines n ∧ m ≠ .changedtick n) : Inv s' where
  steady := hautocmd ▸ hreg.steady h.steady
  fits := by
    rw [hautocmd]
    have hfits := h.fits
    cases hs : s.autocmd with
    | none => trivial
    | some autocmd =>
        rw [hs] at hfits
        cases autocmd with
        | current | attaching | loading => trivial
        | comparing | closing => exact hreg.isFor hfits
        | freeing | attach => exact (hreg.opened h.steady _).trans hfits
        | opening num a =>
            refine ⟨hnodes ▸ hfits.node, ?_⟩
            rw [hreg.bufferList, hreg.entry h.steady]
            exact hfits.place
  attached := by
    intro n hn
    rw [hreg.opened h.steady, hreg.entry h.steady, hautocmd]
    rcases hattached n hn with hn | hn
    · exact h.attached n hn
    · exact Or.inl (h.asked n hn).1
  asked := by
    intro n hn
    rw [hreg.opened h.steady, hautocmd]
    exact h.asked n (hasked n hn)
  coming := by
    intro n hn
    rw [hreg.opened h.steady]
    rcases hcoming n hn with hn | ⟨hn, hnot⟩
    · exact h.coming n hn
    · exact (h.attached n hn).resolve_right fun hin => hnot hin.1
  notFatal := fun m hm => (hout m hm).elim (h.notFatal m) id

/-- Steps that change nothing the invariant is about. -/
theorem Inv.same (h : Inv s) (hreg : s'.reg = s.reg) (hautocmd : s'.autocmd = s.autocmd)
    (hattached : s'.attached = s.attached) (hquery : s'.query = s.query)
    (hwire : s'.wire = s.wire)
    (hout : ∀ m, s'.outcome = .uninitialized m → s.outcome = .uninitialized m) : Inv s' :=
  h.others (hreg ▸ Alike.refl _) (by rw [hreg]) hautocmd (fun n hn => Or.inl (hattached ▸ hn))
    (fun n hn => hquery ▸ hn) (fun n hn => Or.inl (by rwa [Coming, hwire] at hn))
    (fun m hm => Or.inl (hout m hm))

/-- A computation on the registry keeps the invariant if it does where it succeeds. -/
theorem Inv.after (h : Inv s) {α : Type} {x : Except Fault α} {next : α → Session}
    (hnext : ∀ a, x = .ok a → Inv (next a)) : Inv (s.after x next) := by
  cases x with
  | error f => exact h.same rfl rfl rfl rfl rfl (by simp [Session.after])
  | ok a => exact hnext a rfl

/-! ### Steps of Neovim

Neovim may tell of an edit whenever it is attached, so an event may come to be on its way at any
time but while its buffer is being opened again.  That is the first half of the condition.
-/

theorem Inv.send (h : Inv s) {m : Message}
    (hm : ∀ n, m = .lines n ∨ m = .changedtick n →
      s.attached n = true ∧ ¬ Autocmd.Reopening n s.autocmd) :
    Inv { s with wire := s.wire ++ [m] } := by
  refine h.others (Alike.refl _) rfl rfl (fun _ => Or.inl) (fun _ => id) ?_ (fun _ => Or.inl)
  intro n hn
  simp only [Coming, List.mem_append, List.mem_singleton] at hn
  rcases hn with (hn | hn) | (hn | hn)
  · exact Or.inl (Or.inl hn)
  · exact Or.inr (hm n (Or.inl hn.symm))
  · exact Or.inl (Or.inr hn)
  · exact Or.inr (hm n (Or.inr hn.symm))

theorem Inv.report (h : Inv s) {num : Nat} {m : Message}
    (hm : ∀ n, m = .lines n ∨ m = .changedtick n →
      n = num ∧ ¬ Autocmd.Reopening num s.autocmd)
    (hstep : s.report num m = some s') : Inv s' := by
  obtain ⟨hattached, hs'⟩ := Option.ite_none_right_eq_some.mp hstep
  obtain rfl := Option.some.inj hs'
  exact h.send fun n hn => by
    obtain ⟨rfl, hnot⟩ := hm n hn
    exact ⟨hattached, hnot⟩

theorem Inv.detached (h : Inv s) (num : Nat) :
    Inv { s with attached := Function.update s.attached num false } := by
  refine h.others (Alike.refl _) rfl rfl (fun n hn => Or.inl ?_) (fun _ => id) (fun _ => Or.inl)
    (fun _ => Or.inl)
  by_cases hnum : n = num
  · simp [hnum] at hn
  · simpa [Function.update_of_ne hnum] using hn

theorem Inv.answerQuery (h : Inv s) (hstep : s.answerQuery = some s') : Inv s' := by
  have hsent : ∀ answer, Inv { s with wire := s.wire ++ [.response answer] } := fun answer =>
    h.send (by simp)
  unfold Session.answerQuery at hstep
  cases hquery : s.query with
  | none => simp [hquery] at hstep
  | some query =>
      rw [hquery] at hstep
      cases query with
      | attach num =>
          obtain rfl := Option.some.inj hstep
          refine (hsent .done).others (Alike.refl _) rfl rfl (fun n hn => ?_) (by simp)
            (fun _ => Or.inl) (fun _ => Or.inl)
          by_cases hnum : n = num
          · exact Or.inr (hnum ▸ hquery)
          · exact Or.inl (by simpa [Function.update_of_ne hnum] using hn)
      | currentBuf | filetype | lines =>
          obtain rfl := Option.some.inj hstep
          exact (hsent _).others (Alike.refl _) rfl rfl (fun _ => Or.inl) (by simp)
            (fun _ => Or.inl) (fun _ => Or.inl)

/-! ### Steps of the event loop -/

theorem Inv.handleBufferUpdate (h : Inv s) {filled : Bool} {p : Nat}
    (hupdate : s.handleBufferUpdate filled p = .ok s') : Inv s' := by
  obtain ⟨bdata, hbuffer, hs'⟩ := Fault.bind_eq_ok.mp hupdate
  obtain rfl := Except.ok.inj hs'
  refine h.others (Alike.setBuffer (buffer_eq_ok.mp hbuffer) rfl fun hinit => ?_) rfl rfl
    (fun _ => Or.inl) (fun _ => id) (fun _ => Or.inl) (fun _ => Or.inl)
  simp [hinit]

/-- An event for a buffer that is known is handled; one that may be fatal is for such a buffer. -/
theorem Inv.handleBufferEvent (h : Inv s) {m : Message} {num : Nat}
    {handle : Nat → Except Fault Session}
    (hm : s.reg.opened num = none → ∀ n, m ≠ .lines n ∧ m ≠ .changedtick n)
    (hhandle : ∀ p t, handle p = .ok t → Inv t)
    (hstep : s.handleBufferEvent m num handle = some s') : Inv s' := by
  obtain ⟨-, hs'⟩ := Option.ite_none_left_eq_some.mp hstep
  obtain rfl := Option.some.inj hs'
  refine h.after fun found hfound => ?_
  rw [h.steady.findBuffer, Except.ok.injEq] at hfound
  cases found with
  | none =>
      refine h.others (Alike.refl _) rfl rfl (fun _ => Or.inl) (fun _ => id) (fun _ => Or.inl) ?_
      intro m' hm'
      exact Or.inr (Outcome.uninitialized.inj hm' ▸ hm hfound)
  | some p => exact h.after fun t ht => hhandle p t ht

theorem Inv.loop (h : Inv s) {empty : Bool} (hstep : s.loop empty = some s') : Inv s' := by
  unfold Session.loop at hstep
  cases hwire : s.wire with
  | nil => simp [hwire] at hstep
  | cons m rest =>
      rw [hwire] at hstep
      have hrest : Inv { s with wire := rest } :=
        h.others (Alike.refl _) rfl rfl (fun _ => Or.inl) (fun _ => id)
          (fun n hn => Or.inl (by
            simp only [Coming, hwire, List.mem_cons] at hn ⊢
            exact hn.imp Or.inr Or.inr)) (fun _ => Or.inl)
      cases m with
      | lines num =>
          refine hrest.handleBufferEvent (fun hnone => absurd hnone ?_)
            (fun p t => hrest.handleBufferUpdate) hstep
          exact h.coming num (Or.inl (by simp [hwire]))
      | changedtick num =>
          refine hrest.handleBufferEvent (fun hnone => absurd hnone ?_)
            (fun p t => hrest.handleBufferUpdate) hstep
          exact h.coming num (Or.inr (by simp [hwire]))
      | detach num =>
          refine hrest.handleBufferEvent (fun _ n => ⟨by simp, by simp⟩) (fun p t ht => ?_) hstep
          exact Except.ok.inj ht ▸ hrest.same rfl rfl rfl rfl rfl fun _ => id
      | update event =>
          obtain rfl := Option.some.inj hstep
          exact hrest.same rfl rfl rfl rfl rfl fun _ => id
      | response answer =>
          obtain rfl := Option.some.inj hstep
          exact hrest.same rfl rfl rfl rfl rfl fun _ => id

/-! ### Steps of the thread with `autocmd_mutex`

Each step is from one place to the next, and what the thread knows in the new place follows from
what it knew and what it has done.  Where it closes a node, nothing may be on its way for the
buffer, and where it has opened one that has an entry, the file type must be wanted; these are the
conditions for the thread.
-/

theorem Inv.not_asked (h : Inv s) (hautocmd : ∀ n p, s.autocmd ≠ some (.attaching n p)) (n : Nat) :
    s.query ≠ some (.attach n) := fun hn =>
  let ⟨p, hp⟩ := (h.asked n hn).2
  hautocmd n p hp

theorem Inv.lock (h : Inv s) {i : Nat} (hstep : s.lock i = some s') : Inv s' := by
  unfold Session.lock at hstep
  split at hstep
  case h_1 event hautocmd _ =>
    obtain rfl := Option.some.inj hstep
    exact h.goOn hautocmd (Alike.refl _) rfl rfl trivial (fun _ => False.elim) rfl (by simp)
      (fun _ => id) (fun _ => id)
  case h_2 => simp at hstep

section Thread

variable {num a p : Nat}

theorem Inv.decide (h : Inv s) {event : VimlEvent} (hautocmd : s.autocmd = some (.current event))
    {d : Decision} (hd : d.Fits s.reg num) : Inv (s.decide num d) := by
  have hasked := h.not_asked (by simp [hautocmd])
  cases d with
  | finished =>
      exact h.goOn hautocmd (Alike.refl _) rfl rfl trivial (fun _ => False.elim) rfl hasked
        (fun _ => id) (fun _ => id)
  | attach =>
      exact h.goOn hautocmd (Alike.refl _) rfl rfl hd (fun _ => False.elim) rfl hasked
        (fun _ => id) (fun _ => id)
  | filetype p =>
      exact h.goOn hautocmd (Alike.refl _) rfl rfl (h.steady.isFor num p hd)
        (fun _ => False.elim) rfl (by simp [Session.decide]) (fun _ => id) (fun _ => id)

theorem Inv.comparing (h : Inv s) (hautocmd : s.autocmd = some (.comparing num p)) {ft : BString}
    (bdata : Bufdata) :
    Inv (if ft = bdata.ft then { s with autocmd := none }
      else { s with autocmd := some (.closing num p) }) := by
  have hasked := h.not_asked (by simp [hautocmd])
  have hfits := h.fits
  rw [hautocmd] at hfits
  split
  · exact h.goOn hautocmd (Alike.refl _) rfl rfl trivial (fun _ => False.elim) rfl hasked
      (fun _ => id) (fun _ => id)
  · exact h.goOn hautocmd (Alike.refl _) rfl rfl hfits (fun _ => False.elim) rfl hasked
      (fun _ => id) (fun _ => id)

/-- The `Buffer` of the node that the thread closes is the one it asked about. -/
theorem Inv.closing (h : Inv s) (hautocmd : s.autocmd = some (.closing num p))
    (hquiet : s.Quiet p) {r : Registry} (hclose : s.reg.closeBuffer p = .ok r) :
    Inv { s with reg := r, autocmd := some (.freeing num p) } := by
  have hsteady := h.steady
  have hfits := h.fits
  rw [hautocmd] at hsteady hfits
  obtain ⟨bdata, a, hbuffer, hentry, rfl⟩ := hsteady.closeBuffer_eq hclose
  obtain rfl : bdata.num = num := hfits.2 bdata hbuffer
  have hopened := opened_shut (p := p) hsteady hentry
  exact {
    steady := hsteady.shut hentry hbuffer
    fits := by simp [Autocmd.Fits, hopened]
    attached := by
      intro n hn
      rw [hopened, entry_shut hsteady hentry]
      by_cases hnum : bdata.num = n
      · exact Or.inr ⟨hnum, by simp [← hnum, hentry]⟩
      · rw [if_neg hnum]
        exact (h.attached n hn).imp_right fun hin => by simp [hautocmd, Autocmd.Reopening] at hin
    asked := fun n hn => absurd hn (h.not_asked (by simp [hautocmd]) n)
    coming := by
      intro n hn
      have hnum : bdata.num ≠ n := fun hnum => hquiet bdata hbuffer (hnum ▸ hn)
      rw [hopened, if_neg hnum]
      exact h.coming n hn
    notFatal := h.notFatal }

theorem Inv.freeing (h : Inv s) (hautocmd : s.autocmd = some (.freeing num p)) {r : Registry}
    (hfinish : s.reg.finishDestroy p = .ok r) :
    Inv { s with reg := r, autocmd := some (.attach num) } := by
  have hfits := h.fits
  rw [hautocmd] at hfits
  rw [finishDestroy_eq_ok hfinish]
  have halike : s.reg.Alike (s.reg.freeBuffer p) := Alike.freeBuffer p
  exact h.goOn hautocmd halike rfl rfl ((halike.opened h.steady num).trans hfits) (fun _ => id) rfl
    (h.not_asked (by simp [hautocmd])) (fun _ => id) (fun _ => id)

theorem Inv.attach (h : Inv s) (hautocmd : s.autocmd = some (.attach num))
    (hstart : s.startNewBuffer num = .ok s') : Inv s' := by
  have hsteady := h.steady
  have hfits := h.fits
  rw [hautocmd] at hsteady hfits
  obtain ⟨mid, a, r, hnode, hopening, hmarked⟩ := hsteady.mark hfits
  simp only [Session.startNewBuffer, hnode, hopening, Fault.ok_bind, if_true,
    Except.ok.injEq] at hstart
  obtain rfl := hstart
  exact {
    steady := hmarked.steady
    fits := hmarked.marked
    attached := by
      intro n hn
      rw [hmarked.opened, hmarked.entry]
      have hin := h.attached n hn
      rw [hautocmd] at hin
      exact hin
    asked := by simp
    coming := by
      intro n hn
      rw [hmarked.opened]
      exact h.coming n hn
    notFatal := h.notFatal }

/-- The new `Buffer` is in place before Neovim is asked to attach. -/
theorem Inv.opening (h : Inv s) (hautocmd : s.autocmd = some (.opening num a)) {ft : BString}
    (hwanted : a ∈ s.reg.bufferList → fts.wanted (some ft) ≠ none)
    (hfinish : s.finishNewBuffer fts num a ft = .ok s') : Inv s' := by
  have hsteady := h.steady
  have hmarked := h.fits
  rw [hautocmd] at hsteady hmarked
  cases hft : fts.wanted (some ft) with
  | none =>
      have hnew : a ∉ s.reg.bufferList := fun ha => hwanted ha hft
      obtain ⟨r, hfinishOpening, hsettle, hreg, halike⟩ :=
        hmarked.finish_unwanted hsteady hft hnew
      simp only [Session.finishNewBuffer, hfinishOpening, hsettle, Fault.ok_bind,
        Except.ok.injEq] at hfinish
      obtain rfl := hfinish
      exact {
        steady := hreg
        fits := trivial
        attached := by
          intro n hn
          rw [halike.opened hsteady]
          refine Or.inl ((h.attached n hn).resolve_right ?_)
          intro hand
          obtain ⟨hin, hentry⟩ := hand
          rw [hautocmd] at hin
          obtain rfl : num = n := hin
          exact hentry (hmarked.place.resolve_left hnew)
        asked := fun n hn => absurd hn (h.not_asked (by simp [hautocmd]) n)
        coming := by
          intro n hn
          rw [halike.opened hsteady]
          exact h.coming n hn
        notFatal := h.notFatal }
  | some ft' =>
      obtain ⟨mid, hfinishOpening, hsettle⟩ := hmarked.finish_wanted hft
      simp only [Session.finishNewBuffer, hfinishOpening, hsettle, Fault.ok_bind,
        Except.ok.injEq] at hfinish
      obtain rfl := hfinish
      have hopened : ∀ n, (s.reg.filledIn num a ft').opened n =
          if num = n then some s.reg.fresh else s.reg.opened n := opened_filledIn hsteady hmarked
      have hkept : ∀ n, s.reg.opened n ≠ none → (s.reg.filledIn num a ft').opened n ≠ none := by
        intro n hn
        rw [hopened]
        split
        · simp
        · exact hn
      exact {
        steady := steady_filledIn hsteady hmarked
        fits := trivial
        attached := by
          intro n hn
          refine Or.inl ((h.attached n hn).elim (hkept n) fun hin => ?_)
          rw [hautocmd] at hin
          obtain rfl : num = n := hin.1
          simp [hopened]
        asked := by
          intro n hn
          obtain rfl : num = n := by simpa using hn
          exact ⟨by simp [hopened], _, rfl⟩
        coming := fun n hn => hkept n (h.coming n hn)
        notFatal := h.notFatal }

theorem Inv.attaching (h : Inv s) (hautocmd : s.autocmd = some (.attaching num p)) :
    Inv { s with answer := none, autocmd := some (.loading num p), query := some (.lines num) } :=
  h.goOn hautocmd (Alike.refl _) rfl rfl trivial (fun _ => False.elim) rfl (by simp)
    (fun _ => id) (fun _ => id)

/-- The thread is done with a new `Buffer` once that has its lines, or was freed. -/
theorem Inv.loaded (h : Inv s) (hautocmd : s.autocmd = some (.loading num p))
    (hfilled : ∀ bdata, s.reg.buffers p = some bdata → bdata.initialized = true) :
    Inv { s with answer := none, autocmd := none } := by
  have hsteady := h.steady
  rw [hautocmd] at hsteady
  exact {
    steady := { hsteady with
      filled := by
        intro n q hq bdata hbuffer
        rcases hsteady.filled n q hq bdata hbuffer with hinit | hnew
        · exact Or.inl hinit
        · obtain rfl : p = q := Option.some.inj hnew
          exact Or.inl (hfilled bdata hbuffer) }
    fits := trivial
    attached := by
      intro n hn
      refine (h.attached n hn).imp_right fun hin => ?_
      simp [hautocmd, Autocmd.Reopening] at hin
    asked := fun n hn => absurd hn (h.not_asked (by simp [hautocmd]) n)
    coming := h.coming
    notFatal := h.notFatal }

theorem Inv.loading (h : Inv s) (hautocmd : s.autocmd = some (.loading num p)) :
    let done : Session := { s with answer := none, autocmd := none }
    Inv (done.after (done.handleBufferUpdate true p) id) := by
  cases hbuffer : s.reg.buffers p with
  | none =>
      have hdone := h.loaded hautocmd (by simp [hbuffer])
      refine hdone.after fun t ht => ?_
      obtain ⟨bdata, hbdata, -⟩ := Fault.bind_eq_ok.mp ht
      simp [buffer, hbuffer] at hbdata
  | some bdata =>
      let r := s.reg.setBuffer p { bdata with initialized := true }
      have hupdate : s.handleBufferUpdate true p = .ok { s with reg := r } := by
        simp [Session.handleBufferUpdate, buffer_eq_ok.mpr hbuffer, r]
      have hdone := (h.handleBufferUpdate hupdate).loaded hautocmd (by simp [r, setBuffer])
      simpa [Session.after, Session.handleBufferUpdate, buffer_eq_ok.mpr hbuffer] using hdone

end Thread

theorem Inv.autocmdStep (h : Inv s) (hok : s.AutocmdInStep fts s.autocmd)
    (hstep : s.autocmdStep fts = some s') : Inv s' := by
  have hanswered : Inv { s with answer := none } := h.same rfl rfl rfl rfl rfl fun _ => id
  unfold Session.autocmdStep at hstep
  split at hstep
  case h_1 event num hautocmd _ =>
    obtain rfl := Option.some.inj hstep
    have hsteady := h.steady
    rw [hautocmd] at hsteady
    refine hanswered.after fun d hd => ?_
    have hfits := decision_fits hsteady hd
    split
    · exact hanswered.decide hautocmd hfits
    · exact Inv.decide (s := { s with answer := none, previous := some num })
        (h.same rfl rfl rfl rfl rfl fun _ => id) hautocmd hfits
  case h_2 num p ft hautocmd _ =>
    obtain rfl := Option.some.inj hstep
    exact hanswered.after fun bdata _ => hanswered.comparing hautocmd bdata
  case h_3 num p hautocmd =>
    obtain rfl := Option.some.inj hstep
    rw [hautocmd] at hok
    exact h.after fun r hclose => h.closing hautocmd hok hclose
  case h_4 num p hautocmd =>
    obtain rfl := Option.some.inj hstep
    exact h.after fun r hfinish => h.freeing hautocmd hfinish
  case h_5 num hautocmd =>
    obtain rfl := Option.some.inj hstep
    exact h.after fun t hstart => h.attach hautocmd hstart
  case h_6 num a ft hautocmd hanswer =>
    obtain rfl := Option.some.inj hstep
    rw [hautocmd] at hok
    refine hanswered.after fun t hfinish => hanswered.opening hautocmd (fun ha => ?_) hfinish
    exact hok ha ft (by simp [reported, hanswer])
  case h_7 num p hautocmd _ =>
    obtain rfl := Option.some.inj hstep
    exact h.attaching hautocmd
  case h_8 num p hautocmd _ =>
    obtain rfl := Option.some.inj hstep
    exact h.loading hautocmd
  case h_9 => simp at hstep

/-! ### Steps of the destroyers

These threads work without the mutex, so a node may be closed while the thread with the mutex
stands anywhere.  It is never the node that this one is opening, for that is locked.
-/

theorem ne_of_not_blocked {num n a b : Nat} (hblocked : s.blocked num = false)
    (hautocmd : s.autocmd = some (.opening n a)) (hentry : s.reg.entry num = some b) : a ≠ b := by
  intro heq
  subst heq
  simp only [blocked, hautocmd, List.contains_eq_mem, decide_eq_false_iff_not] at hblocked
  exact hblocked (entry_mem_walked hentry)

/-- The node of a buffer that Neovim has let go is closed behind the thread's back. -/
theorem Inv.destroy (h : Inv s) {p : Nat} {bdata : Bufdata} (hbuffer : s.reg.buffers p = some bdata)
    (hblocked : s.blocked bdata.num = false) (hquiet : s.Quiet p) (hletGo : s.LetGo p)
    {r : Registry} (hclose : s.reg.closeBuffer p = .ok r) : Inv { s with reg := r } := by
  have hsteady := h.steady
  obtain ⟨bdata', a, hbuffer', hentry, rfl⟩ := hsteady.closeBuffer_eq hclose
  obtain rfl : bdata = bdata' := Option.some.inj (hbuffer.symm.trans hbuffer')
  obtain ⟨hnotAttached, hnotAsked⟩ := hletGo bdata hbuffer
  have hopened := opened_shut (p := p) hsteady hentry
  have hkept : ∀ n, bdata.num ≠ n → s.reg.opened n ≠ none →
      (s.reg.shut a p bdata).opened n ≠ none := fun n hne hn => by rwa [hopened, if_neg hne]
  have hclosed : ∀ n, s.reg.opened n = none → (s.reg.shut a p bdata).opened n = none := by
    intro n hn
    simp [hopened, hn]
  exact {
    steady := hsteady.shut hentry hbuffer
    fits := by
      have hfits := h.fits
      show Autocmd.Fits _ s.autocmd
      cases hautocmd : s.autocmd with
      | none => trivial
      | some autocmd =>
          rw [hautocmd] at hfits
          cases autocmd with
          | current | attaching | loading => trivial
          | comparing | closing => exact isFor_shut hbuffer hfits
          | freeing | attach => exact hclosed _ hfits
          | opening num b =>
              have hba := ne_of_not_blocked hblocked hautocmd hentry
              refine ⟨(Function.update_of_ne hba _ _).trans hfits.node, ?_⟩
              rw [entry_shut hsteady hentry]
              exact hfits.place
    attached := by
      intro n hn
      rw [entry_shut hsteady hentry]
      refine (h.attached n hn).imp_left (hkept n ?_)
      intro heq
      subst heq
      exact absurd hn (by simp [hnotAttached])
    asked := by
      intro n hn
      obtain ⟨hsome, hp⟩ := h.asked n hn
      exact ⟨hkept n (fun hnum => hnotAsked (hnum ▸ hn)) hsome, hp⟩
    coming := fun n hn =>
      hkept n (fun hnum => hquiet bdata hbuffer (hnum ▸ hn)) (h.coming n hn)
    notFatal := h.notFatal }

theorem Inv.destroyerStep (h : Inv s) {i : Nat}
    (hok : s.DestroyerInStep s.destroyers[i]?)
    (hstep : s.destroyerStep i = some s') : Inv s' := by
  obtain ⟨destroyer, hdestroyer, hstep⟩ := Option.bind_eq_some_iff.mp hstep
  cases destroyer with
  | closing p =>
      rw [hdestroyer] at hok
      obtain ⟨hquiet, hletGo⟩ := hok
      cases hbuffer : s.reg.buffers p with
      | none =>
          simp only [hbuffer, Option.some.injEq] at hstep
          exact hstep ▸ h.same rfl rfl rfl rfl rfl (by simp)
      | some bdata =>
          simp only [hbuffer, Option.ite_none_left_eq_some, Bool.not_eq_true,
            Option.some.injEq] at hstep
          obtain ⟨hblocked, rfl⟩ := hstep
          refine h.after fun r hclose => ?_
          exact (h.destroy hbuffer hblocked hquiet hletGo hclose).same rfl rfl rfl rfl rfl
            fun _ => id
  | freeing p =>
      obtain rfl := Option.some.inj hstep
      refine h.after fun r hfinish => ?_
      rw [finishDestroy_eq_ok hfinish]
      exact h.others (Alike.freeBuffer p) rfl rfl (fun _ => Or.inl) (fun _ => id)
        (fun _ => Or.inl) (fun _ => Or.inl)

/-! ### Whole runs -/

theorem Inv.step (h : Inv s) {action : Action} (hok : InStep fts s action)
    (hstep : s.step fts action = some s') : Inv s' := by
  obtain ⟨-, hstep⟩ := Option.ite_none_right_eq_some.mp hstep
  cases action with
  | switchTo num =>
      obtain rfl := Option.some.inj hstep
      exact h.same rfl rfl rfl rfl rfl fun _ => id
  | setFiletype num ft =>
      obtain rfl := Option.some.inj hstep
      exact h.same rfl rfl rfl rfl rfl fun _ => id
  | vimEvent event =>
      obtain rfl := Option.some.inj hstep
      exact h.send (by simp)
  | edit num =>
      refine h.report (fun n hn => ?_) hstep
      exact ⟨by simpa [eq_comm] using hn, hok⟩
  | tick num =>
      refine h.report (fun n hn => ?_) hstep
      exact ⟨by simpa [eq_comm] using hn, hok⟩
  | detach num =>
      obtain ⟨t, ht, hs'⟩ := Option.bind_eq_some_iff.mp hstep
      obtain rfl := Option.some.inj hs'
      exact (h.report (by simp) ht).detached num
  | answer => exact h.answerQuery hstep
  | loop empty => exact h.loop hstep
  | lock i => exact h.lock hstep
  | autocmd => exact h.autocmdStep hok hstep
  | destroyer i => exact h.destroyerStep hok hstep

end Session

/--
**An event of an attached buffer does not end the plugin**, whatever else happens in
whatever order, in a run in which Neovim and the plugin stay in step.
-/
theorem survives_of_inStep {fts : Filetypes} {s : Session}
    (h : (attachSystem fts).Reached (InStep fts) s) : Survives s :=
  Session.Inv.survives (h.invariant Session.inv_start fun _ _ _ hinv hok hstep =>
    hinv.step hok hstep)

/-- C and C++ files are highlighted. -/
def cAndCpp : Filetypes := { ftdata := [[99], [99, 112, 112]], ignoredFtypes := [] }

/-- A C buffer is opened, attached and read. -/
def opened : List Action :=
  [.setFiletype 0 [99], .vimEvent .bufNew, .loop true, .lock 0, .answer, .loop true, .autocmd,
    .autocmd, .answer, .loop true, .autocmd, .answer, .loop true, .autocmd, .answer, .loop true,
    .autocmd]

/-- It becomes a C++ buffer, and the plugin has just closed its node. -/
def closing : List Action :=
  opened ++ [.setFiletype 0 [99, 112, 112], .vimEvent .syntaxChanged, .loop true, .lock 0,
    .answer, .loop true, .autocmd, .answer, .loop true, .autocmd, .autocmd]

/-- The plugin opens it again, and the user edits it then. -/
def editAfterReopening : List Action :=
  closing ++ [.autocmd, .autocmd, .answer, .loop true, .autocmd, .edit 0, .loop false]

theorem survives_editAfterReopening :
    ∃ s, (attachSystem cAndCpp).run (attachSystem cAndCpp).init editAfterReopening = some s ∧
      Survives s := by
  have hmeets : (attachSystem cAndCpp).Meets (InStep cAndCpp) (attachSystem cAndCpp).init
      editAfterReopening := by
    decide
  exact ⟨_, rfl, survives_of_inStep (TransitionSystem.Reached.init.run hmeets rfl)⟩

/-- The user edits it before the plugin has opened it again. -/
def editWhileReopening : List Action := closing ++ [.edit 0, .loop false]

/-- Neovim is attached all the time, but the plugin finds no `Buffer` for the lines event. -/
theorem editWhileReopening_fatal :
    ¬ (attachSystem cAndCpp).Throughout Survives (attachSystem cAndCpp).init
      editWhileReopening := by
  intro h
  exact ((h.last rfl).notFatal (.lines 0) rfl 0).1 rfl

end Attach

end TagHighlight
