/-
What a list keeps whatever it is asked to do.

The other lemmas about the list ask for a node of the list, or for NULL where it is
empty.  The lines of a buffer get indices that mean nothing to them as long as they have
not been read: a lookup then gives NULL or the wrong node, and a call that returns may
leave the chain in pieces.  Two things hold all the same.  Nothing is allocated beyond
`brk`, and the count is not negative.
-/
import TagHighlight.Util.LinkedList

namespace TagHighlight

open DList Fault

variable {α : Type}

/-- `talloc` hands out free addresses only, and the count is none that no list has. -/
structure Sound (l : LinkedList α) : Prop where
  fresh : l.mem.FreeFrom l.brk
  qty : 0 ≤ l.qty

namespace Sound

variable {l : LinkedList α}

theorem makeNew : Sound (llMakeNew : LinkedList α) := ⟨fun _ _ => rfl, Int.le_refl 0⟩

/-! ### Inserting

A new node is written to an address that is free, and `brk` moves on; all other writes go through
pointers to nodes that have to be there for the call to return.  So nothing behind `brk` is ever
written to.
-/

theorem append (h : Sound l) (data : α) :
    Yields (llAppend l data) fun l' => Sound l' ∧ l'.qty = l.qty + 1 := by
  unfold llAppend
  exact (h.fresh.store _).writeNext? _ _ |>.bind fun mem hmem =>
    yields_ok ⟨⟨hmem, Int.le_add_one h.qty⟩, rfl⟩

theorem insertAfter (h : Sound l) (atNode : Option Nat) (data : α) :
    Yields (llInsertAfter l atNode data) Sound := by
  unfold llInsertAfter
  refine yields_bind fun next => ?_
  refine (h.fresh.store _).writeNext? _ _ |>.bind fun mem hmem => ?_
  refine hmem.writePrev? _ _ |>.bind fun mem hmem => ?_
  refine yields_bind fun after => yields_ite (fun _ => ?_) fun _ => yields_error _
  exact yields_ok ⟨hmem, Int.le_add_one h.qty⟩

theorem insertBefore (h : Sound l) (atNode : Option Nat) (data : α) :
    Yields (llInsertBefore l atNode data) Sound := by
  unfold llInsertBefore
  refine yields_bind fun prev => ?_
  refine (h.fresh.store _).writePrev? _ _ |>.bind fun mem hmem => ?_
  refine hmem.writeNext? _ _ |>.bind fun mem hmem => ?_
  refine yields_bind fun before => yields_ite (fun _ => ?_) fun _ => yields_error _
  exact yields_ok ⟨hmem, Int.le_add_one h.qty⟩

theorem createNodes : ∀ (count x i prev : Nat) {l : LinkedList α} (blist : BList α), Sound l →
    Yields (createNodes count x i prev l blist) fun r => Sound r.1 := by
  intro count
  induction count with
  | zero => intro x i prev l blist h; exact yields_ok h
  | succ count ih =>
      intro x i prev l blist h
      unfold TagHighlight.createNodes
      refine yields_ite (fun _ => yields_error _) fun _ => ?_
      refine yields_ite (fun _ => yields_error _) fun _ => ?_
      refine yields_bind fun moved => ?_
      refine (h.fresh.store _).writeNext _ _ |>.bind fun mem hmem => ?_
      exact ih _ _ _ _ ⟨hmem, Int.le_add_one h.qty⟩

theorem sliceNodes (h : Sound l) (blist : BList α) (start stop : Int) (prev : Option Nat) :
    Yields (sliceNodes l blist start stop prev) fun r => Sound r.1 := by
  unfold TagHighlight.sliceNodes
  refine yields_ite (fun _ => yields_error _) fun _ => yields_bind fun moved => ?_
  refine createNodes _ _ _ _ _ (?_ : Sound _)
  exact ⟨h.fresh.store _, Int.le_add_one h.qty⟩

theorem insertBlistAfter (h : Sound l) (atNode : Option Nat) (blist : BList α) (start stop : Int) :
    Yields (llInsertBlistAfter l atNode blist start stop) fun r => Sound r.1 := by
  unfold llInsertBlistAfter
  refine yields_bind fun _ => yields_ite (fun _ => ?_) fun _ => ?_
  · exact yields_bind fun data => (h.insertAfter atNode data).bind fun l' h' => yields_ok h'
  · refine (h.sliceNodes _ _ _ _).bind fun r hr => yields_bind fun next => ?_
    refine hr.fresh.writeNext _ _ |>.bind fun mem hmem => ?_
    refine hmem.writeNext? _ _ |>.bind fun mem hmem => ?_
    exact hmem.writePrev? _ _ |>.bind fun mem hmem => yields_ok ⟨hmem, hr.qty⟩

theorem insertBlistBefore (h : Sound l) (atNode : Option Nat) (blist : BList α) (start stop : Int) :
    Yields (llInsertBlistBefore l atNode blist start stop) fun r => Sound r.1 := by
  unfold llInsertBlistBefore
  refine yields_bind fun _ => yields_ite (fun _ => ?_) fun _ => ?_
  · exact yields_bind fun data => (h.insertBefore atNode data).bind fun l' h' => yields_ok h'
  · refine (h.sliceNodes _ _ _ _).bind fun r hr => ?_
    refine hr.fresh.writeNext _ _ |>.bind fun mem hmem => yields_bind fun prev => ?_
    refine hmem.writePrev _ _ |>.bind fun mem hmem => ?_
    refine hmem.writePrev? _ _ |>.bind fun mem hmem => ?_
    exact hmem.writeNext? _ _ |>.bind fun mem hmem => yields_ok ⟨hmem, hr.qty⟩

theorem insertBlistAfterAt (h : Sound l) (index : Int) (blist : BList α) (start stop : Int) :
    Yields (llInsertBlistAfterAt l index blist start stop) fun r => Sound r.1 :=
  yields_bind fun node => h.insertBlistAfter node blist start stop

theorem insertBlistBeforeAt (h : Sound l) (index : Int) (blist : BList α) (start stop : Int) :
    Yields (llInsertBlistBeforeAt l index blist start stop) fun r => Sound r.1 :=
  yields_bind fun node => h.insertBlistBefore node blist start stop

/-! ### Deleting

Freeing makes fewer addresses taken, and the count goes down for a node that was there.  The loop
over a range may run out of nodes, and the count is set right behind it.
-/

theorem unlinkNode (h : Sound l) (node : Option Nat) :
    Yields (unlinkNode l node) fun l' => l'.mem.FreeFrom l'.brk ∧ l'.qty = l.qty := by
  unfold TagHighlight.unlinkNode
  refine yields_ite (fun _ => yields_ok ⟨h.fresh, rfl⟩) fun _ => ?_
  refine yields_ite (fun _ => yields_bind fun cur => ?_) fun _ => ?_
  · exact h.fresh.writePrev? _ _ |>.bind fun mem hmem => yields_ok ⟨hmem, rfl⟩
  refine yields_ite (fun _ => yields_bind fun cur => ?_) fun _ => yields_bind fun cur => ?_
  · exact h.fresh.writeNext? _ _ |>.bind fun mem hmem => yields_ok ⟨hmem, rfl⟩
  · refine h.fresh.writeNext _ _ |>.bind fun mem hmem => yields_bind fun cur => ?_
    exact hmem.writePrev _ _ |>.bind fun mem hmem => yields_ok ⟨hmem, rfl⟩

/-- The count says that there is a node to delete. -/
theorem deleteNode (h : Sound l) (hqty : 1 ≤ l.qty) (node : Option Nat) :
    Yields (llDeleteNode l node) Sound := by
  unfold llDeleteNode
  refine (h.unlinkNode node).bind fun l' hl' => ?_
  refine hl'.1.free node |>.bind fun mem hmem => yields_ok ⟨hmem, ?_⟩
  have := hl'.2
  show 0 ≤ l'.qty - 1
  omega

/-- The loop may count below zero, which is mended after it. -/
theorem deleteLoop : ∀ (range : Nat) (current next : Option Nat) {l : LinkedList α},
    l.mem.FreeFrom l.brk →
    Yields (deleteLoop range current next l) fun r => r.1.mem.FreeFrom r.1.brk := by
  intro range
  induction range with
  | zero => intro current next l h; exact yields_ok h
  | succ range ih =>
      intro current next l h
      cases current with
      | none => exact yields_ok h
      | some a =>
          unfold TagHighlight.deleteLoop
          refine yields_bind fun node => ?_
          exact h.free _ |>.bind fun mem hmem => ih _ _ hmem

theorem deleteRangeAt (h : Sound l) (index range : Int) :
    Yields (llDeleteRangeAt l index range) Sound := by
  unfold llDeleteRangeAt
  intro l' hl'
  obtain ⟨node, hat, hl'⟩ := bind_eq_ok.mp hl'
  refine (?_ : Yields (llDeleteRange l node range) Sound) l' hl'
  unfold llDeleteRange
  refine yields_ite (fun _ => yields_ok h) fun _ => yields_ite (fun _ => ?_) fun _ => ?_
  · refine yields_ite (fun _ => yields_error _) fun hnode => h.deleteNode ?_ node
    -- An empty list has no node to be found.
    have hne : l.qty ≠ 0 := by
      intro h0
      rw [llAt, if_pos h0] at hat
      exact hnode (by rw [← Except.ok.inj hat]; rfl)
    have := h.qty
    omega
  · refine yields_bind fun prev => (deleteLoop _ _ _ h.fresh).bind fun r hr => ?_
    have hqty : 0 ≤ if r.1.qty < 0 then 0 else r.1.qty := by
      split <;> omega
    cases node == l.head || l.head.isNone with
    | false =>
        refine hr.writeNext? _ _ |>.bind fun mem hmem => ?_
        exact hmem.writePrev? _ _ |>.bind fun mem hmem => yields_ok ⟨hmem, hqty⟩
    | true =>
        refine hr.writeNext? _ _ |>.bind fun mem hmem => ?_
        exact hmem.writePrev? _ _ |>.bind fun mem hmem => yields_ok ⟨hmem, hqty⟩

end Sound

/-! ### What is inserted is counted

Whatever becomes of the chain, each node that is made is counted.  That is how a list with two
lines or more stays one through the events that come before its text does.
-/

variable {l : LinkedList α}

theorem llInsertAfter_qty (l : LinkedList α) (atNode : Option Nat) (data : α) :
    Yields (llInsertAfter l atNode data) fun l' => l'.qty = l.qty + 1 := by
  unfold llInsertAfter
  refine yields_bind fun next => yields_bind fun mem => yields_bind fun mem => yields_bind fun _ => ?_
  exact yields_ite (fun _ => yields_ok rfl) fun _ => yields_error _

theorem createNodes_qty : ∀ (count x i prev : Nat) (l : LinkedList α) (blist : BList α),
    Yields (createNodes count x i prev l blist) fun r => r.1.qty = l.qty + count := by
  intro count
  induction count with
  | zero => intro x i prev l blist; exact yields_ok (Int.add_zero _).symm
  | succ count ih =>
      intro x i prev l blist
      unfold createNodes
      refine yields_ite (fun _ => yields_error _) fun _ => ?_
      refine yields_ite (fun _ => yields_error _) fun _ => ?_
      refine yields_bind fun moved => yields_bind fun mem => ?_
      intro r hr
      have hqty := ih _ _ _ _ _ r hr
      rw [hqty]
      show l.qty + 1 + count = l.qty + (count + 1 : Nat)
      omega

theorem sliceNodes_qty (l : LinkedList α) (blist : BList α) (start stop : Int) (prev : Option Nat) :
    Yields (sliceNodes l blist start stop prev) fun r => r.1.qty = l.qty + (stop - start) := by
  unfold sliceNodes
  refine yields_ite (fun _ => yields_error _) fun hlt => yields_bind fun moved => ?_
  intro r hr
  have hqty := createNodes_qty _ _ _ _ _ _ r hr
  rw [hqty]
  show l.qty + 1 + _ = _
  omega

/-- All of a string list, put behind any node whatever. -/
theorem llInsertBlistAfter_qty (l : LinkedList α) (atNode : Option Nat) (blist : BList α) :
    Yields (llInsertBlistAfter l atNode blist 0 (-1)) fun r => r.1.qty = l.qty + blist.length := by
  have hstart : resolveNegativeIndex 0 blist.length = 0 := rfl
  have hstop : resolveNegativeIndex (-1) blist.length = blist.length := by
    unfold resolveNegativeIndex
    rw [if_neg (by omega)]
    omega
  unfold llInsertBlistAfter
  rw [hstart, hstop]
  refine yields_bind fun _ => yields_ite (fun hone => ?_) fun hmany => ?_
  · refine yields_bind fun data => (llInsertAfter_qty l atNode data).bind fun l' h' => yields_ok ?_
    rw [h']
    omega
  · refine (sliceNodes_qty l blist 0 blist.length atNode).bind fun r hr => ?_
    refine yields_bind fun next => yields_bind fun mem => ?_
    refine yields_bind fun mem => yields_bind fun mem => yields_ok ?_
    show r.1.qty = _
    omega

end TagHighlight
