/-
A list stands for its sequence throughout any run of calls.

Each call is one case of `Rep.call`: the position of the node argument splits the cells
there, and the lemma about the operation says what comes of the two parts.  The run
theorem is then the induction over the calls.

What a call gets for a node is a position, or NULL.  `Proofs/Util/LinkedList` has a lemma for each
operation at a node of the list, and the position says which node it is; so the work here is to
find the node, and to see that the operation on the cells is the one on the sequence.
-/
import TagHighlight.Util.Sequence
import TagHighlight.Proofs.Util.LinkedList

namespace TagHighlight

open DList

variable {α : Type}

theorem represents_makeNew : Represents (llMakeNew : LinkedList α) [] :=
  ⟨[], ⟨trivial, rfl, rfl, rfl, List.nodup_nil, fun _ _ => rfl⟩, rfl⟩

/-- A position inside the list splits its cells, and `nodeAt` finds the node there. -/
theorem Rep.nodeAt_some {l : LinkedList α} {cells : List (Nat × α)} {k : Nat} (h : Rep l cells)
    (hk : k < cells.length) : ∃ pre c post, cells = pre ++ c :: post ∧ pre.length = k ∧
      nodeAt l (some k) = .ok (some c.1) := by
  obtain ⟨pre, c, post, rfl, rfl, -⟩ := Rep.split_at hk
  refine ⟨pre, c, post, rfl, rfl, ?_⟩
  rw [nodeAt, h.head]
  exact walkNext_spec pre h.chain

/-- The node argument of a call, as a place in the cells of the list. -/
theorem Rep.nodeArg {l : LinkedList α} {cells : List (Nat × α)} {node : Option Nat} (h : Rep l cells)
    (hnode : NodeArg node (vals cells)) :
    (node = none ∧ cells = []) ∨ ∃ pre c post, cells = pre ++ c :: post ∧
      node = some pre.length ∧ nodeAt l node = .ok (some c.1) := by
  cases node with
  | none => exact Or.inl ⟨rfl, by simpa [NodeArg, vals] using hnode⟩
  | some k =>
      obtain ⟨pre, c, post, hcells, hk, hat⟩ := h.nodeAt_some (k := k) (by simpa [NodeArg] using hnode)
      exact Or.inr ⟨pre, c, post, hcells, by rw [hk], hat⟩

/-! ### The sequence operations at a split

The operations on sequences are written with indices, and those on lists with nodes.  At the split
of the cells where the node stands, both say the same.
-/

theorem insertAt_vals (pre post : List (Nat × α)) (ds : List α) :
    insertAt pre.length ds (vals (pre ++ post)) = vals pre ++ ds ++ vals post := by
  rw [insertAt, ← vals_length pre, vals_append, List.take_left, List.drop_left]

theorem insertAt_behind_vals (pre post : List (Nat × α)) (c : Nat × α) (ds : List α) :
    insertAt (behind (some pre.length)) ds (vals (pre ++ c :: post)) =
      vals pre ++ c.2 :: ds ++ vals post := by
  have := insertAt_vals (pre ++ [c]) post ds
  simpa [behind] using this

theorem delete_vals (pre post : List (Nat × α)) (n : Nat) :
    (vals (pre ++ post)).take pre.length ++ (vals (pre ++ post)).drop (pre.length + n) =
      vals (pre ++ post.drop n) := by
  rw [← vals_length pre, vals_append, List.take_left, List.drop_length_add_append, vals_append,
    vals, vals, vals, List.map_drop]

theorem slice_of_sliceArg {blist : BList α} {start stop : Int} (h : SliceArg blist start stop) :
    ∃ x, Rep.SliceArgs blist start stop x (blist.slice start stop).reduceOption := by
  obtain ⟨h0, hlt, hle, hnone⟩ := h
  obtain ⟨x, hx⟩ := Int.eq_ofNat_of_zero_le h0
  have hlen : (blist.slice start stop).length =
      (resolveNegativeIndex stop blist.length - resolveNegativeIndex start blist.length).toNat := by
    simp only [BList.slice, List.length_take, List.length_drop]
    omega
  have hsome : ∀ e ∈ blist.slice start stop, e.isSome := fun e he => by
    cases e with
    | none => exact absurd he hnone
    | some d => rfl
  have hred : (blist.slice start stop).reduceOption.length = (blist.slice start stop).length :=
    List.reduceOption_length_eq_iff.mpr hsome
  have hmap : (blist.slice start stop).reduceOption.map some = blist.slice start stop := by
    generalize blist.slice start stop = es at hsome
    induction es with
    | nil => rfl
    | cons e es ih =>
        obtain ⟨d, rfl⟩ := Option.isSome_iff_exists.mp (hsome e (by simp))
        simp [List.reduceOption_cons_of_some, ih fun e' he' => hsome e' (by simp [he'])]
  refine ⟨x, hx, by omega, ?_, by omega, fun i hi => ?_⟩
  · intro hnil
    rw [hnil] at hred
    simp at hred
    omega
  · have hget : (blist.slice start stop)[i]? =
        (((blist.slice start stop).reduceOption.map some))[i]? := by rw [hmap]
    rw [List.getElem?_map, List.getElem?_eq_getElem hi] at hget
    rw [List.getElem?_eq_getElem hi, ← Option.map_some, ← hget]
    simp only [BList.slice, hx]
    rw [List.getElem?_take_of_lt (by omega), List.getElem?_drop]
    simp

/-! ### One call and a run of calls

A call that is refused is one with a node that is not of the list, and such calls are not asked
for.  For all others the list that is returned stands for the new sequence, so the next call can
be made on it.
-/

/-- **One call** on a list does to its sequence what the operation says. -/
theorem Represents.call {l : LinkedList α} {s : List α} {op : SeqOp α} (h : Represents l s)
    (hargs : op.ArgsOk s) (hgiven : op.NodeGiven) :
    ∃ l', op.call l = .ok l' ∧ Represents l' (op.apply s) := by
  obtain ⟨cells, hrep, rfl⟩ := h
  cases op with
  | prepend data =>
      obtain ⟨l', hrun, hrep'⟩ := hrep.prepend data
      exact ⟨l', hrun, _, hrep', by simp [SeqOp.apply, insertAt]⟩
  | append data =>
      obtain ⟨l', hrun, hrep'⟩ := hrep.append data
      refine ⟨l', hrun, _, hrep', ?_⟩
      have := insertAt_vals cells [] [data]
      simpa [SeqOp.apply] using this.symm
  | insertAfter node data =>
      rcases hrep.nodeArg hargs with ⟨rfl, rfl⟩ | ⟨pre, c, post, rfl, rfl, hat⟩
      · obtain ⟨l', hrun, hrep'⟩ := hrep.insertAfter_nil data
        exact ⟨l', by simpa [SeqOp.call, nodeAt] using hrun, _, hrep', rfl⟩
      · obtain ⟨l', hrun, hrep'⟩ := hrep.insertAfter data
        refine ⟨l', by simpa [SeqOp.call, hat] using hrun, _, hrep', ?_⟩
        rw [SeqOp.apply, insertAt_behind_vals]
        simp
  | insertBefore node data =>
      rcases hrep.nodeArg hargs with ⟨rfl, rfl⟩ | ⟨pre, c, post, rfl, rfl, hat⟩
      · obtain ⟨l', hrun, hrep'⟩ := hrep.insertBefore_nil data
        exact ⟨l', by simpa [SeqOp.call, nodeAt] using hrun, _, hrep', rfl⟩
      · obtain ⟨l', hrun, hrep'⟩ := hrep.insertBefore data
        refine ⟨l', by simpa [SeqOp.call, hat] using hrun, _, hrep', ?_⟩
        rw [SeqOp.apply, Option.getD_some, insertAt_vals]
        simp
  | insertBlistAfter node blist start stop =>
      obtain ⟨x, hslice⟩ := slice_of_sliceArg hargs.2
      rcases hrep.nodeArg hargs.1 with ⟨rfl, rfl⟩ | ⟨pre, c, post, rfl, rfl, hat⟩
      · obtain ⟨l', blist', hrun, hrep'⟩ := hrep.insertBlistAfter_nil hslice
        exact ⟨l', by simp [SeqOp.call, nodeAt, hrun], _, hrep', by simp [SeqOp.apply, insertAt]⟩
      · obtain ⟨l', blist', hrun, hrep'⟩ := hrep.insertBlistAfter hslice
        refine ⟨l', by simp [SeqOp.call, hat, hrun], _, hrep', ?_⟩
        rw [SeqOp.apply, insertAt_behind_vals]
        simp
  | insertBlistBefore node blist start stop =>
      obtain ⟨x, hslice⟩ := slice_of_sliceArg hargs.2
      rcases hrep.nodeArg hargs.1 with ⟨rfl, rfl⟩ | ⟨pre, c, post, rfl, rfl, hat⟩
      · obtain ⟨l', blist', hrun, hrep'⟩ := hrep.insertBlistBefore_nil hslice
        exact ⟨l', by simp [SeqOp.call, nodeAt, hrun], _, hrep', by simp [SeqOp.apply, insertAt]⟩
      · obtain ⟨l', blist', hrun, hrep'⟩ := hrep.insertBlistBefore hslice
        refine ⟨l', by simp [SeqOp.call, hat, hrun], _, hrep', ?_⟩
        rw [SeqOp.apply, Option.getD_some, insertAt_vals]
        simp
  | deleteNode node =>
      rcases hrep.nodeArg hargs with ⟨rfl, rfl⟩ | ⟨pre, c, post, rfl, rfl, hat⟩
      · exact absurd rfl hgiven
      · obtain ⟨l', hrun, hrep'⟩ := hrep.deleteNode
        refine ⟨l', by simpa [SeqOp.call, hat] using hrun, _, hrep', ?_⟩
        exact (delete_vals pre (c :: post) 1).symm
  | deleteRange node range =>
      obtain ⟨n, rfl⟩ := Int.eq_ofNat_of_zero_le hargs.2
      rcases hrep.nodeArg hargs.1 with ⟨rfl, rfl⟩ | ⟨pre, c, post, rfl, rfl, hat⟩
      · obtain ⟨l', hrun, hrep'⟩ := hrep.deleteRange_nil n (by
          intro heq
          subst heq
          exact absurd rfl (hgiven rfl))
        exact ⟨l', by simpa [SeqOp.call, nodeAt] using hrun, _, hrep', by simp [SeqOp.apply]⟩
      · obtain ⟨l', hrun, hrep'⟩ := hrep.deleteRange n
        refine ⟨l', by simpa [SeqOp.call, hat] using hrun, _, hrep', ?_⟩
        exact (delete_vals pre (c :: post) n).symm

/-- A run of calls, from any list that stands for a sequence. -/
theorem Represents.callAll : ∀ {ops : List (SeqOp α)} {l : LinkedList α} {s : List α},
    Represents l s → EveryCall (fun op s => op.ArgsOk s ∧ op.NodeGiven) ops s →
    ∃ l', callAll ops l = .ok l' ∧ Represents l' (applyAll ops s) := by
  intro ops
  induction ops with
  | nil => intro l s h _; exact ⟨l, rfl, h⟩
  | cons op ops ih =>
      intro l s h hall
      obtain ⟨⟨hargs, hgiven⟩, hrest⟩ := hall
      obtain ⟨l1, hcall, h1⟩ := h.call hargs hgiven
      obtain ⟨l', hrun, h'⟩ := ih h1 hrest
      exact ⟨l', by simp only [TagHighlight.callAll, hcall, Fault.ok_bind, hrun], h'⟩

/--
**The list is the sequence.**  Any run of calls from `ll_make_new` returns, and leaves a
well-formed list that holds what the same calls make of the empty sequence, as long as
every call names a node of the list or NULL on an empty one, and never asks to delete
NULL.
-/
theorem callAll_represents (ops : List (SeqOp α))
    (h : EveryCall (fun op s => op.ArgsOk s ∧ op.NodeGiven) ops []) :
    ∃ l cells, callAll ops llMakeNew = .ok l ∧ Rep l cells ∧ vals cells = applyAll ops [] := by
  obtain ⟨l, hrun, cells, hrep, hvals⟩ := represents_makeNew.callAll h
  exact ⟨l, cells, hrun, hrep, hvals⟩

/-- Building up a list of three and cutting it short. -/
theorem callAll_represents_three :
    ∃ l cells, callAll [.append 'a', .insertBlistAfter (some 0) [some 'b', some 'c'] 0 (-1),
      .deleteRange (some 1) 5] llMakeNew = .ok l ∧ Rep l cells ∧ vals cells = ['a'] :=
  callAll_represents
    [.append 'a', .insertBlistAfter (some 0) [some 'b', some 'c'] 0 (-1), .deleteRange (some 1) 5]
    (by
      simp [EveryCall, SeqOp.ArgsOk, SeqOp.NodeGiven, SeqOp.apply, NodeArg, SliceArg,
        BList.slice, resolveNegativeIndex, insertAt, behind])

/--
On an empty list NULL is no node to delete: `ll_delete_range` asserts it, and
`ll_delete_node` follows it.
-/
theorem delete_null_faults : EveryCall SeqOp.ArgsOk [.deleteRange none 1] ([] : List Char) ∧
    callAll [.deleteRange none 1] (llMakeNew : LinkedList Char) = .error (.assertion "at") ∧
    EveryCall SeqOp.ArgsOk [.deleteNode none] ([] : List Char) ∧
    callAll [.deleteNode none] (llMakeNew : LinkedList Char) = .error .undefined :=
  ⟨⟨⟨rfl, by decide⟩, trivial⟩, rfl, ⟨rfl, trivial⟩, rfl⟩

end TagHighlight
