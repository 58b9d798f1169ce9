/-
The list operations as operations on a plain sequence.

This is what `util/linked_list.c` is for.  A caller that holds a node holds a position
of the sequence; inserting and deleting are then `take` and `drop`.  Nothing here looks
at a pointer: `SeqOp.call` is the only place where a position is turned into the node
standing there, by following `next` from the head as often as it says.
-/
import TagHighlight.Util.LinkedList
import Mathlib.Data.List.ReduceOption

namespace TagHighlight

variable {α : Type}

/--
One call of a list operation.  `node` is the position of the node argument, `none`
standing for NULL.
-/
inductive SeqOp (α : Type) where
  | prepend (data : α)
  | append (data : α)
  | insertAfter (node : Option Nat) (data : α)
  | insertBefore (node : Option Nat) (data : α)
  | insertBlistAfter (node : Option Nat) (blist : BList α) (start stop : Int)
  | insertBlistBefore (node : Option Nat) (blist : BList α) (start stop : Int)
  | deleteNode (node : Option Nat)
  | deleteRange (node : Option Nat) (range : Int)

/-- The entries of `blist` that `start` and `stop` delimit, once resolved. -/
def BList.slice (blist : BList α) (start stop : Int) : List (Option α) :=
  let start := resolveNegativeIndex start blist.length
  let stop := resolveNegativeIndex stop blist.length
  (blist.drop start.toNat).take (stop - start).toNat

/-- `ds` put before position `p`. -/
def insertAt (p : Nat) (ds s : List α) : List α := s.take p ++ ds ++ s.drop p

/-- The position behind a node; NULL stands before everything. -/
def behind : Option Nat → Nat
  | none => 0
  | some k => k + 1

/-- What the call does to the sequence. -/
def SeqOp.apply : SeqOp α → List α → List α
  | .prepend data, s => insertAt 0 [data] s
  | .append data, s => insertAt s.length [data] s
  | .insertAfter node data, s => insertAt (behind node) [data] s
  | .insertBefore node data, s => insertAt (node.getD 0) [data] s
  | .insertBlistAfter node blist start stop, s =>
      insertAt (behind node) (blist.slice start stop).reduceOption s
  | .insertBlistBefore node blist start stop, s =>
      insertAt (node.getD 0) (blist.slice start stop).reduceOption s
  | .deleteNode node, s => s.take (node.getD 0) ++ s.drop (behind node)
  | .deleteRange node range, s => s.take (node.getD 0) ++ s.drop (node.getD 0 + range.toNat)

/-- The node argument is a node of the list, or NULL on an empty list. -/
def NodeArg (node : Option Nat) (s : List α) : Prop :=
  match node with
  | none => s = []
  | some k => k < s.length

/-- The slice arguments delimit at least one entry, all of them still there. -/
def SliceArg (blist : BList α) (start stop : Int) : Prop :=
  0 ≤ resolveNegativeIndex start blist.length ∧
  resolveNegativeIndex start blist.length < resolveNegativeIndex stop blist.length ∧
  resolveNegativeIndex stop blist.length ≤ blist.length ∧
  none ∉ blist.slice start stop

/-- The arguments of the call make sense for the sequence. -/
def SeqOp.ArgsOk : SeqOp α → List α → Prop
  | .prepend _, _ => True
  | .append _, _ => True
  | .insertAfter node _, s => NodeArg node s
  | .insertBefore node _, s => NodeArg node s
  | .insertBlistAfter node blist start stop, s => NodeArg node s ∧ SliceArg blist start stop
  | .insertBlistBefore node blist start stop, s => NodeArg node s ∧ SliceArg blist start stop
  | .deleteNode node, s => NodeArg node s
  | .deleteRange node range, s => NodeArg node s ∧ 0 ≤ range

/-- Deleting a single node is not asked of NULL. -/
def SeqOp.NodeGiven : SeqOp α → Prop
  | .deleteNode node => node ≠ none
  | .deleteRange node range => range = 1 → node ≠ none
  | _ => True

/-- The pointer to the node at a position. -/
def nodeAt (l : LinkedList α) : Option Nat → Except Fault (Option Nat)
  | none => .ok none
  | some k => walkNext l.mem k l.head

/-- The call itself. -/
def SeqOp.call (op : SeqOp α) (l : LinkedList α) : Except Fault (LinkedList α) := do
  match op with
  | .prepend data => llPrepend l data
  | .append data => llAppend l data
  | .insertAfter node data => llInsertAfter l (← nodeAt l node) data
  | .insertBefore node data => llInsertBefore l (← nodeAt l node) data
  | .insertBlistAfter node blist start stop =>
      return (← llInsertBlistAfter l (← nodeAt l node) blist start stop).1
  | .insertBlistBefore node blist start stop =>
      return (← llInsertBlistBefore l (← nodeAt l node) blist start stop).1
  | .deleteNode node => llDeleteNode l (← nodeAt l node)
  | .deleteRange node range => llDeleteRange l (← nodeAt l node) range

/-! ### Sequences of calls -/

/-- The calls one after the other, on the list. -/
def callAll : List (SeqOp α) → LinkedList α → Except Fault (LinkedList α)
  | [], l => .ok l
  | op :: ops, l => do callAll ops (← op.call l)

/-- The calls one after the other, on the sequence. -/
def applyAll : List (SeqOp α) → List α → List α
  | [], s => s
  | op :: ops, s => applyAll ops (op.apply s)

/-- Every call meets `Ok` on the sequence as the calls before it leave it. -/
def EveryCall (Ok : SeqOp α → List α → Prop) : List (SeqOp α) → List α → Prop
  | [], _ => True
  | op :: ops, s => Ok op s ∧ EveryCall Ok ops (op.apply s)

end TagHighlight
