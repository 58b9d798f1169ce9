/-
The growing arrays of `util/generic_list.c`.

A list has an array of `mlen` slots, the first `qty` of which are in use.  A slot that nothing
was written to yet reads as NULL here.  Both counts are C `unsigned`.  The items belong to the
callers: they are never NULL, and their own memory is left out.

Whether `talloc` finds the memory for a larger array is up to it, so this is a parameter; the
code gives up where it does not.  What the lists stand for are plain sequences, and a run of
the operations is followed in both.
-/
import TagHighlight.Lib.Fault
import TagHighlight.Lib.TransitionSystem
import Mathlib.Algebra.Group.Nat.Defs

namespace TagHighlight.GenericList

/-- `genlist`. -/
structure Genlist (α : Type) where
  lst : List (Option α)
  qty : Nat
  mlen : Nat
  deriving DecidableEq, Repr

variable {α : Type}

/-- `memmove (&lst[dest], &lst[src], n * sizeof (void *))`. -/
def memmove (lst : List (Option α)) (dest src n : Nat) : List (Option α) :=
  lst.take dest ++ (lst.drop src).take n ++ lst.drop (dest + n)

/-- `talloc_realloc` of the array; what fits of it is kept. -/
def tallocRealloc (lst : List (Option α)) (mlen : Nat) : List (Option α) :=
  lst.take mlen ++ List.replicate (mlen - lst.length) none

/-- `genlist_create_alloc`. -/
def genlistCreateAlloc (msz : Nat) : Genlist α :=
  let size := if msz ≤ 2 then 2 else msz
  { lst := List.replicate size none, qty := 0, mlen := size }

/-- `genlist_create`. -/
def genlistCreate : Genlist α := { lst := [none, none], qty := 0, mlen := 2 }

/--
The array is doubled when all slots but the last are in use; `alloc` says for which numbers of
slots there is memory.
-/
def grow (alloc : Nat → Bool) (list : Genlist α) : Except Fault (Genlist α) :=
  if list.qty ≥ (list.mlen + (2 ^ 32 - 1)) % 2 ^ 32 then
    let mlen := list.mlen * 2 % 2 ^ 32
    if alloc mlen then .ok { list with lst := tallocRealloc list.lst mlen, mlen := mlen }
    else .error (.assertion "ptr != NULL")
  else .ok list

/-- `genlist_append`; a write behind the array is lost. -/
def genlistAppend (alloc : Nat → Bool) (list : Genlist α) (item : α) :
    Except Fault (Genlist α) := do
  let list ← grow alloc list
  .ok { list with lst := list.lst.set list.qty (some item), qty := (list.qty + 1) % 2 ^ 32 }

/-- `genlist_remove`: what it returns, and the list. -/
def genlistRemove [DecidableEq α] (list : Genlist α) (obj : α) : Except Fault (Int × Genlist α) :=
  if list.qty = 0 then .error (.assertion "list->qty > 0")
  else
    match (list.lst.take list.qty).idxOf? (some obj) with
    | none => .ok (-1, list)
    | some i =>
        let lst := list.lst.set i none
        let qty := list.qty - 1
        .ok (0, { list with
          lst := if i ≠ qty ∧ qty > 0 then memmove lst i (i + 1) (qty - i) else lst
          qty := qty })

/-- `genlist_remove_index`. -/
def genlistRemoveIndex (list : Genlist α) (index : Nat) : Except Fault (Genlist α) :=
  if index ≥ list.qty then .error .abort
  else
    let lst := list.lst.set index none
    let qty := list.qty - 1
    .ok { list with
      lst := if index = qty then memmove lst index (index + 1) (qty - index) else lst
      qty := qty }

/-- `genlist_copy`; `cpy i` makes what the `i`-th call of the function makes of an item. -/
def genlistCopy (list : Genlist α) (cpy : Nat → Option α → α) : Genlist α :=
  let ret : Genlist α := genlistCreateAlloc list.qty
  { ret with
    lst := ((list.lst.take list.qty).mapIdx fun i item => some (cpy i item)) ++
      ret.lst.drop list.qty
    qty := list.qty }

/-- `genlist_pop`: the item, and the list. -/
def genlistPop (list : Genlist α) : Except Fault (Option α × Genlist α) :=
  if list.qty = 0 then .error .abort
  else
    let qty := list.qty - 1
    .ok (list.lst.getD qty none, { list with lst := list.lst.set qty none, qty := qty })

/-- `genlist_dequeue`: the item, and the list. -/
def genlistDequeue (list : Genlist α) : Except Fault (Option α × Genlist α) :=
  if list.qty = 0 then .error .abort
  else
    let lst := list.lst.set 0 none
    .ok (list.lst.getD 0 none,
      { list with
        lst := if list.qty > 1 then memmove lst 0 1 (list.qty - 1) else lst
        qty := list.qty - 1 })

/-! ### Lists and sequences -/

/-- What changes a list. -/
inductive Op (α : Type) where
  | append (item : α)
  | remove (obj : α)
  | removeIndex (index : Nat)
  | pop
  | dequeue

/-- The list after a call. -/
def Op.apply [DecidableEq α] (alloc : Nat → Bool) (op : Op α) (list : Genlist α) :
    Except Fault (Genlist α) :=
  match op with
  | .append item => genlistAppend alloc list item
  | .remove obj => (genlistRemove list obj).map Prod.snd
  | .removeIndex index => genlistRemoveIndex list index
  | .pop => (genlistPop list).map Prod.snd
  | .dequeue => (genlistDequeue list).map Prod.snd

/-- The same on a plain sequence. -/
def Op.onSequence [DecidableEq α] : Op α → List α → List α
  | .append item, xs => xs ++ [item]
  | .remove obj, xs => xs.erase obj
  | .removeIndex index, xs => xs.eraseIdx index
  | .pop, xs => xs.dropLast
  | .dequeue, xs => xs.tail

/-- A call: on which of the lists, and of which function. -/
inductive Call (α : Type) where
  | on (list : Nat) (op : Op α)
  | copy (list : Nat) (cpy : Nat → Option α → α)

/-- The lists there are, each with the sequence that it should stand for. -/
abbrev Lists (α : Type) := List (Genlist α × List α)

/-- One call; a copy becomes the last of the lists. -/
def Call.step [DecidableEq α] (alloc : Nat → Bool) (s : Lists α) : Call α → Option (Lists α)
  | .on k op => do
      let (list, xs) ← s[k]?
      let list ← (op.apply alloc list).toOption
      some (s.set k (list, op.onSequence xs))
  | .copy k cpy => do
      let (list, xs) ← s[k]?
      some (s ++ [(genlistCopy list cpy, xs.mapIdx fun i x => cpy i (some x))])

/-- Calls one after the other, with one new list at the start. -/
def listSystem (α : Type) [DecidableEq α] (alloc : Nat → Bool) :
    TransitionSystem (Lists α) (Call α) where
  init := [(genlistCreate, [])]
  step := Call.step alloc

/-- The slots in use are the sequence, and they are slots of the array. -/
def IsContents (list : Genlist α) (xs : List α) : Prop :=
  list.lst.take list.qty = xs.map some ∧ list.qty ≤ list.mlen

/-- So it is for all lists. -/
def AllContents (s : Lists α) : Prop := ∀ p ∈ s, IsContents p.1 p.2

/-- Only a last item is removed by its index, and the array is only doubled while its length
fits `unsigned`. -/
def Op.WithinReach (list : Genlist α) : Op α → Prop
  | .removeIndex index => index + 1 = list.qty
  | .append _ => list.qty + 1 < list.mlen ∨ list.mlen < 2 ^ 31
  | _ => True

/-- So it is for the list that is called. -/
def Call.WithinReach (s : Lists α) : Call α → Prop
  | .on k op => ∀ p, s[k]? = some p → op.WithinReach p.1
  | .copy _ _ => True

end TagHighlight.GenericList
