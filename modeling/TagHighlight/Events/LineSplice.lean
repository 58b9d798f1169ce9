/-
`line_event_multi_op` of `event_handlers.c`, on the strings themselves.

`Events.LineEvent` keeps the text of a line, and there a string that is moved and one that
is copied come to the same.  Here a line is what `node->data` points to, whatever that is,
and the array of the new strings is returned as the function leaves it: `talloc_move` takes
a string out of its slot and leaves NULL.  Only the pointer that `ll_insert_after` and
`ll_insert_before` get as an argument is moved from their own copy of it.
-/
import TagHighlight.Events.LineEvent

namespace TagHighlight.LineSplice

variable {α : Type}

def replaceLine (lines : LinkedList α) (newStrings : BList α) (lineno : Int) (index : Nat) :
    Except Fault (LinkedList α × BList α) := do
  let node ← llAt lines lineno
  let (data, newStrings) ← newStrings.move index
  let mem ← lines.mem.writeData node data
  .ok ({ lines with mem := mem }, newStrings)

/-- The loop, with `count` rounds left before `i` reaches `num_lines`. -/
def multiOpLoop (first olen : Int) : (count i : Nat) → (numToModify : Int) →
    LinkedList α → BList α → Except Fault (LinkedList α × BList α)
  | 0, _, _, lines, newStrings => .ok (lines, newStrings)
  | count + 1, i, numToModify, lines, newStrings => do
      let index := first + i
      if numToModify > 0 ∧ (i : Int) < olen then
        let numToModify := numToModify - 1
        if i < newStrings.length then
          let (lines, newStrings) ← replaceLine lines newStrings index i
          multiOpLoop first olen count (i + 1) numToModify lines newStrings
        else
          let lines ← llDeleteRangeAt lines index (numToModify + 1)
          .ok (lines, newStrings)
      else if first + i ≥ lines.qty then
        llInsertBlistAfterAt lines index newStrings i (-1)
      else
        llInsertBlistBeforeAt lines index newStrings i (-1)

def lineEventMultiOp (lines : LinkedList α) (newStrings : BList α) (first numToModify : Int) :
    Except Fault (LinkedList α × BList α) :=
  let numLines := max numToModify newStrings.length
  multiOpLoop first lines.qty numLines.toNat 0 numToModify lines newStrings

/-! ### What is to come of it -/

/-- The lines after lines `first` to `first + diff` of `old` were replaced by `new`. -/
def spliced (old new : List α) (first diff : Nat) : List α :=
  old.take first ++ new ++ old.drop (first + diff)

/--
The slots of the new strings afterwards.  All are NULL, unless one string is left when all
lines are replaced: its slot keeps the pointer.
-/
def slotsAfter (new : List α) (diff : Nat) : BList α :=
  List.replicate (min new.length diff) none ++
    if new.length = diff + 1 then (new.drop diff).map some
    else List.replicate (new.length - diff) none

end TagHighlight.LineSplice
