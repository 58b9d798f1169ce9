/-
`handle_line_event` of `event_handlers.c`: the plugin's copy of a buffer's lines.

Neovim reports every edit as "lines `first` to `last` are now these strings".  The
handler applies that to the linked list of lines, in one of five ways, picked by the
shape of the event.

The lock the handler holds, and the freeing of the strings that are left over, do not
show at this level.
-/
import TagHighlight.Util.LinkedList
import TagHighlight.Util.BString

namespace TagHighlight

/-- The part of a `Buffer` that `handle_line_event` works on. -/
structure Buffer where
  lines : LinkedList BString
  initialized : Bool

/-- The elements 2 to 5 of an `nvim_buf_lines_event`. -/
structure LineEvent where
  first : Int
  last : Int
  newStrings : BList BString
  more : Bool

def replaceLine (lines : LinkedList BString) (newStrings : BList BString) (lineno : Int)
    (index : Nat) : Except Fault (LinkedList BString × BList BString) := do
  let node ← llAt lines lineno
  let (data, newStrings) ← newStrings.move index
  let mem ← lines.mem.writeData node data
  .ok ({ lines with mem := mem }, newStrings)

/--
The loop of `line_event_multi_op`, with `count` rounds left before `i` reaches
`num_lines`.  `olen` is the number of lines the buffer had at the start.
-/
def multiOpLoop (first olen : Int) : (count i : Nat) → (numToModify : Int) →
    LinkedList BString → BList BString → Except Fault (LinkedList BString)
  | 0, _, _, lines, _ => .ok lines
  | count + 1, i, numToModify, lines, newStrings => do
      let index := first + i
      if numToModify > 0 ∧ (i : Int) < olen then
        let numToModify := numToModify - 1
        if i < newStrings.length then
          let (lines, newStrings) ← replaceLine lines newStrings index i
          multiOpLoop first olen count (i + 1) numToModify lines newStrings
        else
          llDeleteRangeAt lines index (numToModify + 1)
      else if first + i ≥ lines.qty then
        return (← llInsertBlistAfterAt lines index newStrings i (-1)).1
      else
        return (← llInsertBlistBeforeAt lines index newStrings i (-1)).1

def lineEventMultiOp (lines : LinkedList BString) (newStrings : BList BString)
    (first numToModify : Int) : Except Fault (LinkedList BString) :=
  let numLines := max numToModify newStrings.length
  multiOpLoop first lines.qty numLines.toNat 0 numToModify lines newStrings

/-- `new_strings->qty == 1 && new_strings->lst[0]->slen == 0`. -/
def oneEmptyString (newStrings : BList BString) : Bool := newStrings == [some []]

/--
The branches of `handle_line_event`: what becomes of the lines, and whether the event is
taken for an empty one.
-/
def editLines (lines : LinkedList BString) (ev : LineEvent) :
    Except Fault (LinkedList BString × Bool) := do
  let diff := ev.last - ev.first
  if ev.newStrings.length ≠ 0 then
    if ev.last = -1 then
      .error (.errx 1 "Got initial update somehow...")
    else if lines.qty ≤ 1 ∧ ev.first = 0 ∧ oneEmptyString ev.newStrings then
      -- One empty string for an empty buffer changes nothing.
      .ok (lines, true)
    else if ev.first = 0 ∧ ev.last = 0 then
      return ((← llInsertBlistBeforeAt lines ev.first ev.newStrings 0 (-1)).1, false)
    else
      return (← lineEventMultiOp lines ev.newStrings ev.first diff, false)
  else if ev.first ≠ ev.last then
    return (← llDeleteRangeAt lines ev.first diff, false)
  else
    .ok (lines, false)

/-- `handle_line_event`; the `bool` it returns says that the event was ignored. -/
def handleLineEvent (bdata : Buffer) (ev : LineEvent) : Except Fault (Buffer × Bool) := do
  if ev.more then
    .error (.errx 1 "Error: Continuation condition is unexpectedly true, cannot continue.")
  let (lines, empty) ← editLines bdata.lines ev
  let lines ← if lines.qty = 0 then llAppend lines [] else .ok lines
  .ok ({ lines := lines, initialized := bdata.initialized || !empty }, empty)

/-! ### What Neovim does -/

/-- An edit of a buffer: lines `first` to `last` become `newStrings`. -/
structure Edit where
  first : Nat
  last : Nat
  newStrings : List BString

/-- The notification Neovim sends for an edit. -/
def Edit.event (e : Edit) : LineEvent :=
  { first := e.first, last := e.last, newStrings := e.newStrings.map some, more := false }

/-- The edit is one of a buffer with the lines `s`. -/
def Edit.Valid (e : Edit) (s : List BString) : Prop := e.first ≤ e.last ∧ e.last ≤ s.length

/-- The text after the edit.  A buffer left with no line has one empty line. -/
def nvimEdit (e : Edit) (s : List BString) : List BString :=
  let s := s.take e.first ++ e.newStrings ++ s.drop e.last
  if s = [] then [[]] else s

/-- The text after a number of edits. -/
def nvimEdits : List Edit → List BString → List BString
  | [], s => s
  | e :: edits, s => nvimEdits edits (nvimEdit e s)

/-- Every edit meets `Ok` on the text as the edits before it leave it. -/
def EachEdit (Ok : Edit → List BString → Prop) : List Edit → List BString → Prop
  | [], _ => True
  | e :: edits, s => Ok e s ∧ EachEdit Ok edits (nvimEdit e s)

/-- The notifications for a number of edits, handled one after the other. -/
def handleLineEvents : List Edit → Buffer → Except Fault Buffer
  | [], bdata => .ok bdata
  | e :: edits, bdata => do handleLineEvents edits (← handleLineEvent bdata e.event).1

/--
The edit is not mistaken for a useless one: if it puts one empty string at the top of a
buffer of one line, then it replaces that line and the line is empty already.
-/
def Edit.Told (e : Edit) (s : List BString) : Prop :=
  s.length ≤ 1 ∧ e.first = 0 ∧ e.newStrings = [[]] → e.last = 1 ∧ s = [[]]

end TagHighlight
