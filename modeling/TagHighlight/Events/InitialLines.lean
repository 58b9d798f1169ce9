/-
How a buffer gets its first lines: `attach_new_buffer` and `get_initial_lines`.

The thread that attaches a buffer makes its `Buffer`, asks Neovim for the events of the
buffer and then for its text, and waits for the answer to each.  Neovim sends an event
for every edit from the moment it has answered the first request; the text it answers
the second one with is that of the moment it answers.  All it sends arrives in order, and
the event loop takes one message after the other: an event is applied to whatever lines
the buffer has by then, an answer goes to the thread.

`get_initial_lines` holds `lock.total` from before its request until the text is merged,
and `handle_line_event` takes the same mutex.  What comes after it, the tags and the
highlighting, does not touch the lines.
-/
import TagHighlight.Events.LineEvent
import TagHighlight.Lib.TransitionSystem

namespace TagHighlight

/-- `new_buffer`, as far as the lines go. -/
def newBuffer : Buffer := { lines := llMakeNew, initialized := false }

/-- `get_initial_lines` from the answer `tmp` of `nvim_buf_get_lines` on. -/
def getInitialLines (bdata : Buffer) (tmp : BList BString) : Except Fault Buffer := do
  let lines ← (if bdata.lines.qty = 1 then llDeleteNode bdata.lines bdata.lines.head
    else .ok bdata.lines)
  let (lines, _) ← llInsertBlistAfter lines lines.head tmp 0 (-1)
  .ok { lines := lines, initialized := true }

instance (e : Edit) (s : List BString) : Decidable (e.Valid s) :=
  inferInstanceAs (Decidable (_ ∧ _))

namespace InitialLines

/-- A request that Neovim has not answered. -/
inductive Query where
  | attach
  | getLines
  deriving DecidableEq

/-- What Neovim sends about the buffer. -/
inductive Message where
  | lines (e : Edit)
  | attached
  /-- The answer to `nvim_buf_get_lines`. -/
  | text (tmp : List BString)

/-- Where the thread in `attach_new_buffer` stands. -/
inductive Attacher where
  /-- Before `new_buffer`. -/
  | starting
  | created
  /-- In `nvim_buf_attach`, until its answer is there. -/
  | attaching
  | attached
  /-- In `get_initial_lines`, with `lock.total`. -/
  | locked
  /-- In `nvim_buf_get_lines`, until its answer is there. -/
  | loading
  | loaded (tmp : List BString)
  /-- `get_initial_lines` has returned. -/
  | returned

/-- The thread has `lock.total`. -/
def Attacher.holdsLock : Attacher → Bool
  | .locked | .loading | .loaded _ => true
  | _ => false

structure Session where
  /-- The lines of the buffer in Neovim. -/
  text : List BString
  /-- Neovim sends the events of the buffer. -/
  attached : Bool
  query : Option Query
  wire : List Message
  bdata : Option Buffer
  attacher : Attacher
  /-- What ended the process, if anything has. -/
  fault : Option Fault

inductive Action where
  /-- The buffer is edited in Neovim. -/
  | edit (e : Edit)
  /-- Neovim answers the request. -/
  | answer
  /-- The event loop takes a message. -/
  | loop
  /-- The thread in `attach_new_buffer` goes on. -/
  | attacher

namespace Session

/-- Nothing is known of the buffer, which has the lines `text`. -/
def start (text : List BString) : Session :=
  { text := text, attached := false, query := none, wire := [], bdata := none
    attacher := .starting, fault := none }

/-- The state after a computation that may fail. -/
def after {α : Type} (s : Session) (x : Except Fault α) (next : α → Session) : Session :=
  match x with
  | .error f => { s with fault := some f }
  | .ok a => next a

def edit (s : Session) (e : Edit) : Option Session :=
  if e.Valid s.text then
    some { s with
            text := nvimEdit e s.text
            wire := if s.attached then s.wire ++ [.lines e] else s.wire }
  else
    none

def answer (s : Session) : Option Session :=
  match s.query with
  | none => none
  | some .attach =>
      some { s with query := none, attached := true, wire := s.wire ++ [.attached] }
  | some .getLines => some { s with query := none, wire := s.wire ++ [.text s.text] }

/-- `handle_nvim_notification` for an edit, which waits for `lock.total`. -/
def handleLines (s : Session) (e : Edit) : Option Session :=
  match s.bdata with
  | none => some { s with fault := some (.errx 1 "Update called on uninitialized buffer.") }
  | some bdata =>
      if s.attacher.holdsLock then none
      else
        some (s.after (handleLineEvent bdata e.event) fun r => { s with bdata := some r.1 })

def loop (s : Session) : Option Session :=
  match s.wire with
  | [] => none
  | m :: rest =>
      let s := { s with wire := rest }
      match m, s.attacher with
      | .lines e, _ => s.handleLines e
      | .attached, .attaching => some { s with attacher := .attached }
      | .text tmp, .loading => some { s with attacher := .loaded tmp }
      -- An answer that nobody waits for.
      | _, _ => none

def attacherStep (s : Session) : Option Session :=
  match s.attacher, s.bdata with
  | .starting, _ => some { s with attacher := .created, bdata := some newBuffer }
  | .created, _ => some { s with attacher := .attaching, query := some .attach }
  | .attached, _ => some { s with attacher := .locked }
  | .locked, _ => some { s with attacher := .loading, query := some .getLines }
  | .loaded tmp, some bdata =>
      some (s.after (getInitialLines bdata (tmp.map some)) fun bdata =>
        { s with attacher := .returned, bdata := some bdata })
  | _, _ => none

def step (s : Session) (a : Action) : Option Session :=
  if s.fault.isSome then none
  else
    match a with
    | .edit e => s.edit e
    | .answer => s.answer
    | .loop => s.loop
    | .attacher => s.attacherStep

end Session

/-- A buffer whose lines are `text` when it is attached. -/
def system (text : List BString) : TransitionSystem Session Action :=
  { init := Session.start text, step := Session.step }

end InitialLines

end TagHighlight
