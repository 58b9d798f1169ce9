/-
Highlighting a Go buffer: `highlight_go` of `lang/golang/golang.c`, `golang_send_msg` and
`golang_recv_msg` of `lang/golang/pipe.c`, and the loop of the helper (`go_src/main.go` and
`go_src/pipe.go`) at the other end of the two pipes.

Threads call `highlight_go` for one buffer.  One of them at a time has `lang_mtx`, and it asks the
helper about the text as it is then.  A pipe holds what was written and not read.  A write puts
its bytes there piece by piece, ten of them or fewer at once; a read takes what is there, up to
what was asked for, and waits if there is nothing.

What the helper finds in a text is given with its step.  The lines are kept joined.  `lang_mtx`
and `num_workers` are given back in one step.  The helper never exits, and no call is interrupted.

A call ends with `nvim_call_atomic`, which packs the request and has a thread of its own write it
some time later.  What happens here is that the request is handed over; which of two such threads
writes first is in `NvimApi/AsyncCall`.
-/
import TagHighlight.Lang.GoOutput
import TagHighlight.Lang.Marks
import TagHighlight.Lib.Bytes
import TagHighlight.Lib.TransitionSystem
import Mathlib.Logic.Function.Basic

namespace TagHighlight.Golang

open Ascii Atomic Bytes

/-! ### The helper -/

/-- Where the loop of `main` stands. -/
inductive Helper where
  /-- In `Wait`, with so much of the first eight bytes. -/
  | header (got : BString)
  /-- In `Wait`, with so much of the text. -/
  | message (inlen : Nat) (got : BString)
  /-- In `Update`. -/
  | updating (buf : BString)
  /-- In `WriteOutput`, before the length. -/
  | answering (output : BString)
  /-- In `WriteOutput`, with so much of the output to be written. -/
  | writing (rest : BString)

/-- `"%010d"`. -/
def lenstr (n : Nat) : BString :=
  List.replicate (10 - (decimal n).length) 48 ++ decimal n

/-! ### The program -/

/-- Where a call of `highlight_go` stands. -/
inductive HighlightCall where
  | idle
  /-- `p99_count_inc` has returned. -/
  | counted (cntVal : Nat)
  /-- Before `lang_mtx`. -/
  | waiting
  /-- Before the lines are joined. -/
  | joining
  /-- In `write_buffer`, with so much to be written. -/
  | sending (text rest : BString)
  /-- In `read_pipe`, before the length. -/
  | header (text : BString)
  /-- In the loop of `read_pipe`. -/
  | body (text : BString) (num2read : Nat) (data : BString) (slen : Nat)
  | received (text output : BString)
  | parsed (text : BString) (calls : MpackArgArray)
  /-- With the buffer's `total`, and without `lang_mtx`. -/
  | calling (text : BString) (calls : MpackArgArray)

namespace HighlightCall

/-- It has `lang_mtx`. -/
def hasLang : HighlightCall → Bool
  | .joining | .sending _ _ | .header _ | .body _ _ _ _ | .received _ _ | .parsed _ _ => true
  | .idle | .counted _ | .waiting | .calling _ _ => false

/-- It has `total`. -/
def hasTotal : HighlightCall → Bool
  | .calling _ _ => true
  | _ => false

end HighlightCall

structure GoState where
  /-- The lines of the buffer, joined. -/
  text : BString
  bdata : Buffer
  numWorkers : Nat
  langMtx : Option Nat
  total : Option Nat
  calls : Nat → HighlightCall
  helper : Helper
  toHelper : BString
  fromHelper : BString
  /-- The texts that were joined, and are not empty. -/
  snapshots : List BString
  /-- The texts that were answered, and the answers. -/
  exchanges : List (BString × BString)
  /-- What was handed to `nvim_call_atomic`, and for which text. -/
  handed : List (BString × MpackArgArray)
  failed : Option Fault

inductive GoAction where
  | edit (text : BString)
  | call (t : Nat)
  /-- A thread goes on. -/
  | next (t : Nat)
  /-- `k + 1` bytes are written to the helper. -/
  | write (t k : Nat)
  /-- `parse_go_output`; `hlId` is what `nvim_buf_add_highlight` returns. -/
  | parse (t : Nat) (hlId : Int32)
  /-- The helper goes on. -/
  | helper
  /-- `Update`, with what is then in `Output`. -/
  | update (output : BString)
  /-- The helper writes `k + 1` bytes. -/
  | helperWrite (k : Nat)

/-- The end of a pipe that is read from. -/
def pipeEnd (pipe : BString) : InputStream :=
  { rest := pipe, chunk := fun _ => some pipe.length, calls := 0 }

namespace GoState

def setCall (s : GoState) (t : Nat) (c : HighlightCall) : GoState :=
  { s with calls := Function.update s.calls t c }

def fail (s : GoState) (f : Fault) : GoState := { s with failed := some f }

/-- `p99_count_dec` and `pthread_mutex_unlock (&bdata->lock.lang_mtx)`. -/
def leave (s : GoState) : GoState := { s with numWorkers := s.numWorkers - 1, langMtx := none }

def call (s : GoState) (t : Nat) : Option GoState :=
  match s.calls t with
  | .idle => some ({ s with numWorkers := s.numWorkers + 1 }.setCall t (.counted s.numWorkers))
  | _ => none

/-- `ll_join_bstrings`, and what is done with the text. -/
def join (s : GoState) (t : Nat) : GoState :=
  if s.text = [] then s.leave.setCall t .idle
  else
    { s with snapshots := s.snapshots ++ [s.text] }.setCall t
      (.sending s.text (leBytes 8 s.text.length ++ s.text))

/-- The ten bytes at the start of `read_pipe`. -/
def readHeader (ndebug : Bool) (s : GoState) (t : Nat) (text : BString) : GoState :=
  match (pipeEnd s.fromHelper).read 10 with
  | (none, _) => s.fail (.errx 1 "nread (%lu) != 10")
  | (some buf, fd) =>
      if buf.length ≠ 10 then s.fail (.errx 1 "nread (%lu) != 10")
      else if ndebug = false ∧ (Readers.strtoull buf).2 ≠ 10 then
        s.fail (.errx 1 "Invalid input %d, %s (%s)")
      else
        { s with fromHelper := fd.rest }.setCall t (.body text (Readers.num2readOf buf) [] 0)

/-- The answer is there. -/
def answered (s : GoState) (t : Nat) (text output : BString) : GoState :=
  let s := { s with exchanges := s.exchanges ++ [(text, output)] }
  if output = [] then s.leave.setCall t .idle else s.setCall t (.received text output)

/-- A round of the loop of `read_pipe`. -/
def readBody (s : GoState) (t : Nat) (text : BString) (num2read : Nat) (data : BString)
    (slen : Nat) : GoState :=
  match Readers.bodyRound num2read data slen (pipeEnd s.fromHelper) with
  | .error f => s.fail f
  | .ok (data, slen, fd) =>
      let s := { s with fromHelper := fd.rest }
      if slen = num2read then
        match Readers.terminate num2read data slen fd with
        | .error f => s.fail f
        | .ok (output, _) => s.answered t text output
      else s.setCall t (.body text num2read data slen)

def next (ndebug : Bool) (s : GoState) (t : Nat) : Option GoState :=
  match s.calls t with
  | .counted cntVal =>
      if cntVal > 3 then some ({ s with numWorkers := s.numWorkers - 1 }.setCall t .idle)
      else some (s.setCall t .waiting)
  | .waiting =>
      if s.langMtx = none then some ({ s with langMtx := some t }.setCall t .joining) else none
  | .joining => if s.total = none then some (s.join t) else none
  | .header text => if s.fromHelper = [] then none else some (s.readHeader ndebug t text)
  | .body text num2read data slen =>
      if s.fromHelper = [] ∧ num2read ≠ 0 then none
      else some (s.readBody t text num2read data slen)
  | .parsed text calls =>
      if s.total = none then
        some ({ s.leave with total := some t }.setCall t (.calling text calls))
      else none
  | .calling text calls =>
      some ({ s with handed := s.handed ++ [(text, calls)], total := none }.setCall t .idle)
  | .idle | .sending _ _ | .received _ _ => none

def write (s : GoState) (t k : Nat) : Option GoState :=
  match s.calls t with
  | .sending text rest =>
      let s := { s with toHelper := s.toHelper ++ rest.take (k + 1) }
      some (s.setCall t
        (if rest.drop (k + 1) = [] then .header text else .sending text (rest.drop (k + 1))))
  | _ => none

def parse (lib : Library) (s : GoState) (t : Nat) (hlId : Int32) : Option GoState :=
  match s.calls t with
  | .received text output =>
      match parseGoOutput lib s.bdata hlId (separateAndSort lib output) with
      | .error f => some (s.fail f)
      | .ok calls =>
          let hlId := if s.bdata.hlId = 0 then hlId else s.bdata.hlId
          some ({ s with bdata := { s.bdata with hlId } }.setCall t (.parsed text calls))
  | _ => none

/-- `Wait` and the length of an answer. -/
def helperNext (s : GoState) : Option GoState :=
  match s.helper with
  | .header got =>
      if got.length = 8 then
        if ofLE got < 2 ^ 63 then some { s with helper := .message (ofLE got) [] }
        else some (s.fail (.errx 2 "panic: runtime error: makeslice: len out of range"))
      else if s.toHelper = [] then none
      else
        some { s with
                helper := .header (got ++ s.toHelper.take (8 - got.length))
                toHelper := s.toHelper.drop (8 - got.length) }
  | .message inlen got =>
      if got.length = inlen then some { s with helper := .updating got }
      else if s.toHelper = [] then none
      else
        some { s with
                helper := .message inlen (got ++ s.toHelper.take (inlen - got.length))
                toHelper := s.toHelper.drop (inlen - got.length) }
  | .answering output =>
      if (lenstr output.length).length ≠ 10 then
        some (s.fail (.errx 2 "panic: Invalid string output! %s"))
      else
        some { s with
                helper := if output = [] then .header [] else .writing output
                fromHelper := s.fromHelper ++ lenstr output.length }
  | .updating _ | .writing _ => none

def update (s : GoState) (output : BString) : Option GoState :=
  match s.helper with
  | .updating _ => some { s with helper := .answering output }
  | _ => none

def helperWrite (s : GoState) (k : Nat) : Option GoState :=
  match s.helper with
  | .writing rest =>
      some { s with
              helper := if rest.drop (k + 1) = [] then .header [] else .writing (rest.drop (k + 1))
              fromHelper := s.fromHelper ++ rest.take (k + 1) }
  | _ => none

def step (lib : Library) (ndebug : Bool) (s : GoState) : GoAction → Option GoState
  | .edit text => if s.total = none then some { s with text } else none
  | .call t => s.call t
  | .next t => s.next ndebug t
  | .write t k => s.write t k
  | .parse t hlId => s.parse lib t hlId
  | .helper => s.helperNext
  | .update output => s.update output
  | .helperWrite k => s.helperWrite k

end GoState

/-- The program and the helper for a buffer that was never marked. -/
def goSession (lib : Library) (ndebug : Bool) (num : Int32) (ft : Filetype) :
    TransitionSystem GoState GoAction where
  init :=
    { text := [], bdata := { num, hlId := 0, ft }, numWorkers := 0, langMtx := none, total := none
      calls := fun _ => .idle, helper := .header [], toHelper := [], fromHelper := []
      snapshots := [], exchanges := [], handed := [], failed := none }
  step := GoState.step lib ndebug

/-! ### What it is for -/

/-- The mark for a name, if its kind has a group. -/
def Record.mark (lib : Library) (ft : Filetype) (r : Record) : Option Mark :=
  if identIsIgnored lib ft r.name then none
  else
    (findGroup lib ft r.kind.toUInt32.toInt32).map fun group =>
      { group, line := r.startLine, start := r.startColumn, stop := r.endColumn }

/-- A name that the plugin can read, at a place that it can send. -/
structure Record.Legible (r : Record) : Prop extends r.Proper where
  short : r.name.length < 1024
  line_lt : r.startLine < 2 ^ 31
  start_lt : r.startColumn < 2 ^ 31
  stop_lt : r.endColumn < 2 ^ 31

/-- What the helper and Neovim do, where `names` are the names in a text. -/
def GoFair (names : BString → List Record → Prop) (s : GoState) : GoAction → Prop
  | .edit text => text.length < 2 ^ 32
  | .parse _ hlId => hlId ≠ 0
  | .update output => ∀ buf, s.helper = .updating buf → ∃ records, names buf records ∧
      (∀ r ∈ records, r.Legible) ∧ output = records.flatMap Record.format ∧
      output.length + 1 < 2 ^ 32
  | _ => True

/--
The request is heard as the marks for these names, in some order, if there is anything to say and
the encoder has room.
-/
def Paints (lib : Library) (num hlId : Int32) (ft : Filetype) (again : Bool)
    (records : List Record) (calls : MpackArgArray) : Prop :=
  ∃ marks : List Mark, marks.Perm (records.filterMap (Record.mark lib ft)) ∧
    (again = true ∨ marks ≠ [] → ∀ blib : BStringLib, blib.Grows → ∀ count,
      (markRequest count num hlId again marks).HasRoom blib →
        SaysCalls blib count calls (markMessages num hlId again marks))

structure GoFaithful (lib : Library) (num : Int32) (ft : Filetype)
    (names : BString → List Record → Prop) (s : GoState) : Prop where
  /-- Nothing goes wrong with the pipes. -/
  unharmed : s.failed = none
  /-- No request for a text is handed over after one for a later text. -/
  inOrder : (s.handed.map Prod.fst).Sublist s.snapshots
  /-- A request marks the names of its text. -/
  paints : ∀ i text calls, s.handed[i]? = some (text, calls) → ∃ records, names text records ∧
    Paints lib num s.bdata.hlId ft (i ≠ 0) records calls
  /-- When no call is under way, every text was answered, and if it has names its request was
  handed over. -/
  settled : (∀ t, s.calls t = .idle) → s.snapshots = s.exchanges.map Prod.fst ∧
    s.handed.map Prod.fst = (s.exchanges.filter fun e => e.2 ≠ []).map Prod.fst

end TagHighlight.Golang
