/-
The connection to Neovim, as bytes.

`NvimApi/WaitQueue` has counts where the program has messages.  Here are the messages.  What a
thread writes are the bytes of a request, which Neovim takes apart with a reader of its own.
What Neovim writes is one stream in which responses to the threads and the notifications about
the buffers follow each other, and the event loop decodes what comes next and finds out which
of the two it is.

Bytes come through in pieces.  A thread that is in `b_write` has written so much of its request, and
others may run before it writes more.  `b_write` itself is not under `src/`, and no lock is held
around it; that two threads are never in the middle of a request at once is asked of it in `Alone`.
Neovim writes its messages one after the other, and the event loop, once it has begun to read one,
waits for the last byte of it.  So a round of the event loop is one step, which is over when all of
its message has come through.

The buffers are attached and loaded before the first step.
-/
import TagHighlight.Events.Notification
import TagHighlight.Mpack.Received
import TagHighlight.Mpack.Handle
import TagHighlight.NvimApi.Call
import TagHighlight.NvimApi.WaitQueue

namespace TagHighlight.Connection

open Notification

/-- A call, and the bytes of its request for every count. -/
structure Request where
  fn : BString
  params : List Message
  pack : Int32 → Except Fault (Option Packed)
  /-- It fits into its buffer, and Neovim hears from the bytes what is asked for. -/
  heard : ∀ count, ∃ root, pack count = .ok (some root) ∧ root.Sound ∧
    ∀ rest, hear (root.data ++ rest) = some (Api.requestMessage count fn params, rest)

/-- The request with this count. -/
def Request.message (r : Request) (count : Nat) : Message :=
  Api.requestMessage (Int32.ofNat count) r.fn r.params

structure ConnState where
  /-- The threads and `nvim_wait_queue`.  What is under way is in the bytes, and not here. -/
  program : WaitState (List Obj)
  /-- All calls and the threads that made them; the count of a call is its place. -/
  made : List (Nat × Request)
  /-- The request of each thread, in bytes. -/
  packs : Nat → BString
  /-- How much of it each thread has written, if it is in `b_write`. -/
  written : Nat → Nat
  /-- Written to Neovim, and not heard. -/
  output : BString
  /-- The requests that Neovim has not answered, with their ids. -/
  pending : List (Nat × Message)
  /-- All messages that Neovim has heard. -/
  heard : List Message
  /-- All answers, with the requests they are for. -/
  answered : List (Message × Wire)
  /-- Written by Neovim, and not read. -/
  input : BString
  /-- How many of these bytes have come through. -/
  arrived : Nat
  /-- The edits of each buffer. -/
  edits : UInt32 → List Edit
  /-- What the program has of each buffer. -/
  buffers : UInt32 → Option Notification.Bufdata
  /-- A message was not understood. -/
  failed : Bool

inductive ConnAction where
  /-- `INC_COUNT ()`, and the request is packed. -/
  | call (t : Nat) (r : Request)
  /-- The thread is in `b_write`, and `k + 1` bytes more are written. -/
  | write (t k : Nat)
  /-- Neovim reads a message. -/
  | hear
  /-- Neovim answers the `i`-th request that is open. -/
  | answer (i : Nat) (reply : Wire)
  /-- Neovim edits a buffer, and says so. -/
  | edit (b : UInt32) (e : Edit) (notice : Wire)
  /-- `k + 1` bytes more come through. -/
  | arrive (k : Nat)
  /-- The event loop reads a message, and handles it. -/
  | receive
  /-- A step of a thread that moves no bytes. -/
  | thread (action : WaitAction (List Obj))

/-- The steps in which threads only wait, look into the queue, and wake each other. -/
def isLocal {ρ : Type} : WaitAction ρ → Bool
  | .append _ _ | .resume _ | .pop _ | .compare _ | .deliver _ | .wake _ => true
  | .incCount _ | .write _ | .answer _ _ | .receive => false

/-- The id in a request. -/
def requestId : Message → Option Nat
  | .array (.integer 0 :: .integer id :: _) => some id.toNat
  | _ => none

namespace ConnState

def fail (s : ConnState) : ConnState := { s with failed := true }

def call (s : ConnState) (t : Nat) (r : Request) : Option ConnState := do
  let program ← s.program.incCount t
  match r.pack (Int32.ofNat s.program.count) with
  | .ok (some root) =>
      some { s with
              program := program, made := s.made ++ [(t, r)]
              packs := Function.update s.packs t root.data }
  | _ => some s.fail

/-- A part of `b_write (1, *pack->packed)`. -/
def write (s : ConnState) (t k : Nat) : Option ConnState :=
  match s.program.callers t with
  | .counted count =>
      let rest := (s.packs t).drop (s.written t)
      let output := s.output ++ rest.take (k + 1)
      if rest.drop (k + 1) = [] then
        some { s with
                program := s.program.setCaller t (.written count)
                written := Function.update s.written t 0, output := output }
      else
        some { s with
                written := Function.update s.written t (s.written t + (k + 1)), output := output }
  | _ => none

/-- Neovim waits until it can hear a message. -/
def hear (s : ConnState) : Option ConnState := do
  let (m, rest) ← TagHighlight.hear s.output
  match requestId m with
  | some id =>
      some { s with
              output := rest, pending := s.pending ++ [(id, m)], heard := s.heard ++ [m] }
  | none => some s.fail

def answer (s : ConnState) (i : Nat) (reply : Wire) : Option ConnState := do
  let (_, m) ← s.pending[i]?
  some { s with
          pending := s.pending.eraseIdx i, input := s.input ++ reply.bytes
          answered := s.answered ++ [(m, reply)] }

def edit (s : ConnState) (b : UInt32) (e : Edit) (notice : Wire) : ConnState :=
  { s with
    edits := Function.update s.edits b (s.edits b ++ [e]), input := s.input ++ notice.bytes }

/-- The thread that `handle_nvim_message` starts for a response. -/
def responseThread (mem : Memory) (obj : List Obj) : Except Stop (ResponseThread (List Obj)) := do
  let count := mem.num (← expect (← mpackIndex (.array obj) 1) .num 0)
  .ok { fd := responseFd stdinFileno, obj := { msgid := count.toNat, result := obj }
        stage := .popping }

/-- `handle_nvim_message`, and what it leads to. -/
def handle (mem : Memory) (s : ConnState) (obj : List Obj) : Except Stop ConnState := do
  match ← handleNvimMessage mem s.buffers obj with
  | .updated b bdata => .ok { s with buffers := Function.update s.buffers b (some bdata) }
  | .response =>
      let thread ← responseThread mem obj
      .ok { s with program := { s.program with threads := s.program.threads ++ [thread] } }
  -- The threads that are started then are left out.
  | .detach _ | .autocmd _ => .ok s

/-- More of what Neovim has written comes through. -/
def arrive (s : ConnState) (k : Nat) : Option ConnState :=
  if s.arrived < s.input.length then
    some { s with arrived := min (s.arrived + (k + 1)) s.input.length }
  else none

/-- `event_loop_io_cb`; `stream_read` waits until all of the message is there. -/
def receive (mem : Memory) (s : ConnState) : Option ConnState :=
  if s.input = [] then none
  else
    match doDecode s.input with
    | .ok (.array obj, rest) =>
        if s.arrived < s.input.length - rest.length then none
        else
          match handle mem
            { s with input := rest, arrived := s.arrived - (s.input.length - rest.length) } obj with
          | .ok s => some s
          | .error _ => some s.fail
    | _ => some s.fail

def step (mem : Memory) (s : ConnState) : ConnAction → Option ConnState
  | .call t r => s.call t r
  | .write t k => s.write t k
  | .hear => s.hear
  | .answer i reply => s.answer i reply
  | .edit b e notice => some (s.edit b e notice)
  | .arrive k => s.arrive k
  | .receive => s.receive mem
  | .thread action => do
      if isLocal action then some { s with program := ← s.program.step action } else none

end ConnState

/-- A buffer whose lines are in the program as they are in Neovim. -/
structure Opened where
  bdata : Notification.Bufdata
  text : List BString
  mirrors : Represents bdata.buffer.lines text
  nonempty : text ≠ []

/-- The program and Neovim, these buffers being open. -/
def connection (mem : Memory) (opened : UInt32 → Option Opened) :
    TransitionSystem ConnState ConnAction where
  init :=
    { program := .init, made := [], packs := fun _ => [], written := fun _ => 0, output := []
      pending := [], heard := [], answered := [], input := [], arrived := 0, edits := fun _ => []
      buffers := fun b => (opened b).map Opened.bdata, failed := false }
  step := ConnState.step mem

/-! ### What Neovim sends -/

/-- The number, in whatever unsigned form. -/
def IsUnsigned (n : Nat) : Wire → Prop
  | .posFixint k => k.val = n
  | .uint w k => k % 256 ^ w.size = n
  | _ => False

/-- The handle of a buffer. -/
def IsHandle (n : Nat) : Wire → Prop
  | .fixext _ _ payload | .ext8 _ payload => payload = Handle.minimalUnsigned n
  | _ => False

def IsString (str : BString) : Wire → Prop
  | .string _ str' => str' = str
  | _ => False

/-- A response with this id. -/
inductive IsReply (id : Nat) : Wire → Prop where
  | mk {form : SeqForm} {type msgid error result : Wire} (htype : IsUnsigned 1 type)
      (hmsgid : IsUnsigned id msgid) : IsReply id (.array form [type, msgid, error, result])

/-- A `nvim_buf_lines_event` for this edit. -/
inductive IsNotice (b : UInt32) (e : Edit) : Wire → Prop where
  | mk {form nameForm paramsForm stringsForm} {type handle tick first last : Wire} {n : Nat}
      {strings : List Wire} (htype : IsUnsigned 2 type) (hhandle : IsHandle b.toNat handle)
      (htick : IsUnsigned n tick) (hfirst : IsUnsigned e.first first)
      (hlast : IsUnsigned e.last last) (hstrings : List.Forall₂ IsString e.newStrings strings) :
      IsNotice b e (.array form [type, .string nameForm (bt "nvim_buf_lines_event"),
        .array paramsForm [handle, tick, first, last, .array stringsForm strings, .boolean false]])

/-- Neovim's text of a buffer. -/
def Opened.textAfter (o : Opened) (edits : List Edit) : List BString := nvimEdits edits o.text

/-- What is asked of `b_write`: no other thread is in the middle of a request. -/
def Alone (s : ConnState) (t : Nat) : Prop := ∀ t', t' ≠ t → s.written t' = 0

/--
What Neovim does and what the program asks of it: answers have the ids of their requests, and
edits are those of an open buffer, none of them one that `handle_line_event` takes for useless.
The pieces of two requests are not mixed.
-/
def Fair (opened : UInt32 → Option Opened) (s : ConnState) : ConnAction → Prop
  | .call _ _ => s.program.count < 2 ^ 31 - 1
  | .write t _ => Alone s t
  | .answer i reply => reply.Ok ∧ ∀ id m, s.pending[i]? = some (id, m) → IsReply id reply
  | .edit b e notice => notice.Ok ∧ IsNotice b e notice ∧ b.toNat < 2 ^ 16 ∧ e.last < 2 ^ 31 ∧
      ∃ o, opened b = some o ∧ e.Valid (o.textAfter (s.edits b)) ∧ e.Told (o.textAfter (s.edits b))
  | _ => True

/-! ### What is to be had of it -/

/-- Messages, one after the other, and nothing else. -/
inductive Legible : BString → Prop where
  | nil : Legible []
  | next {bs rest : BString} {m : Message} (hhear : hear bs = some (m, rest))
      (hrest : Legible rest) : Legible bs

structure Faithful (opened : UInt32 → Option Opened) (s : ConnState) : Prop where
  /-- No message is ever misunderstood. -/
  understood : s.failed = false
  /-- When no thread is in the middle of a request, Neovim can hear all that was written. -/
  legible : (∀ t, s.written t = 0) → Legible s.output
  /-- Neovim hears requests that were made, and nothing else. -/
  genuine : ∀ m ∈ s.heard, ∃ (count : Nat) (t : Nat) (r : Request),
    s.made[count]? = some (t, r) ∧ m = r.message count
  /-- It hears none of them twice. -/
  once : s.heard.Nodup
  /-- It answers none of them twice. -/
  answeredOnce : (s.answered.map Prod.fst).Nodup
  /-- A call returns what Neovim answered to it. -/
  returned : ∀ t count obj, s.program.callers t = .returned count obj → ∃ r reply,
    s.made[count]? = some (t, r) ∧ (r.message count, reply) ∈ s.answered ∧
      reply.obj = .array obj.result
  /-- The lines of a buffer are Neovim's as of some time, and when all is read as of now. -/
  mirrors : ∀ b o, opened b = some o → ∃ bdata seen rest, s.buffers b = some bdata ∧
    s.edits b = seen ++ rest ∧ Represents bdata.buffer.lines (o.textAfter seen) ∧
    (s.input = [] → rest = [])

end TagHighlight.Connection
