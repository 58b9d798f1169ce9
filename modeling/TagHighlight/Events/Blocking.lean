/-
The event loop and the threads that wait for it.

A call that expects an answer from Neovim (`generic_call (true, …)`) blocks its thread
until the event loop has read the answer.  The event loop reads one message after the
other, in the order Neovim sent them, and stops at a lines event until it has the mutex
`lock.total` of the buffer.  `get_initial_lines`, `update_other` and `clear_highlight`
make such calls, and they hold that same mutex meanwhile.

A worker is a thread that runs these functions.  What matters of them here is in which
order they lock, unlock and call Neovim; how often they call it depends on data that
Neovim and ctags supply, so that is a parameter.
-/
import TagHighlight.Lib.TransitionSystem
import TagHighlight.Util.BString
import Mathlib.Logic.Function.Basic

namespace TagHighlight.Blocking

/-- What a worker does that others can notice. -/
inductive Act where
  /-- `pthread_mutex_lock (&bdata->lock.total)` of a buffer; the mutex is recursive. -/
  | lock (b : Nat)
  | unlock (b : Nat)
  /-- `generic_call (true, …)`: a request, and the wait for the response. -/
  | request
  /-- `generic_call (false, …)`: a detached thread makes the request and waits. -/
  | async
  deriving DecidableEq

/-! ### The functions that call Neovim under the lock -/

/-- `echo`, which says something only if `settings.verbose`. -/
def echo (verbose : Bool) : List Act := if verbose then [.async] else []

def getInitialLines (b : Nat) : List Act := [.lock b, .request, .unlock b]

/-- `update_taglist`; `run_ctags_pipe` asks for the variable `tag_highlight_run_ctags`. -/
def updateTaglist (b : Nat) : List Act := [.lock b, .request, .unlock b]

/--
`update_commands`: a variable for each kind in `ft->order`, then two more in `handle_kind`
for each kind that some tag has.
-/
def updateCommands (order tags : BString) : List Act :=
  order.map (fun _ => .request) ++
    order.flatMap fun kind => if tags.contains kind then [.request, .request] else []

/-- What `update_other` finds on its way. -/
structure UpdateData where
  verbose : Bool
  /-- `ft->order`. -/
  order : BString
  /-- `ft->restore_cmds` is set. -/
  restore : Bool
  /-- The kinds of the tags found in the first round, `none` for no list. -/
  first : Option BString
  /-- The same for the second round. -/
  second : Option BString

/-- The part of `update_other` between the label `retry` and the test of `retry`. -/
def updateRound (b : Nat) (d : UpdateData) (tags : Option BString) : List Act :=
  updateTaglist b ++
    match tags with
    | none => []
    | some tags =>
        echo d.verbose ++ updateCommands d.order tags ++ [.async] ++
          if d.restore then [.request] else []

/-- The branch that is taken when the first round found nothing, and the round after it. -/
def updateRetry (b : Nat) (d : UpdateData) : List Act :=
  match d.first with
  | some _ => []
  | none => echo d.verbose ++ updateTaglist b ++ updateRound b d d.second

def updateOther (b : Nat) (d : UpdateData) : List Act :=
  [.lock b] ++ (updateRound b d d.first ++ updateRetry b d) ++ [.unlock b]

/-- What `clear_highlight` depends on. -/
structure ClearData where
  /-- `ft->order`, of a file type without a parser. -/
  order : Option BString
  /-- `hl_id > 0`. -/
  highlighted : Bool
  blocking : Bool

/-- A variable for each kind, and the command that clears them all. -/
def clearSyntax : Option BString → List Act
  | none => []
  | some order => order.map (fun _ => .request) ++ [.request]

/-- `nvim_buf_clear_namespace`. -/
def clearNamespace (d : ClearData) : List Act :=
  if d.highlighted then [if d.blocking then .request else .async] else []

def clearHighlight (b : Nat) (d : ClearData) : List Act :=
  [.lock b] ++ (clearSyntax d.order ++ clearNamespace d) ++ [.unlock b]

inductive Call where
  | getInitialLines (b : Nat)
  | updateOther (b : Nat) (d : UpdateData)
  | clearHighlight (b : Nat) (d : ClearData)

def Call.acts : Call → List Act
  | .getInitialLines b => Blocking.getInitialLines b
  | .updateOther b d => Blocking.updateOther b d
  | .clearHighlight b d => Blocking.clearHighlight b d

/-! ### Threads, mutexes and messages -/

structure Worker where
  todo : List Act
  /-- In `await_package`. -/
  waiting : Bool
  deriving DecidableEq

/-- Who has a mutex. -/
inductive Holder where
  | eventLoop
  | worker (i : Nat)
  deriving DecidableEq

/-- What Neovim sends. -/
inductive Message where
  | lines (b : Nat)
  /-- The response to the request of worker `i`. -/
  | response (i : Nat)
  deriving DecidableEq

/-- Where the event loop stands. -/
inductive LoopState where
  | idle
  /-- In `handle_line_event`, before it has the mutex. -/
  | locking (b : Nat)
  | editing (b : Nat)
  deriving DecidableEq

structure LoopSystemState where
  workers : List Worker
  /-- The holder of each `lock.total`, and how often it has locked it beyond once. -/
  mutex : Nat → Option (Holder × Nat)
  loop : LoopState
  /-- The workers whose requests Neovim has not answered. -/
  requests : List Nat
  /-- What Neovim has sent and the event loop has not read, in order. -/
  wire : List Message

inductive LoopAction where
  /-- Worker `i` does what is next. -/
  | worker (i : Nat)
  /-- Neovim answers the `k`-th open request. -/
  | answer (k : Nat)
  /-- The user edits a buffer, and Neovim says so. -/
  | edit (b : Nat)
  | receive
  | lockLines
  | finishLines
  deriving DecidableEq

namespace LoopSystemState

/-- `pthread_mutex_lock`, where it does not block. -/
def acquire (s : LoopSystemState) (who : Holder) (b : Nat) : Option LoopSystemState :=
  match s.mutex b with
  | none => some { s with mutex := Function.update s.mutex b (some (who, 0)) }
  | some (holder, n) =>
      if holder = who then
        some { s with mutex := Function.update s.mutex b (some (who, n + 1)) }
      else
        none

/-- `pthread_mutex_unlock`. -/
def release (s : LoopSystemState) (who : Holder) (b : Nat) : Option LoopSystemState :=
  match s.mutex b with
  | none => none
  | some (holder, n) =>
      if holder = who then
        some { s with mutex := Function.update s.mutex b
                        (match n with
                          | 0 => none
                          | n + 1 => some (who, n)) }
      else
        none

def setWorker (s : LoopSystemState) (i : Nat) (w : Worker) : LoopSystemState :=
  { s with workers := s.workers.set i w }

def stepWorker (s : LoopSystemState) (i : Nat) : Option LoopSystemState := do
  let w ← s.workers[i]?
  if w.waiting then none
  else
    match w.todo with
    | [] => none
    | .lock b :: todo => (s.setWorker i { w with todo := todo }).acquire (.worker i) b
    | .unlock b :: todo => (s.setWorker i { w with todo := todo }).release (.worker i) b
    | .request :: todo =>
        some { s.setWorker i { todo := todo, waiting := true } with requests := s.requests ++ [i] }
    | .async :: todo =>
        let s := s.setWorker i { w with todo := todo }
        some { s with workers := s.workers ++ [{ todo := [.request], waiting := false }] }

def answer (s : LoopSystemState) (k : Nat) : Option LoopSystemState := do
  let i ← s.requests[k]?
  some { s with requests := s.requests.eraseIdx k, wire := s.wire ++ [.response i] }

/-- The event loop reads the next message. -/
def receive (s : LoopSystemState) : Option LoopSystemState :=
  match s.loop, s.wire with
  | .idle, .lines b :: rest => some { s with loop := .locking b, wire := rest }
  | .idle, .response i :: rest => do
      let w ← s.workers[i]?
      some { s.setWorker i { w with waiting := false } with wire := rest }
  | _, _ => none

def lockLines (s : LoopSystemState) : Option LoopSystemState :=
  match s.loop with
  | .locking b => { s with loop := .editing b }.acquire .eventLoop b
  | _ => none

def finishLines (s : LoopSystemState) : Option LoopSystemState :=
  match s.loop with
  | .editing b => { s with loop := .idle }.release .eventLoop b
  | _ => none

def step (s : LoopSystemState) : LoopAction → Option LoopSystemState
  | .worker i => s.stepWorker i
  | .answer k => s.answer k
  | .edit b => some { s with wire := s.wire ++ [.lines b] }
  | .receive => s.receive
  | .lockLines => s.lockLines
  | .finishLines => s.finishLines

/-- Worker `i` has `lock.total` of buffer `b`. -/
def Holds (s : LoopSystemState) (i b : Nat) : Prop := ∃ n, s.mutex b = some (.worker i, n)

def Waiting (s : LoopSystemState) (i : Nat) : Prop :=
  ∃ w, s.workers[i]? = some w ∧ w.waiting = true

/-- Worker `i` has something left to do. -/
def Unfinished (s : LoopSystemState) (i : Nat) : Prop :=
  ∃ w, s.workers[i]? = some w ∧ (w.todo ≠ [] ∨ w.waiting = true)

/-- The event loop needs the mutex of `b` before it gets to the response for worker `i`. -/
def NeedsFirst (s : LoopSystemState) (i b : Nat) : Prop :=
  s.loop = .locking b ∨ .lines b ∈ s.wire.takeWhile (· ≠ .response i)

/-- A lines event for `b` is on its way, or is waiting for the mutex. -/
def LinesInFlight (s : LoopSystemState) (b : Nat) : Prop :=
  s.loop = .locking b ∨ .lines b ∈ s.wire

end LoopSystemState

/-- Workers that make the given calls, the event loop, and Neovim. -/
def loopSystem (calls : List (List Call)) : TransitionSystem LoopSystemState LoopAction where
  init :=
    { workers := calls.map fun cs => { todo := cs.flatMap Call.acts, waiting := false }
      mutex := fun _ => none, loop := .idle, requests := [], wire := [] }
  step := LoopSystemState.step

/-- Nobody waits for what only the one that waits for it can bring about. -/
structure DeadlockFree (s : LoopSystemState) : Prop where
  /-- No worker waits for a response with a mutex that the event loop needs before. -/
  noCycle : ∀ i b, s.Waiting i → s.Holds i b → ¬ s.NeedsFirst i b
  /-- While some worker is not finished, a thread or Neovim can go on without a new edit. -/
  progress : ∀ i, s.Unfinished i → ∃ a, (∀ b, a ≠ .edit b) ∧ (s.step a).isSome

/--
A request is made with the mutex of a buffer only if no lines event for it is in flight,
and Neovim reports an edit only while no request made with its mutex is unanswered.
-/
def KeptApart (s : LoopSystemState) : LoopAction → Prop
  | .worker i =>
      ∀ w todo, s.workers[i]? = some w → w.waiting = false → w.todo = .request :: todo →
        ∀ b, s.Holds i b → ¬ s.LinesInFlight b
  | .edit b => ∀ i ∈ s.requests, ¬ s.Holds i b
  | _ => True

end TagHighlight.Blocking
