/-
Matching responses to calls: `write_and_clean` and `await_package` of
`nvim_api/common.c`, `handle_nvim_response` of `event_handlers.c`.

A thread that calls Neovim takes the next count, writes the request with the count as
its message id, puts a node with the count into `nvim_wait_queue` and waits on the futex
in the node.  Every response gets a thread of its own.  That thread pops nodes from the
queue until one has the count it looks for, and puts every other node back at the end.

Each step below is one access to something shared.  `P99_FIFO_POP` and `P99_FIFO_APPEND`
are single steps, and so is the `atomic_fetch_add` that gives out the counts.
-/
import TagHighlight.Lib.TransitionSystem
import Mathlib.Algebra.Group.Nat.Defs
import Mathlib.Data.List.Basic
import Mathlib.Logic.Function.Basic

namespace TagHighlight

/-- A response: the elements 1 and 3 of its array. -/
structure Response (ρ : Type) where
  msgid : Nat
  result : ρ

/-- A `nvim_wait_node`; `fut` tells whether the futex was woken. -/
structure WaitNode (ρ : Type) where
  fd : Nat
  count : Nat
  obj : Option (Response ρ)
  fut : Bool

/-- Where a thread that makes calls stands. -/
inductive Caller (ρ : Type) where
  /-- No call was made yet. -/
  | idle
  /-- The call has its count. -/
  | counted (count : Nat)
  /-- The request was written. -/
  | written (count : Nat)
  /-- The node is in the queue, or was: `p99_futex_wait (&node->fut)`. -/
  | waiting (count node : Nat)
  /-- The call returned `obj`. -/
  | returned (count : Nat) (obj : Response ρ)

/-- Where a thread in `handle_nvim_response` stands. -/
inductive Stage where
  /-- At the top of the loop. -/
  | popping
  /-- The node it popped is not looked at yet. -/
  | comparing (node : Nat)
  /-- Out of the loop. -/
  | delivering (node : Nat)
  /-- The object is in the node. -/
  | waking (node : Nat)

/-- The node the thread has in its hands. -/
def Stage.hand : Stage → Option Nat
  | .popping => none
  | .comparing node => some node
  | .delivering node => some node
  | .waking node => some node

structure ResponseThread (ρ : Type) where
  fd : Nat
  obj : Response ρ
  stage : Stage

structure WaitState (ρ : Type) where
  /-- The static `count` of `nvim_api_intern_get_fd_count`. -/
  count : Nat
  callers : Nat → Caller ρ
  /-- The message ids Neovim has not answered. -/
  requests : List Nat
  /-- What Neovim has sent and the event loop has not read. -/
  responses : List (Response ρ)
  threads : List (ResponseThread ρ)
  nodes : Nat → Option (WaitNode ρ)
  /-- `nvim_wait_queue`. -/
  queue : List Nat

inductive WaitAction (ρ : Type) where
  | incCount (t : Nat)
  | write (t : Nat)
  /-- `P99_FIFO_APPEND` of the new node, which `calloc` put at `node`. -/
  | append (t node : Nat)
  | resume (t : Nat)
  /-- Neovim answers the `i`-th request that is open. -/
  | answer (i : Nat) (result : ρ)
  | receive
  | pop (i : Nat)
  | compare (i : Nat)
  | deliver (i : Nat)
  | wake (i : Nat)

/-- `(unsigned) n`. -/
def toUnsigned (n : Nat) : Nat := n % 2 ^ 32

/-- The descriptor `handle_nvim_response` looks for. -/
def responseFd (fd : Nat) : Nat := if fd = 0 then fd + 1 else fd

/-- `STDIN_FILENO`, which the event loop reads from. -/
def stdinFileno : Nat := 0

namespace WaitState

variable {ρ : Type}

def init : WaitState ρ :=
  { count := 0, callers := fun _ => .idle, requests := [], responses := [], threads := []
    nodes := fun _ => none, queue := [] }

def setCaller (s : WaitState ρ) (t : Nat) (c : Caller ρ) : WaitState ρ :=
  { s with callers := Function.update s.callers t c }

def setStage (s : WaitState ρ) (i : Nat) (thread : ResponseThread ρ) (stage : Stage) :
    WaitState ρ :=
  { s with threads := s.threads.set i { thread with stage := stage } }

def setNode (s : WaitState ρ) (a : Nat) (node : WaitNode ρ) : WaitState ρ :=
  { s with nodes := Function.update s.nodes a (some node) }

/-- `INC_COUNT ()`. -/
def incCount (s : WaitState ρ) (t : Nat) : Option (WaitState ρ) :=
  match s.callers t with
  | .idle | .returned _ _ => some { s.setCaller t (.counted s.count) with count := s.count + 1 }
  | _ => none

/-- `b_write (1, *pack->packed)`. -/
def write (s : WaitState ρ) (t : Nat) : Option (WaitState ρ) :=
  match s.callers t with
  | .counted count => some { s.setCaller t (.written count) with requests := s.requests ++ [count] }
  | _ => none

def append (s : WaitState ρ) (t a : Nat) : Option (WaitState ρ) :=
  match s.callers t, s.nodes a with
  | .written count, none =>
      let s := s.setNode a { fd := 1, count := toUnsigned count, obj := none, fut := false }
      some { s.setCaller t (.waiting count a) with queue := s.queue ++ [a] }
  | _, _ => none

/-- The rest of `await_package` and `write_and_clean`, once the futex was woken. -/
def resume (s : WaitState ρ) (t : Nat) : Option (WaitState ρ) :=
  match s.callers t with
  | .waiting count a => do
      let node ← s.nodes a
      if node.fut then
        -- Without an object this is where the process exits.
        let obj ← node.obj
        some { s.setCaller t (.returned count obj) with
                nodes := Function.update s.nodes a none }
      else
        none
  | _ => none

def answer (s : WaitState ρ) (i : Nat) (result : ρ) : Option (WaitState ρ) := do
  let msgid ← s.requests[i]?
  some { s with
          requests := s.requests.eraseIdx i
          responses := s.responses ++ [{ msgid := msgid, result := result }] }

/-- The `MES_RESPONSE` branch of `handle_nvim_message`. -/
def receive (s : WaitState ρ) : Option (WaitState ρ) :=
  match s.responses with
  | [] => none
  | obj :: rest =>
      some { s with
              responses := rest
              threads := s.threads ++
                [{ fd := responseFd stdinFileno, obj := obj, stage := .popping }] }

/-- `node = P99_FIFO_POP (&nvim_wait_queue)`. -/
def pop (s : WaitState ρ) (i : Nat) : Option (WaitState ρ) := do
  let thread ← s.threads[i]?
  match thread.stage, s.queue with
  | .popping, [] => some s
  | .popping, a :: rest => some { s.setStage i thread (.comparing a) with queue := rest }
  | _, _ => none

def compare (s : WaitState ρ) (i : Nat) : Option (WaitState ρ) := do
  let thread ← s.threads[i]?
  match thread.stage with
  | .comparing a =>
      let node ← s.nodes a
      if node.fd = thread.fd ∧ node.count = toUnsigned thread.obj.msgid then
        some (s.setStage i thread (.delivering a))
      else
        some { s.setStage i thread .popping with queue := s.queue ++ [a] }
  | _ => none

/-- `atomic_store_explicit (&node->obj, obj, …)`. -/
def deliver (s : WaitState ρ) (i : Nat) : Option (WaitState ρ) := do
  let thread ← s.threads[i]?
  match thread.stage with
  | .delivering a =>
      let node ← s.nodes a
      some ((s.setNode a { node with obj := some thread.obj }).setStage i thread (.waking a))
  | _ => none

/-- `p99_futex_wakeup (&node->fut, …)`, and the thread ends. -/
def wake (s : WaitState ρ) (i : Nat) : Option (WaitState ρ) := do
  let thread ← s.threads[i]?
  match thread.stage with
  | .waking a =>
      let node ← s.nodes a
      some { s.setNode a { node with fut := true } with threads := s.threads.eraseIdx i }
  | _ => none

def step (s : WaitState ρ) : WaitAction ρ → Option (WaitState ρ)
  | .incCount t => s.incCount t
  | .write t => s.write t
  | .append t a => s.append t a
  | .resume t => s.resume t
  | .answer i result => s.answer i result
  | .receive => s.receive
  | .pop i => s.pop i
  | .compare i => s.compare i
  | .deliver i => s.deliver i
  | .wake i => s.wake i

end WaitState

/-- Callers, response threads and Neovim, in any order of steps. -/
def waitSystem (ρ : Type) : TransitionSystem (WaitState ρ) (WaitAction ρ) where
  init := WaitState.init
  step := WaitState.step

/-- Fewer than `2 ^ 31` requests are made: the counter does not overflow. -/
def CountFits {ρ : Type} (s : WaitState ρ) : WaitAction ρ → Prop
  | .incCount _ => s.count < 2 ^ 31 - 1
  | _ => True

instance {ρ : Type} (s : WaitState ρ) : (action : WaitAction ρ) → Decidable (CountFits s action)
  | .incCount _ => inferInstanceAs (Decidable (s.count < 2 ^ 31 - 1))
  | .write _ | .append _ _ | .resume _ | .answer _ _ | .receive | .pop _ | .compare _
  | .deliver _ | .wake _ => isTrue trivial

end TagHighlight
