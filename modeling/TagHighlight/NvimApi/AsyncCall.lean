/-
Requests that nobody waits for: `nvim_call_atomic` of `nvim_api/api.c`, `make_call`,
`make_async_call` and `write_and_clean` of `nvim_api/common.c`.

The highlighting code computes what is to be shown in a buffer and sends it as one request.
It does so under a lock, so the requests for a buffer are issued one after the other.  But
issuing one only starts a detached thread, and the thread writes the request when it gets
to run: the lock is long free by then.

A step is one issued request or one written one.  What a thread does after it has written,
it waits for the response, is the business of `NvimApi/WaitQueue`.
-/
import TagHighlight.Lib.TransitionSystem
import TagHighlight.Util.BString

namespace TagHighlight.AsyncCall

/-- A `struct gencall`: the request for a buffer, packed, with the count that is its message id. -/
structure Gencall where
  count : Nat
  bufnum : Nat
  pack : BString
  deriving DecidableEq, Repr

structure CallState where
  /-- The next count. -/
  count : Nat
  /-- All requests, in the order in which they were issued. -/
  issued : List Gencall
  /-- The threads in `make_async_call` that have not written yet. -/
  threads : List Gencall
  /-- What was written to Neovim, the first request first. -/
  wire : List Gencall

inductive CallAction where
  /-- `nvim_call_atomic` for a buffer, by code that holds its lock. -/
  | issue (bufnum : Nat) (pack : BString)
  /-- `b_write` in the `i`-th of the threads. -/
  | write (i : Nat)
  deriving DecidableEq, Repr

namespace CallState

def init : CallState := { count := 0, issued := [], threads := [], wire := [] }

/-- `START_DETACHED_PTHREAD (make_async_call, gc)`. -/
def start (s : CallState) (gc : Gencall) : CallState :=
  { s with count := s.count + 1, issued := s.issued ++ [gc], threads := s.threads ++ [gc] }

def step (s : CallState) : CallAction → Option CallState
  | .issue bufnum pack => some (s.start { count := s.count, bufnum := bufnum, pack := pack })
  | .write i => do
      let gc ← s.threads[i]?
      some { s with threads := s.threads.eraseIdx i, wire := s.wire ++ [gc] }

end CallState

def callSystem : TransitionSystem CallState CallAction := { init := .init, step := CallState.step }

/-- The requests of a buffer among others. -/
def ofBuffer (bufnum : Nat) (gcs : List Gencall) : List Gencall :=
  gcs.filter fun gc => gc.bufnum = bufnum

/-- Requests are written in the order they were issued in, for each buffer. -/
structure InOrder (s : CallState) : Prop where
  /-- What was written for a buffer is how its requests begin. -/
  written : ∀ bufnum, ofBuffer bufnum s.wire <+: ofBuffer bufnum s.issued
  /-- When all is written, the last highlights of a buffer are the newest ones. -/
  newest : s.threads = [] →
    ∀ bufnum, (ofBuffer bufnum s.wire).getLast? = (ofBuffer bufnum s.issued).getLast?

/-- A request is issued only when those before it for this buffer were written. -/
def Alone (s : CallState) : CallAction → Prop
  | .issue bufnum _ => ofBuffer bufnum s.threads = []
  | .write _ => True

end TagHighlight.AsyncCall
