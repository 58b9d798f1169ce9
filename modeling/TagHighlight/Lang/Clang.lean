/-
`libclang_highlight` of `lang/clang/clang.c`, as far as its locks go.

Several threads call it, on any buffers.  A call counts itself in `num_workers` of its
buffer, so that `destroy_buffer` can wait until nobody works on the buffer any more, and it
holds `lang_mtx` while it works.  There are several ways out: too many calls at once, too
many failures of this buffer, success, and an error of libclang.  The last one is a
`longjmp` to the label `done`.

There is one `jbuf` for all threads and buffers.  So the jump ends in the frame of the call
that executed `setjmp (jbuf)` last, whoever jumps.  Strictly, a jump into the frame of
another thread is undefined; here the thread goes on at `done` with the variables of that
frame, which is what the code asks for.

`p99_count_inc` and `p99_count_dec` are atomic, on 32 bits, and `p99_count_inc` returns the
count from before.  Nobody cancels these threads.
-/
import TagHighlight.Lib.TransitionSystem
import Mathlib.Logic.Function.Basic

namespace TagHighlight.Clang

/-- Where a call of `libclang_highlight` stands. -/
inductive Where where
  /-- Past the tests of `initialized` and `total_failure`. -/
  | entered
  /-- `p99_count_inc` has returned `cnt_val`. -/
  | counted (cntVal : UInt32)
  /-- `setjmp` has returned zero, and `lang_mtx` is to be locked. -/
  | waiting
  /-- It has `lang_mtx` and enters `do_libclang_highlight`. -/
  | locked
  /-- Where libclang can fail. -/
  | compiling
  /-- At the label `done`, with the `bdata` of the frame. -/
  | done (bdata : Nat)
  /-- The count is decremented, and the mutex is to be unlocked. -/
  | leaving (bdata : Nat)
  | returned
  /-- It has returned because `cnt_val > 3`. -/
  | turnedAway
  deriving DecidableEq

/-- A call, with a record of what it has done to which buffer. -/
structure Call where
  bdata : Nat
  place : Where
  /-- The buffers whose `num_workers` it has decremented. -/
  decremented : List Nat
  /-- The buffers whose `lang_mtx` it has unlocked. -/
  unlocked : List Nat
  deriving DecidableEq

def Call.start (bdata : Nat) : Call :=
  { bdata := bdata, place := .entered, decremented := [], unlocked := [] }

/-- A thread makes one call after the other. -/
structure Thread where
  call : Option Call
  past : List Call
  deriving DecidableEq

/-- The frame that `setjmp` has saved. -/
structure JmpBuf where
  thread : Nat
  bdata : Nat
  deriving DecidableEq

/-- A recursive mutex: the thread that holds it, and how often it has locked it beyond once. -/
abbrev Mutex := Option (Nat × Nat)

/-- `pthread_mutex_lock`, `none` as long as it blocks. -/
def Mutex.lock (t : Nat) : Mutex → Option Mutex
  | none => some (some (t, 0))
  | some (holder, n) => if holder = t then some (some (holder, n + 1)) else none

/-- `pthread_mutex_unlock`, which does nothing (`EPERM`) for a thread that does not hold it. -/
def Mutex.unlock (t : Nat) : Mutex → Mutex
  | none => none
  | some (holder, 0) => if holder = t then none else some (holder, 0)
  | some (holder, n + 1) => if holder = t then some (holder, n) else some (holder, n + 1)

/-- What `libclang_highlight` reads and writes of a `Buffer`. -/
structure Buffer where
  initialized : Bool
  totalFailure : Bool
  numFailures : Nat
  numWorkers : UInt32
  langMtx : Mutex

structure ClangState where
  buffers : Nat → Buffer
  threads : List Thread
  jbuf : Option JmpBuf

inductive ClangAction where
  /-- A buffer gets its first lines. -/
  | fill (bdata : Nat)
  /-- `destroy_buffer` begins: it forbids new calls and then waits. -/
  | destroy (bdata : Nat)
  /-- Thread `t` calls `libclang_highlight` for a buffer. -/
  | call (t bdata : Nat)
  /-- Thread `t` goes on. -/
  | next (t : Nat)
  /-- libclang fails in thread `t`: `handle_libclang_error`. -/
  | fail (t : Nat)
  deriving DecidableEq

namespace ClangState

def setThread (s : ClangState) (t : Nat) (th : Thread) : ClangState :=
  { s with threads := s.threads.set t th }

def setBuffer (s : ClangState) (bdata : Nat) (b : Buffer) : ClangState :=
  { s with buffers := Function.update s.buffers bdata b }

/-- Thread `t` goes on in its call. -/
def goTo (s : ClangState) (t : Nat) (th : Thread) (c : Call) : ClangState :=
  s.setThread t { th with call := some c }

/-- Thread `t` returns from its call. -/
def finish (s : ClangState) (t : Nat) (th : Thread) (c : Call) : ClangState :=
  s.setThread t { call := none, past := th.past ++ [c] }

/-- `p99_count_inc (&bdata->lock.num_workers)`. -/
def countInc (s : ClangState) (bdata : Nat) : ClangState :=
  s.setBuffer bdata { s.buffers bdata with numWorkers := (s.buffers bdata).numWorkers + 1 }

/-- `p99_count_dec (&bdata->lock.num_workers)`. -/
def countDec (s : ClangState) (bdata : Nat) : ClangState :=
  s.setBuffer bdata { s.buffers bdata with numWorkers := (s.buffers bdata).numWorkers - 1 }

/-- The next statement of a call. -/
def next (s : ClangState) (t : Nat) (th : Thread) (c : Call) : Option ClangState :=
  let b := s.buffers c.bdata
  match c.place with
  | .entered =>
      some ((s.countInc c.bdata).goTo t th { c with place := .counted b.numWorkers })
  | .counted cntVal =>
      if cntVal > 3 then
        some ((s.countDec c.bdata).finish t th
          { c with place := .turnedAway, decremented := c.decremented ++ [c.bdata] })
      else
        some ({ s with jbuf := some { thread := t, bdata := c.bdata } }.goTo t th
          { c with place := .waiting })
  | .waiting => do
      let langMtx ← b.langMtx.lock t
      some ((s.setBuffer c.bdata { b with langMtx := langMtx }).goTo t th
        { c with place := .locked })
  | .locked =>
      if b.numFailures > 10 then
        some ((s.setBuffer c.bdata { b with totalFailure := true }).goTo t th
          { c with place := .done c.bdata })
      else some (s.goTo t th { c with place := .compiling })
  | .compiling => some (s.goTo t th { c with place := .done c.bdata })
  | .done bdata =>
      some ((s.countDec bdata).goTo t th
        { c with place := .leaving bdata, decremented := c.decremented ++ [bdata] })
  | .leaving bdata =>
      let b := s.buffers bdata
      some ((s.setBuffer bdata { b with langMtx := b.langMtx.unlock t }).finish t th
        { c with place := .returned, unlocked := c.unlocked ++ [bdata] })
  | .returned => none
  | .turnedAway => none

/-- `handle_libclang_error`: the jump goes to the frame in `jbuf`. -/
def handleLibclangError (s : ClangState) (t : Nat) (th : Thread) (c : Call) : Option ClangState := do
  let b := s.buffers c.bdata
  let frame ← s.jbuf
  some ((s.setBuffer c.bdata { b with numFailures := b.numFailures + 1 }).goTo t th
    { c with place := .done frame.bdata })

def step (s : ClangState) : ClangAction → Option ClangState
  | .fill bdata => some (s.setBuffer bdata { s.buffers bdata with initialized := true })
  | .destroy bdata => some (s.setBuffer bdata { s.buffers bdata with initialized := false })
  | .call t bdata => do
      let th ← s.threads[t]?
      let b := s.buffers bdata
      -- Otherwise it returns at once, and nothing has happened.
      if th.call = none ∧ b.initialized ∧ ¬ b.totalFailure then
        some (s.goTo t th (.start bdata))
      else none
  | .next t => do
      let th ← s.threads[t]?
      s.next t th (← th.call)
  | .fail t => do
      let th ← s.threads[t]?
      let c ← th.call
      if c.place = .compiling then s.handleLibclangError t th c else none

/-- `destroy_buffer` goes round its loop once more. -/
def destroyWaits (s : ClangState) (bdata : Nat) : Bool := (s.buffers bdata).numWorkers > 0

end ClangState

/-- Any number of threads, and nothing has happened yet. -/
def clangSystem (threads : Nat) : TransitionSystem ClangState ClangAction where
  init :=
    { buffers := fun _ => { initialized := false, totalFailure := false, numFailures := 0,
                            numWorkers := 0, langMtx := none }
      threads := List.replicate threads { call := none, past := [] }
      jbuf := none }
  step := ClangState.step

/-! ### What the count and the mutex are for -/

/-- Between the increment and the decrement. -/
def Where.inProgress : Where → Bool
  | .counted _ | .waiting | .locked | .compiling | .done _ => true
  | _ => false

/-- Between the lock and the unlock. -/
def Where.hasMutex : Where → Bool
  | .locked | .compiling | .done _ | .leaving _ => true
  | _ => false

def Thread.worksOn (th : Thread) (bdata : Nat) : Bool :=
  th.call.any fun c => c.bdata = bdata && c.place.inProgress

def Thread.hasMutex (th : Thread) (bdata : Nat) : Bool :=
  th.call.any fun c => c.bdata = bdata && c.place.hasMutex

/-- How many calls are in progress on a buffer. -/
def ClangState.workers (s : ClangState) (bdata : Nat) : Nat :=
  s.threads.countP fun th => th.worksOn bdata

/-- A call that has ended did to its own buffer what it had to do, once. -/
def Call.Ended (c : Call) : Prop :=
  c.decremented = [c.bdata] ∧
    (c.place = .returned ∧ c.unlocked = [c.bdata] ∨ c.place = .turnedAway ∧ c.unlocked = [])

/-- Every count and every mutex is as the calls in progress have it. -/
structure Conserved (s : ClangState) : Prop where
  counts : ∀ bdata, (s.buffers bdata).numWorkers.toNat = s.workers bdata
  ended : ∀ th ∈ s.threads, ∀ c ∈ th.past, c.Ended
  /-- Nobody keeps the mutex after its call. -/
  released : ∀ bdata t n, (s.buffers bdata).langMtx = some (t, n) →
    ∃ th, s.threads[t]? = some th ∧ th.hasMutex bdata
  /-- `destroy_buffer` waits for nobody who has ended. -/
  free : ∀ bdata, (∀ th ∈ s.threads, th.worksOn bdata = false) → s.destroyWaits bdata = false

/-- There are fewer threads than the count can count, and an error jumps to its own call. -/
def OwnJump (s : ClangState) (a : ClangAction) : Prop :=
  s.threads.length < UInt32.size ∧
    match a with
    | .fail t => s.jbuf.map JmpBuf.thread = some t
    | _ => True

instance (s : ClangState) : (a : ClangAction) → Decidable (OwnJump s a)
  | .fail _ => inferInstanceAs (Decidable (_ ∧ _))
  | .fill _ | .destroy _ | .call _ _ | .next _ => inferInstanceAs (Decidable (_ ∧ True))

end TagHighlight.Clang
