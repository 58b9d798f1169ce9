/-
How long a `Buffer` lives, and who still has a pointer to it.

Three kinds of threads are given a `Buffer`: the thread of `event_autocmd` that made it,
`wrap_update_highlight` and `delayed_update_highlight` after an edit, and
`destroy_buffer_thread` after a detach event.  The event loop itself works on one while it
handles a notification.  Each got the pointer from `find_buffer` or from whoever started
it, and keeps it until it is done.

`destroy_buffer` closes the node, so that nobody finds the `Buffer` any more, waits until
`num_workers` is zero, and frees it.  A thread is counted in `num_workers` only while it
highlights, from the increment in `libclang_highlight` or `highlight_go` on.

A step of the model is one access to the `Buffer`.  Where it was freed the access is a use
of freed memory, and the run is over.
-/
import TagHighlight.Lib.TransitionSystem
import Mathlib.Logic.Function.Basic

namespace TagHighlight.Lifetime

/-- What is to be known of a `Filetype`. -/
inductive Lang where
  /-- `is_c` and `has_parser`. -/
  | clang
  /-- `FT_GO`, which also has a parser. -/
  | go
  | ctags
  deriving DecidableEq

def Lang.hasParser : Lang → Bool
  | .clang | .go => true
  | .ctags => false

/-- The part of a `struct bufdata` that the threads synchronize on. -/
structure Bufdata where
  num : Nat
  ft : Lang
  ctick : Nat
  initialized : Bool
  totalFailure : Bool
  numWorkers : Nat
  hlWaiters : Nat
  /-- Somebody has `lang_mtx`. -/
  langMtx : Bool
  deriving DecidableEq

/-- `get_bufdata`. -/
def getBufdata (num : Nat) (ft : Lang) : Bufdata :=
  { num := num, ft := ft, ctick := 0, initialized := false, totalFailure := false
    numWorkers := 0, hlWaiters := 0, langMtx := false }

/-- Where a thread stands: the access it makes next. -/
inductive Stage where
  /-- `get_initial_lines`. -/
  | fill
  /-- `wrap_update_highlight`, at the increment of `hl_waiters`. -/
  | enter
  /-- `wrap_update_highlight`, at the decrement. -/
  | leave
  /-- `delayed_update_highlight`, in its sleep. -/
  | asleep
  /-- At the call of `update_highlight`. -/
  | update
  /-- `update_from_cache` or `update_other`. -/
  | tags
  /-- The first checks of `libclang_highlight`. -/
  | ready
  | count
  /-- One worker too many takes itself off again. -/
  | discount
  | lock
  | work
  | uncount
  | unlock
  /-- `highlight_go` gives `lock.total` back. -/
  | release
  /-- `destroy_buffer`, at `clear_highlight`. -/
  | clear
  | closeNode
  | uninit
  /-- The loop that waits for `num_workers`. -/
  | await
  | lockLast
  | dispose
  | unlockLast
  | free
  deriving DecidableEq

/-- A thread, its `vdata` in `bdata`. -/
structure Thread where
  bdata : Nat
  /-- `update_highlight` was called by `wrap_update_highlight`. -/
  wrapped : Bool
  stage : Stage
  deriving DecidableEq

/-- Where the thread goes on when `update_highlight` returns, if anywhere. -/
def Thread.return (t : Thread) : Option Stage := if t.wrapped then some .leave else none

/--
The next access of the thread, on a `Buffer` that is still there: the `Buffer` afterwards,
where the thread goes on, and the threads it starts.  `none` while it has to wait.
`failed` is what became of the work itself.
-/
def Thread.advance (t : Thread) (bdata : Bufdata) (failed : Bool) :
    Option (Bufdata × Option Stage × List Thread) :=
  match t.stage with
  | .fill => some ({ bdata with initialized := true }, some .update, [])
  -- The counters' operations return the value before.
  | .enter =>
      some ({ bdata with hlWaiters := bdata.hlWaiters + 1 }, some .update,
        if bdata.hlWaiters = 0 then [{ bdata := t.bdata, wrapped := false, stage := .asleep }]
        else [])
  | .leave => some ({ bdata with hlWaiters := bdata.hlWaiters - 1 }, none, [])
  | .asleep => some (bdata, some .update, [])
  | .update =>
      match bdata.ft with
      | .clang => some (bdata, some .ready, [])
      | .go => some (bdata, some .count, [])
      | .ctags => some (bdata, some .tags, [])
  | .tags => some (bdata, t.return, [])
  | .ready =>
      some (bdata, if bdata.initialized ∧ ¬ bdata.totalFailure then some .count else t.return, [])
  | .count =>
      some ({ bdata with numWorkers := bdata.numWorkers + 1 },
        if 3 < bdata.numWorkers then some .discount else some .lock, [])
  | .discount => some ({ bdata with numWorkers := bdata.numWorkers - 1 }, t.return, [])
  | .lock => if bdata.langMtx then none else some ({ bdata with langMtx := true }, some .work, [])
  | .work =>
      let hopeless := failed && bdata.ft = .clang
      some ({ bdata with totalFailure := bdata.totalFailure || hopeless }, some .uncount, [])
  | .uncount => some ({ bdata with numWorkers := bdata.numWorkers - 1 }, some .unlock, [])
  | .unlock =>
      some ({ bdata with langMtx := false },
        if bdata.ft = .go ∧ ¬ failed then some .release else t.return, [])
  | .release => some (bdata, t.return, [])
  | .clear => some (bdata, some .closeNode, [])
  | .closeNode => some (bdata, some .uninit, [])
  | .uninit => some ({ bdata with initialized := false }, some .await, [])
  | .await => some (bdata, if bdata.numWorkers = 0 then some .lockLast else some .await, [])
  | .lockLast =>
      if bdata.langMtx then none else some ({ bdata with langMtx := true }, some .dispose, [])
  | .dispose => some (bdata, some .unlockLast, [])
  | .unlockLast => some ({ bdata with langMtx := false }, some .free, [])
  | .free => some (bdata, none, [])

/-- What Neovim tells about a buffer, with the new tick, 0 if it sends none. -/
inductive Notification where
  | lines (newTick : Nat)
  | changedtick (newTick : Nat)
  | detach
  deriving DecidableEq

/-- Where the event loop stands in `handle_buffer_update`. -/
inductive Loop where
  | idle
  | tick (p newTick : Nat) (lines : Bool)
  | lines (p : Nat)
  /-- At the check of `ft->has_parser`. -/
  | parser (p : Nat)
  deriving DecidableEq

/-- The `Buffer` that the event loop works on. -/
def Loop.bdata : Loop → Option Nat
  | .idle => none
  | .tick p _ _ | .lines p | .parser p => some p

/-- `handle_buffer_update` before its first access. -/
def Loop.start (p newTick : Nat) (lines : Bool) : Loop :=
  if newTick ≠ 0 then .tick p newTick lines else if lines then .lines p else .idle

structure State where
  /-- What `find_buffer` gives for a number. -/
  found : Nat → Option Nat
  buffers : Nat → Option Bufdata
  /-- The address of the next allocation. -/
  fresh : Nat
  threads : List Thread
  loop : Loop
  /-- The process has ended, on an event of an unknown buffer. -/
  exited : Bool
  /-- A freed `Buffer` was accessed. -/
  misused : Bool

inductive Action where
  /-- `attach_new_buffer` for a number that is not open. -/
  | attach (num : Nat) (ft : Lang)
  /-- A thread of `event_autocmd` calls `update_highlight` for a buffer it finds. -/
  | update (num : Nat)
  | notify (num : Nat) (event : Notification)
  | loop
  | thread (i : Nat) (failed : Bool)
  deriving DecidableEq

namespace State

def start : State :=
  { found := fun _ => none, buffers := fun _ => none, fresh := 0, threads := []
    loop := .idle, exited := false, misused := false }

def setBuffer (s : State) (p : Nat) (bdata : Bufdata) : State :=
  { s with buffers := Function.update s.buffers p (some bdata) }

def startThread (s : State) (t : Thread) : State := { s with threads := s.threads ++ [t] }

/-- `new_buffer`, and the rest of `attach_new_buffer` still to do. -/
def attach (s : State) (num : Nat) (ft : Lang) : Option State :=
  match s.found num with
  | some _ => none
  | none =>
      some
        { s with
          found := Function.update s.found num (some s.fresh)
          buffers := Function.update s.buffers s.fresh (some (getBufdata num ft))
          fresh := s.fresh + 1
          threads := s.threads ++ [{ bdata := s.fresh, wrapped := false, stage := .fill }] }

def update (s : State) (num : Nat) : Option State := do
  let p ← s.found num
  some (s.startThread { bdata := p, wrapped := false, stage := .update })

/-- `handle_nvim_notification`. -/
def notify (s : State) (num : Nat) (event : Notification) : Option State :=
  if s.loop = .idle then
    match s.found num, event with
    | none, _ => some { s with exited := true }
    | some p, .lines newTick => some { s with loop := Loop.start p newTick true }
    | some p, .changedtick newTick => some { s with loop := Loop.start p newTick false }
    | some p, .detach => some (s.startThread { bdata := p, wrapped := false, stage := .clear })
  else
    none

/-- The next access of the event loop. -/
def loopStep (s : State) : Option State := do
  let p ← s.loop.bdata
  match s.buffers p, s.loop with
  | none, _ => some { s with misused := true }
  | some _, .idle => none
  | some bdata, .tick p newTick lines =>
      some { s.setBuffer p { bdata with ctick := newTick } with
              loop := if lines then .lines p else .idle }
  | some _, .lines p => some { s with loop := .parser p }
  | some bdata, .parser p =>
      let s := { s with loop := .idle }
      some (if bdata.ft.hasParser then
          s.startThread { bdata := p, wrapped := true, stage := .enter }
        else s)

/-- The `i`-th thread goes on at `next`, or ends. -/
def resume (s : State) (i : Nat) (t : Thread) (next : Option Stage) (started : List Thread) :
    State :=
  match next with
  | some stage => { s with threads := s.threads.set i { t with stage := stage } ++ started }
  | none => { s with threads := s.threads.eraseIdx i ++ started }

/-- What a step does besides: a node is closed, or a `Buffer` freed. -/
def effect (s : State) (p : Nat) (bdata : Bufdata) : Stage → State
  | .closeNode => { s with found := Function.update s.found bdata.num none }
  | .free => { s with buffers := Function.update s.buffers p none }
  | _ => s

/-- The next step of the `i`-th thread.  Only a thread that sleeps makes no access. -/
def threadStep (s : State) (i : Nat) (failed : Bool) : Option State := do
  let t ← s.threads[i]?
  match s.buffers t.bdata with
  | none =>
      if t.stage = .asleep then some (s.resume i t (some .update) [])
      else some { s with misused := true }
  | some bdata => do
      let (after, next, started) ← t.advance bdata failed
      some (((s.setBuffer t.bdata after).effect t.bdata after t.stage).resume i t next started)

def step (s : State) (action : Action) : Option State :=
  if s.exited ∨ s.misused then none
  else
    match action with
    | .attach num ft => s.attach num ft
    | .update num => s.update num
    | .notify num event => s.notify num event
    | .loop => s.loopStep
    | .thread i failed => s.threadStep i failed

/-- Nobody but the `i`-th thread has a pointer to the `Buffer`. -/
def SoleOwner (s : State) (i p : Nat) : Prop :=
  (∀ t ∈ s.threads.eraseIdx i, t.bdata ≠ p) ∧ s.loop.bdata ≠ some p

instance (s : State) (i p : Nat) : Decidable (s.SoleOwner i p) :=
  inferInstanceAs (Decidable (_ ∧ _))

end State

def lifetimeSystem : TransitionSystem State Action where
  init := State.start
  step := State.step

/--
`destroy_buffer` frees a `Buffer` only when nobody else is left who was given it: no
thread, whether it sleeps, waits or works, and not the event loop.
-/
def FreesLast (s : State) : Action → Prop
  | .thread i _ => ∀ t ∈ s.threads[i]?, t.stage = .free → s.SoleOwner i t.bdata
  | _ => True

instance (s : State) : (action : Action) → Decidable (FreesLast s action)
  | .thread i _ => inferInstanceAs
      (Decidable (∀ t ∈ s.threads[i]?, t.stage = .free → s.SoleOwner i t.bdata))
  | .attach _ _ | .update _ | .notify _ _ | .loop => isTrue trivial

end TagHighlight.Lifetime
