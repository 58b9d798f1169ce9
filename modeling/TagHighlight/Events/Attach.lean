/-
Which buffers Neovim reports on, and which the plugin knows.

Neovim sends events for a buffer from `nvim_buf_attach` until its detach event.  The
plugin has a `Buffer` from `new_buffer` until `destroy_buffer`.  A lines or changedtick
event for a buffer it does not know ends the process: "Update called on uninitialized
buffer."  Nothing but the order of things keeps the two sides in step.

On the plugin's side run the event loop, the threads of `event_autocmd`, one of which at a
time has `autocmd_mutex`, and the threads that `destroy_buffer` was handed to after a
detach event.  Every access to the registry is a step of its own, and so is every request
to Neovim.  Highlighting does not touch the registry and is left out.
-/
import TagHighlight.Buffer.Registry

namespace TagHighlight.Attach

/-- The `vimscript_message_type`s that do not end the plugin. -/
inductive VimlEvent where
  | bufNew
  | bufChanged
  | syntaxChanged
  | updateTags
  | updateTagsForce
  | clearBuffer
  deriving DecidableEq

/-- A blocking request of the thread that has `autocmd_mutex`. -/
inductive Query where
  | currentBuf
  /-- `nvim_buf_get_option (num, "ft")`. -/
  | filetype (num : Nat)
  | attach (num : Nat)
  | lines (num : Nat)
  deriving DecidableEq

inductive Answer where
  | currentBuf (num : Nat)
  | filetype (ft : BString)
  | done
  deriving DecidableEq

/-- What Neovim sends. -/
inductive Message where
  | lines (num : Nat)
  | changedtick (num : Nat)
  | detach (num : Nat)
  | update (event : VimlEvent)
  | response (answer : Answer)
  deriving DecidableEq

/-- Where the thread that has `autocmd_mutex` stands. -/
inductive Autocmd where
  /-- Asking for the current buffer, as every handler does first. -/
  | current (event : VimlEvent)
  /-- `event_syntax_changed`, asking for the file type. -/
  | comparing (num p : Nat)
  /-- In `destroy_buffer`, before the node is closed. -/
  | closing (num p : Nat)
  /-- In `destroy_buffer`, before the `Buffer` is freed. -/
  | freeing (num p : Nat)
  /-- In `attach_new_buffer`, before `new_buffer`. -/
  | attach (num : Nat)
  /-- In `make_new_buffer`, asking for the file type with the node's lock. -/
  | opening (num a : Nat)
  /-- In `nvim_buf_attach`. -/
  | attaching (num p : Nat)
  /-- In `get_initial_lines`. -/
  | loading (num p : Nat)
  deriving DecidableEq

/-- Where a `destroy_buffer_thread` stands. -/
inductive Destroyer where
  | closing (p : Nat)
  | freeing (p : Nat)
  deriving DecidableEq

/-- How the process fares. -/
inductive Outcome where
  | running
  /-- `errx (1, "Update called on uninitialized buffer.")` on this message. -/
  | uninitialized (m : Message)
  | fault (f : Fault)
  deriving DecidableEq

structure Session where
  /-- Neovim's current buffer. -/
  current : Nat
  /-- The option `ft` of each buffer. -/
  filetype : Nat → BString
  attached : Nat → Bool
  /-- The request that Neovim has not answered. -/
  query : Option Query
  wire : List Message
  reg : Registry
  /-- `global_previous_buffer`, `none` standing for the `-1` it starts with. -/
  previous : Option Nat
  /-- The threads of `event_autocmd` that wait for the mutex. -/
  pending : List VimlEvent
  autocmd : Option Autocmd
  /-- The answer that the thread was given. -/
  answer : Option Answer
  destroyers : List Destroyer
  outcome : Outcome

inductive Action where
  | switchTo (num : Nat)
  | setFiletype (num : Nat) (ft : BString)
  | vimEvent (event : VimlEvent)
  | edit (num : Nat)
  | tick (num : Nat)
  | detach (num : Nat)
  | answer
  /-- The event loop handles a message; `empty` is what `handle_line_event` returns. -/
  | loop (empty : Bool)
  /-- The `i`-th thread that waits gets `autocmd_mutex`. -/
  | lock (i : Nat)
  | autocmd
  | destroyer (i : Nat)
  deriving DecidableEq

end Attach

/-- The nodes whose locks `find_buffer_node` takes on its way. -/
def Registry.walked (r : Registry) (bufnum : Nat) : List Nat :=
  let differs a := decide ((r.nodes a).map (·.num) ≠ some bufnum)
  r.bufferList.takeWhile differs ++ (r.bufferList.dropWhile differs).take 1

/-- The first half of `destroy_buffer`: the node is closed, and `initialized` cleared. -/
def Registry.closeBuffer (r : Registry) (p : Nat) : Except Fault Registry := do
  let r ← r.closeNode p
  let bdata ← r.buffer p
  .ok (r.setBuffer p { bdata with initialized := false })

/-- The second half: the `Buffer` is freed. -/
def Registry.finishDestroy (r : Registry) (p : Nat) : Except Fault Registry := do
  let _ ← r.buffer p
  .ok (r.freeBuffer p)

namespace Attach

/-- What an event handler goes on with, once it knows the current buffer. -/
inductive Decision where
  | finished
  | attach
  /-- `event_syntax_changed` asks for the file type. -/
  | filetype (p : Nat)

def eventBufferChanged (r : Registry) (prev : Option Nat) (num : Nat) :
    Except Fault Decision := do
  let bdata ← r.findBuffer num
  if prev = some num ∧ bdata.isSome then
    return .finished
  match prev with
  | none => pure ()
  | some prev =>
      match ← r.findBuffer prev with
      | none => pure ()
      | some q => let _ ← r.buffer q
  match bdata with
  | none => return .attach
  | some p => return if (← r.buffer p).initialized then .finished else .attach

def eventSyntaxChanged (r : Registry) (num : Nat) : Except Fault Decision := do
  match ← r.findBuffer num with
  | none => return .finished
  | some p => return .filetype p

def eventWantUpdate (r : Registry) (num : Nat) : Except Fault Decision := do
  match ← r.findBuffer num with
  | some _ => return .finished
  | none => return if ← r.haveSeenBufnum num then .attach else .finished

def eventForceUpdate (r : Registry) (num : Nat) : Except Fault Decision := do
  match ← r.findBuffer num with
  | some _ => return .finished
  | none => return .attach

/-- `clear_highlight ()`, which looks for the current buffer. -/
def eventClearBuffer (r : Registry) (num : Nat) : Except Fault Decision := do
  let _ ← r.findBuffer num
  return .finished

def decision (r : Registry) (prev : Option Nat) (num : Nat) :
    VimlEvent → Except Fault Decision
  | .bufNew | .bufChanged => eventBufferChanged r prev num
  | .syntaxChanged => eventSyntaxChanged r num
  | .updateTags => eventWantUpdate r num
  | .updateTagsForce => eventForceUpdate r num
  | .clearBuffer => eventClearBuffer r num

namespace Session

def start : Session :=
  { current := 0, filetype := fun _ => [], attached := fun _ => false, query := none, wire := []
    reg := Registry.empty, previous := none, pending := [], autocmd := none, answer := none
    destroyers := [], outcome := .running }

/-- The state after a computation on the registry that may fail. -/
def after {α : Type} (s : Session) (x : Except Fault α) (next : α → Session) : Session :=
  match x with
  | .error f => { s with outcome := .fault f }
  | .ok a => next a

/-- Somebody who looks up `bufnum` has to wait for the lock of a node. -/
def blocked (s : Session) (bufnum : Nat) : Bool :=
  match s.autocmd with
  | some (.opening _ a) => (s.reg.walked bufnum).contains a
  | _ => false

/-- Neovim tells about a buffer it is attached to. -/
def report (s : Session) (num : Nat) (m : Message) : Option Session :=
  if s.attached num then some { s with wire := s.wire ++ [m] } else none

def answerQuery (s : Session) : Option Session :=
  let reply a s := some { s with query := none, wire := s.wire ++ [.response a] }
  match s.query with
  | none => none
  | some .currentBuf => reply (.currentBuf s.current) s
  | some (.filetype num) => reply (.filetype (s.filetype num)) s
  | some (.attach num) => reply .done { s with attached := Function.update s.attached num true }
  | some (.lines _) => reply .done s

/-- `handle_nvim_notification` for the events of a buffer. -/
def handleBufferEvent (s : Session) (m : Message) (num : Nat)
    (handle : Nat → Except Fault Session) : Option Session :=
  if s.blocked num then none
  else
    some (s.after (s.reg.findBuffer num) fun
      | none => { s with outcome := .uninitialized m }
      | some p => s.after (handle p) id)

/-- `handle_buffer_update`, as far as the `Buffer` goes. -/
def handleBufferUpdate (s : Session) (filled : Bool) (p : Nat) : Except Fault Session := do
  let bdata ← s.reg.buffer p
  .ok { s with reg := s.reg.setBuffer p { bdata with initialized := bdata.initialized || filled } }

def loop (s : Session) (empty : Bool) : Option Session :=
  match s.wire with
  | [] => none
  | m :: rest =>
      let s := { s with wire := rest }
      match m with
      | .lines num => s.handleBufferEvent m num (s.handleBufferUpdate !empty)
      | .changedtick num => s.handleBufferEvent m num (s.handleBufferUpdate false)
      | .detach num => s.handleBufferEvent m num fun p =>
          .ok { s with destroyers := s.destroyers ++ [.closing p] }
      | .update event => some { s with pending := s.pending ++ [event] }
      | .response answer => some { s with answer := some answer }

/-- A thread of `event_autocmd` gets the mutex and asks for the current buffer. -/
def lock (s : Session) (i : Nat) : Option Session :=
  match s.autocmd, s.pending[i]? with
  | none, some event =>
      some { s with
              pending := s.pending.eraseIdx i
              autocmd := some (.current event)
              query := some .currentBuf }
  | _, _ => none

/-- The handler goes on as decided. -/
def decide (s : Session) (num : Nat) : Decision → Session
  | .finished => { s with autocmd := none }
  | .attach => { s with autocmd := some (.attach num) }
  | .filetype p => { s with autocmd := some (.comparing num p), query := some (.filetype num) }

variable (fts : Filetypes)

/-- `new_buffer` up to the request for the file type. -/
def startNewBuffer (s : Session) (num : Nat) : Except Fault Session := do
  let (r, a) ← s.reg.nodeFor num
  let (r, opening) ← r.startOpening a
  if opening then
    .ok { s with reg := r, autocmd := some (.opening num a), query := some (.filetype num) }
  else
    .ok { s with reg := ← r.settle a none, autocmd := none }

/-- The rest of `new_buffer`, and `nvim_buf_attach` if it succeeded. -/
def finishNewBuffer (s : Session) (num a : Nat) (ft : BString) : Except Fault Session := do
  let (r, ret) ← s.reg.finishOpening fts a (some ft)
  let r ← r.settle a ret
  match ret with
  | none => .ok { s with reg := r, autocmd := none }
  | some p => .ok { s with reg := r, autocmd := some (.attaching num p), query := some (.attach num) }

/-- The thread that has `autocmd_mutex` goes on, with the answer where it waits for one. -/
def autocmdStep (s : Session) : Option Session :=
  match s.autocmd, s.answer with
  | some (.current event), some (.currentBuf num) =>
      let prev := s.previous
      let s := { s with answer := none }
      some (s.after (decision s.reg prev num event) fun d =>
        match event with
        | .clearBuffer => s.decide num d
        | _ => { s with previous := some num }.decide num d)
  | some (.comparing num p), some (.filetype ft) =>
      let s := { s with answer := none }
      some (s.after (s.reg.buffer p) fun bdata =>
        if ft = bdata.ft then { s with autocmd := none }
        else { s with autocmd := some (.closing num p) })
  | some (.closing num p), _ =>
      some (s.after (s.reg.closeBuffer p) fun r =>
        { s with reg := r, autocmd := some (.freeing num p) })
  | some (.freeing num p), _ =>
      some (s.after (s.reg.finishDestroy p) fun r =>
        { s with reg := r, autocmd := some (.attach num) })
  | some (.attach num), _ => some (s.after (s.startNewBuffer num) id)
  | some (.opening num a), some (.filetype ft) =>
      let s := { s with answer := none }
      some (s.after (s.finishNewBuffer fts num a ft) id)
  | some (.attaching num p), some .done =>
      some { s with
              answer := none, autocmd := some (.loading num p), query := some (.lines num) }
  | some (.loading _ p), some .done =>
      let s := { s with answer := none, autocmd := none }
      some (s.after (s.handleBufferUpdate true p) id)
  | _, _ => none

def destroyerStep (s : Session) (i : Nat) : Option Session := do
  match ← s.destroyers[i]? with
  | .closing p =>
      match s.reg.buffers p with
      | none => some { s with outcome := .fault .undefined }
      | some bdata =>
          if s.blocked bdata.num then none
          else
            some (s.after (s.reg.closeBuffer p) fun r =>
              { s with reg := r, destroyers := s.destroyers.set i (.freeing p) })
  | .freeing p =>
      some (s.after (s.reg.finishDestroy p) fun r =>
        { s with reg := r, destroyers := s.destroyers.eraseIdx i })

def step (s : Session) (action : Action) : Option Session :=
  if s.outcome = .running then
    match action with
    | .switchTo num => some { s with current := num }
    | .setFiletype num ft => some { s with filetype := Function.update s.filetype num ft }
    | .vimEvent event => some { s with wire := s.wire ++ [.update event] }
    | .edit num => s.report num (.lines num)
    | .tick num => s.report num (.changedtick num)
    | .detach num => do
        let s ← s.report num (.detach num)
        some { s with attached := Function.update s.attached num false }
    | .answer => s.answerQuery
    | .loop empty => s.loop empty
    | .lock i => s.lock i
    | .autocmd => s.autocmdStep fts
    | .destroyer i => s.destroyerStep i
  else
    none

end Session

/-- Neovim and the plugin, in any order of steps. -/
def attachSystem (fts : Filetypes) : TransitionSystem Session Action where
  init := Session.start
  step := Session.step fts

/-! ### Neovim and the plugin in step -/

namespace Session

/-- An event that the plugin has to know the buffer for is on its way. -/
def Coming (s : Session) (num : Nat) : Prop :=
  .lines num ∈ s.wire ∨ .changedtick num ∈ s.wire

instance (s : Session) (num : Nat) : Decidable (s.Coming num) :=
  inferInstanceAs (Decidable (_ ∨ _))

/-- No event is on its way for the buffer that `p` is for. -/
def Quiet (s : Session) (p : Nat) : Prop := ∀ bdata ∈ s.reg.buffers p, ¬ s.Coming bdata.num

/-- Neovim is done with the buffer that `p` is for, and was not asked to attach it again. -/
def LetGo (s : Session) (p : Nat) : Prop :=
  ∀ bdata ∈ s.reg.buffers p,
    s.attached bdata.num = false ∧ s.query ≠ some (.attach bdata.num)

/-- The plugin has a `Buffer` for the number. -/
def Known (s : Session) (num : Nat) : Prop := ∃ p, s.reg.findBuffer num = .ok (some p)

end Session

/-- The thread is between two `Buffer`s for the number, `new_buffer` not being done. -/
def Autocmd.Reopening (num : Nat) : Option Autocmd → Prop
  | some (.freeing n _) | some (.attach n) | some (.opening n _) => n = num
  | _ => False

instance Autocmd.decidableReopening (num : Nat) :
    (autocmd : Option Autocmd) → Decidable (Reopening num autocmd)
  | some (.freeing n _) | some (.attach n) | some (.opening n _) =>
      inferInstanceAs (Decidable (n = num))
  | none | some (.current _) | some (.comparing _ _) | some (.closing _ _)
  | some (.attaching _ _) | some (.loading _ _) => isFalse id

namespace Session

/-- The file type that the thread was told. -/
def reported (s : Session) : Option BString :=
  match s.answer with
  | some (.filetype ft) => some ft
  | _ => none

/--
What the thread that has `autocmd_mutex` may do next: close a node only when no event for
its buffer is on its way, and go on with `new_buffer` for a number that has an entry only
if the file type is one to highlight.
-/
def AutocmdInStep (fts : Filetypes) (s : Session) : Option Autocmd → Prop
  | some (.closing _ p) => s.Quiet p
  | some (.opening _ a) => a ∈ s.reg.bufferList → ∀ ft ∈ s.reported, fts.wanted (some ft) ≠ none
  | _ => True

/-- A thread started on a detach event closes a node only of a buffer that Neovim let go. -/
def DestroyerInStep (s : Session) : Option Destroyer → Prop
  | some (.closing p) => s.Quiet p ∧ s.LetGo p
  | _ => True

end Session

/--
The two sides are in step: Neovim tells nothing of a buffer while the plugin is between
two `Buffer`s for it, and the plugin forgets a buffer only when nothing of it is on its
way and, after a detach event, only if Neovim did not attach it again.
-/
def InStep (fts : Filetypes) (s : Session) : Action → Prop
  | .edit num => ¬ Autocmd.Reopening num s.autocmd
  | .tick num => ¬ Autocmd.Reopening num s.autocmd
  | .autocmd => s.AutocmdInStep fts s.autocmd
  | .destroyer i => s.DestroyerInStep s.destroyers[i]?
  | _ => True

section Decidable

variable (fts : Filetypes) (s : Session)

instance (p : Nat) : Decidable (s.Quiet p) :=
  inferInstanceAs (Decidable (∀ bdata ∈ s.reg.buffers p, ¬ s.Coming bdata.num))

instance (p : Nat) : Decidable (s.LetGo p) :=
  inferInstanceAs (Decidable (∀ bdata ∈ s.reg.buffers p,
    s.attached bdata.num = false ∧ s.query ≠ some (.attach bdata.num)))

instance : (autocmd : Option Autocmd) → Decidable (s.AutocmdInStep fts autocmd)
  | some (.closing _ p) => inferInstanceAs (Decidable (s.Quiet p))
  | some (.opening _ a) => inferInstanceAs (Decidable
      (a ∈ s.reg.bufferList → ∀ ft ∈ s.reported, fts.wanted (some ft) ≠ none))
  | none | some (.current _) | some (.comparing _ _) | some (.freeing _ _) | some (.attach _)
  | some (.attaching _ _) | some (.loading _ _) => isTrue trivial

instance : (destroyer : Option Destroyer) → Decidable (s.DestroyerInStep destroyer)
  | some (.closing p) => inferInstanceAs (Decidable (s.Quiet p ∧ s.LetGo p))
  | none | some (.freeing _) => isTrue trivial

instance : (action : Action) → Decidable (InStep fts s action)
  | .edit num | .tick num => inferInstanceAs (Decidable (¬ Autocmd.Reopening num s.autocmd))
  | .autocmd => inferInstanceAs (Decidable (s.AutocmdInStep fts s.autocmd))
  | .destroyer i => inferInstanceAs (Decidable (s.DestroyerInStep s.destroyers[i]?))
  | .switchTo _ | .setFiletype _ _ | .vimEvent _ | .detach _ | .answer | .loop _ | .lock _ =>
      isTrue trivial

end Decidable

/-- The plugin survives the events of attached buffers. -/
structure Survives (s : Session) : Prop where
  /-- The process has not ended on a lines or changedtick event. -/
  notFatal : ∀ m, s.outcome = .uninitialized m → ∀ num, m ≠ .lines num ∧ m ≠ .changedtick num
  /-- The plugin knows the buffer of each such event that is on its way. -/
  known : ∀ num, s.Coming num → s.Known num

end TagHighlight.Attach
