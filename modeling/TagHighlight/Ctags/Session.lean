/-
Coming back to a buffer: `update_highlight` and `clear_highlight` of `update.c`, from the first
time that a buffer is shown to the last.

`update_other` keeps the commands it has handed to `nvim_call_atomic` in `bdata->calls`.  When the
buffer is shown again they are handed over as they are; nothing is read and ctags is not run.
`run_ctags_pipe` throws them away.  The buffers of a project have its tags in common, but each has
commands of its own.

What is followed is which requests are made, in the order of the calls.  `nvim_call_atomic` packs
its request and starts a thread that writes it, so when and in what order two of them reach Neovim
is not said here.

An update runs with `autocmd_mutex`, so it is one step; the lines change in between.  What ctags
prints and what the variables of the user hold may be different each time.  A parser has its own
way to Neovim, and all that is seen of it here is what it returns.
-/
import TagHighlight.Ctags.Update
import TagHighlight.Lib.TransitionSystem
import TagHighlight.NvimApi.CmdCalls
import Mathlib.Logic.Function.Basic

namespace TagHighlight.Session

open Atomic Update

/-- `enum update_highlight_type`. -/
inductive UpdateHighlightType where
  | normal | update | updateForce | redo
  deriving DecidableEq, Repr

/-! ### One buffer -/

/-- `update_from_cache`, with the commands of last time. -/
def updateFromCache (st : Update.State) (calls : List BString) : Update.State :=
  { st with sent := st.sent ++ sentFor st.bdata.ft calls }

/-- From the label `parser_failed` on. -/
def withoutParser (w : World) (type : UpdateHighlightType) (st : Update.State) :
    Except Fault Update.State :=
  match st.bdata.calls with
  | some calls => if type = .normal then .ok (updateFromCache st calls) else updateOther w st
  | none => updateOther w st

/-- `update_highlight`; `ret` is what the parser returns, if there is one for the file type. -/
def updateHighlight (w : World) (ret : Except Fault Int) (type : UpdateHighlightType)
    (st : Update.State) : Except Fault Update.State :=
  if st.bdata.ft.hasParser then do
    let ret ← ret
    if ret = 0 ∨ ret = -1 then .ok st else withoutParser w type st
  else withoutParser w type st

/-- The command of `clear_highlight`, for groups of these kinds. -/
def clearCommand (ft : Commands.Settings) (groups : List Commands.CmdCallInfo) : BString :=
  (bt " | ").intercalate
    (groups.map fun info => bt "silent! syntax clear " ++ Commands.groupId ft info)

/-- `clear_highlight`, as far as it is about commands. -/
def clearHighlight (w : World) (st : Update.State) : Update.State :=
  if st.bdata.ft.hasParser then st
  else { st with sent := st.sent ++ [.command (clearCommand st.bdata.ft.settings w.groups)] }

/-! ### All buffers -/

/-- A buffer of a project, and all requests that were made for it. -/
structure Buffer where
  ft : FileType
  filename : BString
  lines : List BString
  topdir : Nat
  calls : Option (List BString)
  handed : List Sent

structure State where
  buffers : Nat → Option Buffer
  topdirs : Nat → Taglist.TopDir

namespace State

/-- What the functions see of a buffer. -/
def view (s : State) (b : Buffer) : Update.State where
  bdata :=
    { ft := b.ft, filename := b.filename, lines := b.lines, topdir := s.topdirs b.topdir,
      calls := b.calls }
  sent := b.handed

/-- What they leave. -/
def put (s : State) (n : Nat) (b : Buffer) (st : Update.State) : State where
  buffers := Function.update s.buffers n (some { b with calls := st.bdata.calls, handed := st.sent })
  topdirs := Function.update s.topdirs b.topdir st.bdata.topdir

end State

inductive Action where
  /-- `attach_new_buffer`; `found` is what `get_initial_taglist` finds. -/
  | attach (n : Nat) (ft : FileType) (filename : BString) (lines : List BString) (topdir : Nat)
      (found : Taglist.World) (w : World) (ret : Except Fault Int)
  /-- `update_highlight`. -/
  | highlight (n : Nat) (type : UpdateHighlightType) (w : World) (ret : Except Fault Int)
  /-- The lines change. -/
  | edit (n : Nat) (lines : List BString)
  /-- `clear_highlight`. -/
  | clear (n : Nat) (w : World)
  /-- `destroy_buffer`. -/
  | destroy (n : Nat)

/-- A new buffer, its tags read, is highlighted for the first time. -/
def attach (s : State) (n : Nat) (b : Buffer) (found : Taglist.World) (w : World)
    (ret : Except Fault Int) : Except Fault State := do
  let (topdir, _, _) ← Taglist.getInitialTaglist (s.topdirs b.topdir) found
  let s := { s with topdirs := Function.update s.topdirs b.topdir topdir }
  .ok (s.put n b (← updateHighlight w ret .update (s.view b)))

/-- A step; there is none after an error, which ends the process. -/
def step (s : State) : Action → Option State
  | .attach n ft filename lines topdir found w ret =>
      match s.buffers n with
      | some _ => none
      | none =>
          (attach s n { ft, filename, lines, topdir, calls := none, handed := [] } found w
            ret).toOption
  | .highlight n type w ret => do
      let b ← s.buffers n
      let st ← (updateHighlight w ret type (s.view b)).toOption
      some (s.put n b st)
  | .edit n lines => do
      let b ← s.buffers n
      some { s with buffers := Function.update s.buffers n (some { b with lines := lines }) }
  | .clear n w => do
      let b ← s.buffers n
      some (s.put n b (clearHighlight w (s.view b)))
  | .destroy n => do
      let _ ← s.buffers n
      some { s with buffers := Function.update s.buffers n none }

/-- No buffer yet; these are the projects. -/
def session (topdirs : Nat → Taglist.TopDir) : TransitionSystem State Action where
  init := { buffers := fun _ => none, topdirs := topdirs }
  step := step

/-! ### What the commands of last time are -/

/-- The commands of an atomic request, which are what highlights the buffer. -/
def commandsOf : Sent → Option (List BString)
  | .atomic calls => some calls
  | .command _ => none

/-- The last commands by which the buffer was highlighted. -/
def lastHighlight (handed : List Sent) : Option (List BString) :=
  (handed.filterMap commandsOf).getLast?

/-- What is kept is what was handed over last. -/
structure Kept (b : Buffer) (calls : List BString) : Prop where
  last : lastHighlight b.handed = some calls
  begins : ∃ cmds, calls = bt "ownsyntax" :: cmds

/-- The parsers have found nothing that ctags would have to find for them. -/
def ParserReturns : Action → Prop
  | .attach _ _ _ _ _ _ _ ret | .highlight _ _ _ ret => ret = .ok 0 ∨ ret = .ok (-1)
  | .edit _ _ | .clear _ _ | .destroy _ => True

/-- When the buffer is shown again, these commands are handed over for it, and that is all. -/
def Replays (s : State) (n : Nat) (b : Buffer) (calls : List BString) : Prop :=
  ∀ w ret, step s (.highlight n .normal w ret) =
    some { s with buffers :=
      Function.update s.buffers n (some { b with handed := b.handed ++ sentFor b.ft calls }) }

end TagHighlight.Session
