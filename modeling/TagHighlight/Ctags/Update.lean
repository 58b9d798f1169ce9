/-
Highlighting with the tags of ctags: `update_other` of `update.c`, with `update_taglist` and
`run_ctags_pipe` of `ctags.c` as it calls them.

What ctags prints becomes the list of tags of the project, and the tags that the buffer names
are made into the commands for it.  If there are none, ctags is run again, and told the
language.  Then it is done all over, from the label `retry` on.

The answers of the world are arguments: what ctags prints with each of the options, whether it
may be run, and what the variables of the user hold.  So are the tokens of the buffer, which
are read off its lines and its file type alone.  There are lines, as `update_highlight` has
tested.  The mutex and the messages for the user are left out.
-/
import TagHighlight.Ctags.Taglist
import TagHighlight.Ctags.Commands

namespace TagHighlight.Update

open CtagsScan Commands

/-- `enum update_taglist_opts`. -/
inductive UpdateTaglistOpts where
  | normal | force | forceLanguage
  deriving DecidableEq, Repr

/-- `struct filetype`. -/
structure FileType where
  ctagsName : BString
  order : BString
  ignoredTags : List BString
  equiv : Option (List BString)
  restoreCmds : Option BString
  isCOrCpp : Bool
  hasParser : Bool
  /-- What `update_commands` takes from it. -/
  settings : Settings

/-- `Buffer`. -/
structure Buffer where
  ft : FileType
  /-- `name.full`. -/
  filename : BString
  lines : List BString
  topdir : Taglist.TopDir
  /-- The commands of last time. -/
  calls : Option (List BString)

/-- A request that is made. -/
inductive Sent where
  /-- `nvim_call_atomic`, which leaves the writing to a thread that it starts. -/
  | atomic (calls : List BString)
  /-- `nvim_command`. -/
  | command (cmd : BString)
  deriving DecidableEq, Repr

/-- The buffer, and the requests that were made for it, in the order of the calls. -/
structure State where
  bdata : Buffer
  sent : List Sent

/-- What is found while `update_other` runs. -/
structure World where
  lib : Library
  /-- The one with `tag_cmp`. -/
  qsort : List Tag → List Tag
  numThreads : Nat
  /-- `tokenize (bdata, strip_comments (bdata))`. -/
  tokens : List BString → List BString
  /-- `should_run_ctags`. -/
  runCtags : Bool
  /-- What `exec_ctags_pipe` returns. -/
  ctags : UpdateTaglistOpts → BString
  /-- What the variables of the user hold for the letters of `order`. -/
  groups : List CmdCallInfo

/-- `run_ctags_pipe`, which wipes the commands of last time. -/
def runCtagsPipe (w : World) (bdata : Buffer) (opts : UpdateTaglistOpts) :
    Buffer × Option BString :=
  if w.runCtags then
    let bdata := if bdata.ft.hasParser then bdata else { bdata with calls := none }
    (bdata, some (w.ctags opts))
  else (bdata, none)

/-- `update_taglist`. -/
def updateTaglist (w : World) (bdata : Buffer) (opts : UpdateTaglistOpts) : Buffer × Int :=
  let (bdata, out) := runCtagsPipe w bdata opts
  let (topdir, ret, _) := Taglist.updateTaglist bdata.topdir out
  ({ bdata with topdir := topdir }, ret)

/-- What `process_tags` reads of a buffer. -/
def Buffer.scanned (bdata : Buffer) : CtagsScan.Buffer where
  tags := bdata.topdir.tags.getD []
  ignoredTags := bdata.ft.ignoredTags
  equiv := bdata.ft.equiv
  ctagsName := bdata.ft.ctagsName
  order := bdata.ft.order
  filename := bdata.filename
  isCOrCpp := bdata.ft.isCOrCpp

/-- `process_tags (bdata, toks)`. -/
def Buffer.processTags (bdata : Buffer) (w : World) : Option (List Tag) :=
  CtagsScan.processTags w.lib w.qsort bdata.scanned (w.tokens bdata.lines) w.numThreads

/-- What is sent, with the commands in `calls`. -/
def sentFor (ft : FileType) (calls : List BString) : List Sent :=
  .atomic calls :: (ft.restoreCmds.map Sent.command).toList

/-- The branch for `tags` that are not null. -/
def sendCommands (w : World) (st : State) (tags : List Tag) : Except Fault State := do
  let calls ← updateCommands st.bdata.ft.settings w.groups tags
  .ok { bdata := { st.bdata with calls := some calls }
        sent := st.sent ++ sentFor st.bdata.ft calls }

/-- From the label `retry` to the test of the flag; the flag is returned with the state. -/
def round (w : World) (retry : Bool) (st : State) : Except Fault (Bool × State) := do
  let st := { st with bdata := (updateTaglist w st.bdata .normal).1 }
  match st.bdata.processTags w with
  | some tags => .ok (false, ← sendCommands w st tags)
  | none => .ok (retry, st)

/-- The flag is only ever cleared. -/
theorem retry_of_round {w : World} {retry : Bool} {st st' : State}
    (h : round w retry st = .ok (true, st')) : retry = true := by
  unfold round at h
  dsimp only at h
  split at h
  · obtain ⟨sent, -, hsent⟩ := Fault.bind_eq_ok.mp h
    cases hsent
  · exact (Prod.mk.inj (Except.ok.inj h)).1

/-- All from the label `retry` on. -/
def fromRetry (w : World) (retry : Bool) (st : State) : Except Fault State :=
  match _h : round w retry st with
  | .error fault => .error fault
  | .ok (true, st) =>
      fromRetry w false { st with bdata := (updateTaglist w st.bdata .forceLanguage).1 }
  | .ok (false, st) => .ok st
termination_by retry.toNat
decreasing_by rw [retry_of_round _h]; decide

/-- `update_other`. -/
def updateOther (w : World) (st : State) : Except Fault State := fromRetry w true st

/-! ### What running it again is for -/

/-- The tags of the buffer, with what ctags prints with these options. -/
def tagsOf (w : World) (bdata : Buffer) (opts : UpdateTaglistOpts) : Option (List Tag) :=
  CtagsScan.processTags w.lib w.qsort
    { bdata.scanned with tags := Taglist.breakIntoLines (w.ctags opts) } (w.tokens bdata.lines)
    w.numThreads

/-- Some line that ctags prints with these options names a tag of the buffer. -/
def Finds (w : World) (bdata : Buffer) (opts : UpdateTaglistOpts) : Prop :=
  1 ≤ w.numThreads ∧ w.tokens bdata.lines ≠ [] ∧ ∃ line ∈ Taglist.breakIntoLines (w.ctags opts),
    (searchLine w.lib (filterOf w.lib bdata.scanned (w.tokens bdata.lines)) line).isSome

/-- The commands for these tags, if any, are what is stored and sent. -/
def Highlights (w : World) (st st' : State) : Option (List Tag) → Prop
  | some tags => ∃ calls, updateCommands st.bdata.ft.settings w.groups tags = .ok calls ∧
      st'.bdata.calls = some calls ∧ st'.sent = st.sent ++ sentFor st.bdata.ft calls
  | none => st'.sent = st.sent

/-- The tags are those of the first run, or else those of the run with the language. -/
def RetryEffective (w : World) (st : State) : Prop :=
  ∃ st', updateOther w st = .ok st' ∧
    Highlights w st st' ((tagsOf w st.bdata .normal).or (tagsOf w st.bdata .forceLanguage))

end TagHighlight.Update
