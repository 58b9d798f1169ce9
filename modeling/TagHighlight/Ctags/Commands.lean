/-
The syntax commands for the tags of a buffer: `update_commands` and `handle_kind` of
`update.c`.

A group is one letter of the file type's `order`.  Its tags are put into one text, which Vim
is given as a command: the old group is cleared, a keyword or a pattern is made of the names,
and the group is linked to the one that says its colour.

What the variables of the user hold (the groups and the two `allbut`) is an argument.  The
log is left out.
-/
import TagHighlight.Lang.CtagsScan
import TagHighlight.Lib.Fault
import TagHighlight.Lib.Words
import TagHighlight.Util.Ascii

namespace TagHighlight.Commands

open Ascii CtagsScan

/-- `struct cmd_call_info`. -/
structure CmdCallInfo where
  kind : UInt8
  group : BString
  matchPrefix : Option BString
  matchSuffix : Option BString

/-- What is the same for all groups: the file type's name, and `allbut` of all and of it. -/
structure Settings where
  vimName : BString
  globalAllbut : Option BString
  ftAllbut : Option BString

def Settings.allbut (ft : Settings) : Option BString :=
  match ft.ftAllbut, ft.globalAllbut with
  | some allbut, some globalAllbut => some (globalAllbut ++ bt "," ++ allbut)
  | some allbut, none => some allbut
  | none, globalAllbut => globalAllbut

/-- `_tag_highlight_%s_%c_%s`. -/
def groupId (ft : Settings) (info : CmdCallInfo) : BString :=
  bt "_tag_highlight_" ++ ft.vimName ++ bt "_" ++ [info.kind] ++ bt "_" ++ info.group

/-- The branch of `handle_kind` for a prefix or a suffix, from the first tag on. -/
def matchCommand (ft : Settings) (info : CmdCallInfo) (first : Tag) (others : List Tag) :
    BString :=
  let pre := info.matchPrefix.getD (bt "\\C\\<")
  let suf := info.matchSuffix.getD (bt "\\>")
  let cmd := bt "syntax match " ++ groupId ft info ++ bt " /" ++ pre ++ bt "\\%(" ++ first.name
  let cmd := cmd ++ others.flatMap fun tag => bt "\\|" ++ tag.name
  match ft.allbut with
  | some allbut =>
      cmd ++ bt "\\)" ++ suf ++ bt "/ containedin=ALLBUT," ++ allbut ++
        bt " display | hi def link " ++ groupId ft info ++ bt " " ++ info.group
  | none =>
      cmd ++ bt "\\)" ++ suf ++ bt "/ display | hi def link " ++ groupId ft info ++ bt " " ++
        info.group

/-- The other branch. -/
def keywordCommand (ft : Settings) (info : CmdCallInfo) (first : Tag) (others : List Tag) :
    BString :=
  let cmd := bt " syntax keyword " ++ groupId ft info ++ bt " " ++ first.name ++ bt " "
  let cmd := cmd ++ others.flatMap fun tag => tag.name ++ bt " "
  cmd ++ bt "display | hi def link " ++ groupId ft info ++ bt " " ++ info.group

/-- `handle_kind`: the command, and where the tags of this kind end. -/
def handleKind (i : Nat) (ft : Settings) (tags : List Tag) (info : CmdCallInfo) :
    Except Fault (BString × Nat) :=
  match tags.drop i with
  | [] => .error .undefined
  | first :: rest =>
      let others := rest.takeWhile fun tag => tag.kind = info.kind
      let cmd := bt "silent! syntax clear " ++ groupId ft info ++ bt " | "
      let cmd := cmd ++
        if info.matchPrefix.isSome ∨ info.matchSuffix.isSome then
          matchCommand ft info first others
        else keywordCommand ft info first others
      .ok (cmd, i + 1 + others.length)

/-- The loop of `update_commands` that looks for a kind. -/
def firstOf (tags : List Tag) (kind : UInt8) : Nat := tags.findIdx fun tag => tag.kind = kind

/-- The commands for the groups that have a tag. -/
def groupCommands (ft : Settings) (tags : List Tag) :
    List CmdCallInfo → Except Fault (List BString)
  | [] => .ok []
  | info :: infos => do
      let rest ← groupCommands ft tags infos
      let ctr := firstOf tags info.kind
      if ctr ≠ tags.length then
        let (cmd, _) ← handleKind ctr ft tags info
        .ok (cmd :: rest)
      else .ok rest

/-- `update_commands`: what `nvim_command` is called with, in order. -/
def updateCommands (ft : Settings) (infos : List CmdCallInfo) (tags : List Tag) :
    Except Fault (List BString) := do
  let cmds ← groupCommands ft tags infos
  .ok (bt "ownsyntax" :: cmds)

/-! ### What the commands list -/

/-- The names of the tags of a kind. -/
def namesOf (kind : UInt8) (tags : List Tag) : List BString :=
  (tags.filter fun tag => tag.kind = kind).map Tag.name

/-- The command that puts these names into the group. -/
def commandText (ft : Settings) (info : CmdCallInfo) (names : List BString) : BString :=
  bt "silent! syntax clear " ++ groupId ft info ++ bt " | " ++
    if info.matchPrefix.isSome ∨ info.matchSuffix.isSome then
      bt "syntax match " ++ groupId ft info ++ bt " /" ++ info.matchPrefix.getD (bt "\\C\\<") ++
        bt "\\%(" ++ (bt "\\|").intercalate names ++ bt "\\)" ++
        info.matchSuffix.getD (bt "\\>") ++ bt "/" ++
        (match ft.allbut with
          | some allbut => bt " containedin=ALLBUT," ++ allbut
          | none => []) ++
        bt " display | hi def link " ++ groupId ft info ++ bt " " ++ info.group
    else
      bt " syntax keyword " ++ groupId ft info ++ bt " " ++ names.flatMap (· ++ bt " ") ++
        bt "display | hi def link " ++ groupId ft info ++ bt " " ++ info.group

/-- Some tag is of the group's kind. -/
def hasTag (tags : List Tag) (info : CmdCallInfo) : Bool :=
  tags.any fun tag => tag.kind = info.kind

/-- Behind `ownsyntax` there is a command for each group that has a tag, it lists the names of
these tags, and every tag is in one of them. -/
structure HighlightsOnce (ft : Settings) (infos : List CmdCallInfo) (tags : List Tag) : Prop where
  commands : updateCommands ft infos tags = .ok (bt "ownsyntax" ::
    (infos.filter (hasTag tags)).map fun info => commandText ft info (namesOf info.kind tags))
  once : ∀ tag ∈ tags, ∃! info, info ∈ infos.filter (hasTag tags) ∧ tag.kind = info.kind

/-- The kind that a line of the tags file has. -/
def kindOf (lib : Library) (line : BString) : UInt8 :=
  ((lib.fields line).toks.foldl takeTok (0, none)).1

/-- The equivalence for this kind has nothing to replace it by. -/
def ReplacedByNothing (equiv : Option (List BString)) (kind : UInt8) : Prop :=
  ∃ pair, ((equiv.getD []).find? fun pair => byteAt pair 0 = kind) = some pair ∧ byteAt pair 1 = 0

instance (equiv : Option (List BString)) (kind : UInt8) :
    Decidable (ReplacedByNothing equiv kind) :=
  decidable_of_iff
    ((((equiv.getD []).find? fun pair => byteAt pair 0 = kind).any fun pair => byteAt pair 1 = 0) =
      true)
    (by simp [ReplacedByNothing, Option.any_eq_true])

/-! ### How Vim reads a command -/

/-- The commands between bars; `inWord` says whether a bar inside of a word counts. -/
def exCommands (inWord : Bool) (cmd : BString) : List BString :=
  Words.commands isBlank (· == bar) inWord true cmd

/-- One word, and no end of the command. -/
abbrev IsWord (inWord : Bool) : BString → Prop := Words.IsWord isBlank (· == bar) inWord

/--
The text is three commands: one clears the group, one makes its keywords, which are `names`,
and one links it.
-/
def IsKeywordCommand (inWord : Bool) (groupId group : BString) (names : List BString)
    (cmd : BString) : Prop :=
  (exCommands inWord cmd).map (Words.words isBlank) =
    [[bt "silent!", bt "syntax", bt "clear", groupId],
      [bt "syntax", bt "keyword", groupId] ++ names ++ [bt "display"],
      [bt "hi", bt "def", bt "link", groupId, group]]

end TagHighlight.Commands
