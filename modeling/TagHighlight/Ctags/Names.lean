/-
The names that are highlighted in a buffer, from its text to the commands.

`strip_comments` and `tokenize` of `lang/ctags_scan` give the words of the buffer, `process_tags`
looks for them in what ctags has printed, and `update_other` sends a command for each group of
them.  Each of these is modelled on its own; here they are put together, and it is said what the
whole is for: which lines of ctags name a tag of the buffer.

The files of Vim have a `tokenize_vim` of their own, which is left out.
-/
import TagHighlight.Ctags.Update
import TagHighlight.Lang.StripC
import TagHighlight.Lang.StripPython
import TagHighlight.Lang.Tok
import TagHighlight.Lang.UniqTokens
import TagHighlight.NvimApi.CmdCalls

namespace TagHighlight.Update

open CtagsScan Commands

/-! ### The words of a buffer -/

/-- What `lang_comment_groups` says of a file type, if anything. -/
inductive CommentGroup where
  | cLike
  | python
  deriving DecidableEq, Repr

/-- `strip_comments`. -/
def stripComments (com : Option CommentGroup) (lines : List BString) : Except Fault BString :=
  let joined := Taglist.textOf lines
  match com with
  | some .cLike => .ok (StripC.handleCstyle lines)
  | some .python => StripPython.handlePython joined
  | none => .ok joined

/-- `tokenize`; `nullDiff` is what subtracting a pointer from null gives. -/
def tokenize (nullDiff : Nat → Nat) (vimbuf : BString) : List BString :=
  let out := Tok.doTokenize nullDiff Tok.cFunc vimbuf
  out.1.map (Tok.Ref.bytes out.2)

/-! ### What a line of ctags names -/

/-- The language that a line of the tags file has. -/
def langOf (lib : Library) (line : BString) : Option BString :=
  ((lib.fields line).toks.foldl takeTok (0, none)).2

/-- The line names a tag for a buffer in which these words stand. -/
structure Names (lib : Library) (bdata : CtagsScan.Buffer) (words : List BString) (line : BString)
    (tag : Tag) : Prop where
  /-- It is no comment of the tags file. -/
  isTag : ¬(line.length < 1 ∨ byteAt line 0 = UInt8.ofNat '!'.toNat)
  name : tag.name = (lib.fields line).name
  kind : kindOf lib line ≠ 0
  /-- The kind, or what stands for it, has a group. -/
  wanted : inOrder bdata.equiv bdata.order (kindOf lib line) = (tag.kind, true)
  lang : ∃ matchLang, langOf lib line = some matchLang ∧
    isCorrectLang lib bdata.ctagsName matchLang bdata.isCOrCpp = true
  kept : skipTag lib bdata.ignoredTags tag.name = false
  /-- It is of this file, or the buffer names it. -/
  used : lib.iseq (some bdata.filename) (some (lib.fields line).matchFile) = true ∨
    tag.name ∈ words

/-- What the string library, `qsort` and `bsearch` do. -/
structure Exact (lib : Library) (strcmp : BString → BString → Int) : Prop where
  iseq : ∀ a b, lib.iseq (some a) (some b) = decide (a = b)
  compares : Compares lib strcmp
  sorted : ∀ list, (lib.qsort list).Pairwise fun a b => strcmp a b ≤ 0

/-- The words that are looked for: the tokens, sorted, less some of the repeats. -/
def words (lib : Library) (tokens : List BString) : List BString := uniq lib (lib.qsort tokens)

/-- What is scanned when ctags has been run. -/
def Buffer.rescanned (w : World) (bdata : Buffer) : CtagsScan.Buffer :=
  { bdata.scanned with tags := Taglist.breakIntoLines (w.ctags .normal) }

/-- The tags are what the lines name, in order, and the commands are those of the groups. -/
structure Shows (lib : Library) (bdata : CtagsScan.Buffer) (text : BString) (ft : Settings)
    (groups : List CmdCallInfo) (tags : List Tag) (cmds : List BString) : Prop where
  increasing : tags.Pairwise fun a b => tagCmp a b < 0
  named : ∀ tag, tag ∈ tags ↔ tag ≠ noTag ∧
    ∃ line ∈ bdata.tags, Names lib bdata (words lib (Tok.identifiers text)) line tag
  /-- What is looked for stands in the text, outside of what was stripped. -/
  standing : ∀ word ∈ words lib (Tok.identifiers text), word ∈ Tok.identifiers text
  /-- None is left out, unless the pointer that a token has left behind compares equal to one. -/
  all : (∀ tok, lib.iseq (some tok) none = false) →
    ∀ word ∈ Tok.identifiers text, word ∈ words lib (Tok.identifiers text)
  once : ∀ tag ∈ tags, ∃! info, info ∈ groups.filter (hasTag tags) ∧ tag.kind = info.kind
  commands : cmds = bt "ownsyntax" ::
    (groups.filter (hasTag tags)).map fun info => commandText ft info (namesOf info.kind tags)

end TagHighlight.Update
