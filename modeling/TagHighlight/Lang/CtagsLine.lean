/-
How `do_tok_search` cuts a line of a tags file, `lang/ctags_scan/scan.c`.

The name and the file are taken off.  Then the line is gone on with at the next tab, and each
piece of what is left is looked at: one byte is the kind, and `language:` begins the language.
What was found last counts.

The two functions of the string library are parameters, and so is the byte before what is left of
a line: where no tab follows the file, the text starts there.
-/
import TagHighlight.Lang.CtagsScan
import TagHighlight.Lib.Delimited
import TagHighlight.Util.Ascii

namespace TagHighlight.CtagsScan

open Ascii

structure Strings where
  /-- `b_memsep`: the token, and what is left. -/
  memsep : UInt8 → BString → Option (BString × BString)
  /-- `b_strchr`. -/
  strchr : BString → UInt8 → Int
  /-- The byte before what is left of the line, once the file is taken off. -/
  before : BString → UInt8

/-- What is asked of the string library. -/
structure Strings.Behaves (strings : Strings) : Prop where
  splits : Delimited.Splits strings.memsep
  finds : Delimited.Finds strings.strchr

/-- `b_memsep (name, cpy, '\t')`; the string stays empty if there is none. -/
def takeField (strings : Strings) (cpy : BString) : BString × BString :=
  (strings.memsep tab cpy).getD ([], cpy)

/-- `cpy->data += pos; cpy->slen -= pos`. -/
def advance (strings : Strings) (line cpy : BString) (pos : Int) : BString :=
  if pos < 0 then strings.before line :: cpy else cpy.drop pos.toNat

/-- What the line is cut into. -/
def cutLine (strings : Strings) (line : BString) : Fields :=
  let name := takeField strings line
  let matchFile := takeField strings name.2
  let cpy := advance strings line matchFile.2 (strings.strchr matchFile.2 tab)
  { name := name.1, matchFile := matchFile.1, toks := Delimited.tokens strings.memsep tab cpy }

/-- `kind` and `match_lang` after the loop. -/
def foundIn (fields : Fields) : UInt8 × Option BString := fields.toks.foldl takeTok (0, none)

/-- The library that cuts lines so. -/
def Library.withStrings (lib : Library) (strings : Strings) : Library :=
  { lib with fields := cutLine strings }

/-! ### Lines of the extended format -/

/-- `:`. -/
abbrev colon : UInt8 := 58

/-- `key:value`. -/
structure Field where
  key : BString
  value : BString
  key_ne : key ≠ []
  key_colon : colon ∉ key
  key_tab : tab ∉ key
  value_tab : tab ∉ value

def Field.text (f : Field) : BString := f.key ++ colon :: f.value

/-- A line of a tags file.  The command can be any text. -/
structure TagLine where
  name : BString
  file : BString
  ex : BString
  kind : UInt8
  fields : List Field
  lang : BString
  name_tab : tab ∉ name
  file_tab : tab ∉ file
  kind_tab : kind ≠ tab
  /-- A key stands on a line once. -/
  keys_nodup : (fields.map Field.key).Nodup
  lang_mem : ∃ f ∈ fields, f.key = bt "language" ∧ f.value = lang

namespace TagLine

/-- What is behind the command: the kind, and the fields. -/
def extension (line : TagLine) : BString :=
  [line.kind] ++ line.fields.flatMap fun f => tab :: f.text

def text (line : TagLine) : BString :=
  line.name ++ tab :: (line.file ++ tab :: (line.ex ++ bt ";\"" ++ tab :: line.extension))

end TagLine

/-- The fields that are used are those of the line. -/
structure UsesOwn (strings : Strings) (line : TagLine) : Prop where
  name : (cutLine strings line.text).name = line.name
  matchFile : (cutLine strings line.text).matchFile = line.file
  found : foundIn (cutLine strings line.text) = (line.kind, some line.lang)

/-- What `do_tok_search` makes of these fields: the tag that is added to the list, if any. -/
def prune (lib : Library) (data : Filter) (name matchFile : BString) (kind : UInt8)
    (matchLang : BString) : Option Tag :=
  let (tagKind, wanted) := inOrder data.equiv data.order kind
  if kind ≠ 0 ∧ wanted ∧ isCorrectLang lib data.lang matchLang data.cFamily ∧
      ¬ skipTag lib data.skip name ∧
      (lib.iseq (some data.filename) (some matchFile) ∨ lib.bsearch name data.vimBuf) then
    some { name := name, kind := tagKind }
  else none

end TagHighlight.CtagsScan
