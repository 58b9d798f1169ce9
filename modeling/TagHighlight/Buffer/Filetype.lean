/-
What a file type is given from the user's variables: `init_filetype` of `buffer.c`.

It is done when the first buffer of the type is opened.  The order of the kinds, the tags to be
ignored, the kinds that are equivalent and the groups for the kinds are variables of Neovim, or
entries of one.  Then there are groups of keywords that are to look as before.  If the type has a
parser of its own, the keywords are read off what `:syntax list` prints, and are ignored.
Otherwise commands are made of it, which are to put the keywords back after each update.

Neovim answers as it does to the calls of `nvim_api/api.c`.  What it prints is a text like any
other: nothing is said here of what its commands do, and all that is found in the text, or made of
it, is said in terms of its lines.  The string library, `qsort` and `bsearch` are parameters.  The
mutex and the freeing of what has been read are left out.
-/
import TagHighlight.Lang.GoOutput
import TagHighlight.NvimApi.Call

namespace TagHighlight.InitFiletype

open Ascii Notification

/-! ### What Neovim is asked -/

/-- The answers of Neovim; an error is a message. -/
structure Neovim where
  /-- `nvim_get_var`. -/
  var : BString → Except BString Obj
  /-- `nvim_exec` with the output. -/
  exec : BString → Except BString BString

/-- The response; neither of its first numbers is looked at. -/
def response (result : Except BString Obj) : Obj :=
  match result with
  | .ok result => .array [.unsigned 1, .unsigned 0, .nil, result]
  | .error mes => .array [.unsigned 1, .unsigned 0, .array [.unsigned 0, .string mes], .nil]

/-- The member of a `mpack_retval` that a caller reads, if it is no null pointer. -/
def ptrOf {α : Type} (member : Retval → Option α) (ret : Retval) : Except Stop (Option α) :=
  match member ret with
  | some a => .ok (some a)
  | none =>
      match ret with
      | .null => .ok none
      | .num n => if n = 0 then .ok none else .error .wild
      | _ => .error .wild

def strOf : Retval → Option BString
  | .str s => some s
  | _ => none

def dictOf : Retval → Option (List (Obj × Obj))
  | .dict dict => some dict
  | _ => none

def arrOf : Retval → Option (List Obj)
  | .arr lst => some lst
  | _ => none

def strlistOf : Retval → Option (List BString)
  | .strlist strs => some strs
  | _ => none

/-- `PKG`, and what follows it. -/
def pkg (name : BString) : BString := bt "tag_highlight#" ++ name

/-- `nvim_get_var`. -/
def Neovim.getVar (nvim : Neovim) (varname : BString) (type : Expect) : Except Stop Retval :=
  Api.internMpackExpect (response (nvim.var varname)) type 0

/-- `nvim_exec (src, true, E_STRING)`. -/
def Neovim.output (nvim : Neovim) (src : BString) : Except Stop (Option BString) := do
  ptrOf strOf (← Api.internMpackExpect (response ((nvim.exec src).map Obj.string)) .string 0)

/-- `find_key_value`. -/
def findKeyValue (key : BString) : (dict : List (Obj × Obj)) → Except Stop (Option Obj)
  | [] => .ok none
  | (.string str, value) :: dict =>
      if str = key then .ok (some value) else findKeyValue key dict
  | _ :: _ => .error .wild

/-- `mpack_dict_get_key`. -/
def mpackDictGetKey (dict : Option (List (Obj × Obj))) (type : Expect) (key : BString) :
    Except Stop Retval :=
  match dict with
  | none => .error (.fault (.assertion "dict && key"))
  | some dict => do
      match ← findKeyValue key dict with
      | none => .ok .null
      | some obj => expect (some obj) type 0

/-! ### File types -/

/-- `struct cmd_info`. -/
structure CmdInfo where
  kind : UInt8
  group : Option BString
  num : Nat

/-- `struct filetype`. -/
structure Filetype where
  vimName : BString
  hasParser : Bool
  initialized : Bool
  order : BString
  ignoredTags : Option (List BString)
  restoreCmds : Option BString
  restoreCmdsInitialized : Bool
  equiv : Option (List BString)
  cmdInfo : List CmdInfo

structure Library extends Golang.Library where
  /-- `b_list_remove_dups`. -/
  removeDups : List BString → List BString

/-! ### What `:syntax list` has printed -/

/-- The string that starts with these bytes, for C. -/
def cstr (s : BString) : BString := s.takeWhile (· ≠ 0)

/-- `strstr`, as the index. -/
def strstr (needle : BString) : (haystack : BString) → Option Nat
  | [] => if needle = [] then some 0 else none
  | b :: s => if needle.isPrefixOf (b :: s) then some 0 else (strstr needle s).map (· + 1)

/-- `strstr (BS (output), "xxx")`. -/
def findXxx (output : BString) : Option Nat := strstr (bt "xxx") (cstr output)

/-- `ptr + 4`, of what has been found; behind the NUL of the string nothing is known. -/
def skipXxx (output : BString) (n : Nat) : Except Stop BString :=
  if output.length < n + 4 then .error (.fault .undefined) else .ok (output.drop (n + 4))

/-- The loop over the lines in `get_tags_from_restored_groups`. -/
def wordsOfLines (lib : Library) : (lines : List BString) → List BString
  | [] => []
  | line :: lines =>
      let line := line.dropWhile isBlank
      if (bt "links to ").isPrefixOf line then []
      else Delimited.tokens lib.memsep space line ++ wordsOfLines lib lines

/-- The words of a group; to test how the output begins is no test for a pattern. -/
def restoredWords (lib : Library) (output : BString) : Except Stop (List BString) :=
  match findXxx output with
  | none => .ok []
  | some n =>
      if (bt "match /").isPrefixOf output then .ok []
      else do
        let text ← skipXxx output n
        .ok (wordsOfLines lib (Delimited.tokens lib.memsep newline text))

/-- `snprintf (cmd, 8192, "syntax list %s", …)`, with the length that it returns. -/
def listCommand (group : BString) : Except Stop BString :=
  let cmd := bt "syntax list " ++ cstr group
  if cmd.length < 8192 then .ok cmd else .error (.fault .undefined)

/-- A round of `get_tags_from_restored_groups`: what is appended. -/
def wordsOfGroup (lib : Library) (nvim : Neovim) (group : BString) :
    Except Stop (List BString) := do
  match ← nvim.output (← listCommand group) with
  | none => .ok []
  | some output => restoredWords lib output

/-- `get_tags_from_restored_groups`. -/
def getTagsFromRestoredGroups (lib : Library) (nvim : Neovim) :
    (restoredGroups : List BString) → Except Stop (List BString)
  | [] => .ok []
  | group :: groups => do
      let words ← wordsOfGroup lib nvim group
      .ok (words ++ (← getTagsFromRestoredGroups lib nvim groups))

/-! ### The commands that restore -/

/--
The loop over the lines in `get_restore_cmds`: what is appended to `toks`, and where `ptr` is in
the end.  Every round takes off a byte at least.  The test for the link never breaks the loop: one
more than a null pointer is not null.
-/
def lineLoop : (fuel : Nat) → (ptr : BString) → List BString × BString
  | 0, ptr => ([], ptr)
  | fuel + 1, ptr =>
      if newline ∈ ptr then
        let rest := lineLoop fuel (((ptr.dropWhile (· ≠ newline)).drop 1).dropWhile isBlank)
        (ptr.takeWhile (· ≠ newline) :: rest.1, rest.2)
      else ([], ptr)

/-- `strlcpy (link_name, ptr + 9, sizeof (link_name))`. -/
def linkName (ptr : BString) : Except Stop BString :=
  if ptr.length < 9 then .error (.fault .undefined)
  else if ptr.length = 9 then .error (.fault (.assertion "n > 0"))
  else .ok ((ptr.drop 9).take 1023)

/-- The command for a group, if it gets one. -/
def restoreCmd (lib : Library) (group output : BString) : Except Stop (Option BString) :=
  match findXxx output with
  | none => .ok none
  | some n => do
      let ptr := cstr (← skipXxx output n)
      if isBlank (ptr.headD 0) then .error (.fault (.assertion "!isblank(*ptr)"))
      else if (bt "match /").isPrefixOf ptr then .ok none
      else
        let cmd := bt "syntax clear " ++ group ++ bt " | "
        let cmd := cmd ++ bt "syntax keyword " ++ group ++ bt " "
        let loop := lineLoop ptr.length ptr
        let cmd := cmd ++ (lib.removeDups loop.1).flatMap (· ++ bt " ")
        .ok (some (cmd ++ bt " | hi! link " ++ group ++ bt " " ++ (← linkName loop.2)))

/-- A round of `get_restore_cmds`. -/
def cmdOfGroup (lib : Library) (nvim : Neovim) (group : BString) :
    Except Stop (Option BString) := do
  match ← nvim.output (bt "syntax list " ++ group) with
  | none => .ok none
  | some output => restoreCmd lib group output

/-- `allcmds`. -/
def allCmds (lib : Library) (nvim : Neovim) : (restoredGroups : List BString) →
    Except Stop (List BString)
  | [] => .ok []
  | group :: groups => do
      let cmd ← cmdOfGroup lib nvim group
      .ok (cmd.toList ++ (← allCmds lib nvim groups))

/-- `get_restore_cmds`, with `b_join` at the end. -/
def getRestoreCmds (lib : Library) (nvim : Neovim) (restoredGroups : List BString) :
    Except Stop BString := do
  .ok ((bt " | ").intercalate (← allCmds lib nvim restoredGroups))

/-! ### The initialization -/

/-- What `get_ignored_tags` does with the groups for the file type, if there are any. -/
def takeRestoredGroups (lib : Library) (nvim : Neovim) (ft : Filetype) :
    (restoredGroups : Option (List BString)) → Except Stop Filetype
  | none => .ok ft
  | some restoredGroups =>
      if ft.hasParser then do
        let tags ← getTagsFromRestoredGroups lib nvim restoredGroups
        .ok { ft with ignoredTags := some (lib.qsort (ft.ignoredTags.getD [] ++ tags)) }
      else do
        let cmds ← getRestoreCmds lib nvim restoredGroups
        .ok { ft with restoreCmds := some cmds }

/-- `get_ignored_tags`. -/
def getIgnoredTags (lib : Library) (nvim : Neovim) (ft : Filetype) : Except Stop Filetype := do
  let tmp ← ptrOf dictOf (← nvim.getVar (pkg (bt "restored_groups")) .mpackDict)
  let restoredGroups ← ptrOf strlistOf (← mpackDictGetKey tmp .strlist ft.vimName)
  let ft ← takeRestoredGroups lib nvim ft restoredGroups
  .ok { ft with restoreCmdsInitialized := true }

/-- `ent->key->str` and `ent->value->str`, one behind the other. -/
def equivOf : (equiv : List (Obj × Obj)) → Except Stop (List BString)
  | [] => .ok []
  | (.string key, .string value) :: equiv => do .ok ((key ++ value) :: (← equivOf equiv))
  | _ :: _ => .error .wild

/-- A round of `get_cmd_info`. -/
def cmdInfoOf (nvim : Neovim) (vimName : BString) (ngroups : Nat) (ch : UInt8) :
    Except Stop CmdInfo := do
  let dict ← ptrOf dictOf (← nvim.getVar (pkg (vimName ++ bt "#" ++ [ch])) .mpackDict)
  let group ← ptrOf strOf (← mpackDictGetKey dict .string (bt "group"))
  .ok { kind := ch, group, num := ngroups }

/-- `get_cmd_info`. -/
def getCmdInfo (nvim : Neovim) (vimName order : BString) : Except Stop (List CmdInfo) :=
  order.mapM (cmdInfoOf nvim vimName order.length)

/-- `mpack_array_to_blist` of the user's list, which is sorted. -/
def userTags (lib : Library) (tmp : Option (List Obj)) : Except Stop (Option (List BString)) :=
  match tmp with
  | none => .ok none
  | some lst =>
      match mpackArrayToBlist lst with
      | .strlist strs => .ok (some (lib.qsort strs))
      | _ => .error .wild

/-- `init_filetype`; `ignoredTags` is the one of `settings`. -/
def initFiletype (lib : Library) (nvim : Neovim) (ignoredTags : Option (List (Obj × Obj)))
    (ft : Filetype) : Except Stop Filetype :=
  if ft.initialized then .ok ft
  else do
    let order ← ptrOf strOf (← nvim.getVar (pkg (ft.vimName ++ bt "#order")) .string)
    let tmp ← ptrOf arrOf (← mpackDictGetKey ignoredTags .mpackArray ft.vimName)
    let tags ← userTags lib tmp
    let ft ← getIgnoredTags lib nvim
      { ft with
        initialized := true, order := order.getD [], ignoredTags := tags, restoreCmds := none }
    let equiv ← ptrOf dictOf (← nvim.getVar (pkg (ft.vimName ++ bt "#equivalent")) .mpackDict)
    let equiv ← equiv.mapM equivOf
    let cmdInfo ← getCmdInfo nvim ft.vimName ft.order
    .ok { ft with equiv := equiv, cmdInfo := cmdInfo }

/-! ### What the user has set -/

/-- The variables that matter for a file type. -/
structure Config where
  order : Option BString
  /-- `ignored_tags`, by file type. -/
  ignoredTags : List (BString × List BString)
  /-- `restored_groups`, by file type. -/
  restoredGroups : List (BString × List BString)
  equivalent : Option (List (BString × BString))
  /-- The settings for a kind, if there are any: its group, with a prefix and so on. -/
  kinds : UInt8 → Option (List (BString × Obj))

/-- A list of strings. -/
def strs (list : List BString) : Obj := .array (list.map Obj.string)

/-- A dictionary. -/
def entries {α : Type} (value : α → Obj) (dict : List (BString × α)) : List (Obj × Obj) :=
  dict.map fun entry => (.string entry.1, value entry.2)

/-- The variable has this value, if any. -/
def Neovim.HasVar (nvim : Neovim) (varname : BString) : (value : Option Obj) → Prop
  | some obj => nvim.var varname = .ok obj
  | none => ∃ mes, nvim.var varname = .error mes

/-- Neovim has these variables; a group that is named for a kind is a string. -/
structure Config.Set (config : Config) (nvim : Neovim) (vimName : BString) : Prop where
  order : nvim.HasVar (pkg (vimName ++ bt "#order")) (config.order.map Obj.string)
  restoredGroups : nvim.HasVar (pkg (bt "restored_groups"))
    (some (.dict (entries strs config.restoredGroups)))
  equivalent : nvim.HasVar (pkg (vimName ++ bt "#equivalent"))
    (config.equivalent.map fun dict => .dict (entries Obj.string dict))
  kinds : ∀ ch ∈ config.order.getD [], nvim.HasVar (pkg (vimName ++ bt "#" ++ [ch]))
    ((config.kinds ch).map fun dict => .dict (entries id dict))
  groups : ∀ ch dict obj, config.kinds ch = some dict → dict.lookup (bt "group") = some obj →
    ∃ group, obj = .string group

/-- There are settings for each kind in the order. -/
def Config.Described (config : Config) : Prop :=
  ∀ ch ∈ config.order.getD [], (config.kinds ch).isSome

/-- The group in the settings for a kind. -/
def groupOf (dict : List (BString × Obj)) : Option BString :=
  (dict.lookup (bt "group")).bind Obj.str?

/-- What the file type is given, with these tags and commands. -/
def Filetype.configured (ft : Filetype) (config : Config) (tags : Option (List BString))
    (cmds : Option BString) : Filetype where
  vimName := ft.vimName
  hasParser := ft.hasParser
  initialized := true
  order := config.order.getD []
  ignoredTags := tags
  restoreCmds := cmds
  restoreCmdsInitialized := true
  equiv := config.equivalent.map fun dict => dict.map fun entry => entry.1 ++ entry.2
  cmdInfo := (config.order.getD []).map fun ch =>
    { kind := ch, group := (config.kinds ch).bind groupOf, num := (config.order.getD []).length }

/-- What the functions for a parser read of it. -/
def Filetype.toGolang (ft : Filetype) : Golang.Filetype where
  order := ft.order
  cmdInfo := ft.cmdInfo.map fun info =>
    { kind := Int32.ofNat info.kind.toNat, group := info.group.getD [] }
  ignoredTags := ft.ignoredTags

/-- What the library does. -/
structure Library.Exact (lib : Library) (strcmp : BString → BString → Int) : Prop where
  behaves : lib.toLibrary.Behaves
  sorted : ∀ list, (lib.qsort list).Pairwise fun a b => strcmp a b ≤ 0
  bsearch : ∀ name list, (list.Pairwise fun a b => strcmp a b ≤ 0) →
    (lib.bsearch list name = true ↔ name ∈ list)
  removeDups : ∀ list, (lib.removeDups list).Nodup ∧ ∀ name, name ∈ lib.removeDups list ↔ name ∈ list

/-! ### What is printed of a group -/

/-- What `:syntax list` prints, if it is no error. -/
def Neovim.listed (nvim : Neovim) (group : BString) : Option BString :=
  (nvim.exec (bt "syntax list " ++ group)).toOption

/-- What is printed behind the first "xxx" and the byte that follows it. -/
def listedText (output : BString) : Option BString := (findXxx output).map fun n => output.drop (n + 4)

/-- A byte follows the first "xxx". -/
def Complete (output : BString) : Prop := ∀ n, findXxx output = some n → n + 4 ≤ output.length

/-- The words of a text, up to the line that begins with a link. -/
def listedWords (text : BString) : List BString :=
  (((Delimited.cut newline text).map (·.dropWhile isBlank)).takeWhile
    fun line => !(bt "links to ").isPrefixOf line).flatMap (Delimited.cut space)

/-- The word is one of those that are printed for the group. -/
def Neovim.Shows (nvim : Neovim) (group word : BString) : Prop :=
  ∃ output text, nvim.listed group = some output ∧ ¬ bt "match /" <+: output ∧
    listedText output = some text ∧ word ∈ listedWords text

/-- The command for the group is not cut off, and what is printed can be read. -/
def Neovim.Readable (nvim : Neovim) (group : BString) : Prop :=
  12 + (cstr group).length < 8192 ∧
    ∀ output, nvim.listed (cstr group) = some output → ¬ bt "match /" <+: output → Complete output

/-- The user does not want the word highlighted, or it is one of a group that is restored. -/
def Protected (nvim : Neovim) (config : Config) (vimName word : BString) : Prop :=
  word ∈ (config.ignoredTags.lookup vimName).getD [] ∨
    ∃ group ∈ (config.restoredGroups.lookup vimName).getD [], nvim.Shows (cstr group) word

/-! ### What is to be restored -/

/-- The lines of a text, those behind the first without the blanks that they begin with. -/
def textLines (text : BString) : List BString :=
  match text.splitOn newline with
  | [] => []
  | line :: lines => line :: lines.map (·.dropWhile isBlank)

/-- What is printed for a group, unless it is a pattern. -/
def keywordText (output : BString) : Option BString :=
  ((listedText output).map cstr).filter fun text => !(bt "match /").isPrefixOf text

/-- A command can be made of what is printed: its last line is long enough for a link. -/
def Restorable (output : BString) : Prop :=
  Complete output ∧ (∀ text, listedText output = some text → isBlank ((cstr text).headD 0) = false) ∧
    ∀ text, keywordText output = some text → 9 < ((textLines text).getLastD []).length

/--
The command clears the group, gives it all lines of the text but the last, each of them once, and
links it to what stands on the last from the tenth byte on.
-/
def Restores (group text cmd : BString) : Prop :=
  ∃ toks : List BString, toks.Nodup ∧ (∀ tok, tok ∈ toks ↔ tok ∈ (textLines text).dropLast) ∧
    cmd = bt "syntax clear " ++ group ++ bt " | syntax keyword " ++ group ++ bt " " ++
      toks.flatMap (· ++ bt " ") ++ bt " | hi! link " ++ group ++ bt " " ++
      (((textLines text).getLastD []).drop 9).take 1023

/-- The groups for which words are printed, with what is printed. -/
def Neovim.keywordLists (nvim : Neovim) (groups : List BString) : List (BString × BString) :=
  groups.flatMap fun group =>
    ((nvim.listed group).bind keywordText).toList.map fun text => (group, text)

end TagHighlight.InitFiletype
