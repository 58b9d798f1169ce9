/-
The project directory of a buffer: `init_topdir` of `buffer.c` and what it calls.

The settings file is given by the lines that `B_GETS` reads from it.  A line is cut at its first
tab, into a directory and the file type for which it is recorded.  All comparisons are those of
C, on strings that a NUL ends.

The option `tags` is kept by Neovim.  It is written from an array of 2048 bytes on the stack,
with the length that `snprintf` returns; to read past the array is a fault.
-/
import TagHighlight.Lib.Fault
import TagHighlight.Util.Archive
import TagHighlight.Util.Ascii

namespace TagHighlight.Topdir

open Ascii Archive

/-- `.`. -/
abbrev dot : UInt8 := 46
/-- `,`. -/
abbrev comma : UInt8 := 44

/-- The string that starts with these bytes, for C. -/
def cstr (s : BString) : BString := s.takeWhile (· ≠ 0)

/-! ### File types -/

/-- `struct filetype`. -/
structure Filetype where
  vimName : BString
  isC : Bool
  noDot : dot ∉ vimName

/-- `ftdata_static`. -/
def ftdata : List Filetype :=
  [ ⟨bt "NONE", false, by decide⟩,
    ⟨bt "c", true, by decide⟩,
    ⟨bt "cpp", true, by decide⟩,
    ⟨bt "cs", false, by decide⟩,
    ⟨bt "go", false, by decide⟩,
    ⟨bt "java", false, by decide⟩,
    ⟨bt "javascript", false, by decide⟩,
    ⟨bt "lisp", false, by decide⟩,
    ⟨bt "lua", false, by decide⟩,
    ⟨bt "perl", false, by decide⟩,
    ⟨bt "php", false, by decide⟩,
    ⟨bt "python", false, by decide⟩,
    ⟨bt "ruby", false, by decide⟩,
    ⟨bt "rust", false, by decide⟩,
    ⟨bt "sh", false, by decide⟩,
    ⟨bt "vim", false, by decide⟩,
    ⟨bt "zsh", false, by decide⟩ ]

/-! ### Which directory -/

/-- `b_strchr`. -/
def bStrchr (s : BString) (ch : UInt8) : Int :=
  match s.idxOf? ch with
  | none => -1
  | some n => n

/-- `strstr (haystack, needle) != NULL`. -/
def strstr (needle : BString) : (haystack : BString) → Bool
  | [] => needle.isEmpty
  | b :: s => needle.isPrefixOf (b :: s) || strstr needle s

/-- The file type that a directory is recorded for is this one. -/
def isFor (ft : Filetype) (tmpft : BString) : Bool :=
  if ft.isC then tmpft == bt "c" || tmpft == bt "cpp" else tmpft == ft.vimName

/-- `get_project_directory_candidates`. -/
def getProjectDirectoryCandidates (dir : BString) (ft : Filetype) :
    (fp : List BString) → Except Fault (List BString)
  | [] => .ok []
  | tmp :: fp =>
      let n := bStrchr tmp tab
      if n < 0 then getProjectDirectoryCandidates dir ft fp
      else if n > 2 ^ 32 - 1 then .error (.errx 1 "Index is too large.")
      else
        let tmpft := cstr (tmp.drop (n.toNat + 1))
        let tmp := tmp.take n.toNat
        if !isFor ft tmpft then getProjectDirectoryCandidates dir ft fp
        else if strstr (cstr tmp) (cstr dir) then do
          let candidates ← getProjectDirectoryCandidates dir ft fp
          .ok (tmp :: candidates)
        else getProjectDirectoryCandidates dir ft fp

/-- The loop that finds the longest match. -/
def longestOf (longest : BString) (candidates : List BString) : BString :=
  candidates.foldl (fun longest c => if c.length > longest.length then c else longest) longest

/-- `check_project_directories`; there are no lines if the settings file cannot be opened. -/
def checkProjectDirectories (settingsFile : Option (List BString)) (dir : BString)
    (ft : Filetype) : Except Fault BString :=
  match settingsFile with
  | none => .ok dir
  | some fp => do
      match ← getProjectDirectoryCandidates dir ft fp with
      | [] => .ok dir
      | first :: others => .ok (longestOf first (first :: others))

/-- `check_norecurse_directories`. -/
def checkNorecurseDirectories (norecurseDirs : List BString) (dir : BString) : Bool :=
  !norecurseDirs.contains dir

/-! ### The name of the file with its tags -/

/-- The loop of `get_tag_filename` over what is left of `base`. -/
def escapeLoop (lib : BStringLib) : (base : BString) → (i : Nat) → (gzfile : Packed) → Packed
  | [], _, gzfile => gzfile
  | ch :: base, i, gzfile =>
      if i < gzfile.mlen then
        escapeLoop lib base (i + 1)
          (if ch = slash then gzfile.concat lib (bt "__") else gzfile.concat lib [ch])
      else gzfile

/-- `get_tag_filename`, on the copy of `settings.cache_dir`. -/
def tagFilename (lib : BStringLib) (gzfile : Packed) (base : BString) (ft : Filetype)
    (comptype : CompType) : BString :=
  getTagFilename (escapeLoop lib base 0 (gzfile.concat lib (bt "/tags/"))).data ft.vimName comptype

/-! ### Vim's option -/

/-- `snprintf (buf, size, "%s,%s", s, t)`: what is in `buf`, and the `int` that is returned. -/
def snprintf (size : Nat) (s t : BString) : BString × Int :=
  let text := cstr s ++ comma :: cstr t
  (text.take (size - 1) ++ [0], if text.length < 2 ^ 31 then text.length else -1)

/-- `btp_fromblk (buf, n)`, on an array of `size` bytes of which `buf` have been written. -/
def fromBlock (size : Nat) (buf : BString) (n : Int) : Except Fault BString :=
  if 0 ≤ n ∧ n ≤ size then .ok (buf.take n.toNat) else .error .undefined

/-- `set_vim_tags_opt`: the value of the option, before and after. -/
def setVimTagsOpt (oldval fname : BString) : Except Fault BString :=
  let (buf, n) := snprintf 2048 oldval fname
  fromBlock 2048 buf n

/-! ### A project is opened -/

/-- `struct top_dir`. -/
structure TopDir where
  gzfile : BString
  pathname : BString
  tmpfname : BString
  /-- `ftid`, as the name of the file type. -/
  ftid : BString
  index : Nat
  recurse : Bool
  refs : Nat
  deriving DecidableEq, Repr

/-- What `init_topdir` reads of the settings. -/
structure Settings where
  settingsFile : Option (List BString)
  norecurseDirs : List BString
  cacheDir : Packed
  compType : CompType

/-- `top_dirs`, and the value that Neovim has for the option. -/
structure Projects where
  topDirs : List TopDir
  tagsOption : BString
  deriving DecidableEq, Repr

/-- `check_open_topdirs`: whether an entry is the one that is looked for. -/
def isOpenTopdir (ft : Filetype) (base : BString) (cur : TopDir) : Bool :=
  cur.ftid == ft.vimName && cur.pathname == base

/--
`init_topdir` for a buffer with this `name.path` and `name.full`; Neovim makes up `tempname`.
-/
def initTopdir (lib : BStringLib) (settings : Settings) (s : Projects) (path full : BString)
    (ft : Filetype) (tempname : BString) : Except Fault Projects := do
  let dir ← checkProjectDirectories settings.settingsFile path ft
  let recurse := checkNorecurseDirectories settings.norecurseDirs dir
  let base := if recurse then dir else full
  match s.topDirs.findIdx? (isOpenTopdir ft base) with
  | some i =>
      .ok { s with topDirs := s.topDirs.modify i fun cur => { cur with refs := cur.refs + 1 } }
  | none => do
      let tagsOption ← setVimTagsOpt s.tagsOption tempname
      let tdir : TopDir :=
        { gzfile := tagFilename lib settings.cacheDir base ft settings.compType
          pathname := dir
          tmpfname := tempname
          ftid := ft.vimName
          index := s.topDirs.length
          recurse := recurse
          refs := 1 }
      .ok { topDirs := s.topDirs ++ [tdir], tagsOption := tagsOption }

/-! ### What it is for -/

/-- The directory in a line of the settings file. -/
def pathOf (line : BString) : BString := line.takeWhile (· ≠ tab)

/-- The file type in a line of the settings file. -/
def fileTypeOf (line : BString) : BString := cstr ((line.dropWhile (· ≠ tab)).drop 1)

/-- The directories that are recorded for the file type. -/
def recorded (ft : Filetype) (lines : List BString) : List BString :=
  (lines.filter fun line => line.contains tab && isFor ft (fileTypeOf line)).map pathOf

/-- The path is the directory, or that of a directory which it is in. -/
def IsAncestor (path dir : BString) : Prop :=
  path = dir ∨
    path ≠ [] ∧ path <+: dir ∧ (path.getLast? = some slash ∨ dir[path.length]? = some slash)

/-- The directory of the project that a directory is in. -/
def IsProjectDir (ft : Filetype) (lines : List BString) (dir project : BString) : Prop :=
  project ∈ recorded ft lines ∧ IsAncestor project dir ∧
      (∀ path ∈ recorded ft lines, IsAncestor path dir → path.length ≤ project.length) ∨
    (∀ path ∈ recorded ft lines, ¬IsAncestor path dir) ∧ project = dir

/-- The recorded directories that occur in the text of the path. -/
def occurring (ft : Filetype) (lines : List BString) (dir : BString) : List BString :=
  (recorded ft lines).filter fun path => strstr (cstr path) (cstr dir)

/-- None of the others is longer than all ancestors, or as long and recorded first. -/
def NotMisled (ft : Filetype) (lines : List BString) (dir : BString) : Prop :=
  ∀ path ∈ occurring ft lines dir, IsAncestor path dir ∨
    ∃ ancestor ∈ occurring ft lines dir, IsAncestor ancestor dir ∧
      (path.length < ancestor.length ∨ path.length = ancestor.length ∧
        (occurring ft lines dir).idxOf ancestor < (occurring ft lines dir).idxOf path)

/-- A path with the runs of slashes and underscores replaced by their weights, where a slash
weighs as much as two underscores: the first weight, then each other byte with the next. -/
def outline : BString → Nat × List (UInt8 × Nat)
  | [] => (0, [])
  | b :: s =>
      if b = slash then ((outline s).1 + 2, (outline s).2)
      else if b = underscore then ((outline s).1 + 1, (outline s).2)
      else (0, (b, (outline s).1) :: (outline s).2)

/-- The value of the option with the entries added to it. -/
def tagsOptionWith (initial : BString) (fnames : List BString) : BString :=
  initial ++ fnames.flatMap fun fname => comma :: fname

end TagHighlight.Topdir
