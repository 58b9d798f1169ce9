/-
Where the Go helper finds an identifier: `lang/golang/go_src/main.go`.

Positions are those of `go/token`.  Every file of a file set has a stretch of them to itself, one
for each byte and one for its end, and no two stretches touch.  A position is looked up in the
lines of its file, which gives a line and a column counted from one.  The helper prints lines
counted from zero; for columns it looks up the position before the one it means and prints what
it gets.

Files are taken without `//line` comments, which would make a position report other numbers.
What the type checker finds out about an identifier is an argument.
-/
import TagHighlight.Util.Ascii
import TagHighlight.Lib.LineTable

namespace TagHighlight.Golang

open Ascii

/-! ### `go/token` -/

/-- `token.NoPos`; a `token.Pos` is an `Int`. -/
def noPos : Int := 0

/-- `token.Position`. -/
structure Position where
  line : Nat
  column : Nat
  deriving DecidableEq, Repr

/-- `token.File`, with the text that it was made for. -/
structure File where
  name : BString
  base : Nat
  src : BString
  deriving DecidableEq, Repr

namespace File

def size (f : File) : Nat := f.src.length

/-- The position is that of a byte of the file, or of its end. -/
def holds (f : File) (p : Int) : Bool := f.base ≤ p && p ≤ f.base + f.size

def isNewline (b : UInt8) : Bool := b == newline

/-- The offsets at which lines begin. -/
def lines (f : File) : List Nat := LineTable.table isNewline f.src

/-- The number of the last line that begins at or before the offset, and how far behind its
beginning the offset is. -/
def unpack (f : File) (offset : Nat) : Position :=
  match (LineTable.reached f.lines offset).getLast? with
  | none => { line := 0, column := 0 }
  | some start =>
      { line := (LineTable.reached f.lines offset).length, column := offset - start + 1 }

def position (f : File) (p : Int) : Position := f.unpack (p - f.base).toNat

end File

/-- `token.FileSet`. -/
structure FileSet where
  /-- The base of the next file. -/
  base : Nat
  files : List File
  base_pos : 0 < base
  pos : ∀ f ∈ files, 0 < f.base
  below : ∀ f ∈ files, f.base + f.size < base
  apart : files.Pairwise fun f g => f.base + f.size < g.base

/-- `token.NewFileSet`. -/
def newFileSet : FileSet where
  base := 1
  files := []
  base_pos := Nat.one_pos
  pos := by simp
  below := by simp
  apart := List.Pairwise.nil

namespace FileSet

/-- `AddFile`, as the parser calls it. -/
def addFile (fset : FileSet) (name src : BString) : FileSet where
  base := fset.base + src.length + 1
  files := fset.files ++ [{ name, base := fset.base, src }]
  base_pos := Nat.succ_pos _
  pos := by
    intro f hf
    rcases List.mem_append.mp hf with hold | hnew
    · exact fset.pos f hold
    · rw [List.mem_singleton.mp hnew]
      exact fset.base_pos
  below := by
    intro f hf
    rcases List.mem_append.mp hf with hold | hnew
    · have := fset.below f hold
      omega
    · rw [List.mem_singleton.mp hnew]
      exact Nat.lt_succ_self _
  apart := by
    refine List.pairwise_append.mpr ⟨fset.apart, List.pairwise_singleton _ _, ?_⟩
    intro f hf g hg
    rw [List.mem_singleton.mp hg]
    exact fset.below f hf

/-- `File`: the file that a position is in. -/
def file (fset : FileSet) (p : Int) : Option File :=
  if p = noPos then none else fset.files.find? (·.holds p)

/-- `Position`; outside of every file it is the zero value. -/
def position (fset : FileSet) (p : Int) : Position :=
  match fset.file p with
  | none => { line := 0, column := 0 }
  | some f => f.position p

end FileSet

/-! ### Kinds -/

def typeConstant : UInt8 := 99
def typeField : UInt8 := 109
def typeFunction : UInt8 := 102
def typeInterface : UInt8 := 105
def typePackageName : UInt8 := 112
def typeStruct : UInt8 := 115
def typeTypename : UInt8 := 116
def typeVariable : UInt8 := 118
def typeMethod : UInt8 := 70

/-- `x.Type ().Underlying ()`. -/
inductive Underlying where
  | interface
  | struct
  | signature
  | other
  deriving DecidableEq, Repr

/-- `types.Object`: what `identify_kind` asks of it.  A type is `none` if it is nil. -/
inductive Object where
  | const
  /-- `Parent () != nil`. -/
  | func (parent : Bool)
  | pkgName
  | typeName (type : Option Underlying)
  /-- `global`: the parent of its scope is the universe. -/
  | var (type : Option Underlying) (isField global : Bool)
  /-- Any other kind of object, or nil. -/
  | other
  deriving DecidableEq, Repr

/-- `identify_kind`; `none` is a nil pointer that is followed. -/
def identifyKind : Object → Option UInt8
  | .const => some typeConstant
  | .func parent => some (if parent then typeFunction else typeMethod)
  | .pkgName => some typePackageName
  -- If the type is nil then the other side of the `||` calls a method of it.
  | .typeName none => none
  | .typeName (some .interface) => some typeInterface
  | .typeName (some .struct) => some typeStruct
  | .typeName (some _) => some typeTypename
  | .var type isField global =>
      let ret := if type = some .signature then typeFunction else 0
      some (if isField then typeField else if global then typeVariable else ret)
  | .other => some 0

/-! ### Records -/

/-- `ast.Ident`. -/
structure Ident where
  pos : Int
  name : BString
  deriving DecidableEq, Repr

/-- `get_range`. -/
def getRange (fset : FileSet) (initPos : Int) (length : Nat) : Position × Position :=
  (fset.position (initPos - 1), fset.position (initPos - 1 + length))

/-- What a line of the output says. -/
structure Record where
  kind : UInt8
  startLine : Nat
  startColumn : Nat
  endLine : Nat
  endColumn : Nat
  name : BString
  deriving DecidableEq, Repr

/-- `"%c\t%d\t%d\t%d\t%d\t%d\t%s\n"`. -/
def Record.format (r : Record) : BString :=
  r.kind :: tab :: (decimal r.startLine ++ tab :: (decimal r.startColumn ++
    tab :: (decimal r.endLine ++ tab :: (decimal r.endColumn ++
      tab :: (decimal r.name.length ++ tab :: (r.name ++ [newline]))))))

/-- `Parsed_Data`. -/
structure ParsedData where
  output : BString
  fileToken : File
  deriving DecidableEq, Repr

/-- `this.Output += …`. -/
def ParsedData.write (this : ParsedData) (s : BString) : ParsedData :=
  { this with output := this.output ++ s }

/-- What is written about an identifier with this range. -/
def written (ident : Ident) (kind : UInt8) (p : Position × Position) : BString :=
  if p.1.line = 0 ∨ p.2.line = 0 then []
  else
    Record.format
      { kind
        startLine := p.1.line - 1
        startColumn := p.1.column
        endLine := p.2.line - 1
        endColumn := p.2.column
        name := ident.name }

/-- `handle_ident`; `none` is a nil pointer that is followed. -/
def handleIdent (fset : FileSet) (this : ParsedData) (ident : Option Ident) (typeinfo : Object) :
    Option ParsedData :=
  match ident with
  | none => some this
  | some ident =>
      match identifyKind typeinfo with
      | none => none
      | some kind =>
          if kind = 0 then some this
          else
            match fset.file ident.pos with
            | none => none
            | some file =>
                if this.fileToken.name ≠ file.name then some this
                else
                  some (this.write (written ident kind
                    (getRange fset ident.pos ident.name.length)))

/-- `Highlight`, with the identifiers in the order in which the maps are gone through. -/
def highlight (fset : FileSet) (this : ParsedData) (infos : List (Option Ident × Object)) :
    Option ParsedData :=
  infos.foldlM (fun this info => handleIdent fset this info.1 info.2) this

/-! ### What it is for -/

/-- A name that stands in the text of a file, on one line. -/
structure Occurrence (fset : FileSet) where
  file : File
  mem : file ∈ fset.files
  before : BString
  name : BString
  after : BString
  src_eq : file.src = before ++ (name ++ after)
  ne_nil : name ≠ []
  oneLine : ∀ b ∈ name, File.isNewline b = false

namespace Occurrence

variable {fset : FileSet}

/-- The identifier as the parser makes it. -/
def ident (occ : Occurrence fset) : Ident :=
  { pos := occ.file.base + occ.before.length, name := occ.name }

/-- The line, counted from zero. -/
def row (occ : Occurrence fset) : Nat := LineTable.row File.isNewline occ.before

/-- The column in bytes, counted from zero. -/
def col (occ : Occurrence fset) : Nat := LineTable.col File.isNewline occ.before

end Occurrence

/-- A name in the file that the helper is asked about, and what the type checker says of it. -/
structure Info (fset : FileSet) (fileName : BString) extends Occurrence fset where
  inFile : file.name = fileName
  typeinfo : Object
  kind : UInt8
  identifyKind_eq : identifyKind typeinfo = some kind
  kind_ne : kind ≠ 0

/-- The record that tells where the name is. -/
def Info.record {fset : FileSet} {fileName : BString} (info : Info fset fileName) : Record where
  kind := info.kind
  startLine := info.row
  startColumn := info.col
  endLine := info.row
  endColumn := info.col + info.name.length
  name := info.name

/-- The helper goes on and has written the record that tells where the name is. -/
def WritesRange {fset : FileSet} (this : ParsedData) (info : Info fset this.fileToken.name) :
    Prop :=
  handleIdent fset this (some info.ident) info.typeinfo = some (this.write info.record.format)

end TagHighlight.Golang
