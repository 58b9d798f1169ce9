/-
What the plugin makes of the records of the Go helper: `lang/golang/golang.c`.

The output is cut into lines, these are sorted, and each is taken apart by `sscanf`.  All lines
are read into one `struct go_output`, so that a conversion that fails leaves what the line before
has put there.  The kind is one byte of an `int` that was zero before, on a machine that stores
the low byte first.

The string library, `qsort` and `bsearch` are parameters, and so is the memory behind the array
that holds the name: a name that is said to be longer than the array goes on there.
-/
import TagHighlight.Lang.Golang
import TagHighlight.Lib.Delimited
import TagHighlight.NvimApi.Atomic
import TagHighlight.Util.Readers

namespace TagHighlight.Golang

open Ascii Atomic
open Readers (isSpace)

/-! ### `sscanf` -/

/-- `struct go_output`. -/
structure GoOutput where
  ch : UInt32
  startLine : UInt32
  startColumn : UInt32
  endLine : UInt32
  endColumn : UInt32
  str : BString
  len : UInt32
  str_length : str.length = 1024
  /-- The string ends inside of its array. -/
  str_nul : 0 ∈ str

namespace GoOutput

/-- `memset (&out, 0, sizeof (out))`. -/
def zero : GoOutput where
  ch := 0
  startLine := 0
  startColumn := 0
  endLine := 0
  endColumn := 0
  str := List.replicate 1024 0
  len := 0
  str_length := List.length_replicate
  str_nul := List.mem_replicate.mpr ⟨by decide, rfl⟩

/-- A byte is written to the address of `ch`. -/
def setCh (out : GoOutput) (b : UInt8) : GoOutput :=
  { out with ch := UInt32.ofNat (out.ch.toNat / 256 * 256 + b.toNat) }

/-- A string is written to `ident.str`, with its NUL. -/
def setStr (out : GoOutput) (s : BString) (h : s.length < 1024) : GoOutput :=
  { out with
      str := s ++ 0 :: out.str.drop (s.length + 1)
      str_length := by
        rw [List.length_append, List.length_cons, List.length_drop, out.str_length]
        omega
      str_nul := List.mem_append_right _ List.mem_cons_self }

end GoOutput

/-- What `sscanf` does next; a white space in the format is any amount of it in the text. -/
inductive Directive where
  /-- `%c`, to `ch`. -/
  | char
  | white
  /-- `%u`. -/
  | unsigned (store : GoOutput → UInt32 → GoOutput)
  /-- `%1023s`, to `ident.str`. -/
  | string

/-- `"%c\t%u\t%u\t%u\t%u\t%u\t%1023s"`. -/
def format : List Directive :=
  [ .char,
    .white, .unsigned fun out n => { out with startLine := n },
    .white, .unsigned fun out n => { out with startColumn := n },
    .white, .unsigned fun out n => { out with endLine := n },
    .white, .unsigned fun out n => { out with endColumn := n },
    .white, .unsigned fun out n => { out with len := n },
    .white, .string ]

/-- A sign: whether it is a minus, and what is behind it. -/
def scanSign : BString → Bool × BString
  | [] => (false, [])
  | b :: s => if b = 45 then (true, s) else if b = 43 then (false, s) else (false, b :: s)

/-- `strtoul` on 64 bits. -/
def strtoul (minus : Bool) (digits : BString) : Nat :=
  let n := digits.foldl (fun n d => 10 * n + (d.toNat - 48)) 0
  if 2 ^ 64 ≤ n then 2 ^ 64 - 1 else if minus then (2 ^ 64 - n) % 2 ^ 64 else n

/-- `%u`: the low 32 bits of the number, and what is behind it. -/
def scanUnsigned (s : BString) : Option (UInt32 × BString) :=
  let sign := scanSign (s.dropWhile isSpace)
  let digits := sign.2.takeWhile isDigit
  if digits = [] then none
  else some (UInt32.ofNat (strtoul sign.1 digits), sign.2.dropWhile isDigit)

/-- `%1023s`. -/
def scanString (s : BString) : BString :=
  ((s.dropWhile isSpace).takeWhile fun b => !isSpace b).take 1023

theorem scanString_lt (s : BString) : (scanString s).length < 1024 :=
  Nat.lt_succ_of_le (List.length_take_le 1023 _)

/-- `sscanf`; it stops when a conversion fails.  Nothing follows `%1023s` in the format. -/
def sscanf : List Directive → BString → GoOutput → GoOutput
  | [], _, out => out
  | .white :: ds, s, out => sscanf ds (s.dropWhile isSpace) out
  | .char :: _, [], out => out
  | .char :: ds, b :: s, out => sscanf ds s (out.setCh b)
  | .unsigned store :: ds, s, out =>
      match scanUnsigned s with
      | none => out
      | some (n, s) => sscanf ds s (store out n)
  | .string :: _, s, out =>
      if scanString s = [] then out else out.setStr (scanString s) (scanString_lt s)

/-- The string of a line ends at its first NUL. -/
def scan (tok : BString) (out : GoOutput) : GoOutput :=
  sscanf format (tok.takeWhile (· ≠ 0)) out

/-! ### The calls -/

/-- `struct cmd_info`. -/
structure CmdInfo where
  kind : Int32
  group : BString

/-- What is read of a `Filetype`. -/
structure Filetype where
  order : BString
  cmdInfo : List CmdInfo
  ignoredTags : Option (List BString)

/-- What is read of a `Buffer`. -/
structure Buffer where
  num : Int32
  hlId : Int32
  ft : Filetype

structure Library where
  /-- `b_memsep`: the token, and what is left. -/
  memsep : UInt8 → BString → Option (BString × BString)
  /-- `b_strchr`. -/
  strchr : BString → Int32 → Int
  /-- `B_LIST_BSEARCH_FAST` finds the string. -/
  bsearch : List BString → BString → Bool
  /-- `qsort (…, &b_strcmp_fast_wrap)`. -/
  qsort : List BString → List BString
  /-- The memory behind `ident.str`. -/
  behind : GoOutput → BString

/-- What is asked of the library. -/
structure Library.Behaves (lib : Library) : Prop where
  splits : Delimited.Splits lib.memsep
  perm : ∀ list, (lib.qsort list).Perm list

def findGroup (lib : Library) (ft : Filetype) (ctagsKind : Int32) : Option BString :=
  if lib.strchr ft.order ctagsKind < 0 then none
  else (ft.cmdInfo.find? fun info => info.kind = ctagsKind).map CmdInfo.group

def identIsIgnored (lib : Library) (ft : Filetype) (tok : BString) : Bool :=
  match ft.ignoredTags with
  | none => false
  | some ignoredTags => lib.bsearch ignoredTags tok

/-- A carriage return at the end of a line is dropped; the line is not empty. -/
def dropReturn (tok : BString) : BString := if tok.getLast? = some 13 then tok.dropLast else tok

def separateAndSort (lib : Library) (output : BString) : List BString :=
  lib.qsort ((Delimited.tokens lib.memsep newline output).map dropReturn)

/-- `btp_fromblk (out.ident.str, out.ident.len)`. -/
def GoOutput.name (behind : GoOutput → BString) (out : GoOutput) : BString :=
  (out.str ++ behind out).take out.len.toNat

/-- The call for an identifier, if there is one. -/
def addIdent (lib : Library) (bdata : Buffer) (calls : MpackArgArray) (out : GoOutput) :
    Except Fault MpackArgArray :=
  if identIsIgnored lib bdata.ft (out.name lib.behind) then .ok calls
  else
    match findGroup lib bdata.ft out.ch.toInt32 with
    | none => .ok calls
    | some group =>
        addHlCall calls bdata.num bdata.hlId group
          { line := out.startLine, start := out.startColumn, stop := out.endColumn }

/-- The loop of `parse_go_output`. -/
def parseLoop (lib : Library) (bdata : Buffer) (out : GoOutput) (calls : MpackArgArray) :
    List BString → Except Fault MpackArgArray
  | [] => .ok calls
  | tok :: toks => do
      let calls ← addIdent lib bdata calls (scan tok out)
      parseLoop lib bdata (scan tok out) calls toks

/-- `parse_go_output`; `hlId` is what `nvim_buf_add_highlight` returns. -/
def parseGoOutput (lib : Library) (bdata : Buffer) (hlId : Int32) (output : List BString) :
    Except Fault MpackArgArray :=
  if bdata.hlId = 0 then parseLoop lib { bdata with hlId := hlId } .zero newArgArray output
  else do
    let calls ← addClrCall newArgArray bdata.num bdata.hlId 0 (-1)
    parseLoop lib bdata .zero calls output

/-! ### What is recovered -/

/-- The structure after each line. -/
def scans (out : GoOutput) : List BString → List GoOutput
  | [] => []
  | tok :: toks => scan tok out :: scans (scan tok out) toks

/-- What is known of an identifier. -/
structure Scanned where
  kind : UInt32
  startLine : Nat
  startColumn : Nat
  endLine : Nat
  endColumn : Nat
  length : Nat
  name : BString
  deriving DecidableEq, Repr

/-- What the plugin reads out of the structure. -/
def GoOutput.scanned (behind : GoOutput → BString) (out : GoOutput) : Scanned where
  kind := out.ch
  startLine := out.startLine.toNat
  startColumn := out.startColumn.toNat
  endLine := out.endLine.toNat
  endColumn := out.endColumn.toNat
  length := out.len.toNat
  name := out.name behind

/-- What the helper has written. -/
def Record.scanned (r : Record) : Scanned where
  kind := r.kind.toUInt32
  startLine := r.startLine
  startColumn := r.startColumn
  endLine := r.endLine
  endColumn := r.endColumn
  length := r.name.length
  name := r.name

/-- A letter, numbers of 32 bits and an identifier. -/
structure Record.Proper (r : Record) : Prop where
  kind : isAlpha r.kind = true
  startLine : r.startLine < 2 ^ 32
  startColumn : r.startColumn < 2 ^ 32
  endLine : r.endLine < 2 ^ 32
  endColumn : r.endColumn < 2 ^ 32
  name : ∀ b ∈ r.name, isSpace b = false ∧ b ≠ 0

/-- What is read of the records is what was written, up to the order. -/
def Recovers (lib : Library) (records : List Record) : Prop :=
  ((scans .zero (separateAndSort lib (records.flatMap Record.format))).map
    (GoOutput.scanned lib.behind)).Perm (records.map Record.scanned)

end TagHighlight.Golang
