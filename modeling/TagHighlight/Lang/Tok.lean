/-
Cutting a buffer into identifiers: `lang/ctags_scan/tok.c`.

Nothing is copied.  `strsep_f` overwrites the character that ends a token with a NUL, and a
token is a string that refers to its place in the buffer.  Its length is the difference of the
moving pointer and the token.  When the buffer is exhausted that pointer is null, and
subtracting a pointer from null is undefined behaviour: what comes out is a parameter.

In a text of Vim a name may have colons, and is put into the list again for the first of them.
-/
import TagHighlight.Util.Ascii

namespace TagHighlight.Tok

open Ascii

/-- `cmp_f`. -/
abbrev CmpF := UInt8 → Bool → Bool

/-- `c_func`. -/
def cFunc (ch : UInt8) (first : Bool) : Bool :=
  if first then ch == underscore || isAlpha ch else ch == underscore || isAlnum ch

/-- `b_refblk`: a string that refers to bytes of the buffer. -/
structure Ref where
  data : Nat
  slen : Nat
  deriving DecidableEq, Repr

/-- `b_refblk (p, n, true)`: the last byte is the NUL. -/
def refblk (p n : Nat) : Ref := { data := p, slen := n - 1 }

/-- The bytes that a string refers to. -/
def Ref.bytes (buf : BString) (r : Ref) : BString := (buf.drop r.data).take r.slen

/-- The buffer and the pointer into it, `vimbuf`. -/
structure Cursor where
  buf : BString
  stringp : Option Nat
  deriving DecidableEq, Repr

/-- The byte that `p` points to. -/
def Cursor.byteAt (cur : Cursor) (p : Nat) : UInt8 := cur.buf.getD p 0

/-- How many characters the loop of `strsep_f` goes past. -/
def accepted (check : CmpF) (first : Bool) : List UInt8 → Nat
  | [] => 0
  | ch :: s => if check ch first then accepted check false s + 1 else 0

/-- `strsep_f`. -/
def strsepF (check : CmpF) (cur : Cursor) : Option (Nat × Cursor) :=
  match cur.stringp with
  | none => none
  | some tok =>
      let ptr := tok + accepted check true (cur.buf.drop tok)
      if cur.byteAt ptr = 0 then some (tok, { cur with stringp := none })
      else some (tok, { buf := cur.buf.set ptr 0, stringp := some (ptr + 1) })

/-- `vimbuf - tok`. -/
def pointerDiff (nullDiff : Nat → Nat) (stringp : Option Nat) (tok : Nat) : Nat :=
  match stringp with
  | some ptr => ptr - tok
  | none => nullDiff tok

/-- The loop of `do_tokenize`: the list, and the buffer it leaves. -/
def tokenizeLoop (nullDiff : Nat → Nat) (check : CmpF) : Nat → Cursor → List Ref × BString
  | 0, cur => ([], cur.buf)
  | fuel + 1, cur =>
      match strsepF check cur with
      | none => ([], cur.buf)
      | some (tok, cur) =>
          let (list, buf) := tokenizeLoop nullDiff check fuel cur
          if cur.byteAt tok = 0 then (list, buf)
          else (refblk tok (pointerDiff nullDiff cur.stringp tok) :: list, buf)

/-- `do_tokenize` on a text, which a NUL ends.  Each round but the last uses up a byte. -/
def doTokenize (nullDiff : Nat → Nat) (check : CmpF) (text : BString) : List Ref × BString :=
  tokenizeLoop nullDiff check (text.length + 2) { buf := text ++ [0], stringp := some 0 }

/-! ### Vim -/

abbrev colon : UInt8 := 58

/-- `vim_func`. -/
def vimFunc (ch : UInt8) (first : Bool) : Bool :=
  if first then ch == underscore || isAlpha ch
  else ch == underscore || ch == colon || isAlnum ch

/-- `strchr (tok, ':')`. -/
def Cursor.strchr (cur : Cursor) (tok : Nat) : Option Nat :=
  let str := (cur.buf.drop tok).takeWhile (· ≠ 0)
  if colon ∈ str then some (tok + (str.takeWhile (· ≠ colon)).length) else none

/-- What a token of `tokenize_vim` adds to the list; the second string is no more at `col`. -/
def refsAt (nullDiff : Nat → Nat) (cur : Cursor) (tok : Nat) : List Ref :=
  refblk tok (pointerDiff nullDiff cur.stringp tok) ::
    match cur.strchr tok with
    | none => []
    | some col =>
        let slen := pointerDiff nullDiff cur.stringp col
        if slen = 0 then [] else [{ data := tok, slen := slen }]

/-- The loop of `tokenize_vim`. -/
def tokenizeVimLoop (nullDiff : Nat → Nat) (check : CmpF) : Nat → Cursor → List Ref × BString
  | 0, cur => ([], cur.buf)
  | fuel + 1, cur =>
      match strsepF check cur with
      | none => ([], cur.buf)
      | some (tok, cur) =>
          let (list, buf) := tokenizeVimLoop nullDiff check fuel cur
          if cur.byteAt tok = 0 then (list, buf) else (refsAt nullDiff cur tok ++ list, buf)

/-- `tokenize_vim` on a text, which a NUL ends. -/
def tokenizeVim (nullDiff : Nat → Nat) (check : CmpF) (text : BString) : List Ref × BString :=
  tokenizeVimLoop nullDiff check (text.length + 2) { buf := text ++ [0], stringp := some 0 }

/-! ### What it is for -/

def isWord (b : UInt8) : Bool := b == underscore || isAlnum b

/-- The identifiers of a text: its runs of word characters, less the digits they begin with. -/
def identifiers (text : BString) : List BString :=
  ((text.splitOnP fun b => !isWord b).map (·.dropWhile isDigit)).filter (· ≠ [])

/-- The text ends in an identifier. -/
def endsInIdentifier (text : BString) : Bool :=
  (text.reverse.takeWhile isWord).any fun b => !isDigit b

/-- The strings are the identifiers of the text, with these bytes and lengths. -/
def AreIdentifiers (text : BString) (out : List Ref × BString) : Prop :=
  out.1.map (fun r => (r.bytes out.2, r.slen)) = (identifiers text).map fun w => (w, w.length)

/-- The runs of the characters that a token may go on with, less those that cannot begin one. -/
def runs (check : CmpF) (text : BString) : List BString :=
  ((text.splitOnP fun b => !check b false).map (·.dropWhile fun b => !check b true)).filter (· ≠ [])

/-- The text ends in a token. -/
def endsIn (check : CmpF) (text : BString) : Bool :=
  (text.reverse.takeWhile (check · false)).any (check · true)

/-- What is before the first colon. -/
def scope (name : BString) : BString := name.takeWhile (· ≠ colon)

/-- The string that follows a name with a colon: as long as the rest from the colon, and one more. -/
def again (name : BString) : List BString :=
  if colon ∈ name then [name.take (name.length + 1 - (scope name).length)] else []

/-- The strings are the names of a text of Vim, those with a colon again. -/
def AreNames (text : BString) (out : List Ref × BString) : Prop :=
  out.1.map (fun r => (r.bytes out.2, r.slen)) =
    (runs vimFunc text).flatMap fun name => (name :: again name).map fun w => (w, w.length)

end TagHighlight.Tok
