/-
Stripping comments and strings from Python text: `handle_python` of
`lang/ctags_scan/strip.c`.

The function copies what it keeps into a buffer of `slen + 2` bytes.  A write past the end of
this buffer is undefined behaviour, and so is reading the byte before the first one of either
buffer.  The loop is a `do … while (*pos++)`: its last round is the one for the NUL that ends
the text.
-/
import TagHighlight.Lang.PythonLex
import TagHighlight.Lib.Fault
import TagHighlight.Util.Readers

namespace TagHighlight.StripPython

open Ascii

/-- `enum docstring_e`. -/
inductive Docstring where
  | noDocstring
  | singleDocstring
  | doubleDocstring
  deriving DecidableEq, Repr

/-- `struct py_quote`. -/
structure PyQuote where
  q : Bool
  cnt : Int
  ch : UInt8
  val : Docstring
  deriving DecidableEq, Repr

/-- The local variables of `handle_python`; `buf` is what was written to the new buffer. -/
structure State where
  inDocstring : Docstring
  single : PyQuote
  double : PyQuote
  /-- An `unsigned short`. -/
  space : UInt16
  buf : BString
  escape : Bool
  comment : Bool
  skip : Bool
  deriving DecidableEq, Repr

/-- The variables before the loop, with the leading space already written. -/
def State.start : State where
  inDocstring := .noDocstring
  single := { q := false, cnt := 0, ch := singleQuote, val := .singleDocstring }
  double := { q := false, cnt := 0, ch := doubleQuote, val := .doubleDocstring }
  space := 0
  buf := [32]
  escape := false
  comment := false
  skip := false

/-- `QUOTE ()`. -/
def State.quote (s : State) : Bool :=
  s.single.q || s.double.q || s.inDocstring != .noDocstring

/-- The byte before the one that is read or written next, if it is in the buffer. -/
def before (b : Option UInt8) : Except Fault UInt8 :=
  match b with
  | some b => .ok b
  | none => .error .undefined

/-- What `check_docstring` changes. -/
structure Checked where
  inDocstring : Docstring
  aa : PyQuote
  bb : PyQuote
  skip : Bool

/-- `check_docstring (AA, BB)`; `prev` is `*(pos - 1)`. -/
def checkDocstring (prev : Option UInt8) (s : State) (aa bb : PyQuote) : Except Fault Checked :=
  if s.inDocstring ≠ .noDocstring then do
    let cnt ← (if aa.cnt = 3 then .ok (aa.cnt - 1)
      else (before prev).map fun p => if p = aa.ch then aa.cnt - 1 else 3)
    if cnt ≠ 0 then .ok ⟨aa.val, { aa with cnt := cnt }, bb, s.skip⟩
    else .ok ⟨.noDocstring, { aa with cnt := cnt }, bb, true⟩
  else do
    let cnt ← (if aa.cnt = 0 ∧ ¬(aa.q ∨ bb.q) then .ok (aa.cnt + 1)
      else (before prev).map fun p => if p = aa.ch then aa.cnt + 1 else aa.cnt)
    let aa := { aa with cnt := cnt }
    if cnt = 3 then .ok ⟨aa.val, { aa with q := false }, { bb with q := false }, true⟩
    else if ¬bb.q ∧ ¬s.comment then
      if aa.q then
        if ¬s.escape then .ok ⟨.noDocstring, { aa with q := false }, bb, true⟩
        else .ok ⟨.noDocstring, aa, bb, s.skip⟩
      else .ok ⟨.noDocstring, { aa with q := true }, bb, s.skip⟩
    else .ok ⟨.noDocstring, aa, bb, s.skip⟩

/-- `switch (*pos)`. -/
def readChar (prev : Option UInt8) (b : UInt8) (s : State) : Except Fault State :=
  if b = newline then do
    let last ← before s.buf.getLast?
    .ok { s with skip := s.skip || last == newline, comment := false, space := 0 }
  else if b = doubleQuote then do
    let s ← (if s.inDocstring ≠ .singleDocstring then
        (checkDocstring prev s s.double s.single).map fun c =>
          { s with inDocstring := c.inDocstring, double := c.aa, single := c.bb, skip := c.skip }
      else .ok s)
    .ok { s with space := 0 }
  else if b = singleQuote then do
    let s ← (if s.inDocstring ≠ .doubleDocstring then
        (checkDocstring prev s s.single s.double).map fun c =>
          { s with inDocstring := c.inDocstring, single := c.aa, double := c.bb, skip := c.skip }
      else .ok s)
    .ok { s with space := 0 }
  else if isBlank b then do
    let last ← before s.buf.getLast?
    if last = newline then .ok { s with skip := true } else .ok { s with space := s.space + 1 }
  else .ok { s with space := 0 }

/-- `switch (in_docstring)`: counts of quotes that do not follow each other start again. -/
def resetCounts (b : UInt8) (s : State) : State :=
  let single := s.single
  let double := s.double
  match s.inDocstring with
  | .singleDocstring =>
      { s with
          single := if single.cnt < 3 ∧ b ≠ single.ch then { single with cnt := 3 } else single
          double := { double with cnt := 0 } }
  | .doubleDocstring =>
      { s with
          double := if double.cnt < 3 ∧ b ≠ double.ch then { double with cnt := 3 } else double
          single := { single with cnt := 0 } }
  | .noDocstring =>
      { s with
          single := if single.cnt > 0 ∧ b ≠ single.ch then { single with cnt := 0 } else single
          double := if double.cnt > 0 ∧ b ≠ double.ch then { double with cnt := 0 } else double }

/-- `*buf++ = b`, in a buffer of `size` bytes. -/
def put (size : Nat) (b : UInt8) (s : State) : Except Fault State :=
  if s.buf.length < size then .ok { s with buf := s.buf ++ [b] } else .error .undefined

/-- The byte is copied, unless it is skipped or quoted or the second blank in a row. -/
def copyChar (size : Nat) (b : UInt8) (s : State) : Except Fault State :=
  if s.skip then .ok { s with skip := false }
  else if ¬s.quote ∧ s.space < 2 then put size b s
  else .ok s

/-- A round of the loop for the byte `b`. -/
def round (size : Nat) (prev : Option UInt8) (b : UInt8) (s : State) : Except Fault State :=
  if ¬s.comment ∧ ¬s.quote ∧ ¬s.escape ∧ b = hash then .ok { s with comment := true, space := 0 }
  else if s.comment ∧ b ≠ newline then .ok s
  else do
    let s ← readChar prev b s
    let s ← copyChar size b (resetCounts b s)
    .ok { s with escape := if b = backslash then !s.escape else false }

/-- The loop over the bytes that are left and the NUL after them. -/
def loop (size : Nat) : (prev : Option UInt8) → BString → State → Except Fault State
  | prev, [], s => round size prev 0 s
  | prev, b :: rest, s => do
      let s ← round size prev b s
      if b = 0 then .ok s else loop size (some b) rest s

/-- `handle_python`: the new text, which is what was written less the last byte. -/
def handlePython (vimBuf : BString) : Except Fault BString :=
  if vimBuf.headD 0 = 0 then .error (.errx 1 "Empty vim buffer!")
  else do
    let size := vimBuf.length + 2
    let s ← loop size none vimBuf State.start
    let s ← put size 0 s
    .ok (s.buf.take (s.buf.length - 2))

/-! ### What it is for -/

open Python
open Readers (isSpace)

/-- A text without its white space and its quotes. -/
def visible (s : BString) : BString := s.filter fun b => !isSpace b && !isQuote b

/-- What is left of the text is what stands outside of comments and literals. -/
def Exact (ps : List Piece) : Prop :=
  ∃ text, handlePython (textOf ps) = .ok text ∧ visible text = visible (outsideOf ps)

/-- What the function can keep of a piece: the letters of a literal are not in quotes. -/
def kept : Piece → BString
  | .short letters _ _ => letters
  | .long letters _ _ => letters
  | p => p.outside

def keptOf (ps : List Piece) : BString := ps.flatMap kept

/-- The quote of a literal in which it stands last, behind a backslash. -/
def escapedLast : Piece → Option Quote
  | .short _ q body => if (bodyText body).getLast? = some q.ch then some q else none
  | _ => none

/--
The counts of quotes come out right for this piece, which is followed by `next`.  `before` is the
quote that the piece before it has last, behind a backslash.  A comment ends where the function
takes it to end.
-/
def CountsRight (before : Option Quote) (next : BString) : Piece → Prop
  | .comment _ =>
      next = [] ∨ begins (· == newline) next = true ∨ [carriageReturn, newline] <+: next
  | .short letters q body =>
      ¬List.replicate 4 q.other.ch <:+: bodyText body ∧
        ¬(before = some q ∧ letters = [] ∧ body = [])
  | .long letters q body =>
      ¬List.replicate 3 q.ch <:+:
        (if before = some q ∧ letters = [] then [q.ch] else []) ++
          (bodyText body ++ List.replicate 2 q.ch)
  | _ => True

instance (before : Option Quote) (next : BString) :
    (p : Piece) → Decidable (CountsRight before next p)
  | .word _ | .char _ | .join _ => isTrue trivial
  | .comment _ => inferInstanceAs (Decidable (_ ∨ _ ∨ _))
  | .short _ _ _ => inferInstanceAs (Decidable (_ ∧ _))
  | .long _ _ _ => inferInstanceAs (Decidable (¬_))

/-- They come out right for each piece. -/
def InStep (before : Option Quote) : List Piece → Prop
  | [] => True
  | p :: ps => CountsRight before (textOf ps) p ∧ InStep (escapedLast p) ps

instance decidableInStep :
    (before : Option Quote) → (ps : List Piece) → Decidable (InStep before ps)
  | _, [] => isTrue trivial
  | before, p :: ps =>
      have := decidableInStep (escapedLast p) ps
      inferInstanceAs (Decidable (CountsRight before (textOf ps) p ∧ InStep (escapedLast p) ps))

/-- The text ends in a comment. -/
def endsInComment (ps : List Piece) : Bool := ps.getLast?.any Piece.isComment

/-- What the text ends in is not a comment behind something visible that is kept. -/
def EndsWell (ps : List Piece) : Prop :=
  endsInComment ps = true → (keptOf ps).getLast?.all isSpace = true

instance (ps : List Piece) : Decidable (EndsWell ps) := inferInstanceAs (Decidable (_ → _))

/-- No literal begins with letters. -/
def NoLetters (ps : List Piece) : Prop := ∀ p ∈ ps, p.lettersOf = []

instance (ps : List Piece) : Decidable (NoLetters ps) :=
  inferInstanceAs (Decidable (∀ p ∈ ps, p.lettersOf = []))

end TagHighlight.StripPython
