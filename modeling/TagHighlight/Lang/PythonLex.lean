/-
How a Python text falls into tokens, as far as comments and string literals go.

A text is a sequence of pieces: words, other bytes, joined lines, comments and string literals.
`Lexed` says that the sequence is the one that the lexer of the language finds, which takes as
much as it can each time.  A literal begins with its letters, as in `rb'…'`, if it has any, and a
text whose literals are not all closed has no such sequence.

Lines end with a newline, a carriage return, or both.
-/
import TagHighlight.Util.Ascii
import Mathlib.Data.List.Infix

namespace TagHighlight.Python

open Ascii

/-! ### Literals -/

inductive Quote where
  | single
  | double
  deriving DecidableEq, Repr

def Quote.ch : Quote → UInt8
  | .single => singleQuote
  | .double => doubleQuote

def Quote.other : Quote → Quote
  | .single => .double
  | .double => .single

def isQuote (b : UInt8) : Bool := b == singleQuote || b == doubleQuote

abbrev carriageReturn : UInt8 := 13

def isLineEnd (b : UInt8) : Bool := b == newline || b == carriageReturn

/-- A byte, or a backslash and what it takes the meaning of. -/
inductive Item where
  | plain (b : UInt8)
  | escaped (s : BString)
  deriving DecidableEq, Repr

def Item.text : Item → BString
  | .plain b => [b]
  | .escaped s => backslash :: s

/-- A backslash goes with the next byte, or with both bytes of a line end. -/
def Item.ok : Item → Bool
  | .plain b => b != backslash && b != 0
  | .escaped s => s == [carriageReturn, newline] || (s.length == 1 && s != [0])

def bodyText (body : List Item) : BString := body.flatMap Item.text

/-- What may stand between single quotes. -/
def ShortBody (q : Quote) (body : List Item) : Prop :=
  ∀ i ∈ body, i.ok = true ∧ i ≠ .plain q.ch ∧ i ≠ .plain newline ∧ i ≠ .plain carriageReturn

/-- What may stand between triple quotes: they are closed by the first three quotes. -/
structure LongBody (q : Quote) (body : List Item) : Prop where
  ok : ∀ i ∈ body, i.ok = true
  three : ¬List.replicate 3 (.plain q.ch) <:+: body
  last : body.getLast? ≠ some (.plain q.ch)

instance (q : Quote) (body : List Item) : Decidable (ShortBody q body) :=
  inferInstanceAs (Decidable (∀ i ∈ body, _))

instance (q : Quote) (body : List Item) : Decidable (LongBody q body) :=
  decidable_of_iff ((∀ i ∈ body, i.ok = true) ∧ ¬List.replicate 3 (.plain q.ch) <:+: body ∧
    body.getLast? ≠ some (.plain q.ch))
    ⟨fun h => ⟨h.1, h.2.1, h.2.2⟩, fun h => ⟨h.ok, h.three, h.last⟩⟩

def lower (b : UInt8) : UInt8 := if 65 ≤ b && b ≤ 90 then b + 32 else b

/-- The letters that a literal can begin with. -/
def letters : List BString :=
  [bt "r", bt "u", bt "b", bt "f", bt "t", bt "br", bt "rb", bt "fr", bt "rf", bt "tr", bt "rt"]

def isLetters (w : BString) : Bool := letters.contains (w.map lower)

/-! ### Pieces -/

/-- A byte of a name, a keyword or a number. -/
def isName (b : UInt8) : Bool := isAlnum b || b == underscore || 128 ≤ b

/-- The text begins with such a byte. -/
def begins (p : UInt8 → Bool) (s : BString) : Bool := s.head?.any p

inductive Piece where
  | word (w : BString)
  | char (b : UInt8)
  /-- A backslash at the end of a line, and the end of the line. -/
  | join (e : BString)
  /-- `#`, and what is behind it. -/
  | comment (c : BString)
  /-- `'…'` or `"…"`. -/
  | short (letters : BString) (q : Quote) (body : List Item)
  /-- `'''…'''` or `"""…"""`. -/
  | long (letters : BString) (q : Quote) (body : List Item)
  deriving DecidableEq, Repr

namespace Piece

def text : Piece → BString
  | word w => w
  | char b => [b]
  | join e => backslash :: e
  | comment c => hash :: c
  | short letters q body => letters ++ q.ch :: (bodyText body ++ [q.ch])
  | long letters q body =>
      letters ++ List.replicate 3 q.ch ++ (bodyText body ++ List.replicate 3 q.ch)

/-- The letters of a literal. -/
def lettersOf : Piece → BString
  | short letters _ _ => letters
  | long letters _ _ => letters
  | _ => []

/-- What is outside of comments and literals. -/
def outside : Piece → BString
  | word w => w
  | char b => [b]
  | join e => backslash :: e
  | _ => []

def isComment : Piece → Bool
  | comment _ => true
  | _ => false

/-- The lexer finds this piece if the text goes on with `next`. -/
def Fits (next : BString) : Piece → Prop
  | word w =>
      w ≠ [] ∧ (∀ b ∈ w, isName b = true) ∧ begins isName next = false ∧
        (isLetters w = true → begins isQuote next = false)
  | char b => isName b = false ∧ isQuote b = false ∧ b ≠ hash ∧ b ≠ backslash ∧ b ≠ 0
  | join e => e = [newline] ∨ e = [carriageReturn] ∨ e = [carriageReturn, newline]
  | comment c =>
      (∀ b ∈ c, isLineEnd b = false ∧ b ≠ 0) ∧ (next = [] ∨ begins isLineEnd next = true)
  | short letters q body =>
      (letters = [] ∨ isLetters letters = true) ∧ ShortBody q body ∧
        (body = [] → begins (· == q.ch) next = false)
  | long letters q body => (letters = [] ∨ isLetters letters = true) ∧ LongBody q body

instance (next : BString) : (p : Piece) → Decidable (p.Fits next)
  | word _ => inferInstanceAs (Decidable (_ ∧ _ ∧ _ ∧ _))
  | char _ => inferInstanceAs (Decidable (_ ∧ _ ∧ _ ∧ _ ∧ _))
  | join _ => inferInstanceAs (Decidable (_ ∨ _ ∨ _))
  | comment _ => inferInstanceAs (Decidable (_ ∧ _))
  | short _ _ _ => inferInstanceAs (Decidable (_ ∧ _ ∧ _))
  | long _ _ _ => inferInstanceAs (Decidable (_ ∧ _))

end Piece

def textOf (ps : List Piece) : BString := ps.flatMap Piece.text

def outsideOf (ps : List Piece) : BString := ps.flatMap Piece.outside

/-- The pieces are those that the lexer finds in their text. -/
def Lexed : List Piece → Prop
  | [] => True
  | p :: ps => p.Fits (textOf ps) ∧ Lexed ps

instance decidableLexed : (ps : List Piece) → Decidable (Lexed ps)
  | [] => isTrue trivial
  | p :: ps =>
      have := decidableLexed ps
      inferInstanceAs (Decidable (p.Fits (textOf ps) ∧ Lexed ps))

end TagHighlight.Python
