/-
Stripping comments and literals from C-like text: `handle_cstyle` of
`lang/ctags_scan/strip.c`.

The text is worked on line by line, as `strip_comments` has joined it and `b_memsep` cuts it
again.  A line is gone through with an index that some branches move forward by themselves;
what stands at the index in the end is then copied, if nothing is wanted.  `want` is carried
from line to line.

Each byte of the output is kept together with the column it was copied from, so that it can
be said which bytes of the text the output consists of.

What is outside of comments and literals is said by the lexing of C, byte by byte with one
byte to look ahead.
-/
import TagHighlight.Lang.CtagsScan
import TagHighlight.Util.Ascii

namespace TagHighlight.StripC

open Ascii CtagsScan

/-- The values of `want`. -/
inductive Want where
  /-- `0`: the text is ordinary. -/
  | nothing
  /-- `'*'`: inside a block comment. -/
  | star
  /-- `'"'` or `'\''`: inside a literal. -/
  | quote (q : UInt8)
  /-- `'\n'`: a line comment goes on. -/
  | newline
  /-- `WANT_IF_ZERO`. -/
  | ifZero
  deriving DecidableEq, Repr

/-- A byte of `repl`, and where in the line it comes from. -/
structure Piece where
  col : Option Nat
  byte : UInt8
  deriving DecidableEq, Repr

/-! ### A line -/

/-- What a round of the loop does: `want` after it, how far `i` is moved, what is put in. -/
structure Round where
  want : Want
  skip : Nat
  added : List Piece

/-- The round at `&line[i]`, up to the copying; nothing for `goto line_comment`. -/
def round (want : Want) (esc : Bool) (rest : BString) : Option Round :=
  let c := byteAt rest 0
  if isBlank c then some ⟨want, 0, []⟩
  else
    match want with
    | .newline => none
    | .star =>
        if c = star ∧ byteAt rest 1 = slash then some ⟨.nothing, 2, []⟩ else some ⟨.star, 0, []⟩
    | .quote q => if c = q ∧ ¬esc then some ⟨.nothing, 1, []⟩ else some ⟨.quote q, 0, []⟩
    | .ifZero => some ⟨.ifZero, 0, []⟩
    | .nothing =>
        if c = singleQuote ∨ c = doubleQuote then some ⟨.quote c, 0, []⟩
        else if c = slash ∧ byteAt rest 1 = star then some ⟨.star, 1, [⟨none, space⟩]⟩
        else if c = slash ∧ byteAt rest 1 = slash then none
        else some ⟨.nothing, 0, []⟩

/-- At `line_comment`: a backslash at the end makes the comment go on. -/
def afterLineComment (line : BString) : Want :=
  let len := line.length
  if byteAt line (len - 1) = backslash ∧ len > 3 ∧ byteAt line (len - 2) ≠ backslash then .newline
  else .nothing

/-- `repl[x++] = line[i]`, if nothing is wanted. -/
def copied (r : Round) (rest : BString) (col : Nat) : List Piece :=
  if r.want = .nothing ∧ byteAt rest r.skip ≠ 0 then [⟨some (col + r.skip), byteAt rest r.skip⟩]
  else []

/--
The loop from `&line[i]` on, `i` being `col`: `want` in the end, and what goes into `repl`.
Each round uses up a byte at least, so that `n` rounds are enough for as many bytes.
-/
def scan (line : BString) : (n : Nat) → (rest : BString) → (col : Nat) → Want → (esc : Bool) →
    Want × List Piece
  | 0, _, _, want, _ => (want, [])
  | _ + 1, [], _, want, _ => (want, [])
  | n + 1, c :: cs, col, want, esc =>
      match round want esc (c :: cs) with
      | none => (afterLineComment line, [])
      | some r =>
          let esc := if byteAt (c :: cs) r.skip = backslash then !esc else false
          let next := scan line n (cs.drop r.skip) (col + r.skip + 1) r.want esc
          (next.1, r.added ++ copied r (c :: cs) col ++ next.2)

/-- What is carried from line to line. -/
structure State where
  want : Want
  ifcount : Int
  deriving DecidableEq, Repr

/-- What stands after a `#` and blanks. -/
def directive (line : BString) (i : Nat) : BString := (line.drop (i + 1)).dropWhile isBlank

/-- One round of the outer loop: the line's `repl`, which is dropped if it stays empty. -/
def handleLine (s : State) (line : BString) : State × List Piece :=
  let i := (line.takeWhile isBlank).length
  if s.want = .ifZero then
    if byteAt line i = hash then
      let ifcount :=
        if (bt "if").isPrefixOf (directive line i) then s.ifcount + 1
        else if (bt "endif").isPrefixOf (directive line i) then s.ifcount - 1
        else s.ifcount
      ({ want := if ifcount = 0 then .nothing else .ifZero, ifcount := ifcount }, [])
    else (s, [])
  else if s.want = .nothing ∧ byteAt line i = hash ∧
      (bt "if 0").isPrefixOf (directive line i) then
    ({ want := .ifZero, ifcount := s.ifcount + 1 }, [])
  else
    let out := scan line line.length (line.drop i) i s.want false
    ({ s with want := out.1 }, out.2)

/-- All lines: a `repl` for each. -/
def handleLines : State → List BString → List (List Piece)
  | _, [] => []
  | s, line :: lines =>
      let out := handleLine s line
      out.2 :: handleLines out.1 lines

/-- The text of the lines that are not empty, each with a newline. -/
def joinLines (repls : List (List Piece)) : BString :=
  (repls.filter (· ≠ [])).flatMap fun repl => repl.map Piece.byte ++ [newline]

/-- `handle_cstyle` on the text with these lines. -/
def handleCstyle (lines : List BString) : BString :=
  joinLines (handleLines { want := .nothing, ifcount := 0 } lines)

/-! ### The lexing of C -/

/-- What a byte stands in. -/
inductive Mode where
  | source
  | lineComment
  /-- At the `*` that opens a comment. -/
  | opening
  | comment
  /-- At the `/` that closes a comment. -/
  | closing
  | literal (q : UInt8)
  /-- After a backslash in a literal. -/
  | escaped (q : UInt8)
  deriving DecidableEq, Repr

/-- What the byte after `b` stands in; `peek` is that byte, if the line has one. -/
def Mode.next (mode : Mode) (b : UInt8) (peek : Option UInt8) : Mode :=
  match mode with
  | .source =>
      if b = singleQuote ∨ b = doubleQuote then .literal b
      else if b = slash ∧ peek = some star then .opening
      else if b = slash ∧ peek = some slash then .lineComment
      else .source
  | .lineComment => .lineComment
  | .opening => .comment
  | .comment => if b = star ∧ peek = some slash then .closing else .comment
  | .closing => .source
  | .literal q => if b = backslash then .escaped q else if b = q then .source else .literal q
  | .escaped q => .literal q

/-- The bytes of a line outside of comments and literals, and what the line ends in. -/
def lexLine : Mode → (col : Nat) → BString → List (Nat × UInt8) × Mode
  | mode, _, [] => ([], mode)
  | mode, col, b :: rest =>
      let next := mode.next b rest.head?
      let line := lexLine next (col + 1) rest
      (if mode = .source ∧ next = .source then (col, b) :: line.1 else line.1, line.2)

/-- A line comment ends with its line. -/
def Mode.endLine : Mode → Mode
  | .lineComment => .source
  | mode => mode

/-- The same for all lines. -/
def lexLines : Mode → List BString → List (List (Nat × UInt8))
  | _, [] => []
  | mode, line :: lines =>
      let out := lexLine mode 0 line
      out.1 :: lexLines out.2.endLine lines

/-- `#if 0`, with blanks around the `#`. -/
def isIfZero (line : BString) : Bool :=
  match line.dropWhile isBlank with
  | b :: rest => b == hash && (bt "if 0").isPrefixOf (rest.dropWhile isBlank)
  | [] => false

/--
A text that each line of which can be lexed by itself: literals are closed on their lines, no
line is continued, and none that starts outside of a comment is an `#if 0`.
-/
def Plain : Mode → List BString → Prop
  | _, [] => True
  | mode, line :: lines =>
      0 ∉ line ∧ line.getLast? ≠ some backslash ∧ (mode = .source → isIfZero line = false) ∧
        ((lexLine mode 0 line).2.endLine = .source ∨ (lexLine mode 0 line).2.endLine = .comment) ∧
        Plain (lexLine mode 0 line).2.endLine lines

/-! ### What the output should be -/

/-- Neither a blank nor a newline. -/
def isVisible (b : UInt8) : Bool := !(isBlank b || b == newline)

/-- A text up to blanks and newlines. -/
def visible (text : BString) : BString := text.filter isVisible

/-- The bytes of a text outside of comments and literals. -/
def outside (lines : List BString) : BString := (lexLines .source lines).flatten.map Prod.snd

/-- The visible ones among bytes with their columns. -/
def vis (bytes : List (Nat × UInt8)) : List (Nat × UInt8) := bytes.filter fun p => isVisible p.2

/-- The visible bytes that were copied from a line, with their columns. -/
def copiedFrom (repl : List Piece) : List (Nat × UInt8) :=
  repl.filterMap fun p => p.col.bind fun col => if isVisible p.byte then some (col, p.byte) else none

/--
The output is what is outside of comments and literals, and it consists of just these bytes:
what is interpreted otherwise is not made up for by an equal byte elsewhere.
-/
structure Exact (lines : List BString) : Prop where
  text : visible (handleCstyle lines) = visible (outside lines)
  bytes : (handleLines { want := .nothing, ifcount := 0 } lines).map copiedFrom =
    (lexLines .source lines).map vis

/-- A literal or a comment starts here. -/
def opens : BString → Bool
  | [] => false
  | b :: rest => Mode.source.next b rest.head? != .source

/-- A literal or a comment starts right after the end of a literal or of a block comment. -/
def touching : Mode → BString → Bool
  | _, [] => false
  | mode, b :: rest =>
      let next := mode.next b rest.head?
      (mode != .source && next == .source && opens rest) || touching next rest

/-- The same for some line of the text. -/
def anyTouching : Mode → List BString → Bool
  | _, [] => false
  | mode, line :: lines =>
      touching mode line || anyTouching (lexLine mode 0 line).2.endLine lines

end TagHighlight.StripC
