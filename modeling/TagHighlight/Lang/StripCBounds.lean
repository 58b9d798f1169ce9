/-
`handle_cstyle` of `lang/ctags_scan/strip.c` once more, index by index.

`Lang.StripC` looks at what a line has in front of it.  The function itself goes through
`line` with the index `i`, which branches of the loop move on by themselves, and writes to
`repl` at the index `x`.  Here every such access is made with its index.  `line` has `len`
bytes and behind them a NUL, which `b_memsep` has put in the place of the newline, or which
is the end of the buffer; `repl` has room for `len + 2` bytes.  Anything outside of these is
`Fault.undefined`.

The indices are `unsigned`.  A `bstring` has room for its NUL, so that a length is less than
`UINT_MAX`, and no index below gets further than one behind it.
-/
import TagHighlight.Lang.StripC
import TagHighlight.Lib.Fault

namespace TagHighlight.StripC

open Ascii CtagsScan

/-- `line[j]`. -/
def lineAt (line : BString) (j : Nat) : Except Fault UInt8 :=
  if j ≤ line.length then .ok (byteAt line j) else .error .undefined

/-- `line[len - k]`, which is far outside of a line that is shorter. -/
def lineEnd (line : BString) (k : Nat) : Except Fault UInt8 :=
  if k ≤ line.length then lineAt line (line.length - k) else .error .undefined

theorem le_of_lineAt {line : BString} {j : Nat} {c : UInt8} (h : lineAt line j = .ok c) :
    j ≤ line.length := by
  unfold lineAt at h
  split at h
  · assumption
  · cases h

/-- `repl`: how much `talloc_size` was asked for, and what has been written, up to `x`. -/
structure Repl where
  size : Nat
  bytes : BString
  deriving DecidableEq, Repr

/-- `repl[x] = b`, which leaves what is before `x`. -/
def Repl.write (repl : Repl) (b : UInt8) : Except Fault BString :=
  if repl.bytes.length < repl.size then .ok (repl.bytes ++ [b]) else .error .undefined

/-- `repl[x++] = b`. -/
def Repl.put (repl : Repl) (b : UInt8) : Except Fault Repl := do
  .ok { repl with bytes := ← repl.write b }

/-- The variables of a line.  `len` is the length of the line and `x` that of the text. -/
structure Locals where
  i : Nat
  want : Want
  esc : Bool
  empty : Bool
  repl : Repl
  deriving DecidableEq, Repr

/-! ### The start of the line -/

/-- `while (isblank (line[i])) ++i`. -/
def skipBlanks (line : BString) (i : Nat) : Except Fault Nat :=
  match h : lineAt line i with
  | .error e => .error e
  | .ok c => if isBlank c then skipBlanks line (i + 1) else .ok i
termination_by line.length + 1 - i
decreasing_by
  have := le_of_lineAt h
  omega

/-- `strncmp (&line[j], SLS (lit)) == 0`, which stops at the first difference. -/
def startsAt (line : BString) (j : Nat) : (lit : BString) → Except Fault Bool
  | [] => .ok true
  | b :: lit => do
      if (← lineAt line j) = b then startsAt line (j + 1) lit else .ok false

/-- The line in an `#if 0`: `ifcount` after it. -/
def countIf (line : BString) (i : Nat) (ifcount : Int) : Except Fault Int := do
  let tmp ← skipBlanks line (i + 1)
  if ← startsAt line tmp (bt "if") then .ok (ifcount + 1)
  else if ← startsAt line tmp (bt "endif") then .ok (ifcount - 1)
  else .ok ifcount

/-- Whether the line is an `#if 0`. -/
def opensIfZero (line : BString) (i : Nat) : Except Fault Bool := do
  if (← lineAt line i) = hash then
    let tmp ← skipBlanks line (i + 1)
    startsAt line tmp (bt "if 0")
  else .ok false

/-! ### The loop -/

/-- The label `line_comment`. -/
def lineCommentAt (line : BString) : Except Fault Want := do
  if (← lineEnd line 1) = backslash then
    if line.length > 3 then
      if (← lineEnd line 2) ≠ backslash then .ok .newline else .ok .nothing
    else .ok .nothing
  else .ok .nothing

/-- What the branches of a round do, up to the copying; nothing for `goto line_comment`. -/
def branch (line : BString) (s : Locals) : Except Fault (Option Locals) := do
  let c ← lineAt line s.i
  if isBlank c then .ok (some s)
  else
    match s.want with
    | .newline => .ok none
    | .star =>
        if c = star then
          if (← lineAt line (s.i + 1)) = slash then
            .ok (some { s with want := .nothing, i := s.i + 2 })
          else .ok (some s)
        else .ok (some s)
    | .quote q =>
        if c = q then
          if ¬s.esc then .ok (some { s with want := .nothing, i := s.i + 1 }) else .ok (some s)
        else .ok (some s)
    | .ifZero => .ok (some s)
    | .nothing =>
        if c = singleQuote then .ok (some { s with want := .quote singleQuote })
        else if c = doubleQuote then .ok (some { s with want := .quote doubleQuote })
        else if c = slash then
          if (← lineAt line (s.i + 1)) = star then
            let repl ← s.repl.put space
            .ok (some { s with want := .star, repl := repl, empty := false, i := s.i + 1 })
          else if (← lineAt line (s.i + 1)) = slash then .ok none
          else .ok (some s)
        else .ok (some s)

/-- `if (!want && line[i])`: the byte is copied. -/
def copyAt (line : BString) (s : Locals) : Except Fault Locals := do
  if s.want = .nothing then
    let c ← lineAt line s.i
    if c ≠ 0 then .ok { s with repl := ← s.repl.put c, empty := false } else .ok s
  else .ok s

/-- The end of a round. -/
def escAt (line : BString) (s : Locals) : Except Fault Locals := do
  let c ← lineAt line s.i
  .ok { s with esc := if c = backslash then !s.esc else false }

/--
`for (; i < len; ++i)`, up to the label `next_line`.  Each round moves on by a byte at least,
so that as many rounds are enough as there are bytes.
-/
def loopAt (line : BString) : (n : Nat) → Locals → Except Fault Locals
  | 0, s => if s.i < line.length then .error .undefined else .ok s
  | n + 1, s =>
      if s.i < line.length then do
        match ← branch line s with
        | none => .ok { s with want := ← lineCommentAt line }
        | some s =>
            let s ← escAt line (← copyAt line s)
            loopAt line n { s with i := s.i + 1 }
      else .ok s

/-! ### The line -/

/-- After `next_line`: the text of the line, which is dropped if it is empty. -/
def nextLine (s : Locals) : Except Fault (Option BString) := do
  if s.empty then .ok none
  else
    let repl ← s.repl.put newline
    let _ ← repl.write 0
    .ok (some repl.bytes)

/-- One round of the outer loop, for a line that is entered with `want` and `ifcount`. -/
def handleLineAt (s : State) (line : BString) : Except Fault (State × Option BString) := do
  let i ← skipBlanks line 0
  if s.want = .ifZero then
    if (← lineAt line i) = hash then
      let ifcount ← countIf line i s.ifcount
      .ok ({ want := if ifcount = 0 then .nothing else .ifZero, ifcount := ifcount }, none)
    else .ok (s, none)
  else if ← (if s.want = .nothing then opensIfZero line i else .ok false) then
    .ok ({ want := .ifZero, ifcount := s.ifcount + 1 }, none)
  else
    let repl : Repl := { size := line.length + 2, bytes := [] }
    let t ← loopAt line line.length
      { i := i, want := s.want, esc := false, empty := true, repl := repl }
    .ok ({ s with want := t.want }, ← nextLine t)

/-- All lines, one after the other.  A text that is over at a NUL has fewer of them. -/
def handleLinesAt : State → List BString → Except Fault (List (Option BString))
  | _, [] => .ok []
  | s, line :: lines => do
      let (s, repl) ← handleLineAt s line
      .ok (repl :: (← handleLinesAt s lines))

end TagHighlight.StripC
