/-
The two functions that read a given number of bytes: `stream_read` of `mpack/decode.c` and
`read_pipe` of `lang/golang/pipe.c`.

Both call `read` (or `recv`) until they have what they want.  They might go on without end, so
that a number of rounds is given: nothing is returned if it is not enough.

`read_pipe` has the length from ten digits before the bytes.  A write past the buffer of
`num2read + 1` bytes is undefined behaviour, and so is the pointer to a place past its end.
`slen` and `num2read` have 32 bits.
-/
import TagHighlight.Lib.Fault
import TagHighlight.Lib.InputStream
import TagHighlight.Util.Ascii
import Mathlib.Algebra.Group.Nat.Defs

namespace TagHighlight.Readers

open Ascii

/-- `stream_read`, with what it has read into `dest`. -/
def streamRead (nbytes : Nat) : (rounds : Nat) → (dest : BString) → InputStream →
    Option (Except Fault (BString × InputStream))
  | 0, _, _ => none
  | rounds + 1, dest, src =>
      if dest.length < nbytes then
        match src.read (nbytes - dest.length) with
        | (none, _) => some (.error (.errx 1 "read() error"))
        | (some bytes, src) => streamRead nbytes rounds (dest ++ bytes) src
      else some (.ok (dest, src))

/-! ### `read_pipe` -/

/-- `isspace`. -/
def isSpace (b : UInt8) : Bool := b == space || 9 ≤ b && b ≤ 13

/-- `strtoull (buf, &p, 10)` where it does not overflow: the number, and `p - buf`. -/
def strtoull (buf : BString) : Nat × Nat :=
  let spaces := (buf.takeWhile isSpace).length
  let sign := (buf.drop spaces).take 1
  let signs := if sign = bt "+" ∨ sign = bt "-" then 1 else 0
  let digits := (buf.drop (spaces + signs)).takeWhile isDigit
  if digits = [] then (0, 0)
  else
    let n := digits.foldl (fun n d => 10 * n + (d.toNat - 48)) 0
    (if sign = bt "-" then (2 ^ 64 - n) % 2 ^ 64 else n, spaces + signs + digits.length)

/-- `num2read`, from the ten bytes. -/
def num2readOf (buf : BString) : Nat := (strtoull buf).1 % 2 ^ 32

/-- `b_create (num2read + 1)`, on 32 bits. -/
def capacity (num2read : Nat) : Nat := (num2read + 1) % 2 ^ 32

/-- A round of the loop: `data`, `slen` and the descriptor after it. -/
def bodyRound (num2read : Nat) (data : BString) (slen : Nat) (fd : InputStream) :
    Except Fault (BString × Nat × InputStream) :=
  if capacity num2read < slen then .error .undefined
  else
    match fd.read num2read with
    | (none, fd) => .ok (data, (slen + (2 ^ 32 - 1)) % 2 ^ 32, fd)
    | (some bytes, fd) =>
        if capacity num2read < slen + bytes.length then .error .undefined
        else
          .ok (data.take slen ++ bytes ++ data.drop (slen + bytes.length),
            (slen + bytes.length) % 2 ^ 32, fd)

/-- `ret->data[ret->slen] = '\0'`, and the string. -/
def terminate (num2read : Nat) (data : BString) (slen : Nat) (fd : InputStream) :
    Except Fault (BString × InputStream) :=
  if slen < capacity num2read then .ok (data.take slen, fd) else .error .undefined

/-- The loop of `read_pipe`. -/
def readBody (num2read : Nat) : (rounds : Nat) → (data : BString) → (slen : Nat) → InputStream →
    Option (Except Fault (BString × InputStream))
  | 0, _, _, _ => none
  | rounds + 1, data, slen, fd =>
      match bodyRound num2read data slen fd with
      | .error e => some (.error e)
      | .ok (data, slen, fd) =>
          if slen = num2read then some (terminate num2read data slen fd)
          else readBody num2read rounds data slen fd

/-- `read_pipe`; `ndebug` says that it was compiled without its check of the digits. -/
def readPipe (ndebug : Bool) (rounds : Nat) (fd : InputStream) :
    Option (Except Fault (BString × InputStream)) :=
  match fd.read 10 with
  | (none, _) => some (.error (.errx 1 "nread (%lu) != 10"))
  | (some buf, fd) =>
      if buf.length ≠ 10 then some (.error (.errx 1 "nread (%lu) != 10"))
      else if ndebug = false ∧ (strtoull buf).2 ≠ 10 then
        some (.error (.errx 1 "Invalid input %d, %s (%s)"))
      else readBody (num2readOf buf) rounds [] 0 fd

/-! ### What is asked of a reader -/

/--
After finitely many rounds the reader has either stopped with an error, or delivered the first
`n` of the bytes and left the others.
-/
def Delivers (reader : Nat → Option (Except Fault (BString × InputStream))) (n : Nat)
    (bytes : BString) : Prop :=
  ∃ rounds out, reader rounds = some out ∧
    ((∃ code msg, out = .error (.errx code msg)) ∨
      n ≤ bytes.length ∧ ∃ fd : InputStream, out = .ok (bytes.take n, fd) ∧ fd.rest = bytes.drop n)

/--
The `n` bytes arrive before a call fails, and either all in one call, or in some that end with
them, or with nothing after them.
-/
def ArrivesWhole (fd : InputStream) (n : Nat) : Prop :=
  n ≤ fd.rest.length ∧ ∃ m, (∀ i ≤ m, fd.chunk (fd.calls + i) ≠ none) ∧
    (m = 0 ∨ fd.arrived m < n) ∧ n ≤ fd.arrived (m + 1) ∧
    (m = 0 ∨ fd.arrived (m + 1) = n ∨ fd.rest.length = n)

/-- The ten bytes arrive in the first call and are accepted. -/
def HeaderComes (ndebug : Bool) (fd : InputStream) : Prop :=
  (∃ k, fd.chunk fd.calls = some k ∧ 10 ≤ k + 1) ∧ 10 ≤ fd.rest.length ∧
    (ndebug = true ∨ (strtoull (fd.rest.take 10)).2 = 10)

end TagHighlight.Readers
