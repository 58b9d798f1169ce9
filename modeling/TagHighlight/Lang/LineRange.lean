/-
A range of lines as a range of bytes: `lines2bytes` of `lang/clang/clang.c`, beside
`ll_join_bstrings` of `util/linked_list.c`, which lays the text out that the bytes are of.

The arguments of `lines2bytes` are `int`s, and `last + 1` is an addition of `int`s, which
overflows where there is no greater one.  The counters are `int64_t`; here they have no bound,
as no text is that long.  The length of a line is `unsigned`.

The strings are made by the string library, which is a parameter.
-/
import TagHighlight.Util.LinkedList
import TagHighlight.Util.Ascii
import Mathlib.Algebra.Group.Nat.Defs

namespace TagHighlight.LineRange

open Ascii

/-- `INT_MAX`. -/
abbrev intMax : Int := 2147483647

/-- `n + 1` for an `int`. -/
def intSucc (n : Int) : Except Fault Int :=
  if n < intMax then .ok (n + 1) else .error .undefined

/-- The variables of `lines2bytes`. -/
structure Counters where
  startbyte : Int
  endbyte : Int
  i : Int
  deriving DecidableEq, Repr

/-- `line->slen + 1`. -/
def spaceFor (line : BString) : Int := ((line.length + 1) % 2 ^ 32 : Nat)

/-- The body of the loop over the lines. -/
def rangeStep (first last : Int) (line : BString) (s : Counters) :
    Except Fault (ForInStep Counters) := do
  if s.i < first then
    let startbyte := s.startbyte + spaceFor line
    .ok (.yield { startbyte := startbyte, endbyte := startbyte, i := s.i + 1 })
  else if s.i < (← intSucc last) then
    .ok (.yield { s with endbyte := s.endbyte + spaceFor line, i := s.i + 1 })
  else .ok (.done s)

/-- `lines2bytes`: the two elements of `startend`. -/
def lines2bytes (lines : LinkedList BString) (first last : Int) : Except Fault (Int × Int) := do
  let s ← llForeach lines { startbyte := 0, endbyte := 0, i := 0 } (rangeStep first last)
  .ok (s.startbyte, s.endbyte)

/-! ### The joined text -/

/-- What the string library is used for. -/
structure JoinLib where
  /-- `b_create`. -/
  create : UInt32 → BString
  /-- The string after `b_concat`. -/
  concat : BString → BString → BString
  /-- The string after `b_catchar`. -/
  catchar : BString → Int → BString

/-- `ll_join_bstrings`. -/
def llJoinBstrings (lib : JoinLib) (list : LinkedList BString) (sepchar : Int) :
    Except Fault BString := do
  let seplen : UInt32 := if sepchar ≠ 0 then 1 else 0
  let len ← llForeach list (0 : UInt32) fun line len =>
    .ok (.yield (len + (UInt32.ofNat line.length + seplen)))
  let joined := lib.create len
  if sepchar ≠ 0 then
    llForeach list joined fun line joined =>
      .ok (.yield (lib.catchar (lib.concat joined line) sepchar))
  else
    llForeach list joined fun line joined => .ok (.yield (lib.concat joined line))

/-- The string library appends, up to the greatest length there is. -/
structure JoinLib.Appends (lib : JoinLib) : Prop where
  create : ∀ len, lib.create len = []
  concat : ∀ s line, s.length + line.length < 2 ^ 32 → lib.concat s line = s ++ line
  catchar : ∀ s c, s.length + 1 < 2 ^ 32 → lib.catchar s c = s ++ [UInt8.ofInt c]

/-! ### What the range is to be -/

/-- Lines, each followed by a newline. -/
def textOf (lines : List BString) : BString := lines.flatMap fun line => line ++ [newline]

/-- The lines from `first` to `last`, or to the end. -/
def lineRange (lines : List BString) (first last : Nat) : List BString :=
  (lines.take (last + 1)).drop first

/-- The bytes of the range are those of the lines `first` to `last` in the joined text. -/
def RangeAgrees (lib : JoinLib) (list : LinkedList BString) (lines : List BString)
    (first last : Nat) : Prop :=
  ∃ (s e : Nat) (joined : BString), lines2bytes list first last = .ok ((s : Int), (e : Int)) ∧
    llJoinBstrings lib list 10 = .ok joined ∧ s ≤ e ∧ e ≤ joined.length ∧
    (joined.drop s).take (e - s) = textOf (lineRange lines first last) ∧
    (lines.length ≤ first → s = e)

end TagHighlight.LineRange
