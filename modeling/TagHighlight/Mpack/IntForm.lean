/-
The forms of an integer in MessagePack.

A peer may write an integer in any form that has room for it: a shorter or a longer one, and
a signed one also where the number is not negative.  `IntForm.bytes` is what it sends, in
two's complement of the form's own width.  The program keeps every number as 64 bits.
-/
import Mathlib.Algebra.Group.Int.Defs
import TagHighlight.Mpack.Wire

namespace TagHighlight

open Bytes

/-- The ten forms. -/
inductive IntForm where
  | posFixint
  | negFixint
  | uint (w : Width)
  | int (w : Width)
  deriving DecidableEq, Repr

/-- Two's complement in so many bytes. -/
def bitsOf (size : Nat) (v : Int) : Nat := (v % (256 ^ size : Nat)).toNat

/-- Two's complement in 64 bits. -/
def pattern (v : Int) : UInt64 := UInt64.ofNat (bitsOf 8 v)

namespace IntForm

/-- The form can represent this integer. -/
def Holds (v : Int) : IntForm → Prop
  | posFixint => 0 ≤ v ∧ v < 128
  | negFixint => -32 ≤ v ∧ v < 0
  | uint w => 0 ≤ v ∧ v < (256 ^ w.size : Nat)
  | int w => -(256 ^ w.size / 2 : Nat) ≤ v ∧ v < (256 ^ w.size / 2 : Nat)

/-- The integer as it is sent. -/
def bytes (v : Int) : IntForm → BString
  | posFixint => [UInt8.ofNat (bitsOf 1 v)]
  | negFixint => [UInt8.ofNat (bitsOf 1 v)]
  | uint w => w.uintCode :: beBytes w.size (bitsOf w.size v)
  | int w => w.intCode :: beBytes w.size (bitsOf w.size v)

/-- The forms whose upper bits `decode_integer` sets whatever the sign. -/
def Spoils (v : Int) : IntForm → Prop
  | int .w8 => True
  | int .w16 | int .w32 => 0 ≤ v
  | _ => False

end IntForm

/-- The bytes are decoded as a number with these 64 bits, and nothing after them is read. -/
def DecodesTo (bs : BString) (num : UInt64) : Prop :=
  ∀ rest, ∃ obj, doDecode (bs ++ rest) = .ok (obj, rest) ∧ obj.num? = some num

end TagHighlight
