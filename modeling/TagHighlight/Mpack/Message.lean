/-
What MessagePack bytes say to a peer that keeps to the format.

The decoder of this program is not the one at the other end: Neovim reads what is sent here
with a library of its own.  `hear` is what the format says of bytes, written down from its
table of first bytes and from nothing of the program.  A number is an integer, whatever form
it came in, and lengths and numbers are in network byte order.

`Tree.message` is what a caller of the encoder means, and `Wire.message` what a sender means
who picks the forms.
-/
import Mathlib.Algebra.Group.Int.Defs
import TagHighlight.Mpack.Encode
import TagHighlight.Mpack.Wire

namespace TagHighlight

open Bytes

/-- What is said. -/
inductive Message where
  | nil
  | boolean (b : Bool)
  | integer (v : Int)
  | ext (type : UInt8) (payload : List UInt8)
  | string (str : BString)
  | array (items : List Message)
  | dictionary (entries : List (Message × Message))

/-- The number that so many bytes stand for in two's complement. -/
def signedOf (size n : Nat) : Int := Int.bmod n (256 ^ size)

/-! ### First bytes -/

/-- What a first byte announces; `size` is the number of bytes of what follows it. -/
inductive Head where
  | fixint (n : Nat)
  | fixmap (len : Nat)
  | fixarray (len : Nat)
  | fixstr (len : Nat)
  | nil
  | boolean (b : Bool)
  | ext8
  | uint (size : Nat)
  | int (size : Nat)
  | fixext (len : Nat)
  | str (size : Nat)
  | array (size : Nat)
  | map (size : Nat)
  | negFixint (n : Nat)
  /-- Anything else: reserved, binary, floating point, and extensions of more than 8 bytes. -/
  | other
  deriving DecidableEq, Repr

def headOf (b : UInt8) : Head :=
  let n := b.toNat
  if n < 0x80 then .fixint n
  else if n < 0x90 then .fixmap (n - 0x80)
  else if n < 0xA0 then .fixarray (n - 0x90)
  else if n < 0xC0 then .fixstr (n - 0xA0)
  else if 0xE0 ≤ n then .negFixint (n - 0xE0)
  else match n with
    | 0xC0 => .nil
    | 0xC2 => .boolean false
    | 0xC3 => .boolean true
    | 0xC7 => .ext8
    | 0xCC => .uint 1
    | 0xCD => .uint 2
    | 0xCE => .uint 4
    | 0xCF => .uint 8
    | 0xD0 => .int 1
    | 0xD1 => .int 2
    | 0xD2 => .int 4
    | 0xD3 => .int 8
    | 0xD4 => .fixext 1
    | 0xD5 => .fixext 2
    | 0xD6 => .fixext 4
    | 0xD7 => .fixext 8
    | 0xD9 => .str 1
    | 0xDA => .str 2
    | 0xDB => .str 4
    | 0xDC => .array 2
    | 0xDD => .array 4
    | 0xDE => .map 2
    | 0xDF => .map 4
    | _ => .other

/-! ### Hearing -/

/-- What was taken from the front of some bytes, and what is left. -/
abbrev Hearer (α : Type) := BString → Option (α × BString)

def takeBytes (n : Nat) : Hearer BString := fun bs =>
  if bs.length < n then none else some (bs.take n, bs.drop n)

/-- A number of so many bytes, the most significant one first. -/
def takeNat (size : Nat) : Hearer Nat := fun bs => do
  let (digits, bs) ← takeBytes size bs
  some (ofLE digits.reverse, bs)

def hearItems (hear : Hearer Message) : (count : Nat) → Hearer (List Message)
  | 0, bs => some ([], bs)
  | count + 1, bs => do
      let (item, bs) ← hear bs
      let (items, bs) ← hearItems hear count bs
      some (item :: items, bs)

def hearEntries (hear : Hearer Message) : (count : Nat) → Hearer (List (Message × Message))
  | 0, bs => some ([], bs)
  | count + 1, bs => do
      let (key, bs) ← hear bs
      let (value, bs) ← hear bs
      let (entries, bs) ← hearEntries hear count bs
      some ((key, value) :: entries, bs)

def hearString (len : Nat) : Hearer Message := fun bs => do
  let (str, bs) ← takeBytes len bs
  some (.string str, bs)

def hearArray (hear : Hearer Message) (len : Nat) : Hearer Message := fun bs => do
  let (items, bs) ← hearItems hear len bs
  some (.array items, bs)

def hearMap (hear : Hearer Message) (len : Nat) : Hearer Message := fun bs => do
  let (entries, bs) ← hearEntries hear len bs
  some (.dictionary entries, bs)

def hearExt (len : Nat) : Hearer Message := fun bs => do
  let (type, bs) ← takeBytes 1 bs
  let (payload, bs) ← takeBytes len bs
  some (.ext (type.headD 0) payload, bs)

/-- What follows a first byte. -/
def hearAfter (hear : Hearer Message) : Head → Hearer Message
  | .fixint n, bs => some (.integer n, bs)
  | .negFixint n, bs => some (.integer (n - 32), bs)
  | .nil, bs => some (.nil, bs)
  | .boolean b, bs => some (.boolean b, bs)
  | .uint size, bs => do
      let (n, bs) ← takeNat size bs
      some (.integer n, bs)
  | .int size, bs => do
      let (n, bs) ← takeNat size bs
      some (.integer (signedOf size n), bs)
  | .fixstr len, bs => hearString len bs
  | .str size, bs => do
      let (len, bs) ← takeNat size bs
      hearString len bs
  | .fixarray len, bs => hearArray hear len bs
  | .array size, bs => do
      let (len, bs) ← takeNat size bs
      hearArray hear len bs
  | .fixmap len, bs => hearMap hear len bs
  | .map size, bs => do
      let (len, bs) ← takeNat size bs
      hearMap hear len bs
  | .fixext len, bs => hearExt len bs
  | .ext8, bs => do
      let (len, bs) ← takeNat 1 bs
      hearExt len bs
  | .other, _ => none

/-- A message nested at most `fuel` deep. -/
def hearFuel : (fuel : Nat) → Hearer Message
  | 0, _ => none
  | _ + 1, [] => none
  | fuel + 1, b :: bs => hearAfter (hearFuel fuel) (headOf b) bs

/-- The message at the front of these bytes.  No message is deeper than it is long. -/
def hear : Hearer Message := fun bs => hearFuel (bs.length + 1) bs

/-! ### What is meant -/

mutual

/-- What a sender means. -/
def Wire.message : Wire → Message
  | .nil => .nil
  | .boolean b => .boolean b
  | .posFixint n => .integer n.val
  | .negFixint n => .integer (n.val - 32)
  | .uint w n => .integer (n % 256 ^ w.size : Nat)
  | .int w n => .integer (signedOf w.size n)
  | .fixext _ type payload => .ext type payload
  | .ext8 type payload => .ext type payload
  | .string _ str => .string str
  | .array _ items => .array (itemMessages items)
  | .map _ entries => .dictionary (entryMessages entries)

def itemMessages : List Wire → List Message
  | [] => []
  | w :: ws => w.message :: itemMessages ws

def entryMessages : List (Wire × Wire) → List (Message × Message)
  | [] => []
  | (key, value) :: entries => (key.message, value.message) :: entryMessages entries

end

mutual

/-- What a caller of the encoder means; NULL is an empty string. -/
def Tree.message : Tree → Message
  | .nil => .nil
  | .boolean b => .boolean b
  | .integer value => .integer value.toInt
  | .unsigned value => .integer value.toNat
  | .string str => .string (str.getD [])
  | .array items => .array (treeMessages items)
  | .dictionary entries => .dictionary (pairMessages entries)

def treeMessages : List Tree → List Message
  | [] => []
  | t :: ts => t.message :: treeMessages ts

def pairMessages : List (Tree × Tree) → List (Message × Message)
  | [] => []
  | (key, value) :: entries => (key.message, value.message) :: pairMessages entries

end

end TagHighlight
