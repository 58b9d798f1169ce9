/-
The encoder, `mpack/encode.c`.

Every function appends to the packed string of `root`, after `sanity_check` has made room.
`mpack_make_new` is called for a root that keeps no second copy of the object in memory
(`encode = false`); the code for that copy, which only debug builds use, is left out.

`slen` is not cut to 32 bits: `b_concat` appends to a string of any length here, and a string
that has become too long is not `Sound`.
-/
import TagHighlight.Mpack.Types
import TagHighlight.Lib.Fault

namespace TagHighlight

open Bytes

/-- `mpack_make_new`. -/
def mpackMakeNew : Packed := { data := [], mlen := 128, overrun := false }

/-- `sanity_check`: the subtraction is one of unsigned 32-bit numbers. -/
def sanityCheck (lib : BStringLib) (root : Packed) (check : Nat) : Packed :=
  if root.data.length > (root.mlen + 2 ^ 32 - check % 2 ^ 32) % 2 ^ 32 then
    root.alloc lib (root.mlen * 2 % 2 ^ 32)
  else root

/-- `encode_uint16`, `encode_uint32` and `encode_uint64`: swap the bytes and copy them out. -/
def encodeUint (root : Packed) (width value : Nat) : Packed :=
  root.putBytes (leBytes width (bswap width value))

def mpackEncodeArray (lib : BStringLib) (root : Packed) (len : Nat) : Except Fault Packed :=
  let root := sanityCheck lib root 64
  if len < 16 then .ok (root.put (0x90 ||| UInt8.ofNat len))
  else if len < 65535 then .ok (encodeUint (root.put 0xDC) 2 len)
  else if len < 4294967295 then .ok (encodeUint (root.put 0xDD) 4 len)
  else .error (.errx 1 "Array is too big!")

def mpackEncodeDictionary (lib : BStringLib) (root : Packed) (len : Nat) : Except Fault Packed :=
  let root := sanityCheck lib root 64
  if len < 16 then .ok (root.put (0x80 ||| UInt8.ofNat len))
  else if len < 65535 then .ok (encodeUint (root.put 0xDE) 2 len)
  else if len < 4294967295 then .ok (encodeUint (root.put 0xDF) 4 len)
  else .error (.errx 1 "Dictionary is too big!")

def mpackEncodeInteger (lib : BStringLib) (root : Packed) (value : Int64) : Except Fault Packed :=
  let root := sanityCheck lib root 15
  let v := value.toInt
  let bits := value.toUInt64.toNat
  if v ≥ 0 then
    if v ≤ 127 then .ok (root.put (UInt8.ofNat bits))
    else if v < 255 then .ok ((root.put 0xCC).put (UInt8.ofNat bits))
    else if v ≤ 65535 then .ok (encodeUint (root.put 0xCD) 2 bits)
    else if v ≤ 4294967295 then .ok (encodeUint (root.put 0xCE) 4 bits)
    else if v ≤ 9223372036854775807 then .ok (encodeUint (root.put 0xCF) 8 bits)
    else .error (.errx 1 "Value too high!")
  else
    if v ≥ -32 then .ok (root.put (UInt8.ofNat bits))
    else if v > -128 then .ok ((root.put 0xD0).put (UInt8.ofNat bits))
    else if v ≥ -32768 then .ok (encodeUint (root.put 0xD1) 2 bits)
    else if v ≥ -2147483648 then .ok (encodeUint (root.put 0xD2) 4 bits)
    else if v ≥ -9223372036854775808 then .ok (encodeUint (root.put 0xD3) 8 bits)
    else .error (.errx 1 "Value too low!")

def mpackEncodeUnsigned (lib : BStringLib) (root : Packed) (value : UInt64) : Except Fault Packed :=
  let root := sanityCheck lib root 15
  let bits := value.toNat
  if bits ≤ 127 then .ok (root.put (UInt8.ofNat bits))
  else if bits < 255 then .ok ((root.put 0xCC).put (UInt8.ofNat bits))
  else if bits ≤ 65535 then .ok (encodeUint (root.put 0xCD) 2 bits)
  else if bits ≤ 4294967295 then .ok (encodeUint (root.put 0xCE) 4 bits)
  else .ok (encodeUint (root.put 0xCF) 8 bits)

/-- The header of a string of `slen` bytes. -/
def stringHeader (root : Packed) (slen : Nat) : Packed :=
  if slen < 32 then root.put (0xA0 ||| UInt8.ofNat slen)
  else if slen < 255 then (root.put 0xD9).put (UInt8.ofNat slen)
  else if slen < 65535 then encodeUint (root.put 0xDA) 2 slen
  else encodeUint (root.put 0xDB) 4 slen

/-- `mpack_encode_string`; NULL is encoded as an empty string. -/
def mpackEncodeString (lib : BStringLib) (root : Packed) (string : Option BString) :
    Except Fault Packed :=
  let string := string.getD []
  let root := sanityCheck lib root (string.length + 5)
  .ok ((stringHeader root string.length).concat lib string)

def mpackEncodeBoolean (lib : BStringLib) (root : Packed) (value : Bool) : Except Fault Packed :=
  let root := sanityCheck lib root 2
  .ok (root.put (if value then 0xC3 else 0xC2))

def mpackEncodeNil (lib : BStringLib) (root : Packed) : Except Fault Packed :=
  let root := sanityCheck lib root 2
  .ok (root.put 0xC0)

/-! ### Trees -/

/--
What a caller of the encoder has in mind: each node is one call of an encoding function.
-/
inductive Tree where
  | nil
  | boolean (value : Bool)
  | integer (value : Int64)
  | unsigned (value : UInt64)
  | string (str : Option BString)
  | array (items : List Tree)
  | dictionary (entries : List (Tree × Tree))

mutual

/-- The calls for a tree, in pre-order. -/
def Tree.emit (lib : BStringLib) : Tree → Packed → Except Fault Packed
  | .nil, root => mpackEncodeNil lib root
  | .boolean value, root => mpackEncodeBoolean lib root value
  | .integer value, root => mpackEncodeInteger lib root value
  | .unsigned value, root => mpackEncodeUnsigned lib root value
  | .string str, root => mpackEncodeString lib root str
  | .array items, root => do emitItems lib items (← mpackEncodeArray lib root items.length)
  | .dictionary entries, root => do
      emitEntries lib entries (← mpackEncodeDictionary lib root entries.length)

def emitItems (lib : BStringLib) : List Tree → Packed → Except Fault Packed
  | [], root => .ok root
  | t :: ts, root => do emitItems lib ts (← t.emit lib root)

def emitEntries (lib : BStringLib) : List (Tree × Tree) → Packed → Except Fault Packed
  | [], root => .ok root
  | (k, v) :: es, root => do emitEntries lib es (← v.emit lib (← k.emit lib root))

end

mutual

/-- Strings and containers have sizes that the encoder has forms for. -/
def Tree.Sized : Tree → Prop
  | .nil | .boolean _ | .integer _ | .unsigned _ => True
  | .string str => (str.getD []).length < 4294967295
  | .array items => items.length < 4294967295 ∧ SizedItems items
  | .dictionary entries => entries.length < 4294967295 ∧ SizedEntries entries

def SizedItems : List Tree → Prop
  | [] => True
  | t :: ts => t.Sized ∧ SizedItems ts

def SizedEntries : List (Tree × Tree) → Prop
  | [] => True
  | (key, value) :: entries => key.Sized ∧ value.Sized ∧ SizedEntries entries

end

end TagHighlight
