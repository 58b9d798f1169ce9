/-
Sequences of encoder calls, and the room they need.

An encoder writes its format byte and the length or number after it directly into the
buffer; only the text of a string goes through the library.  `sanity_check` is there to
make room first.  It asks for a fixed number of bytes, compares them with what is left by
an unsigned subtraction, and doubles the buffer at most once.

`EncodeOp.Fits` says when that is enough.  The calls are a transition system over the
packed string, which notes when a byte has gone outside the buffer.

A tree is encoded by such a sequence too, so it comes through unharmed only if each of its
calls has room: `Tree.HasRoom`.
-/
import Mathlib.Algebra.GroupWithZero.Nat
import TagHighlight.Mpack.Encode
import TagHighlight.Lib.TransitionSystem

namespace TagHighlight

/-- A call of the encoder. -/
inductive EncodeOp where
  | array (len : UInt32)
  | dictionary (len : UInt32)
  | integer (value : Int64)
  | unsigned (value : UInt64)
  | string (str : Option BString)
  | boolean (value : Bool)
  | nil
  deriving DecidableEq, Repr

/--
The call on `root`.  A text of `2 ^ 32` bytes has a length that `slen` cannot hold:
`b_concat` refuses to make it and leaves the string as it was.
-/
def EncodeOp.apply (lib : BStringLib) (root : Packed) : EncodeOp → Except Fault Packed
  | .array len => mpackEncodeArray lib root len.toNat
  | .dictionary len => mpackEncodeDictionary lib root len.toNat
  | .integer value => mpackEncodeInteger lib root value
  | .unsigned value => mpackEncodeUnsigned lib root value
  | .string str =>
      let len := (str.getD []).length
      let header := stringHeader (sanityCheck lib root (len + 5)) len
      if header.data.length + len < 2 ^ 32 then mpackEncodeString lib root str else .ok header
  | .boolean value => mpackEncodeBoolean lib root value
  | .nil => mpackEncodeNil lib root

/-- Calls one after the other, on a new string. -/
def encodeSystem (lib : BStringLib) : TransitionSystem Packed EncodeOp where
  init := mpackMakeNew
  step root op := (op.apply lib root).toOption

/-- What the library promises for buffers whose size fits 32 bits. -/
structure BStringLib.Grows (lib : BStringLib) : Prop where
  /-- `b_alloc` gives no less than what is asked for. -/
  alloc_ge : ∀ mlen n, n ≤ lib.alloc mlen n
  /-- It leaves a buffer alone that is large enough already. -/
  alloc_large : ∀ mlen n, n ≤ mlen → lib.alloc mlen n = mlen
  alloc_lt : ∀ mlen n, mlen < 2 ^ 32 → n < 2 ^ 32 → lib.alloc mlen n < 2 ^ 32
  /-- `b_concat` has room for the text it makes, and never shrinks a buffer. -/
  concat_ge : ∀ mlen slen, slen ≤ lib.concat mlen slen ∧ mlen ≤ lib.concat mlen slen
  concat_lt : ∀ mlen slen, mlen < 2 ^ 32 → slen < 2 ^ 32 → lib.concat mlen slen < 2 ^ 32

/-! ### The room a call needs -/

/-- The bytes of a number that needs `bits`, with its format byte. -/
def uintWidth (bits : Nat) : Nat :=
  if bits ≤ 127 then 1 else if bits < 255 then 2 else if bits ≤ 65535 then 3
  else if bits ≤ 4294967295 then 5 else 9

/-- The bytes of a header of an array or a dictionary; none if it is refused. -/
def seqWidth (len : Nat) : Nat :=
  if len < 16 then 1 else if len < 65535 then 3 else if len < 4294967295 then 5 else 0

/-- The bytes a call writes directly. -/
def EncodeOp.direct : EncodeOp → Nat
  | .array len => seqWidth len.toNat
  | .dictionary len => seqWidth len.toNat
  | .integer value =>
      if 0 ≤ value.toInt then uintWidth value.toInt.toNat
      else if value.toInt ≥ -32 then 1 else if value.toInt > -128 then 2
      else if value.toInt ≥ -32768 then 3 else if value.toInt ≥ -2147483648 then 5 else 9
  | .unsigned value => uintWidth value.toNat
  | .string str =>
      let len := (str.getD []).length
      if len < 32 then 1 else if len < 255 then 2 else if len < 65535 then 3 else 5
  | .boolean _ => 1
  | .nil => 1

/-- The bytes it asks `sanity_check` for, an unsigned number of 32 bits. -/
def EncodeOp.check : EncodeOp → Nat
  | .array _ | .dictionary _ => 64
  | .integer _ | .unsigned _ => 15
  | .string str => ((str.getD []).length + 5) % 2 ^ 32
  | .boolean _ | .nil => 2

/--
There is room for the bytes of a call: either as the buffer is, or because `sanity_check`
doubles it.  It does so when what it is asked for is no more than the whole buffer but more
than what is left of it, and the doubled size fits 32 bits.
-/
def EncodeOp.Fits (root : Packed) (op : EncodeOp) : Prop :=
  root.data.length + op.direct ≤ root.mlen ∨
    (op.check ≤ root.mlen ∧ root.mlen < root.data.length + op.check ∧ 2 * root.mlen < 2 ^ 32)

instance (root : Packed) (op : EncodeOp) : Decidable (op.Fits root) :=
  inferInstanceAs (Decidable (_ ∨ _))

/-! ### The calls for a tree -/

/-- The bytes a call adds in all: those it writes directly, and the text of a string. -/
def EncodeOp.size : EncodeOp → Nat
  | .string str => (EncodeOp.string str).direct + (str.getD []).length
  | op => op.direct

mutual

/-- The calls for a tree, in pre-order. -/
def Tree.calls : Tree → List EncodeOp
  | .nil => [.nil]
  | .boolean value => [.boolean value]
  | .integer value => [.integer value]
  | .unsigned value => [.unsigned value]
  | .string str => [.string str]
  | .array items => .array (UInt32.ofNat items.length) :: itemCalls items
  | .dictionary entries => .dictionary (UInt32.ofNat entries.length) :: entryCalls entries

def itemCalls : List Tree → List EncodeOp
  | [] => []
  | t :: ts => t.calls ++ itemCalls ts

def entryCalls : List (Tree × Tree) → List EncodeOp
  | [] => []
  | (k, v) :: es => k.calls ++ v.calls ++ entryCalls es

end

/-- The bytes of these calls. -/
def encodedSize (ops : List EncodeOp) : Nat := (ops.map EncodeOp.size).sum

/-- A tree can be encoded: the encoder has forms for its sizes, room at every call, and bits for
the length of the whole. -/
structure Tree.HasRoom (lib : BStringLib) (t : Tree) : Prop where
  sized : t.Sized
  fits : (encodeSystem lib).Meets (fun root op => op.Fits root) (encodeSystem lib).init t.calls
  short : encodedSize t.calls < 2 ^ 32

end TagHighlight
