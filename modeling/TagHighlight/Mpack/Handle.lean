/-
The handles of Neovim: buffers, windows and tab pages.

A handle is an extension object whose payload is itself a MessagePack number, in the shortest
form for it.  The program reads the payload as one number of the host's, and
`attempt_to_interpret_ext` picks the digits out of it by the length.
-/
import TagHighlight.Mpack.Expect
import TagHighlight.Mpack.Wire

namespace TagHighlight.Handle

open Bytes

/-- The shortest form of an unsigned number below 2^32. -/
def minimalUnsigned (n : Nat) : BString :=
  if n < 2 ^ 7 then [UInt8.ofNat n]
  else if n < 2 ^ 8 then Width.w8.uintCode :: beBytes 1 n
  else if n < 2 ^ 16 then Width.w16.uintCode :: beBytes 2 n
  else Width.w32.uintCode :: beBytes 4 n

/-- An extension object with this type and payload, from behind its format byte on. -/
inductive IsExt (type : UInt8) (payload : BString) : PackType → BString → Prop where
  | fixext1 (h : payload.length = 1) : IsExt type payload .fixext1 (type :: payload)
  | fixext2 (h : payload.length = 2) : IsExt type payload .fixext2 (type :: payload)
  | fixext4 (h : payload.length = 4) : IsExt type payload .fixext4 (type :: payload)
  | fixext8 (h : payload.length = 8) : IsExt type payload .fixext8 (type :: payload)
  | ext8 (h : payload.length < 2 ^ 8) :
      IsExt type payload .ext8 (UInt8.ofNat payload.length :: type :: payload)

/-- `decode_ext` and then `mpack_expect` make this number of the bytes, and read no more. -/
def YieldsNum (mask : Mask) (bytes : BString) (n : Nat) : Prop :=
  ∀ (rest : BString) (alternatives : UInt32), ∃ obj,
    decodeExt mask (bytes ++ rest) = .ok (obj, rest) ∧
    mpackExpect (some obj) Expect.num.flag alternatives = some (.ok (.num (UInt64.ofNat n)))

end TagHighlight.Handle
