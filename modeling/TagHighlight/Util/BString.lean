/-
Byte strings, as the `bstring` library is used by the program.

A `bstring` has `slen` bytes of text in a buffer of `mlen` bytes.  Where only the text
matters it is the list of its bytes.  A string that is written to byte by byte also needs
its capacity: `Packed` keeps it, together with a note of whether a write ever went past it.
How much room `b_alloc` and `b_concat` make is up to the library, so that much is a
parameter.

Neither the note nor the 32 bits of `slen` stop a write here, so that what goes wrong can be
said to go wrong.  A packed string says something of the program only if it is `Sound`.
-/
import Mathlib.Algebra.Group.Nat.Defs
import Mathlib.Data.List.Basic

namespace TagHighlight

/-- A byte string. -/
abbrev BString := List UInt8

/-- `bt_init`: the bytes of a literal. -/
def bt (s : String) : BString := s.toList.map fun c => UInt8.ofNat c.toNat

/-- The capacities the string library chooses. -/
structure BStringLib where
  /-- `b_alloc (b, n)` on a buffer of `mlen` bytes. -/
  alloc : (mlen n : Nat) → Nat
  /-- `b_concat`, when the text grows to `slen` bytes. -/
  concat : (mlen slen : Nat) → Nat

/-- A string that bytes are written to directly, `D[L++] = …`. -/
structure Packed where
  data : BString
  mlen : Nat
  /-- Some byte was written outside the buffer. -/
  overrun : Bool
  deriving Repr

namespace Packed

/-- No byte went outside the buffer, and `slen` can hold the length. -/
structure Sound (p : Packed) : Prop where
  inside : p.overrun = false
  short : p.data.length < 2 ^ 32

/-- `D[L++] = b`. -/
def put (p : Packed) (b : UInt8) : Packed :=
  { p with data := p.data ++ [b], overrun := p.overrun || decide (p.mlen ≤ p.data.length) }

/-- `memcpy (&D[L], …, n); L += n`. -/
def putBytes (p : Packed) (bs : List UInt8) : Packed :=
  { p with
      data := p.data ++ bs
      overrun := p.overrun || decide (p.mlen < p.data.length + bs.length) }

/-- `b_alloc`. -/
def alloc (lib : BStringLib) (p : Packed) (n : Nat) : Packed :=
  { p with mlen := lib.alloc p.mlen n }

/-- `b_concat`. -/
def concat (lib : BStringLib) (p : Packed) (s : BString) : Packed :=
  { p with data := p.data ++ s, mlen := lib.concat p.mlen (p.data.length + s.length) }

@[simp] theorem put_data (p : Packed) (b : UInt8) : (p.put b).data = p.data ++ [b] := rfl

@[simp] theorem putBytes_data (p : Packed) (bs : List UInt8) :
    (p.putBytes bs).data = p.data ++ bs := rfl

@[simp] theorem alloc_data (lib : BStringLib) (p : Packed) (n : Nat) :
    (p.alloc lib n).data = p.data := rfl

@[simp] theorem concat_data (lib : BStringLib) (p : Packed) (s : BString) :
    (p.concat lib s).data = p.data ++ s := rfl

end Packed

end TagHighlight
