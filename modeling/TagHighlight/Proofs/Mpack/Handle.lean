/-
Which handles are read right.

On a little-endian host the payload is the number whose lowest byte is the marker and whose
other bytes are the digits, the highest first.  For up to two digits the marker is shifted or
masked away and the digits are swapped.  For four, what is masked away is the marker together
with all digits but the last, and that one comes to stand three places too high.

A payload of three, five or more digits cannot come from Neovim, which writes handles in the
shortest form; so there are four lengths, and one of them goes wrong.
-/
import TagHighlight.Mpack.Handle
import TagHighlight.Proofs.Mpack.Expect
import TagHighlight.Proofs.Mpack.Framing

namespace TagHighlight.Handle

open Bytes

/-! ### One payload length after the other

Each of these is an equation about the digits of a number in base 256.  The number of the host is
taken apart into its bytes, and masking, shifting and swapping are then operations on the list of
bytes.
-/

theorem interpret_one (type b : UInt8) :
    attemptToInterpretExt ⟨type, 1, [b]⟩ = .ok (UInt64.ofNat b.toNat) := by
  have hb : b.toNat < 2 ^ 8 := UInt8.toNat_lt b
  show Except.ok (UInt64.ofNat ((b.toNat + 256 * 0) % 2 ^ 8)) = _
  rw [Nat.mul_zero, Nat.add_zero, Nat.mod_eq_of_lt hb]

theorem interpret_two (type marker b : UInt8) :
    attemptToInterpretExt ⟨type, 2, [marker, b]⟩ = .ok (UInt64.ofNat b.toNat) := by
  have hb : b.toNat < 256 := UInt8.toNat_lt b
  have hlt : ofLE [marker, b] < 256 ^ 2 := ofLE_lt [marker, b]
  have hswap : bswap 2 (ofLE [marker, b]) = ofLE [b, marker] := bswap_ofLE [marker, b]
  show Except.ok (UInt64.ofNat (bswap 2 (ofLE [marker, b] % 2 ^ 16) &&& 0x00FF)) = _
  have hvalue : ofLE [b, marker] % 2 ^ 8 = b.toNat := by
    simp only [ofLE]
    omega
  rw [show 2 ^ 16 = 256 ^ 2 from rfl, Nat.mod_eq_of_lt hlt, hswap,
    show 0x00FF = 2 ^ 8 - 1 from rfl, Nat.and_two_pow_sub_one_eq_mod, hvalue]

theorem interpret_three (type marker high low : UInt8) :
    attemptToInterpretExt ⟨type, 3, [marker, high, low]⟩ =
      .ok (UInt64.ofNat (ofLE [low, high])) := by
  have hm : marker.toNat < 256 := UInt8.toNat_lt marker
  have hlt : ofLE [marker, high, low] < 256 ^ 3 := ofLE_lt [marker, high, low]
  have hshift : ofLE [marker, high, low] >>> 8 = ofLE [high, low] := by
    rw [Nat.shiftRight_eq_div_pow]
    show (marker.toNat + 256 * ofLE [high, low]) / 2 ^ 8 = _
    omega
  have hswap : bswap 2 (ofLE [high, low]) = ofLE [low, high] := bswap_ofLE [high, low]
  show Except.ok (UInt64.ofNat (bswap 2 ((ofLE [marker, high, low] % 2 ^ 32) >>> 8))) = _
  rw [Nat.mod_eq_of_lt (Nat.lt_trans hlt (by decide)), hshift, hswap]

/-- Of four digits only the last comes through, three places too high. -/
theorem interpret_five (type marker b₃ b₂ b₁ b₀ : UInt8) :
    attemptToInterpretExt ⟨type, 5, [marker, b₃, b₂, b₁, b₀]⟩ =
      .ok (UInt64.ofNat (2 ^ 24 * b₀.toNat)) := by
  have hb : b₀.toNat < 2 ^ 32 := Nat.lt_trans (UInt8.toNat_lt b₀) (by decide)
  have hlow : ofLE [marker, b₃, b₂, b₁] < 256 ^ 4 := ofLE_lt [marker, b₃, b₂, b₁]
  have hsplit : ofLE [marker, b₃, b₂, b₁, b₀] = 2 ^ 32 * b₀.toNat + ofLE [marker, b₃, b₂, b₁] := by
    simp only [ofLE]
    omega
  have hmasked : ofLE [marker, b₃, b₂, b₁, b₀] &&& 0xFFFFFFFF00000000 =
      ofLE [0, 0, 0, 0, b₀, 0, 0, 0] := by
    rw [hsplit, show 0xFFFFFFFF00000000 = 2 ^ 32 * (2 ^ 32 - 1) from rfl, and_mask hlow,
      Nat.and_two_pow_sub_one_eq_mod, Nat.mod_eq_of_lt hb]
    simp only [ofLE, UInt8.toNat_zero]
    omega
  have hswap : bswap 8 (ofLE [0, 0, 0, 0, b₀, 0, 0, 0]) = ofLE [0, 0, 0, b₀, 0, 0, 0, 0] :=
    bswap_ofLE [0, 0, 0, 0, b₀, 0, 0, 0]
  have hbranch : attemptToInterpretExt ⟨type, 5, [marker, b₃, b₂, b₁, b₀]⟩ =
      .ok (UInt64.ofNat (bswap 8 (ofLE [marker, b₃, b₂, b₁, b₀] &&& 0xFFFFFFFF00000000))) := rfl
  have hvalue : ofLE [0, 0, 0, b₀, 0, 0, 0, 0] = 2 ^ 24 * b₀.toNat := by
    simp only [ofLE, UInt8.toNat_zero]
    omega
  rw [hbranch, hmasked, hswap, hvalue]

/-! ### The payload of a handle

The shortest form of a number has as many digits as it needs, one, two or four, with a marker in
front unless the number is below 128.  So the length decides which of the lemmas above applies.
-/

theorem beBytes_one (n : Nat) : beBytes 1 n = [UInt8.ofNat n] := rfl

theorem beBytes_two (n : Nat) : beBytes 2 n = [UInt8.ofNat (n / 256), UInt8.ofNat n] := rfl

theorem beBytes_four (n : Nat) :
    beBytes 4 n = [UInt8.ofNat (n / 256 / 256 / 256), UInt8.ofNat (n / 256 / 256),
      UInt8.ofNat (n / 256), UInt8.ofNat n] := rfl

/-- What the payload of a handle is taken for. -/
theorem interpret_minimal (type : UInt8) (n : Nat) :
    attemptToInterpretExt ⟨type, UInt8.ofNat (minimalUnsigned n).length, minimalUnsigned n⟩ =
      .ok (UInt64.ofNat (if n < 2 ^ 16 then n else 2 ^ 24 * (n % 256))) := by
  unfold minimalUnsigned
  by_cases h7 : n < 2 ^ 7
  · rw [if_pos h7, if_pos (by omega)]
    refine (interpret_one type (UInt8.ofNat n)).trans ?_
    rw [UInt8.toNat_ofNat', Nat.mod_eq_of_lt (by omega)]
  rw [if_neg h7]
  by_cases h8 : n < 2 ^ 8
  · rw [if_pos h8, if_pos (by omega), beBytes_one]
    refine (interpret_two type _ (UInt8.ofNat n)).trans ?_
    rw [UInt8.toNat_ofNat', Nat.mod_eq_of_lt h8]
  rw [if_neg h8]
  by_cases h16 : n < 2 ^ 16
  · rw [if_pos h16, if_pos h16, beBytes_two]
    refine (interpret_three type _ _ _).trans ?_
    have hvalue : ofLE [UInt8.ofNat n, UInt8.ofNat (n / 256)] = n := by
      simp only [ofLE, UInt8.toNat_ofNat']
      omega
    rw [hvalue]
  · rw [if_neg h16, if_neg h16, beBytes_four]
    refine (interpret_five type _ _ _ _ _).trans ?_
    rw [UInt8.toNat_ofNat']

/-! ### The object

The bytes are read as one object, whatever form the extension has, and nothing more of the stream
is.  What `mpack_expect` makes of it is a function of the bytes, so that they yield the handle
means that they yield no other number.
-/

theorem decodeExt_append {mask : Mask} {type : UInt8} {payload bytes : BString}
    (hext : IsExt type payload mask.type bytes) (hlen : payload.length ≤ 8) (rest : BString) :
    decodeExt mask (bytes ++ rest) =
      .ok (.ext ⟨type, UInt8.ofNat payload.length, payload⟩, rest) := by
  have hread := readExt_append type payload rest
  generalize hform : mask.type = form at hext
  cases hext with
  | ext8 h => exact decodeExt_ext8 hform type hlen rest
  | fixext1 h | fixext2 h | fixext4 h | fixext8 h =>
      rw [← hread, h, decodeExt, hform]

theorem minimalUnsigned_length (n : Nat) : (minimalUnsigned n).length ≤ 8 := by
  have hform : ∀ (w : UInt8) (k : Nat), (w :: beBytes k n).length = k + 1 := by
    intro w k
    rw [List.length_cons, beBytes, List.length_reverse, leBytes_length]
  unfold minimalUnsigned
  by_cases h7 : n < 2 ^ 7
  · rw [if_pos h7, List.length_singleton]
    decide
  by_cases h8 : n < 2 ^ 8
  · rw [if_neg h7, if_pos h8, hform]
    decide
  by_cases h16 : n < 2 ^ 16
  · rw [if_neg h7, if_neg h8, if_pos h16, hform]
    decide
  · rw [if_neg h7, if_neg h8, if_neg h16, hform]
    decide

/-- What comes out for a handle. -/
theorem yieldsNum_interpreted {n : Nat} {mask : Mask} {type : UInt8} {bytes : BString}
    (hext : IsExt type (minimalUnsigned n) mask.type bytes) :
    YieldsNum mask bytes (if n < 2 ^ 16 then n else 2 ^ 24 * (n % 256)) := by
  intro rest alternatives
  refine ⟨_, decodeExt_append hext (minimalUnsigned_length n) rest, mpackExpect_taken ?_⟩
  rw [Expect.branch, interpret_minimal]
  rfl

/-- The bytes yield one number only. -/
theorem YieldsNum.unique {n m : Nat} {mask : Mask} {bytes : BString} (hn : YieldsNum mask bytes n)
    (hm : YieldsNum mask bytes m) : UInt64.ofNat n = UInt64.ofNat m := by
  obtain ⟨obj, hobj, hret⟩ := hn [] 0
  obtain ⟨obj', hobj', hret'⟩ := hm [] 0
  rw [hobj] at hobj'
  rw [(Prod.mk.inj (Except.ok.inj hobj')).1, hret'] at hret
  simpa using hret.symm

/-- **A handle is decoded as itself exactly if it is below 2^16.** -/
theorem yieldsNum_iff {n : Nat} {mask : Mask} {type : UInt8} {bytes : BString} (hn : n < 2 ^ 32)
    (hext : IsExt type (minimalUnsigned n) mask.type bytes) :
    YieldsNum mask bytes n ↔ n < 2 ^ 16 := by
  have hyields := yieldsNum_interpreted hext
  constructor
  · intro h
    by_contra hlarge
    rw [if_neg hlarge] at hyields
    have heq := congrArg UInt64.toNat (h.unique hyields)
    rw [UInt64.toNat_ofNat', UInt64.toNat_ofNat'] at heq
    omega
  · intro hsmall
    rwa [if_pos hsmall] at hyields

/-- `M_EXT_8`. -/
def ext8Mask : Mask := ⟨.ext, .ext8, false, 0xC7, 0, "M_EXT_8"⟩

/-- Buffer 1000, as an object of three bytes. -/
theorem yieldsNum_iff_buffer : YieldsNum ext8Mask [3, 0, 0xCD, 0x03, 0xE8] 1000 := by
  have hext : IsExt 0 (minimalUnsigned 1000) .ext8 [3, 0, 0xCD, 0x03, 0xE8] :=
    .ext8 (by decide)
  exact (yieldsNum_iff (by decide) hext).mpr (by decide)

/-- Buffer 65536 is decoded as 0. -/
theorem yieldsNum_large :
    IsExt 0 (minimalUnsigned 65536) ext8Mask.type [5, 0, 0xCE, 0, 1, 0, 0] ∧
      YieldsNum ext8Mask [5, 0, 0xCE, 0, 1, 0, 0] 0 ∧
      ¬YieldsNum ext8Mask [5, 0, 0xCE, 0, 1, 0, 0] 65536 := by
  have hext : IsExt 0 (minimalUnsigned 65536) ext8Mask.type [5, 0, 0xCE, 0, 1, 0, 0] :=
    IsExt.ext8 (by decide)
  have hzero : YieldsNum ext8Mask [5, 0, 0xCE, 0, 1, 0, 0] 0 := yieldsNum_interpreted hext
  exact ⟨hext, hzero, fun h => absurd (hzero.unique h) (by decide)⟩

end TagHighlight.Handle
