/-
Which forms of an integer are decoded to the same 64 bits.

The unsigned forms, the fixints and the 64-bit signed form give the number as it is.  For
the shorter signed forms `decode_integer` sets all bits above those it has read.  That is
right for a negative number only, and with one byte not even for that, since the byte itself
is forgotten.  `received` is what each form is decoded to, and the equivalence follows by
comparing it with the number's own bits.

None of this depends on how the sender chooses.  A peer that writes every number in eight bytes is
as much within the format as one that takes the shortest form, so the condition speaks of two
forms of one integer, either of which may be the one that was sent.
-/
import TagHighlight.Mpack.IntForm
import TagHighlight.Proofs.Mpack.Integer

namespace TagHighlight

open Bytes

/-! ### Bits of an integer

Two's complement of some width is the remainder of the integer by the number of patterns.  An
integer that is not negative is its own remainder; of a negative one the remainder is short of the
modulus by as much as it is below zero.
-/

theorem bitsOf_nonneg (size : Nat) {v : Int} (h : 0 ≤ v) (hlt : v < (256 ^ size : Nat)) :
    (bitsOf size v : Int) = v := by
  rw [bitsOf, Int.emod_eq_of_lt h hlt, Int.toNat_of_nonneg h]

theorem bitsOf_neg (size : Nat) {v : Int} (h : v < 0) (hle : -(256 ^ size : Nat) ≤ v) :
    (bitsOf size v : Int) = v + (256 ^ size : Nat) := by
  rw [bitsOf, ← Int.add_emod_right, Int.emod_eq_of_lt (by omega) (by omega)]
  exact Int.toNat_of_nonneg (by omega)

theorem bitsOf_lt (size : Nat) (v : Int) : bitsOf size v < 256 ^ size := by
  have hpos : 0 < 256 ^ size := Nat.pow_pos (by decide)
  have hlt := Int.emod_lt_of_pos v (show (0 : Int) < (256 ^ size : Nat) by omega)
  have hnonneg := Int.emod_nonneg v (show ((256 ^ size : Nat) : Int) ≠ 0 by omega)
  rw [bitsOf]
  omega

theorem bitsOf_mod (size : Nat) (v : Int) : bitsOf size v % 256 ^ size = bitsOf size v :=
  Nat.mod_eq_of_lt (bitsOf_lt size v)

/-! ### What each form is decoded to

The bits above those that were read are set by an `or`, which adds them, since they are zero in
the number that was read.  What is added is the difference between the moduli of the two widths,
and this is also how the patterns of a negative number differ.
-/

namespace IntForm

/-- The 64 bits that come out. -/
def received (v : Int) : IntForm → Nat
  | int .w8 => 2 ^ 64 - 2 ^ 8
  | int .w16 => bitsOf 2 v + (2 ^ 64 - 2 ^ 16)
  | int .w32 => bitsOf 4 v + (2 ^ 64 - 2 ^ 32)
  | _ => bitsOf 8 v

/-- A number that is not negative has the same bits in every width that it fits in. -/
theorem bitsOf_eq {size : Nat} {v : Int} (h : 0 ≤ v) (hlt : v < (256 ^ size : Nat))
    (h8 : size ≤ 8) : bitsOf size v = bitsOf 8 v := by
  have hle : 256 ^ size ≤ 256 ^ 8 := Nat.pow_le_pow_right (by decide) h8
  have hsize := bitsOf_nonneg size h hlt
  have height := bitsOf_nonneg 8 h (by omega)
  omega

theorem reads_uint (w : Width) {v : Int} (h : (uint w).Holds v) :
    Reads ((uint w).bytes v) (.unsigned (UInt64.ofNat ((uint w).received v))) := by
  obtain ⟨hnonneg, hlt⟩ := h
  have hsame : bitsOf w.size v = bitsOf 8 v :=
    bitsOf_eq hnonneg hlt (by cases w <;> decide)
  show Reads (w.uintCode :: beBytes w.size (bitsOf w.size v)) (.unsigned (UInt64.ofNat (bitsOf 8 v)))
  rw [← hsame]
  exact reads_uint_of_lt w (bitsOf_lt w.size v)

/-- What is set above the bits that were read is added to them. -/
theorem receivedInt_bitsOf (w : Width) (v : Int) :
    receivedInt w (bitsOf w.size v) = UInt64.ofNat ((int w).received v) := by
  cases w with
  | w8 => rfl
  | w16 =>
    rw [receivedInt, Width.size, bitsOf_mod, show 0xFFFFFFFFFFFF0000 = 2 ^ 16 * 281474976710655 from rfl,
      or_mask (show bitsOf 2 v < 2 ^ 16 from bitsOf_lt 2 v)]
    rfl
  | w32 =>
    rw [receivedInt, Width.size, bitsOf_mod, show 0xFFFFFFFF00000000 = 2 ^ 32 * 4294967295 from rfl,
      or_mask (show bitsOf 4 v < 2 ^ 32 from bitsOf_lt 4 v)]
    rfl
  | w64 =>
    rw [receivedInt, Width.size, bitsOf_mod]
    rfl

theorem reads_int (w : Width) (v : Int) :
    Reads ((int w).bytes v) (.signed (UInt64.ofNat ((int w).received v))) := by
  rw [← receivedInt_bitsOf]
  exact TagHighlight.reads_int w (bitsOf w.size v)

/-- Every form is decoded, to the bits that `received` says. -/
theorem reads (form : IntForm) {v : Int} (h : form.Holds v) :
    ∃ obj, Reads (form.bytes v) obj ∧ obj.num? = some (UInt64.ofNat (form.received v)) := by
  cases form with
  | posFixint =>
    obtain ⟨hnonneg, hlt⟩ := h
    have hbits : (bitsOf 1 v : Int) = v := bitsOf_nonneg 1 hnonneg (show v < 256 by omega)
    have hsame : bitsOf 1 v = bitsOf 8 v := bitsOf_eq hnonneg (show v < 256 by omega) (by decide)
    refine ⟨_, reads_posInt (by omega), ?_⟩
    rw [Obj.num?, hsame, received]
    all_goals simp
  | negFixint =>
    obtain ⟨hge, hneg⟩ := h
    have hbits : (bitsOf 1 v : Int) = v + 256 := bitsOf_neg 1 hneg (show -256 ≤ v by omega)
    have hwide : (bitsOf 8 v : Int) = v + 18446744073709551616 :=
      bitsOf_neg 8 hneg (show -18446744073709551616 ≤ v by omega)
    obtain ⟨n, hn⟩ : ∃ n, bitsOf 1 v = n + 224 := ⟨bitsOf 1 v - 224, by omega⟩
    have hread := reads_negInt (n := n) (by omega)
    rw [← hn, show 0xFFFFFFFFFFFFFFE0 = 2 ^ 5 * 576460752303423487 from rfl,
      or_mask (show n < 2 ^ 5 by omega)] at hread
    refine ⟨_, hread, ?_⟩
    have hvalue : n + 2 ^ 5 * 576460752303423487 = bitsOf 8 v := by omega
    rw [Obj.num?, hvalue, received]
    all_goals simp
  | uint w => exact ⟨_, reads_uint w h, rfl⟩
  | int w => exact ⟨_, reads_int w v, rfl⟩

theorem received_lt (form : IntForm) (v : Int) : form.received v < 2 ^ 64 := by
  have h2 : bitsOf 2 v < 2 ^ 16 := bitsOf_lt 2 v
  have h4 : bitsOf 4 v < 2 ^ 32 := bitsOf_lt 4 v
  have h8 : bitsOf 8 v < 2 ^ 64 := bitsOf_lt 8 v
  unfold received
  split <;> omega

theorem received_int8_ne {v : Int} (h : (int .w8).Holds v) :
    (int .w8).received v ≠ bitsOf 8 v := by
  obtain ⟨hge, hlt⟩ : -128 ≤ v ∧ v < 128 := h
  show 2 ^ 64 - 2 ^ 8 ≠ bitsOf 8 v
  by_cases hneg : v < 0
  · have hbits : (bitsOf 8 v : Int) = v + 18446744073709551616 :=
      bitsOf_neg 8 hneg (show -18446744073709551616 ≤ v by omega)
    omega
  · have hbits : (bitsOf 8 v : Int) = v :=
      bitsOf_nonneg 8 (by omega) (show v < 18446744073709551616 by omega)
    omega

/-- Setting the upper bits is right for the negative numbers. -/
theorem upperBits_iff (size : Nat) {v : Int} (hsize : 256 ^ size < 256 ^ 8)
    (hge : -(256 ^ size / 2 : Nat) ≤ v) (hlt : v < (256 ^ size / 2 : Nat)) :
    bitsOf size v + (2 ^ 64 - 256 ^ size) = bitsOf 8 v ↔ ¬0 ≤ v := by
  have hwide : 256 ^ 8 = 2 ^ 64 := rfl
  by_cases hneg : v < 0
  · have hbits := bitsOf_neg size hneg (by omega)
    have hbits8 := bitsOf_neg 8 hneg (by omega)
    omega
  · have hbits := bitsOf_nonneg size (v := v) (by omega) (by omega)
    have hbits8 := bitsOf_nonneg 8 (v := v) (by omega) (by omega)
    omega

/-- What comes out is the number exactly where the upper bits are not spoiled. -/
theorem received_eq_iff (form : IntForm) {v : Int} (h : form.Holds v) :
    form.received v = bitsOf 8 v ↔ ¬form.Spoils v := by
  cases form with
  | posFixint => exact iff_of_true rfl not_false
  | negFixint => exact iff_of_true rfl not_false
  | uint w => exact iff_of_true rfl not_false
  | int w =>
    cases w with
    | w8 => exact iff_of_false (received_int8_ne h) (not_not_intro trivial)
    | w16 => exact upperBits_iff 2 (by decide) h.1 h.2
    | w32 => exact upperBits_iff 4 (by decide) h.1 h.2
    | w64 => exact iff_of_true rfl not_false

end IntForm

/-! ### The number that comes out

What comes out of a form is one number, so it is enough to compare it with the integer.  It has
the integer's 64 bits exactly if the bits that were set belong there, which is the condition, once
for each of the two forms.
-/

/-- A form is decoded to just one number. -/
theorem DecodesTo.unique {bs : BString} {num num' : UInt64} (h : DecodesTo bs num)
    (h' : DecodesTo bs num') : num = num' := by
  obtain ⟨obj, hdec, hnum⟩ := h []
  obtain ⟨obj', hdec', hnum'⟩ := h' []
  rw [hdec, Except.ok.injEq, Prod.mk.injEq] at hdec'
  rw [← hdec'.1, hnum] at hnum'
  exact Option.some.inj hnum'

namespace IntForm

theorem decodesTo_received (form : IntForm) {v : Int} (h : form.Holds v) :
    DecodesTo (form.bytes v) (UInt64.ofNat (form.received v)) := by
  intro rest
  obtain ⟨obj, hread, hnum⟩ := form.reads h
  exact ⟨obj, hread.doDecode rest, hnum⟩

theorem decodesTo_pattern_iff (form : IntForm) {v : Int} (h : form.Holds v) :
    DecodesTo (form.bytes v) (pattern v) ↔ ¬form.Spoils v := by
  rw [← form.received_eq_iff h]
  constructor
  · intro hdec
    have heq : UInt64.ofNat (form.received v) = UInt64.ofNat (bitsOf 8 v) :=
      (form.decodesTo_received h).unique hdec
    have hnat := congrArg UInt64.toNat heq
    rw [UInt64.toNat_ofNat', UInt64.toNat_ofNat', Nat.mod_eq_of_lt (form.received_lt v)] at hnat
    exact hnat.trans (bitsOf_mod 8 v)
  · intro heq
    rw [pattern, ← heq]
    exact form.decodesTo_received h

/--
**Width independence.**  Two forms of an integer are both decoded to its 64 bits exactly if
neither is the signed form of one byte, or of two or four bytes with a number that is not
negative.
-/
theorem widthIndependent_iff (v : Int) (f g : IntForm) (hf : f.Holds v) (hg : g.Holds v) :
    DecodesTo (f.bytes v) (pattern v) ∧ DecodesTo (g.bytes v) (pattern v) ↔
      ¬f.Spoils v ∧ ¬g.Spoils v := by
  rw [f.decodesTo_pattern_iff hf, g.decodesTo_pattern_iff hg]

/-- -300 in two and in eight bytes, `D1 FE D4` and `D3 FF FF FF FF FF FF FE D4`. -/
theorem widthIndependent_minusThreeHundred :
    DecodesTo ((int .w16).bytes (-300)) (pattern (-300)) ∧
      DecodesTo ((int .w64).bytes (-300)) (pattern (-300)) := by
  have hnegative : ¬(0 : Int) ≤ -300 := by omega
  refine (widthIndependent_iff (-300) (int .w16) (int .w64) ?_ ?_).mpr ⟨hnegative, not_false⟩
  · exact ⟨show (-32768 : Int) ≤ -300 by omega, show (-300 : Int) < 32768 by omega⟩
  · exact ⟨show (-9223372036854775808 : Int) ≤ -300 by omega,
      show (-300 : Int) < 9223372036854775808 by omega⟩

/-- 5 in a byte of its own is 5, and as a signed number of two bytes 2 ^ 64 - 65531. -/
theorem five_spoiled :
    posFixint.Holds 5 ∧ (int .w16).Holds 5 ∧ posFixint.bytes 5 = [5] ∧
      (int .w16).bytes 5 = [0xD1, 0, 5] ∧ DecodesTo [5] (pattern 5) ∧
      DecodesTo [0xD1, 0, 5] 0xFFFFFFFFFFFF0005 ∧ pattern 5 = 5 := by
  have hfix : posFixint.Holds 5 := ⟨by omega, by omega⟩
  have hint : (int .w16).Holds 5 :=
    ⟨show (-32768 : Int) ≤ 5 by omega, show (5 : Int) < 32768 by omega⟩
  have hfixBytes : posFixint.bytes 5 = [5] := by decide
  have hintBytes : (int .w16).bytes 5 = [0xD1, 0, 5] := by decide
  have hbits : UInt64.ofNat ((int .w16).received 5) = 0xFFFFFFFFFFFF0005 := by decide
  have hfixDec := posFixint.decodesTo_received hfix
  have hintDec := (int .w16).decodesTo_received hint
  rw [hfixBytes] at hfixDec
  rw [hintBytes, hbits] at hintDec
  exact ⟨hfix, hint, hfixBytes, hintBytes, hfixDec, hintDec, by decide⟩

end IntForm

end TagHighlight
