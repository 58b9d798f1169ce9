/-
Which integers survive encoding and decoding.

Encoder and decoder each split the integers into width classes.  The lemmas below say, for
each format byte, what the decoder makes of what follows it; the round trip then goes
through the encoder's classes one by one.

All of them are inverse to each other but one.  For a negative number of one byte the
decoder sets the upper bits and forgets the byte it has read.
-/
import Mathlib.Algebra.Group.Int.Defs
import TagHighlight.Mpack.Encode
import TagHighlight.Mpack.Wire

namespace TagHighlight

open Bytes

/-! ### Reading -/

@[simp] theorem readByte_cons (b : UInt8) (rest : BString) : readByte (b :: rest) = .ok (b, rest) := by
  simp [readByte, objRead]

theorem objRead_append (bs rest : BString) : objRead bs.length (bs ++ rest) = .ok (bs, rest) := by
  simp [objRead]

/-- A swapped number is read back, cut to its width. -/
@[simp] theorem readSwapped_append (width n : Nat) (rest : BString) :
    readSwapped width (beBytes width n ++ rest) = .ok (n % 256 ^ width, rest) := by
  have hread := objRead_append (leBytes width (bswap width n)) rest
  rw [leBytes_length] at hread
  rw [← leBytes_bswap]
  simp only [readSwapped, hread, Fault.ok_bind, bswap_ofLE_leBytes]

/-! ### Writing -/

@[simp] theorem sanityCheck_data (lib : BStringLib) (root : Packed) (check : Nat) :
    (sanityCheck lib root check).data = root.data := by
  rw [sanityCheck]
  split <;> rfl

@[simp] theorem encodeUint_data (root : Packed) (width n : Nat) :
    (encodeUint root width n).data = root.data ++ beBytes width n := by
  rw [← leBytes_bswap]
  rfl

/-! ### Format bytes

The table of masks is searched from its front, and every format byte is found in one row of it.
The row says what is read next; `Reads` says of some bytes that the decoder reads them as one
object and leaves what follows.
-/

theorem idPackType_of_find {ch : UInt8} {mask : Mask}
    (h : mMasks.find? (·.describes ch) = some mask) : idPackType ch = .ok mask := by
  rw [idPackType, h]

theorem find_posInt : ∀ n : Fin 128, mMasks.find? (·.describes (UInt8.ofNat n)) =
    some ⟨.plint, .posInt, true, 0x00, 7, "M_POS_INT_F"⟩ := by
  decide +kernel

theorem find_negInt : ∀ n : Fin 32, mMasks.find? (·.describes (UInt8.ofNat (n + 224))) =
    some ⟨.nlint, .negInt, true, 0xE0, 5, "M_NEG_INT_F"⟩ := by
  decide +kernel

/-- The first byte decides how the rest is read. -/
theorem decodeFuel_cons {fuel : Nat} {ch : UInt8} {rest : BString} {mask : Mask}
    (h : idPackType ch = .ok mask) :
    decodeFuel (fuel + 1) (ch :: rest) = decodeGroup (decodeFuel fuel) ch mask rest := by
  simp only [decodeFuel, readByte_cons, Fault.ok_bind, h]

/-- `bs` is read as `obj`, whatever stands after it. -/
def Reads (bs : BString) (obj : Obj) : Prop :=
  ∀ fuel rest, decodeFuel (fuel + 1) (bs ++ rest) = .ok (obj, rest)

theorem Reads.doDecode {bs : BString} {obj : Obj} (h : Reads bs obj) (rest : BString) :
    doDecode (bs ++ rest) = .ok (obj, rest) := h _ rest

/-! ### Numbers, by format byte

All widths are alike: the row of the table says how many bytes there are, and the number is what
they are in base 256.  Only the signed form of one byte differs from the others.
-/

theorem reads_posInt {n : Nat} (h : n ≤ 127) :
    Reads [UInt8.ofNat n] (.unsigned (UInt64.ofNat n)) := by
  intro fuel rest
  have hlow : (UInt8.ofNat n ^^^ 0x00).toNat = n := by
    rw [UInt8.xor_zero, UInt8.toNat_ofNat']
    omega
  rw [List.singleton_append, decodeFuel_cons (idPackType_of_find (find_posInt ⟨n, by omega⟩))]
  simp only [decodeGroup, decodeUnsigned, unsignedValue, if_true, Mask.low, hlow, Fault.ok_bind]

theorem reads_negInt {n : Nat} (h : n < 32) :
    Reads [UInt8.ofNat (n + 224)] (.signed (UInt64.ofNat (n ||| 0xFFFFFFFFFFFFFFE0))) := by
  intro fuel rest
  have hlow : ∀ m : Fin 32, (UInt8.ofNat (m + 224) ^^^ 0xE0).toNat = m := by decide +kernel
  have hlow' := hlow ⟨n, h⟩
  rw [List.singleton_append, decodeFuel_cons (idPackType_of_find (find_negInt ⟨n, h⟩))]
  simp only [decodeGroup, decodeInteger, integerValue, if_true, Mask.low, hlow', Fault.ok_bind]

/-- A format byte that stands for itself. -/
theorem reads_cons {ch : UInt8} (mask : Mask) {bs : BString} {obj : Obj}
    (hmask : idPackType ch = .ok mask)
    (h : ∀ decode rest, decodeGroup decode ch mask (bs ++ rest) = .ok (obj, rest)) :
    Reads (ch :: bs) obj := by
  intro fuel rest
  rw [List.cons_append, decodeFuel_cons hmask, h]

/-- A number without a sign is read as it is, in whatever width. -/
theorem reads_uint (w : Width) (n : Nat) :
    Reads (w.uintCode :: beBytes w.size n) (.unsigned (UInt64.ofNat (n % 256 ^ w.size))) := by
  cases w with
  | w8 =>
      refine reads_cons ⟨.uint, .uint8, false, 0xCC, 0, "M_UINT_8"⟩ rfl fun _ _ => ?_
      simp [decodeGroup, decodeUnsigned, unsignedValue, Width.size, beBytes, leBytes]
  | w16 =>
      refine reads_cons ⟨.uint, .uint16, false, 0xCD, 0, "M_UINT_16"⟩ rfl fun _ _ => ?_
      simp [decodeGroup, decodeUnsigned, unsignedValue, Width.size]
  | w32 =>
      refine reads_cons ⟨.uint, .uint32, false, 0xCE, 0, "M_UINT_32"⟩ rfl fun _ _ => ?_
      simp [decodeGroup, decodeUnsigned, unsignedValue, Width.size]
  | w64 =>
      refine reads_cons ⟨.uint, .uint64, false, 0xCF, 0, "M_UINT_64"⟩ rfl fun _ _ => ?_
      simp [decodeGroup, decodeUnsigned, unsignedValue, Width.size]

/-- With a sign the bits above are set; of one byte nothing is left. -/
theorem reads_int (w : Width) (n : Nat) :
    Reads (w.intCode :: beBytes w.size n) (.signed (receivedInt w n)) := by
  cases w with
  | w8 =>
      refine reads_cons ⟨.int, .int8, false, 0xD0, 0, "M_INT_8"⟩ rfl fun _ _ => ?_
      simp [decodeGroup, decodeInteger, integerValue, receivedInt, Width.size, beBytes, leBytes]
  | w16 =>
      refine reads_cons ⟨.int, .int16, false, 0xD1, 0, "M_INT_16"⟩ rfl fun _ _ => ?_
      simp [decodeGroup, decodeInteger, integerValue, receivedInt, Width.size]
  | w32 =>
      refine reads_cons ⟨.int, .int32, false, 0xD2, 0, "M_INT_32"⟩ rfl fun _ _ => ?_
      simp [decodeGroup, decodeInteger, integerValue, receivedInt, Width.size]
  | w64 =>
      refine reads_cons ⟨.int, .int64, false, 0xD3, 0, "M_INT_64"⟩ rfl fun _ _ => ?_
      simp [decodeGroup, decodeInteger, integerValue, receivedInt, Width.size]

/-- A number that fits is read as itself. -/
theorem reads_uint_of_lt (w : Width) {n : Nat} (h : n < 256 ^ w.size) :
    Reads (w.uintCode :: beBytes w.size n) (.unsigned (UInt64.ofNat n)) := by
  have hread := reads_uint w n
  rwa [Nat.mod_eq_of_lt h] at hread

/-! ### The width classes of the encoder

The encoder takes the narrowest class that it has for a number, and the proof goes through its
classes.  `readBack` says what is read back, and that is the number itself but for the class that
is written behind `INT_8`.
-/

/-- What is read back for an encoded integer. -/
def readBack (value : Int64) : Obj :=
  if 0 ≤ value.toInt then .unsigned value.toUInt64
  else if -127 ≤ value.toInt ∧ value.toInt ≤ -33 then .signed 0xFFFFFFFFFFFFFF00
  else .signed value.toUInt64

/-- A signed number and its bit pattern. -/
theorem toInt_eq_bits (value : Int64) : value.toInt =
    if value.toUInt64.toNat < 2 ^ 63 then (value.toUInt64.toNat : Int)
    else value.toUInt64.toNat - 2 ^ 64 := by
  have h := BitVec.toInt_eq_toNat_cond value.toBitVec
  rw [Int64.toNat_toBitVec, Int64.toInt_toBitVec] at h
  rw [h]
  simp only [Nat.reducePow]
  split <;> split <;> omega

/-- Every unsigned number is read back. -/
theorem mpackEncodeUnsigned_reads (lib : BStringLib) (root : Packed) (value : UInt64) :
    ∃ root' bs, mpackEncodeUnsigned lib root value = .ok root' ∧ root'.data = root.data ++ bs ∧
      Reads bs (.unsigned value) := by
  have hlt : value.toNat < 2 ^ 64 := value.toNat_lt
  obtain ⟨bits, hbits⟩ : ∃ bits, value.toNat = bits := ⟨_, rfl⟩
  have hvalue : value = UInt64.ofNat bits := by rw [← hbits, UInt64.ofNat_toNat]
  rw [mpackEncodeUnsigned]
  simp only [hbits]
  rw [hvalue]
  by_cases h7 : bits ≤ 127
  · rw [if_pos h7]
    exact ⟨_, [UInt8.ofNat bits], rfl, by simp, reads_posInt h7⟩
  rw [if_neg h7]
  by_cases h8 : bits < 255
  · rw [if_pos h8]
    exact ⟨_, [0xCC, UInt8.ofNat bits], rfl, by simp, reads_uint_of_lt .w8 (show bits < 256 by omega)⟩
  rw [if_neg h8]
  by_cases h16 : bits ≤ 65535
  · rw [if_pos h16]
    exact ⟨_, 0xCD :: beBytes 2 bits, rfl, by simp, reads_uint_of_lt .w16 (show bits < 256 ^ 2 by omega)⟩
  rw [if_neg h16]
  by_cases h32 : bits ≤ 4294967295
  · rw [if_pos h32]
    exact ⟨_, 0xCE :: beBytes 4 bits, rfl, by simp, reads_uint_of_lt .w32 (show bits < 256 ^ 4 by omega)⟩
  · rw [if_neg h32]
    exact ⟨_, 0xCF :: beBytes 8 bits, rfl, by simp, reads_uint_of_lt .w64 (show bits < 256 ^ 8 by omega)⟩

/-- The classes of the two encoders agree on numbers that are not negative. -/
theorem mpackEncodeInteger_nonneg (lib : BStringLib) (root : Packed) {value : Int64}
    (h : 0 ≤ value.toInt) :
    mpackEncodeInteger lib root value = mpackEncodeUnsigned lib root value.toUInt64 := by
  have hlt : value.toUInt64.toNat < 2 ^ 64 := value.toUInt64.toNat_lt
  obtain ⟨hv, h64⟩ : value.toInt = value.toUInt64.toNat ∧ value.toInt ≤ 9223372036854775807 := by
    have := toInt_eq_bits value
    split at this <;> omega
  rw [mpackEncodeInteger, mpackEncodeUnsigned]
  generalize value.toUInt64.toNat = bits at hv hlt
  have h7 : (value.toInt ≤ 127) = (bits ≤ 127) := propext (by omega)
  have h8 : (value.toInt < 255) = (bits < 255) := propext (by omega)
  have h16 : (value.toInt ≤ 65535) = (bits ≤ 65535) := propext (by omega)
  have h32 : (value.toInt ≤ 4294967295) = (bits ≤ 4294967295) := propext (by omega)
  simp only [ge_iff_le, h, h7, h8, h16, h32, h64, if_true]

/-- A negative number is read back, unless it is one of those written as `INT_8`. -/
theorem mpackEncodeInteger_neg_reads (lib : BStringLib) (root : Packed) {value : Int64}
    (h : value.toInt < 0) :
    ∃ root' bs, mpackEncodeInteger lib root value = .ok root' ∧ root'.data = root.data ++ bs ∧
      Reads bs (readBack value) := by
  have hv := toInt_eq_bits value
  have hlt : value.toUInt64.toNat < 2 ^ 64 := value.toUInt64.toNat_lt
  obtain ⟨bits, hbits⟩ : ∃ bits, value.toUInt64.toNat = bits := ⟨_, rfl⟩
  have hvalue : value.toUInt64 = UInt64.ofNat bits := by rw [← hbits, UInt64.ofNat_toNat]
  rw [hbits] at hv hlt
  obtain ⟨hneg, hhigh⟩ : value.toInt = bits - 2 ^ 64 ∧ 2 ^ 63 ≤ bits := by split at hv <;> omega
  clear hv
  have hsigned : ¬(-127 ≤ value.toInt ∧ value.toInt ≤ -33) →
      readBack value = .signed (UInt64.ofNat bits) := by
    intro hc
    rw [readBack, if_neg (by omega), if_neg hc, hvalue]
  rw [mpackEncodeInteger]
  simp only [hbits]
  rw [if_neg (show ¬value.toInt ≥ 0 by omega)]
  by_cases h5 : value.toInt ≥ -32
  · -- The five bits of a negative fixint.
    rw [if_pos h5, hsigned (by omega)]
    obtain ⟨n, rfl⟩ : ∃ n, bits = n + 18446744073709551584 := ⟨bits - 18446744073709551584, by omega⟩
    refine ⟨_, [UInt8.ofNat (n + 224)], rfl, ?_, ?_⟩
    · have hbyte : UInt8.ofNat (n + 18446744073709551584) = UInt8.ofNat (n + 224) := by
        refine UInt8.toNat_inj.mp ?_
        simp only [UInt8.toNat_ofNat']
        omega
      rw [Packed.put_data, sanityCheck_data, hbyte]
    · have hread := reads_negInt (n := n) (by omega)
      rwa [show 0xFFFFFFFFFFFFFFE0 = 2 ^ 5 * 576460752303423487 from rfl,
        or_mask (show n < 2 ^ 5 by omega)] at hread
  rw [if_neg h5]
  by_cases h8 : value.toInt > -128
  · rw [if_pos h8, readBack, if_neg (by omega), if_pos (by omega)]
    exact ⟨_, [0xD0, UInt8.ofNat bits], rfl, by simp, reads_int .w8 bits⟩
  rw [if_neg h8, hsigned (by omega)]
  by_cases h16 : value.toInt ≥ -32768
  · rw [if_pos h16]
    refine ⟨_, 0xD1 :: beBytes 2 bits, rfl, by simp, ?_⟩
    have hread := reads_int .w16 bits
    rwa [receivedInt, show 0xFFFFFFFFFFFF0000 = 2 ^ 16 * 281474976710655 from rfl, or_mask (by omega),
      show bits % 256 ^ 2 + 2 ^ 16 * 281474976710655 = bits by omega] at hread
  rw [if_neg h16]
  by_cases h32 : value.toInt ≥ -2147483648
  · rw [if_pos h32]
    refine ⟨_, 0xD2 :: beBytes 4 bits, rfl, by simp, ?_⟩
    have hread := reads_int .w32 bits
    rwa [receivedInt, show 0xFFFFFFFF00000000 = 2 ^ 32 * 4294967295 from rfl, or_mask (by omega),
      show bits % 256 ^ 4 + 2 ^ 32 * 4294967295 = bits by omega] at hread
  · rw [if_neg h32, if_pos (by omega)]
    refine ⟨_, 0xD3 :: beBytes 8 bits, rfl, by simp, ?_⟩
    have hread := reads_int .w64 bits
    rwa [receivedInt, Nat.mod_eq_of_lt (by omega)] at hread

/-- **Encoding an integer** appends bytes that are read back as `readBack` says. -/
theorem mpackEncodeInteger_reads (lib : BStringLib) (root : Packed) (value : Int64) :
    ∃ root' bs, mpackEncodeInteger lib root value = .ok root' ∧ root'.data = root.data ++ bs ∧
      Reads bs (readBack value) := by
  by_cases h : 0 ≤ value.toInt
  · rw [mpackEncodeInteger_nonneg lib root h, readBack, if_pos h]
    exact mpackEncodeUnsigned_reads lib root value.toUInt64
  · exact mpackEncodeInteger_neg_reads lib root (by omega)

/-! ### The round trip

For an unsigned number there is nothing to exclude.  For a signed one the excluded numbers are
those that the encoder writes in one byte behind `INT_8`; there the decoder forgets the byte, and
gives the same number for all of them.
-/

/-- The bytes written for a number are read as this number, and nothing after them is. -/
def RoundTrips (encode : Packed → Except Fault Packed) (num : UInt64) : Prop :=
  ∀ root rest, ∃ root' bs obj, encode root = .ok root' ∧ root'.data = root.data ++ bs ∧
    doDecode (bs ++ rest) = .ok (obj, rest) ∧ obj.num? = some num

theorem readBack_num_iff (value : Int64) : (readBack value).num? = some value.toUInt64 ↔
    ¬(-127 ≤ value.toInt ∧ value.toInt ≤ -33) := by
  rw [readBack]
  by_cases h : 0 ≤ value.toInt
  · rw [if_pos h, Obj.num?]
    exact ⟨fun _ => by omega, fun _ => rfl⟩
  rw [if_neg h]
  by_cases hband : -127 ≤ value.toInt ∧ value.toInt ≤ -33
  · -- What is read is -256, which is not among the numbers written this way.
    rw [if_pos hband, Obj.num?, Option.some.injEq]
    refine ⟨fun hc => ?_, fun hc => absurd hband hc⟩
    have hbits := toInt_eq_bits value
    rw [← hc] at hbits
    have hvalue : value.toInt = -256 := hbits
    omega
  · rw [if_neg hband, Obj.num?]
    exact ⟨fun _ => hband, fun _ => rfl⟩

theorem mpackEncodeInteger_roundTrips_iff (lib : BStringLib) (value : Int64) :
    RoundTrips (mpackEncodeInteger lib · value) value.toUInt64 ↔
      ¬(-127 ≤ value.toInt ∧ value.toInt ≤ -33) := by
  constructor
  · intro h
    obtain ⟨root', bs, henc, hdata, hread⟩ := mpackEncodeInteger_reads lib mpackMakeNew value
    obtain ⟨root'', bs', obj, henc', hdata', hdec, hnum⟩ := h mpackMakeNew []
    obtain rfl : root' = root'' := Except.ok.inj (henc.symm.trans henc')
    obtain rfl : bs = bs' := List.append_cancel_left (hdata.symm.trans hdata')
    rw [hread.doDecode] at hdec
    obtain rfl : readBack value = obj := congrArg Prod.fst (Except.ok.inj hdec)
    exact (readBack_num_iff value).mp hnum
  · intro h root rest
    obtain ⟨root', bs, henc, hdata, hread⟩ := mpackEncodeInteger_reads lib root value
    exact ⟨root', bs, _, henc, hdata, hread.doDecode rest, (readBack_num_iff value).mpr h⟩

/--
**The integer round trip.**  A signed number comes back as the same 64-bit pattern exactly
if it is not one of -127, …, -33; an unsigned number always does.
-/
theorem integer_roundTrips_iff (lib : BStringLib) :
    (∀ value : Int64, RoundTrips (mpackEncodeInteger lib · value) value.toUInt64 ↔
      ¬(-127 ≤ value.toInt ∧ value.toInt ≤ -33)) ∧
    ∀ value : UInt64, RoundTrips (mpackEncodeUnsigned lib · value) value := by
  refine ⟨mpackEncodeInteger_roundTrips_iff lib, fun value root rest => ?_⟩
  obtain ⟨root', bs, henc, hdata, hread⟩ := mpackEncodeUnsigned_reads lib root value
  exact ⟨root', bs, _, henc, hdata, hread.doDecode rest, rfl⟩

/-- A string library that makes just the room it is asked for. -/
def exactLib : BStringLib := { alloc := max, concat := max }

/-- -100 is written as `D0 9C` and read as -256. -/
theorem integer_minus_hundred_lost :
    (∃ root', mpackEncodeInteger exactLib mpackMakeNew (-100) = .ok root' ∧
      root'.data = [0xD0, 0x9C]) ∧
    doDecode [0xD0, 0x9C] = .ok (.signed 0xFFFFFFFFFFFFFF00, []) ∧
    ¬RoundTrips (mpackEncodeInteger exactLib · (-100)) (-100 : Int64).toUInt64 := by
  refine ⟨⟨_, rfl, rfl⟩, reads_int .w8 0x9C _ [], fun h => ?_⟩
  exact (mpackEncodeInteger_roundTrips_iff exactLib (-100)).mp h (by decide)

end TagHighlight
