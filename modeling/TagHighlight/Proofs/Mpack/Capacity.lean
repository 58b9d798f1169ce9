/-
When the encoder stays inside its buffer.

Every encoder makes room and then writes: `sanityCheck_fits` and `sanityCheck_stays` say
what the first half does to the capacity, `Wrote` what the second half does to the note
about bytes outside.  The two meet in `EncodeOp.apply_wrote`, which has one case for each
encoder; everything after it is about capacities alone.

`sanity_check` goes wrong in two ways.  A request that is larger than the whole buffer makes the
unsigned difference wrap, so no room is made at all; and where the doubled size does not fit 32
bits the library is asked for less than there is.  Neither matters as long as the bytes of the
header fit anyway, so `EncodeOp.Fits` asks for one or the other.
-/
import TagHighlight.Mpack.Capacity
import TagHighlight.Proofs.Mpack.Integer

namespace TagHighlight

open Bytes

/-! ### Writing bytes directly

A direct write moves the length and leaves the capacity as it is.  `overrun` is set when the last
byte is at the capacity or behind it, so of several writes one after the other it is enough to
know the length after all of them: if that is inside, then each of them was.
-/

/-- `root'` is `root` after `n` bytes were written directly. -/
structure Wrote (root root' : Packed) (n : Nat) : Prop where
  length : root'.data.length = root.data.length + n
  mlen : root'.mlen = root.mlen
  overrun : root'.overrun = (root.overrun || decide (root.mlen < root.data.length + n))

namespace Wrote

variable {root root' root'' : Packed} {m n : Nat}

theorem put (root : Packed) (b : UInt8) : Wrote root (root.put b) 1 where
  length := by simp
  mlen := rfl
  overrun := congrArg (root.overrun || ·) (decide_eq_decide.mpr Nat.lt_succ_iff.symm)

theorem encodeUint (root : Packed) (width value : Nat) :
    Wrote root (encodeUint root width value) width where
  length := by simp [beBytes]
  mlen := rfl
  overrun := by simp [TagHighlight.encodeUint, Packed.putBytes]

/-- One write after another. -/
theorem trans (h : Wrote root root' m) (h' : Wrote root' root'' n) : Wrote root root'' (m + n) where
  length := by rw [h'.length, h.length, Nat.add_assoc]
  mlen := h'.mlen.trans h.mlen
  overrun := by
    rw [h'.overrun, h.overrun, h.mlen, h.length, Bool.or_assoc, ← Bool.decide_or, Nat.add_assoc]
    congr 1
    exact decide_eq_decide.mpr (by omega)

/-- A format byte and a number after it. -/
theorem put_encodeUint (root : Packed) (b : UInt8) (width value : Nat) :
    Wrote root (TagHighlight.encodeUint (root.put b) width value) (1 + width) :=
  (Wrote.put root b).trans (Wrote.encodeUint _ width value)

theorem put_put (root : Packed) (b c : UInt8) : Wrote root ((root.put b).put c) 2 :=
  (Wrote.put root b).trans (Wrote.put _ c)

end Wrote

/-! ### The encoders -/

/-- The header of an array or a dictionary. -/
theorem seqHeader_wrote {root root' : Packed} {len : Nat} {short two four : UInt8} {fault : Fault} :
    (if len < 16 then .ok (root.put short)
      else if len < 65535 then .ok (TagHighlight.encodeUint (root.put two) 2 len)
      else if len < 4294967295 then .ok (TagHighlight.encodeUint (root.put four) 4 len)
      else .error fault) = Except.ok root' →
      Wrote root root' (seqWidth len) := by
  unfold seqWidth
  split
  · rintro ⟨⟩
    exact Wrote.put _ _
  split
  · rintro ⟨⟩
    exact Wrote.put_encodeUint _ _ 2 _
  split
  · rintro ⟨⟩
    exact Wrote.put_encodeUint _ _ 4 _
  · rintro ⟨⟩

theorem mpackEncodeArray_wrote {lib : BStringLib} {root root' : Packed} {len : Nat} :
    mpackEncodeArray lib root len = .ok root' →
      Wrote (sanityCheck lib root 64) root' (seqWidth len) := seqHeader_wrote

theorem mpackEncodeDictionary_wrote {lib : BStringLib} {root root' : Packed} {len : Nat} :
    mpackEncodeDictionary lib root len = .ok root' →
      Wrote (sanityCheck lib root 64) root' (seqWidth len) := seqHeader_wrote

theorem mpackEncodeUnsigned_wrote {lib : BStringLib} {root root' : Packed} {value : UInt64} :
    mpackEncodeUnsigned lib root value = .ok root' →
      Wrote (sanityCheck lib root 15) root' (uintWidth value.toNat) := by
  unfold mpackEncodeUnsigned uintWidth
  dsimp only
  split
  · rintro ⟨⟩
    exact Wrote.put _ _
  split
  · rintro ⟨⟩
    exact Wrote.put_put _ _ _
  split
  · rintro ⟨⟩
    exact Wrote.put_encodeUint _ _ 2 _
  split
  · rintro ⟨⟩
    exact Wrote.put_encodeUint _ _ 4 _
  · rintro ⟨⟩
    exact Wrote.put_encodeUint _ _ 8 _

theorem mpackEncodeInteger_wrote {lib : BStringLib} {root root' : Packed} {value : Int64} :
    mpackEncodeInteger lib root value = .ok root' →
      Wrote (sanityCheck lib root 15) root' (EncodeOp.integer value).direct := by
  by_cases hneg : 0 ≤ value.toInt
  · -- The classes are those of an unsigned number.
    have hbits := toInt_eq_bits value
    have hlt : value.toUInt64.toNat < 2 ^ 64 := value.toUInt64.toNat_lt
    have heq : value.toInt.toNat = value.toUInt64.toNat := by
      split at hbits <;> omega
    rw [mpackEncodeInteger_nonneg lib root hneg, EncodeOp.direct, if_pos hneg, heq]
    exact mpackEncodeUnsigned_wrote
  unfold mpackEncodeInteger EncodeOp.direct
  dsimp only
  rw [if_neg hneg, if_neg hneg]
  split
  · rintro ⟨⟩
    exact Wrote.put _ _
  split
  · rintro ⟨⟩
    exact Wrote.put_put _ _ _
  split
  · rintro ⟨⟩
    exact Wrote.put_encodeUint _ _ 2 _
  split
  · rintro ⟨⟩
    exact Wrote.put_encodeUint _ _ 4 _
  split
  · rintro ⟨⟩
    exact Wrote.put_encodeUint _ _ 8 _
  · rintro ⟨⟩

theorem stringHeader_wrote (root : Packed) (str : Option BString) :
    Wrote root (stringHeader root (str.getD []).length) (EncodeOp.string str).direct := by
  unfold stringHeader EncodeOp.direct
  dsimp only
  split
  · exact Wrote.put _ _
  split
  · exact Wrote.put_put _ _ _
  split
  · exact Wrote.put_encodeUint _ _ 2 _
  · exact Wrote.put_encodeUint _ _ 4 _

/-! ### Making room

The library grows a buffer to the size it is asked for or beyond.  So after the check either the
capacity is what it was, with enough of it left, or it has doubled, which is enough if the request
was no larger than the buffer.
-/

/-- Inside the buffer, of at least the first size, of a size that `mlen` can hold. -/
structure Roomy (root : Packed) : Prop where
  inside : root.overrun = false
  length : root.data.length ≤ root.mlen
  first : 128 ≤ root.mlen
  lt : root.mlen < 2 ^ 32

theorem Roomy.init : Roomy mpackMakeNew where
  inside := rfl
  length := by decide
  first := by decide
  lt := by decide

/-- `sanity_check` asks whether more than the rest of the buffer is needed. -/
theorem sanityCheck_eq {lib : BStringLib} {root : Packed} (h : Roomy root) (check : Nat) :
    sanityCheck lib root check =
      if check % 2 ^ 32 ≤ root.mlen ∧ root.mlen < root.data.length + check % 2 ^ 32 then
        root.alloc lib (root.mlen * 2 % 2 ^ 32)
      else root := by
  have hlen := h.length
  have hlt := h.lt
  have hcheck : check % 2 ^ 32 < 2 ^ 32 := Nat.mod_lt _ (by decide)
  unfold sanityCheck
  generalize check % 2 ^ 32 = c at hcheck
  by_cases hc : c ≤ root.mlen
  · have hmod : (root.mlen + 2 ^ 32 - c) % 2 ^ 32 = root.mlen - c := by omega
    rw [hmod]
    exact if_congr (by omega) rfl rfl
  · -- The subtraction wraps, and nothing is longer than its result.
    have hmod : (root.mlen + 2 ^ 32 - c) % 2 ^ 32 = root.mlen + 2 ^ 32 - c := by omega
    rw [hmod]
    exact if_congr (by omega) rfl rfl

theorem sanityCheck_mod (lib : BStringLib) (root : Packed) (check : Nat) :
    sanityCheck lib root (check % 2 ^ 32) = sanityCheck lib root check := by
  unfold sanityCheck
  rw [Nat.mod_mod]

@[simp] theorem sanityCheck_overrun (lib : BStringLib) (root : Packed) (check : Nat) :
    (sanityCheck lib root check).overrun = root.overrun := by
  unfold sanityCheck
  split <;> rfl

section Grows

variable {lib : BStringLib} {root : Packed}

theorem Roomy.sanityCheck (hlib : lib.Grows) (h : Roomy root) (check : Nat) :
    Roomy (sanityCheck lib root check) := by
  have hlen := h.length
  have hfirst := h.first
  have hle : root.mlen ≤ lib.alloc root.mlen (root.mlen * 2 % 2 ^ 32) := by
    by_cases hlarge : root.mlen * 2 % 2 ^ 32 ≤ root.mlen
    · exact Nat.le_of_eq (hlib.alloc_large _ _ hlarge).symm
    · exact Nat.le_trans (by omega) (hlib.alloc_ge root.mlen _)
  rw [sanityCheck_eq h]
  split
  · exact { inside := h.inside
            length := Nat.le_trans hlen hle
            first := Nat.le_trans hfirst hle
            lt := hlib.alloc_lt _ _ h.lt (Nat.mod_lt _ (by decide)) }
  · exact h

/-- The room after the check, for the few bytes of a header. -/
theorem sanityCheck_room_iff (hlib : lib.Grows) (h : Roomy root) (check : Nat) {n : Nat}
    (hn : n ≤ 128) :
    root.data.length + n ≤ (TagHighlight.sanityCheck lib root check).mlen ↔
      root.data.length + n ≤ root.mlen ∨ (check % 2 ^ 32 ≤ root.mlen ∧
        root.mlen < root.data.length + check % 2 ^ 32 ∧ 2 * root.mlen < 2 ^ 32) := by
  have hlen := h.length
  have hfirst := h.first
  have hlt := h.lt
  rw [sanityCheck_eq h]
  split
  · rename_i hgrow
    by_cases hsmall : 2 * root.mlen < 2 ^ 32
    · have hge := hlib.alloc_ge root.mlen (root.mlen * 2 % 2 ^ 32)
      exact iff_of_true (Nat.le_trans (by omega) hge) (Or.inr ⟨hgrow.1, hgrow.2, hsmall⟩)
    · -- The doubled size wraps to less than there is.
      have hsame := hlib.alloc_large root.mlen (root.mlen * 2 % 2 ^ 32) (by omega)
      rw [Packed.alloc, hsame]
      exact ⟨Or.inl, fun hor => hor.resolve_right fun hc => hsmall hc.2.2⟩
  · rename_i hstay
    exact ⟨Or.inl, fun hor => hor.resolve_right fun hc => hstay ⟨hc.1, hc.2.1⟩⟩

/-! ### One call

A call is a check and then its writes, and for a string the library appends the text, which makes
its own room.  So a call leaves a sound buffer sound if `Fits` holds, and if it does not, some
byte of its header lies behind the end: there is one statement for each direction.
-/

theorem EncodeOp.direct_le (op : EncodeOp) : op.direct ≤ 128 := by
  have hseq : ∀ len, seqWidth len ≤ 5 := by
    intro len
    unfold seqWidth
    split_ifs <;> omega
  have huint : ∀ bits, uintWidth bits ≤ 9 := by
    intro bits
    unfold uintWidth
    split_ifs <;> omega
  cases op with
  | array len => exact Nat.le_trans (hseq _) (by decide)
  | dictionary len => exact Nat.le_trans (hseq _) (by decide)
  | integer value =>
      rw [EncodeOp.direct]
      split
      · exact Nat.le_trans (huint _) (by decide)
      · split_ifs <;> decide
  | unsigned value => exact Nat.le_trans (huint _) (by decide)
  | string str =>
      simp only [EncodeOp.direct]
      split_ifs <;> decide
  | boolean value => exact Nat.le_of_ble_eq_true rfl
  | nil => exact Nat.le_of_ble_eq_true rfl

/--
A call makes room, writes its bytes, and has the library append a text if it is that of a
string.
-/
theorem EncodeOp.apply_wrote {op : EncodeOp} {root' : Packed}
    (h : op.apply lib root = .ok root') :
    ∃ mid, Wrote (TagHighlight.sanityCheck lib root op.check) mid op.direct ∧
      (root' = mid ∨
        ∃ text, mid.data.length + text.length < 2 ^ 32 ∧ root' = mid.concat lib text) := by
  cases op with
  | array len => exact ⟨root', mpackEncodeArray_wrote h, Or.inl rfl⟩
  | dictionary len => exact ⟨root', mpackEncodeDictionary_wrote h, Or.inl rfl⟩
  | integer value => exact ⟨root', mpackEncodeInteger_wrote h, Or.inl rfl⟩
  | unsigned value => exact ⟨root', mpackEncodeUnsigned_wrote h, Or.inl rfl⟩
  | string str =>
      refine ⟨_, stringHeader_wrote _ str, ?_⟩
      unfold EncodeOp.apply at h
      dsimp only at h
      rw [EncodeOp.check, sanityCheck_mod]
      split at h
      · rename_i hfits
        exact Or.inr ⟨str.getD [], hfits, (Except.ok.inj h).symm⟩
      · exact Or.inl (Except.ok.inj h).symm
  | boolean value => exact ⟨root', Except.ok.inj h ▸ Wrote.put _ _, Or.inl rfl⟩
  | nil => exact ⟨root', Except.ok.inj h ▸ Wrote.put _ _, Or.inl rfl⟩

theorem Roomy.fits_iff (hlib : lib.Grows) (h : Roomy root) (op : EncodeOp) :
    op.Fits root ↔
      root.data.length + op.direct ≤ (TagHighlight.sanityCheck lib root op.check).mlen := by
  have hcheck : op.check % 2 ^ 32 = op.check := by
    cases op with
    | string str => exact Nat.mod_mod _ _
    | _ => rfl
  rw [sanityCheck_room_iff hlib h op.check op.direct_le, hcheck]
  rfl

/-- A call that has room for its bytes stays inside. -/
theorem Roomy.step (hlib : lib.Grows) (h : Roomy root) {op : EncodeOp} {root' : Packed}
    (hok : op.Fits root) (hstep : op.apply lib root = .ok root') : Roomy root' := by
  obtain ⟨mid, hwrote, hrest⟩ := EncodeOp.apply_wrote hstep
  have hroom := (h.fits_iff hlib op).mp hok
  have h1 := h.sanityCheck hlib op.check
  have hlen := hwrote.length
  rw [sanityCheck_data] at hlen
  have hmid : Roomy mid :=
    { inside := by
        rw [hwrote.overrun, h1.inside, sanityCheck_data, Bool.false_or, decide_eq_false_iff_not]
        omega
      length := by
        rw [hlen, hwrote.mlen]
        exact hroom
      first := hwrote.mlen ▸ h1.first
      lt := hwrote.mlen ▸ h1.lt }
  rcases hrest with rfl | ⟨text, htext, rfl⟩
  · exact hmid
  · have hge := hlib.concat_ge mid.mlen (mid.data.length + text.length)
    exact { inside := hmid.inside
            length := by
              rw [Packed.concat_data, List.length_append]
              exact hge.1
            first := Nat.le_trans hmid.first hge.2
            lt := hlib.concat_lt _ _ hmid.lt htext }

/-- A call that has not writes past the end. -/
theorem Roomy.overrun (hlib : lib.Grows) (h : Roomy root) {op : EncodeOp} {root' : Packed}
    (hno : ¬ op.Fits root) (hstep : op.apply lib root = .ok root') : root'.overrun = true := by
  obtain ⟨mid, hwrote, hrest⟩ := EncodeOp.apply_wrote hstep
  have hroom := fun hle => hno ((h.fits_iff hlib op).mpr hle)
  have hmid : mid.overrun = true := by
    rw [hwrote.overrun, sanityCheck_data, Bool.or_eq_true, decide_eq_true_eq]
    exact Or.inr (Nat.lt_of_not_le hroom)
  rcases hrest with rfl | ⟨text, -, rfl⟩
  · exact hmid
  · exact hmid

/-! ### Whole sequences -/

/--
**No byte is written outside the buffer, in any sequence of calls, exactly as long as every
call has room for the bytes it writes directly.**
-/
theorem noOverrun_iff (hlib : lib.Grows) (ops : List EncodeOp) :
    (encodeSystem lib).Throughout (·.overrun = false) (encodeSystem lib).init ops ↔
      (encodeSystem lib).Meets (fun root op => op.Fits root) (encodeSystem lib).init ops := by
  refine TransitionSystem.throughout_iff_meets (I := Roomy) (fun _ h => h.inside)
    (fun _ _ _ h hok hstep => h.step hlib hok (Fault.toOption_eq_some.mp hstep))
    (fun _ _ _ h hno hstep => ?_) Roomy.init ops
  rw [h.overrun hlib hno (Fault.toOption_eq_some.mp hstep)]
  decide

end Grows

theorem exactLib_grows : exactLib.Grows where
  alloc_ge mlen n := Nat.le_max_right mlen n
  alloc_large _ _ h := Nat.max_eq_left h
  alloc_lt _ _ hm hn := Nat.max_lt.mpr ⟨hm, hn⟩
  concat_ge mlen slen := ⟨Nat.le_max_right mlen slen, Nat.le_max_left mlen slen⟩
  concat_lt _ _ hm hs := Nat.max_lt.mpr ⟨hm, hs⟩

/-- One byte is left in a new buffer, and a string of 200 bytes is encoded. -/
def fullThenString : List EncodeOp :=
  List.replicate 127 .nil ++ [.string (some (List.replicate 200 97))]

/--
`128 - 205` wraps, so no room is made: the second byte of the header `D9 C8` is written at
index 128 of 128 bytes.
-/
theorem fullThenString_overruns :
    ¬ (encodeSystem exactLib).Throughout (·.overrun = false) (encodeSystem exactLib).init
      fullThenString := by
  intro h
  have hrun : ((encodeSystem exactLib).run (encodeSystem exactLib).init fullThenString).map
      Packed.overrun = some true := by
    decide +kernel
  obtain ⟨root, hroot, hover⟩ := Option.map_eq_some_iff.mp hrun
  rw [h.last hroot] at hover
  cases hover

/-- With a string that fits, nothing goes wrong. -/
theorem noOverrun_iff_small : exactLib.Grows ∧
    ((encodeSystem exactLib).Throughout (·.overrun = false) (encodeSystem exactLib).init
        [.array 2, .nil, .string (some [97])] ↔
      (encodeSystem exactLib).Meets (fun root op => op.Fits root) (encodeSystem exactLib).init
        [.array 2, .nil, .string (some [97])]) :=
  ⟨exactLib_grows, noOverrun_iff exactLib_grows _⟩

end TagHighlight
