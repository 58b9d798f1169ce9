/-
The decoder against the format.

For every form there is a lemma that says what is read, and the decoder's object is put
together from these.  Whether it says what the sender meant is a question of its numbers
alone: by induction on the message, of each of them.

The forms in which something is lost are those of signed numbers.  The decoder sets the bits above
those it has read whatever the sign is, so a number that is not negative comes out as a negative
one; and of a signed byte it keeps nothing.
-/
import TagHighlight.Mpack.Received
import TagHighlight.Proofs.Mpack.Framing
import TagHighlight.Proofs.Mpack.Message

namespace TagHighlight

open Bytes

/-! ### What is read

`Wire.obj` is what the program makes of a message, with the numbers as they come out.  The
induction is over the message, with the lemma for its form in each case, and the headers of
containers are those of the round trip.
-/

theorem itemObjs_length (ws : List Wire) : (itemObjs ws).length = ws.length := by
  induction ws with
  | nil => rfl
  | cons w ws ih => rw [itemObjs, List.length_cons, List.length_cons, ih]

theorem entryObjs_length (ws : List (Wire × Wire)) : (entryObjs ws).length = ws.length := by
  induction ws with
  | nil => rfl
  | cons w ws ih => rw [entryObjs, List.length_cons, List.length_cons, ih]

mutual

theorem Wire.readsAll : ∀ w : Wire, w.Ok → ReadsAll w.bytes w.obj
  | .nil, _ => reads_nil.all
  | .boolean true, _ => reads_true.all
  | .boolean false, _ => reads_false.all
  | .posFixint n, _ => (reads_posInt (by omega)).all
  | .negFixint n, _ => (reads_negInt n.isLt).all
  | .uint w n, _ => (reads_uint w n).all
  | .int w n, _ => (reads_int w n).all
  | .fixext w type payload, h => (reads_fixext w type h).all
  | .ext8 type payload, h => (reads_ext8 type h).all
  | .string form str, h => (reads_string form h).all
  | .array form items, h => by
      have hopens := opensArray_header _ h.1
      rw [← itemObjs_length] at hopens
      rw [Wire.bytes, ← itemObjs_length]
      exact hopens.readsAll (itemBytes_readsItems items h.2)
  | .map form entries, h => by
      have hopens := opensDict_header _ h.1
      rw [← entryObjs_length] at hopens
      rw [Wire.bytes, ← entryObjs_length]
      exact hopens.readsAll (entryBytes_readsEntries entries h.2)

theorem itemBytes_readsItems : ∀ ws : List Wire, ItemsOk ws →
    ReadsItems (itemBytes ws) (itemObjs ws)
  | [], _ => fun _ _ _ => rfl
  | w :: ws, h => ReadsItems.cons (w.readsAll h.1) (itemBytes_readsItems ws h.2)

theorem entryBytes_readsEntries : ∀ ws : List (Wire × Wire), EntriesOk ws →
    ReadsEntries (entryBytes ws) (entryObjs ws)
  | [], _ => fun _ _ _ => rfl
  | (key, value) :: ws, h =>
      ReadsEntries.cons (key.readsAll h.1) (value.readsAll h.2.1) (entryBytes_readsEntries ws h.2.2)

end

/-- A call of the decoder returns the message at the front, and leaves the rest. -/
theorem Wire.doDecode_obj (w : Wire) (h : w.Ok) (rest : BString) :
    doDecode (w.bytes ++ rest) = .ok (w.obj, rest) := by
  refine w.readsAll h _ rest ?_
  rw [List.length_append]
  omega

/-! ### What is meant

An object means what the sender meant if each of its numbers does, for nothing else is changed.
Whether a number does is decided by its form and its sign, and the same condition is collected
over all parts of the message.
-/

/-- The number that 64 bits stand for in two's complement. -/
theorem toInt_ofNat (n : Nat) : (UInt64.ofNat n).toInt64.toInt = Int.bmod n (2 ^ 64) := by
  have hnat : (UInt64.ofNat n).toInt64 = Int64.ofNat n := rfl
  rw [hnat, Int64.toInt_ofNat']
  rfl

theorem negFixint_message (n : Fin 32) :
    (UInt64.ofNat (n.val ||| 0xFFFFFFFFFFFFFFE0)).toInt64.toInt = (n.val : Int) - 32 := by
  revert n
  decide +kernel

theorem uint_message (w : Width) (n : Nat) :
    (UInt64.ofNat (n % 256 ^ w.size)).toNat = n % 256 ^ w.size := by
  have hlt : n % 256 ^ w.size < 2 ^ 64 := by
    cases w with
    | w8 => exact Nat.lt_trans (Nat.mod_lt n (by decide : 0 < 256 ^ 1)) (by decide)
    | w16 => exact Nat.lt_trans (Nat.mod_lt n (by decide : 0 < 256 ^ 2)) (by decide)
    | w32 => exact Nat.lt_trans (Nat.mod_lt n (by decide : 0 < 256 ^ 4)) (by decide)
    | w64 => exact Nat.mod_lt n (by decide : 0 < 256 ^ 8)
  exact UInt64.toNat_ofNat_of_lt' hlt

/-- The bits above `m` are set, so the number is a negative one. -/
theorem toInt_set {m k : Nat} (hm : m < k) (hk : k ≤ 2 ^ 32) :
    (UInt64.ofNat (m + (2 ^ 64 - k))).toInt64.toInt = (m : Int) - k := by
  have hvalue : ((m + (2 ^ 64 - k) : Nat) : Int) = (m - k : Int) + (2 ^ 64 : Nat) := by omega
  rw [toInt_ofNat, hvalue, Int.add_bmod_right]
  exact Int.bmod_eq_of_le (by omega) (by omega)

/-- The number that `size` bytes stand for is negative from half of the range on. -/
theorem signedOf_eq (size n : Nat) : signedOf size n =
    if n % 256 ^ size < (256 ^ size + 1) / 2 then ((n % 256 ^ size : Nat) : Int)
    else ((n % 256 ^ size : Nat) : Int) - (256 ^ size : Nat) := by
  rw [signedOf, Int.bmod_def, ← Int.natCast_emod]
  by_cases h : n % 256 ^ size < (256 ^ size + 1) / 2
  · rw [if_pos h, if_pos (by exact_mod_cast h)]
  · rw [if_neg h, if_neg (by exact_mod_cast h)]

/-- A signed form is taken for what it is only if nothing was lost. -/
theorem int_message_iff (w : Width) (n : Nat) :
    (receivedInt w n).toInt64.toInt = signedOf w.size n ↔ (Wire.int w n).Kept := by
  rw [signedOf_eq]
  cases w with
  | w8 =>
      have hspoiled : (receivedInt .w8 n).toInt64.toInt = -256 :=
        (toInt_ofNat 0xFFFFFFFFFFFFFF00).trans (by decide)
      rw [hspoiled]
      simp only [Width.size, Wire.Kept, iff_false]
      omega
  | w16 =>
      have hmask := or_mask (a := 281474976710655) (Nat.mod_lt n (by decide : 0 < 2 ^ 16))
      have hset := toInt_set (Nat.mod_lt n (by decide : 0 < 2 ^ 16)) (by decide)
      have hbits : receivedInt .w16 n = UInt64.ofNat (n % 2 ^ 16 + (2 ^ 64 - 2 ^ 16)) :=
        congrArg UInt64.ofNat hmask
      rw [hbits, hset]
      simp only [Width.size, Wire.Kept]
      omega
  | w32 =>
      have hmask := or_mask (a := 4294967295) (Nat.mod_lt n (by decide : 0 < 2 ^ 32))
      have hset := toInt_set (Nat.mod_lt n (by decide : 0 < 2 ^ 32)) (by decide)
      have hbits : receivedInt .w32 n = UInt64.ofNat (n % 2 ^ 32 + (2 ^ 64 - 2 ^ 32)) :=
        congrArg UInt64.ofNat hmask
      rw [hbits, hset]
      simp only [Width.size, Wire.Kept]
      omega
  | w64 =>
      have hbits : (receivedInt .w64 n).toInt64.toInt = signedOf 8 n := by
        unfold receivedInt
        rw [toInt_ofNat, signedOf, Int.natCast_emod]
        exact Int.emod_bmod n (256 ^ 8)
      rw [hbits, ← signedOf_eq]
      exact iff_of_true rfl trivial

mutual

theorem Wire.message_iff : ∀ w : Wire, w.obj.message = w.message ↔ w.Kept
  | .nil => iff_of_true rfl trivial
  | .boolean _ => iff_of_true rfl trivial
  | .posFixint n => by
      have hnat : (UInt64.ofNat n.val).toNat = n.val :=
        UInt64.toNat_ofNat_of_lt' (Nat.lt_trans n.isLt (by decide))
      simp [Wire.obj, Obj.message, Wire.message, Wire.Kept, hnat]
  | .negFixint n => by
      simp only [Wire.obj, Obj.message, Wire.message, Wire.Kept, negFixint_message]
  | .uint w n => by
      simp only [Wire.obj, Obj.message, Wire.message, Wire.Kept, uint_message]
  | .int w n => by
      rw [Wire.obj, Obj.message, Wire.message, Message.integer.injEq]
      exact int_message_iff w n
  | .fixext _ _ _ => iff_of_true rfl trivial
  | .ext8 _ _ => iff_of_true rfl trivial
  | .string _ _ => iff_of_true rfl trivial
  | .array _ items => by
      rw [Wire.obj, Obj.message, Wire.message, Message.array.injEq, Wire.Kept]
      exact itemMessages_iff items
  | .map _ entries => by
      rw [Wire.obj, Obj.message, Wire.message, Message.dictionary.injEq, Wire.Kept]
      exact entryMessages_iff entries

theorem itemMessages_iff : ∀ ws : List Wire,
    objMessages (itemObjs ws) = itemMessages ws ↔ ItemsKept ws
  | [] => iff_of_true rfl trivial
  | w :: ws => by
      rw [itemObjs, objMessages, itemMessages, List.cons.injEq, ItemsKept, w.message_iff,
        itemMessages_iff ws]

theorem entryMessages_iff : ∀ ws : List (Wire × Wire),
    dictMessages (entryObjs ws) = entryMessages ws ↔ EntriesKept ws
  | [] => iff_of_true rfl trivial
  | (key, value) :: ws => by
      rw [entryObjs, dictMessages, entryMessages, List.cons.injEq, Prod.mk.injEq, EntriesKept,
        key.message_iff, value.message_iff, entryMessages_iff ws, and_assoc]

end

/--
**The decoder keeps to the format up to signed numbers.**  Of whatever is sent, in whatever
forms, it reads the whole message and no more, and what it has read is what was meant exactly
if no part of it is a signed byte or a positive number in a signed form of 16 or 32 bits.
-/
theorem doDecode_means_iff (w : Wire) (h : w.Ok) (rest : BString) :
    ∃ obj, doDecode (w.bytes ++ rest) = .ok (obj, rest) ∧ (obj.message = w.message ↔ w.Kept) :=
  ⟨w.obj, w.doDecode_obj h rest, w.message_iff⟩

/-- -300 in a signed form of 16 bits is kept, inside of a map. -/
theorem doDecode_means_map : (Wire.map .fix [(.string .fix [107], .int .w16 65236)]).Ok ∧
    ∃ obj, doDecode ((Wire.map .fix [(.string .fix [107], .int .w16 65236)]).bytes ++ [0xC0]) =
        .ok (obj, [0xC0]) ∧
      (obj.message = (Wire.map .fix [(.string .fix [107], .int .w16 65236)]).message ↔
        (Wire.map .fix [(.string .fix [107], .int .w16 65236)]).Kept) := by
  have hok : (Wire.map .fix [(.string .fix [107], .int .w16 65236)]).Ok := by
    simp [Wire.Ok, EntriesOk, SeqForm.Holds, StrForm.Holds]
  exact ⟨hok, doDecode_means_iff _ hok [0xC0]⟩

end TagHighlight
