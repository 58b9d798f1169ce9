/-
A peer hears what the encoder was told.

The encoder picks a form for every number, string and container; `Spells` says that what it
has written is an object in some form, with the meaning it was given.  That an object in any
form is heard as what it means is then an induction over the object.  Since hearing is a
function, no other message begins with these bytes.

The peer is `hear`, which is written down from the format and shares nothing with the decoder of
the program.  So these results say that the encoder is right even where the decoder is not: a
number that the program itself would not get back has been written as it should be.
-/
import TagHighlight.Mpack.Message
import TagHighlight.Proofs.Mpack.RoundTrip

namespace TagHighlight

open Bytes

/-! ### Taking from the front -/

theorem takeBytes_append (bs rest : BString) : takeBytes bs.length (bs ++ rest) = some (bs, rest) := by
  simp [takeBytes]

theorem takeNat_beBytes (size n : Nat) (rest : BString) :
    takeNat size (beBytes size n ++ rest) = some (n % 256 ^ size, rest) := by
  have hlen : (beBytes size n).length = size := by simp [beBytes]
  have htake := takeBytes_append (beBytes size n) rest
  rw [hlen] at htake
  simp only [takeNat, htake, Option.bind_eq_bind, Option.bind_some]
  rw [beBytes, List.reverse_reverse, ofLE_leBytes]

theorem hearString_append (str rest : BString) :
    hearString str.length (str ++ rest) = some (.string str, rest) := by
  simp only [hearString, takeBytes_append, Option.bind_eq_bind, Option.bind_some]

theorem hearExt_append (type : UInt8) (payload rest : BString) :
    hearExt payload.length (type :: payload ++ rest) = some (.ext type payload, rest) := by
  have htype : takeBytes 1 (type :: payload ++ rest) = some ([type], payload ++ rest) :=
    takeBytes_append [type] (payload ++ rest)
  simp only [hearExt, htype, takeBytes_append, Option.bind_eq_bind, Option.bind_some, List.headD_cons]

/-! ### First bytes -/

theorem headOf_fixint : ∀ n : Fin 128, headOf (UInt8.ofNat n) = .fixint n := by decide +kernel

theorem headOf_negFixint : ∀ n : Fin 32, headOf (UInt8.ofNat (n + 224)) = .negFixint n := by
  decide +kernel

theorem headOf_fixarray : ∀ n : Fin 16, headOf (0x90 ||| UInt8.ofNat n) = .fixarray n := by
  decide +kernel

theorem headOf_fixmap : ∀ n : Fin 16, headOf (0x80 ||| UInt8.ofNat n) = .fixmap n := by
  decide +kernel

theorem headOf_fixstr : ∀ n : Fin 32, headOf (0xA0 ||| UInt8.ofNat n) = .fixstr n := by
  decide +kernel

theorem headOf_uint (w : Width) : headOf w.uintCode = .uint w.size := by cases w <;> rfl

theorem headOf_int (w : Width) : headOf w.intCode = .int w.size := by cases w <;> rfl

theorem headOf_fixext (w : Width) : headOf w.fixextCode = .fixext w.size := by cases w <;> rfl

/-! ### Objects

A container is heard when its parts are, and each part is shorter than the whole.  `Hears` is
stated for any fuel that is enough for the bytes, so the parts can be heard with what the
container has left.
-/

/-- The bytes are heard as the message with any fuel that is not below their number. -/
def Hears (bs : BString) (m : Message) : Prop :=
  ∀ fuel rest, bs.length ≤ fuel → hearFuel fuel (bs ++ rest) = some (m, rest)

def HearsItems (bs : BString) (ms : List Message) : Prop :=
  ∀ fuel rest, bs.length ≤ fuel → hearItems (hearFuel fuel) ms.length (bs ++ rest) = some (ms, rest)

def HearsEntries (bs : BString) (ms : List (Message × Message)) : Prop :=
  ∀ fuel rest, bs.length ≤ fuel →
    hearEntries (hearFuel fuel) ms.length (bs ++ rest) = some (ms, rest)

/-- A first byte, and what follows it. -/
theorem Hears.cons {b : UInt8} {bs : BString} {m : Message}
    (h : ∀ fuel rest, bs.length ≤ fuel →
      hearAfter (hearFuel fuel) (headOf b) (bs ++ rest) = some (m, rest)) : Hears (b :: bs) m := by
  intro fuel rest hfuel
  rw [List.length_cons] at hfuel
  obtain ⟨k, rfl⟩ : ∃ k, fuel = k + 1 := ⟨fuel - 1, by omega⟩
  exact h k rest (by omega)

/-- A first byte with a number behind it, and the content. -/
theorem Hears.header {b : UInt8} (number : BString) {bs : BString} {m : Message}
    (h : ∀ fuel rest, bs.length ≤ fuel →
      hearAfter (hearFuel fuel) (headOf b) (number ++ (bs ++ rest)) = some (m, rest)) :
    Hears (b :: number ++ bs) m := by
  rw [List.cons_append]
  refine Hears.cons fun fuel rest hfuel => ?_
  rw [List.length_append] at hfuel
  rw [List.append_assoc]
  exact h fuel rest (by omega)

theorem Hears.hear {bs : BString} {m : Message} (h : Hears bs m) (rest : BString) :
    hear (bs ++ rest) = some (m, rest) := by
  refine h _ rest ?_
  rw [List.length_append]
  omega

theorem HearsItems.nil : HearsItems [] [] := fun _ _ _ => rfl

theorem HearsItems.cons {bs cs : BString} {m : Message} {ms : List Message} (h : Hears bs m)
    (hs : HearsItems cs ms) : HearsItems (bs ++ cs) (m :: ms) := by
  intro fuel rest hfuel
  rw [List.length_append] at hfuel
  simp only [List.length_cons, hearItems, List.append_assoc, h fuel (cs ++ rest) (by omega),
    hs fuel rest (by omega), Option.bind_eq_bind, Option.bind_some]

theorem HearsEntries.nil : HearsEntries [] [] := fun _ _ _ => rfl

theorem HearsEntries.cons {bs cs ds : BString} {key value : Message}
    {ms : List (Message × Message)} (hkey : Hears bs key) (hvalue : Hears cs value)
    (hs : HearsEntries ds ms) : HearsEntries (bs ++ cs ++ ds) ((key, value) :: ms) := by
  intro fuel rest hfuel
  simp only [List.length_append] at hfuel
  simp only [List.length_cons, hearEntries, List.append_assoc, hkey fuel (cs ++ (ds ++ rest)) (by omega),
    hvalue fuel (ds ++ rest) (by omega), hs fuel rest (by omega), Option.bind_eq_bind,
    Option.bind_some]

theorem HearsItems.array {bs : BString} {ms : List Message} (h : HearsItems bs ms) {fuel : Nat}
    (rest : BString) (hfuel : bs.length ≤ fuel) :
    hearArray (hearFuel fuel) ms.length (bs ++ rest) = some (.array ms, rest) := by
  simp only [hearArray, h fuel rest hfuel, Option.bind_eq_bind, Option.bind_some]

theorem HearsEntries.map {bs : BString} {ms : List (Message × Message)} (h : HearsEntries bs ms)
    {fuel : Nat} (rest : BString) (hfuel : bs.length ≤ fuel) :
    hearMap (hearFuel fuel) ms.length (bs ++ rest) = some (.dictionary ms, rest) := by
  simp only [hearMap, h fuel rest hfuel, Option.bind_eq_bind, Option.bind_some]

/-! ### Every form

These are the cases of the induction, one for each form.  For a signed number the bytes are two's
complement of their own width, and the reader takes off the modulus if the number is in the upper
half.
-/

theorem hears_number {b : UInt8} {size n : Nat} {m : Message}
    (h : ∀ fuel rest, hearAfter (hearFuel fuel) (headOf b) (beBytes size n ++ rest) = some (m, rest)) :
    Hears (b :: beBytes size n) m :=
  Hears.cons fun fuel rest _ => h fuel rest

theorem hears_uint (w : Width) (n : Nat) :
    Hears (w.uintCode :: beBytes w.size n) (.integer (n % 256 ^ w.size : Nat)) := by
  refine hears_number fun fuel rest => ?_
  simp only [headOf_uint, hearAfter, takeNat_beBytes, Option.bind_eq_bind, Option.bind_some]

theorem signedOf_mod (size n : Nat) : signedOf size (n % 256 ^ size) = signedOf size n := by
  rw [signedOf, signedOf, Int.natCast_emod, Int.emod_bmod]

theorem hears_int (w : Width) (n : Nat) :
    Hears (w.intCode :: beBytes w.size n) (.integer (signedOf w.size n)) := by
  refine hears_number fun fuel rest => ?_
  simp only [headOf_int, hearAfter, takeNat_beBytes, Option.bind_eq_bind, Option.bind_some,
    signedOf_mod]

theorem hears_string (form : StrForm) {str : BString} (h : form.Holds str.length) :
    Hears (form.header str.length ++ str) (.string str) := by
  cases form with
  | fix =>
      refine Hears.header [] fun fuel rest _ => ?_
      have hhead := headOf_fixstr ⟨str.length, h⟩
      simp only [List.nil_append, hhead, hearAfter, hearString_append]
  | str8 =>
      have hmod := Nat.mod_eq_of_lt (show str.length < 256 ^ 1 from h)
      refine Hears.header _ fun fuel rest _ => ?_
      simp only [show headOf 0xD9 = .str 1 from rfl, hearAfter, takeNat_beBytes, hmod,
        Option.bind_eq_bind, Option.bind_some, hearString_append]
  | str16 =>
      have hmod := Nat.mod_eq_of_lt (show str.length < 256 ^ 2 from h)
      refine Hears.header _ fun fuel rest _ => ?_
      simp only [show headOf 0xDA = .str 2 from rfl, hearAfter, takeNat_beBytes, hmod,
        Option.bind_eq_bind, Option.bind_some, hearString_append]
  | str32 =>
      have hmod := Nat.mod_eq_of_lt (show str.length < 256 ^ 4 from Nat.lt_succ_of_lt h)
      refine Hears.header _ fun fuel rest _ => ?_
      simp only [show headOf 0xDB = .str 4 from rfl, hearAfter, takeNat_beBytes, hmod,
        Option.bind_eq_bind, Option.bind_some, hearString_append]

theorem hears_array (form : SeqForm) {bs : BString} {ms : List Message}
    (h : form.Holds ms.length) (hs : HearsItems bs ms) :
    Hears (form.arrayHeader ms.length ++ bs) (.array ms) := by
  cases form with
  | fix =>
      refine Hears.header [] fun fuel rest hfuel => ?_
      have hhead := headOf_fixarray ⟨ms.length, h⟩
      simp only [List.nil_append, hhead, hearAfter, hs.array rest hfuel]
  | seq16 =>
      have hmod := Nat.mod_eq_of_lt (show ms.length < 256 ^ 2 from h)
      refine Hears.header _ fun fuel rest hfuel => ?_
      simp only [show headOf 0xDC = .array 2 from rfl, hearAfter, takeNat_beBytes, hmod,
        Option.bind_eq_bind, Option.bind_some, hs.array rest hfuel]
  | seq32 =>
      have hmod := Nat.mod_eq_of_lt (show ms.length < 256 ^ 4 from h)
      refine Hears.header _ fun fuel rest hfuel => ?_
      simp only [show headOf 0xDD = .array 4 from rfl, hearAfter, takeNat_beBytes, hmod,
        Option.bind_eq_bind, Option.bind_some, hs.array rest hfuel]

theorem hears_map (form : SeqForm) {bs : BString} {ms : List (Message × Message)}
    (h : form.Holds ms.length) (hs : HearsEntries bs ms) :
    Hears (form.mapHeader ms.length ++ bs) (.dictionary ms) := by
  cases form with
  | fix =>
      refine Hears.header [] fun fuel rest hfuel => ?_
      have hhead := headOf_fixmap ⟨ms.length, h⟩
      simp only [List.nil_append, hhead, hearAfter, hs.map rest hfuel]
  | seq16 =>
      have hmod := Nat.mod_eq_of_lt (show ms.length < 256 ^ 2 from h)
      refine Hears.header _ fun fuel rest hfuel => ?_
      simp only [show headOf 0xDE = .map 2 from rfl, hearAfter, takeNat_beBytes, hmod,
        Option.bind_eq_bind, Option.bind_some, hs.map rest hfuel]
  | seq32 =>
      have hmod := Nat.mod_eq_of_lt (show ms.length < 256 ^ 4 from h)
      refine Hears.header _ fun fuel rest hfuel => ?_
      simp only [show headOf 0xDF = .map 4 from rfl, hearAfter, takeNat_beBytes, hmod,
        Option.bind_eq_bind, Option.bind_some, hs.map rest hfuel]

theorem hears_fixext (w : Width) (type : UInt8) {payload : List UInt8}
    (h : payload.length = w.size) :
    Hears (w.fixextCode :: type :: payload) (.ext type payload) := by
  refine Hears.cons fun fuel rest _ => ?_
  rw [headOf_fixext, hearAfter, ← h, hearExt_append]

theorem hears_ext8 (type : UInt8) {payload : List UInt8} (h : payload.length ≤ 8) :
    Hears (0xC7 :: UInt8.ofNat payload.length :: type :: payload) (.ext type payload) := by
  have hmod := Nat.mod_eq_of_lt (show payload.length < 256 ^ 1 by omega)
  refine Hears.header (beBytes 1 payload.length) fun fuel rest _ => ?_
  simp only [show headOf 0xC7 = .ext8 from rfl, hearAfter, takeNat_beBytes, hmod,
    Option.bind_eq_bind, Option.bind_some, hearExt_append]

theorem itemMessages_length (ws : List Wire) : (itemMessages ws).length = ws.length := by
  induction ws with
  | nil => rfl
  | cons w ws ih => rw [itemMessages, List.length_cons, List.length_cons, ih]

theorem entryMessages_length (ws : List (Wire × Wire)) :
    (entryMessages ws).length = ws.length := by
  induction ws with
  | nil => rfl
  | cons w ws ih => rw [entryMessages, List.length_cons, List.length_cons, ih]

mutual

theorem Wire.hears : ∀ w : Wire, w.Ok → Hears w.bytes w.message
  | .nil, _ => Hears.cons fun _ _ _ => rfl
  | .boolean true, _ => Hears.cons fun _ _ _ => rfl
  | .boolean false, _ => Hears.cons fun _ _ _ => rfl
  | .posFixint n, _ => Hears.cons fun fuel rest _ => by
      rw [headOf_fixint, hearAfter, List.nil_append, Wire.message]
  | .negFixint n, _ => Hears.cons fun fuel rest _ => by
      rw [headOf_negFixint, hearAfter, List.nil_append, Wire.message]
  | .uint w n, _ => hears_uint w n
  | .int w n, _ => hears_int w n
  | .fixext w type _, h => hears_fixext w type h
  | .ext8 type _, h => hears_ext8 type h
  | .string form _, h => hears_string form h
  | .array form items, h => by
      have hlen := itemMessages_length items
      have hlens : form.Holds (itemMessages items).length := by rw [hlen]; exact h.1
      have hforms := hears_array form hlens (itemBytes_hears items h.2)
      rwa [hlen] at hforms
  | .map form entries, h => by
      have hlen := entryMessages_length entries
      have hlens : form.Holds (entryMessages entries).length := by rw [hlen]; exact h.1
      have hforms := hears_map form hlens (entryBytes_hears entries h.2)
      rwa [hlen] at hforms

theorem itemBytes_hears : ∀ ws : List Wire, ItemsOk ws → HearsItems (itemBytes ws) (itemMessages ws)
  | [], _ => HearsItems.nil
  | w :: ws, h => HearsItems.cons (w.hears h.1) (itemBytes_hears ws h.2)

theorem entryBytes_hears : ∀ ws : List (Wire × Wire), EntriesOk ws →
    HearsEntries (entryBytes ws) (entryMessages ws)
  | [], _ => HearsEntries.nil
  | (key, value) :: ws, h =>
      HearsEntries.cons (key.hears h.1) (value.hears h.2.1) (entryBytes_hears ws h.2.2)

end

/-- An object in any form is heard as what it means, and what follows it is left. -/
theorem Wire.hear_bytes (w : Wire) (h : w.Ok) (rest : BString) :
    hear (w.bytes ++ rest) = some (w.message, rest) := (w.hears h).hear rest

/-! ### The encoder

What the encoder appends for a part of a tree is an object in some form with the meaning of that
part.  Its choice of the form does not matter to the peer.  Where it goes outside the buffer
nothing can be said, so soundness is a part of the statement.
-/

/-- The call writes an object that means `m`. -/
def Writes (encode : Packed → Except Fault Packed) (m : Message) : Prop :=
  ∀ root, ∃ (root' : Packed) (w : Wire), encode root = .ok root' ∧ root'.data = root.data ++ w.bytes ∧ w.Ok ∧
    w.message = m

/-- The bits of a number that the width has room for. -/
theorem signedOf_bits {size bits : Nat} {v : Int} (hbits : (bits : Int) = v + 2 ^ 64)
    (hsize : size = 1 ∨ size = 2 ∨ size = 4 ∨ size = 8)
    (h : -(256 ^ size / 2 : Nat) ≤ v ∧ v < 0) : signedOf size bits = v := by
  rw [signedOf, Int.bmod_def]
  rcases hsize with rfl | rfl | rfl | rfl
  all_goals
    simp only [Nat.reducePow, Nat.reduceDiv] at h ⊢
    split <;> omega

theorem writes_unsigned (lib : BStringLib) (value : UInt64) :
    Writes (mpackEncodeUnsigned lib · value) (.integer value.toNat) := by
  intro root
  have hlt := value.toNat_lt
  simp only [mpackEncodeUnsigned]
  generalize value.toNat = bits at hlt ⊢
  by_cases h7 : bits ≤ 127
  · refine ⟨_, .posFixint ⟨bits, by omega⟩, by rw [if_pos h7], ?_, trivial, rfl⟩
    simp [Wire.bytes]
  rw [if_neg h7]
  by_cases h8 : bits < 255
  · refine ⟨_, .uint .w8 bits, by rw [if_pos h8], ?_, trivial, ?_⟩
    · simp [Wire.bytes, Width.uintCode, Width.size, beBytes, leBytes]
    · rw [Wire.message, Nat.mod_eq_of_lt (show bits < 256 ^ Width.w8.size by simp [Width.size]; omega)]
  rw [if_neg h8]
  by_cases h16 : bits ≤ 65535
  · refine ⟨_, .uint .w16 bits, by rw [if_pos h16], ?_, trivial, ?_⟩
    · simp [Wire.bytes, Width.uintCode, Width.size]
    · rw [Wire.message, Nat.mod_eq_of_lt (show bits < 256 ^ Width.w16.size by simp [Width.size]; omega)]
  rw [if_neg h16]
  by_cases h32 : bits ≤ 4294967295
  · refine ⟨_, .uint .w32 bits, by rw [if_pos h32], ?_, trivial, ?_⟩
    · simp [Wire.bytes, Width.uintCode, Width.size]
    · rw [Wire.message, Nat.mod_eq_of_lt (show bits < 256 ^ Width.w32.size by simp [Width.size]; omega)]
  · refine ⟨_, .uint .w64 bits, by rw [if_neg h32], ?_, trivial, ?_⟩
    · simp [Wire.bytes, Width.uintCode, Width.size]
    · rw [Wire.message, Nat.mod_eq_of_lt (show bits < 256 ^ Width.w64.size by simp [Width.size]; omega)]

theorem writes_negative (lib : BStringLib) {value : Int64} (h : value.toInt < 0) :
    Writes (mpackEncodeInteger lib · value) (.integer value.toInt) := by
  intro root
  have hv := toInt_eq_bits value
  have hlt : value.toUInt64.toNat < 2 ^ 64 := value.toUInt64.toNat_lt
  simp only [mpackEncodeInteger]
  generalize value.toUInt64.toNat = bits at hv hlt ⊢
  generalize value.toInt = v at h hv ⊢
  obtain ⟨hbits, hhigh⟩ : (bits : Int) = v + 2 ^ 64 ∧ 2 ^ 63 ≤ bits := by split at hv <;> omega
  clear hv
  rw [if_neg (show ¬v ≥ 0 by omega)]
  by_cases h5 : v ≥ -32
  · refine ⟨_, .negFixint ⟨(v + 32).toNat, by omega⟩, by rw [if_pos h5], ?_, trivial, ?_⟩
    · have hbyte : UInt8.ofNat bits = UInt8.ofNat ((v + 32).toNat + 224) := by
        refine UInt8.toNat_inj.mp ?_
        simp only [UInt8.toNat_ofNat']
        omega
      simp only [Packed.put_data, sanityCheck_data, Wire.bytes, hbyte]
    · rw [Wire.message, Message.integer.injEq, Int.toNat_of_nonneg (by omega)]
      omega
  rw [if_neg h5]
  by_cases h8 : v > -128
  · refine ⟨_, .int .w8 bits, by rw [if_pos h8], ?_, trivial, ?_⟩
    · simp [Wire.bytes, Width.intCode, Width.size, beBytes, leBytes]
    · rw [Wire.message, signedOf_bits hbits (by decide) ⟨by simp [Width.size]; omega, h⟩]
  rw [if_neg h8]
  by_cases h16 : v ≥ -32768
  · refine ⟨_, .int .w16 bits, by rw [if_pos h16], ?_, trivial, ?_⟩
    · simp [Wire.bytes, Width.intCode, Width.size]
    · rw [Wire.message, signedOf_bits hbits (by decide) ⟨by simp [Width.size]; omega, h⟩]
  rw [if_neg h16]
  by_cases h32 : v ≥ -2147483648
  · refine ⟨_, .int .w32 bits, by rw [if_pos h32], ?_, trivial, ?_⟩
    · simp [Wire.bytes, Width.intCode, Width.size]
    · rw [Wire.message, signedOf_bits hbits (by decide) ⟨by simp [Width.size]; omega, h⟩]
  · refine ⟨_, .int .w64 bits, by rw [if_neg h32, if_pos (by omega)], ?_, trivial, ?_⟩
    · simp [Wire.bytes, Width.intCode, Width.size]
    · rw [Wire.message, signedOf_bits hbits (by decide) ⟨by simp [Width.size]; omega, h⟩]

theorem writes_integer (lib : BStringLib) (value : Int64) :
    Writes (mpackEncodeInteger lib · value) (.integer value.toInt) := by
  by_cases h : 0 ≤ value.toInt
  · have hnat : (value.toUInt64.toNat : Int) = value.toInt := by
      have hlt : value.toUInt64.toNat < 2 ^ 64 := value.toUInt64.toNat_lt
      have hv := toInt_eq_bits value
      split at hv <;> omega
    intro root
    obtain ⟨root', w, hrun, hdata, hok, hmessage⟩ := writes_unsigned lib value.toUInt64 root
    exact ⟨root', w, (mpackEncodeInteger_nonneg lib root h).trans hrun, hdata, hok,
      by rw [hmessage, hnat]⟩
  · exact writes_negative lib (by omega)

theorem writes_string (lib : BStringLib) {str : Option BString}
    (h : (str.getD []).length < 4294967295) :
    Writes (mpackEncodeString lib · str) (.string (str.getD [])) := by
  intro root
  obtain ⟨form, hok, hdata⟩ :=
    stringHeader_form (sanityCheck lib root ((str.getD []).length + 5)) h
  refine ⟨_, .string form (str.getD []), rfl, ?_, hok, rfl⟩
  rw [Packed.concat_data, hdata, sanityCheck_data, Wire.bytes, List.append_assoc]

mutual

theorem Tree.writes (lib : BStringLib) : ∀ t : Tree, t.Sized → Writes (t.emit lib) t.message
  | .nil, _ => fun _ => ⟨_, .nil, rfl, by simp [Wire.bytes], trivial, rfl⟩
  | .boolean true, _ => fun _ => ⟨_, .boolean true, rfl, by simp [Wire.bytes], trivial, rfl⟩
  | .boolean false, _ => fun _ => ⟨_, .boolean false, rfl, by simp [Wire.bytes], trivial, rfl⟩
  | .integer value, _ => writes_integer lib value
  | .unsigned value, _ => writes_unsigned lib value
  | .string _, h => writes_string lib h
  | .array items, h => fun root => by
      obtain ⟨root1, form, hheader, hholds, hdata⟩ := arrayHeader_form lib root h.1
      obtain ⟨root2, ws, hitems, hdata', hlen, hok, hmessages⟩ := emitItems_writes lib items h.2 root1
      refine ⟨root2, .array form ws, ?_, ?_, ⟨hlen ▸ hholds, hok⟩, ?_⟩
      · rw [Tree.emit, hheader, Fault.ok_bind, hitems]
      · rw [hdata', hdata, Wire.bytes, hlen, List.append_assoc]
      · rw [Wire.message, hmessages, Tree.message]
  | .dictionary entries, h => fun root => by
      obtain ⟨root1, form, hheader, hholds, hdata⟩ := mapHeader_form lib root h.1
      obtain ⟨root2, ws, hentries, hdata', hlen, hok, hmessages⟩ :=
        emitEntries_writes lib entries h.2 root1
      refine ⟨root2, .map form ws, ?_, ?_, ⟨hlen ▸ hholds, hok⟩, ?_⟩
      · rw [Tree.emit, hheader, Fault.ok_bind, hentries]
      · rw [hdata', hdata, Wire.bytes, hlen, List.append_assoc]
      · rw [Wire.message, hmessages, Tree.message]

theorem emitItems_writes (lib : BStringLib) : ∀ ts : List Tree, SizedItems ts → ∀ root : Packed,
    ∃ root' ws, emitItems lib ts root = .ok root' ∧ root'.data = root.data ++ itemBytes ws ∧
      ws.length = ts.length ∧ ItemsOk ws ∧ itemMessages ws = treeMessages ts
  | [], _, root => ⟨root, [], rfl, by simp [itemBytes], rfl, trivial, rfl⟩
  | t :: ts, h, root => by
      obtain ⟨root1, w, hrun, hdata, hok, hmessage⟩ := t.writes lib h.1 root
      obtain ⟨root2, ws, hrun', hdata', hlen, hok', hmessages⟩ := emitItems_writes lib ts h.2 root1
      refine ⟨root2, w :: ws, ?_, ?_, by simp [hlen], ⟨hok, hok'⟩, ?_⟩
      · rw [emitItems, hrun, Fault.ok_bind, hrun']
      · rw [hdata', hdata, itemBytes, List.append_assoc]
      · rw [itemMessages, treeMessages, hmessage, hmessages]

theorem emitEntries_writes (lib : BStringLib) : ∀ es : List (Tree × Tree), SizedEntries es →
    ∀ root : Packed, ∃ root' ws, emitEntries lib es root = .ok root' ∧
      root'.data = root.data ++ entryBytes ws ∧ ws.length = es.length ∧ EntriesOk ws ∧
      entryMessages ws = pairMessages es
  | [], _, root => ⟨root, [], rfl, by simp [entryBytes], rfl, trivial, rfl⟩
  | (key, value) :: es, h, root => by
      obtain ⟨root1, w, hrun, hdata, hok, hmessage⟩ := key.writes lib h.1 root
      obtain ⟨root2, w', hrun', hdata', hok', hmessage'⟩ := value.writes lib h.2.1 root1
      obtain ⟨root3, ws, hrun'', hdata'', hlen, hok'', hmessages⟩ :=
        emitEntries_writes lib es h.2.2 root2
      refine ⟨root3, (w, w') :: ws, ?_, ?_, by simp [hlen], ⟨hok, hok', hok''⟩, ?_⟩
      · rw [emitEntries, hrun, Fault.ok_bind, hrun', Fault.ok_bind, hrun'']
      · simp only [hdata'', hdata', hdata, entryBytes, List.append_assoc]
      · rw [entryMessages, pairMessages, hmessage, hmessage', hmessages]

end

/-- What has been packed is heard as what was meant. -/
theorem Tree.hear_of_emit {lib : BStringLib} {t : Tree} {root : Packed} (h : t.Sized)
    (hrun : t.emit lib mpackMakeNew = .ok root) (rest : BString) :
    hear (root.data ++ rest) = some (t.message, rest) := by
  obtain ⟨root', w, hrun', hdata, hok, hmessage⟩ := t.writes lib h mpackMakeNew
  obtain rfl : root' = root := Except.ok.inj (hrun'.symm.trans hrun)
  have hnew : root'.data = w.bytes := hdata
  rw [hnew, w.hear_bytes hok rest, hmessage]

/-- The tree is packed inside the buffer, and a peer hears it and leaves what follows. -/
def Tree.IsHeard (lib : BStringLib) (t : Tree) : Prop :=
  ∃ root, t.emit lib mpackMakeNew = .ok root ∧ root.Sound ∧
    ∀ rest, hear (root.data ++ rest) = some (t.message, rest)

/--
**The encoder speaks MessagePack.**  A peer that keeps to the format hears what was meant, every
integer included, and leaves what follows, exactly if the encoder had room for it at every call.
-/
theorem hear_emit_iff {lib : BStringLib} (hlib : lib.Grows) (t : Tree) :
    t.IsHeard lib ↔ t.HasRoom lib := by
  rw [← Tree.hasRoom_iff hlib]
  constructor
  · rintro ⟨root, hrun, hsound, -⟩
    exact ⟨root, hrun, hsound⟩
  · rintro ⟨root, hrun, hsound⟩
    exact ⟨root, hrun, hsound, Tree.hear_of_emit (Tree.sized_of_emit hrun hsound.short).1 hrun⟩

/-- -100, which the decoder of the program does not get back, is heard by a peer. -/
theorem hear_emit_iff_negative :
    (Tree.array [.integer (-100), .string (some [107])]).IsHeard exactLib := by
  refine (hear_emit_iff exactLib_grows _).mpr ⟨?_, by decide +kernel, by decide +kernel⟩
  simp [Tree.Sized, SizedItems]

end TagHighlight
