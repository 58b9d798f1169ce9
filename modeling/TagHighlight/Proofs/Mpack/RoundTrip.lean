/-
What the encoder writes, the decoder reads.

The proof follows the tree.  For a container the header is read first; its count is what
the encoder put there, and the elements follow by induction.  Fuel is counted in bytes: a
stretch of bytes that stands for an object is read with any fuel that is not below its
length, so a container hands on enough fuel because its header took a byte.

What is read back differs from what was written in one way only, the integers that are lost, and
`Tree.toObj` says what these become.  So the theorem has two conditions, that the encoder has room
and that no integer of the tree is one of them, and fails as soon as either does.
-/
import TagHighlight.Proofs.Mpack.Room
import Mathlib.Data.List.Forall2

namespace TagHighlight

open Bytes

/-! ### What a tree stands for

The tree is the argument of the encoder and the object the result of the decoder.  They differ in
their leaves only: an object has its integers as signed or unsigned ones, by their sign, and a
string that is not there is read back as the empty one.
-/

mutual

/-- The object a tree is read back as. -/
def Tree.toObj : Tree → Obj
  | .nil => .nil
  | .boolean value => .boolean value
  | .integer value =>
      if 0 ≤ value.toInt then .unsigned value.toUInt64 else .signed value.toUInt64
  | .unsigned value => .unsigned value
  | .string str => .string (str.getD [])
  | .array items => .array (objItems items)
  | .dictionary entries => .dict (objEntries entries)

def objItems : List Tree → List Obj
  | [] => []
  | t :: ts => t.toObj :: objItems ts

def objEntries : List (Tree × Tree) → List (Obj × Obj)
  | [] => []
  | (k, v) :: es => (k.toObj, v.toObj) :: objEntries es

end

mutual

/-- Sizes are within what the encoder accepts, and no integer is one it loses. -/
def Tree.Fits : Tree → Prop
  | .nil => True
  | .boolean _ => True
  | .integer value => ¬(-127 ≤ value.toInt ∧ value.toInt ≤ -33)
  | .unsigned _ => True
  | .string str => (str.getD []).length < 4294967295
  | .array items => items.length < 4294967295 ∧ FitItems items
  | .dictionary entries => entries.length < 4294967295 ∧ FitEntries entries

def FitItems : List Tree → Prop
  | [] => True
  | t :: ts => t.Fits ∧ FitItems ts

def FitEntries : List (Tree × Tree) → Prop
  | [] => True
  | (k, v) :: es => k.Fits ∧ v.Fits ∧ FitEntries es

end

theorem objEntries_length (es : List (Tree × Tree)) : (objEntries es).length = es.length := by
  induction es with
  | nil => rfl
  | cons e es ih => simp [objEntries, ih]

/-! ### Reading with enough fuel

Fuel stands for the depth of the recursion.  It is never the fuel that a message runs out of
first, so a statement about reading is made for all fuel from the length of the bytes on.
-/

/-- `bs` is read as `obj` with any fuel that is not below its length. -/
def ReadsAll (bs : BString) (obj : Obj) : Prop :=
  ∀ fuel rest, bs.length ≤ fuel → decodeFuel fuel (bs ++ rest) = .ok (obj, rest)

def ReadsItems (bs : BString) (objs : List Obj) : Prop :=
  ∀ fuel rest, bs.length ≤ fuel →
    decodeItems (decodeFuel fuel) objs.length (bs ++ rest) = .ok (objs, rest)

def ReadsEntries (bs : BString) (objs : List (Obj × Obj)) : Prop :=
  ∀ fuel rest, bs.length ≤ fuel →
    decodeEntries (decodeFuel fuel) objs.length (bs ++ rest) = .ok (objs, rest)

theorem Reads.ne_nil {bs : BString} {obj : Obj} (h : Reads bs obj) : bs ≠ [] := by
  intro heq
  subst heq
  have := h 0 []
  simp [decodeFuel, readByte, objRead] at this

theorem Reads.all {bs : BString} {obj : Obj} (h : Reads bs obj) : ReadsAll bs obj := by
  intro fuel rest hfuel
  have hpos := List.length_pos_iff.mpr h.ne_nil
  obtain ⟨k, rfl⟩ : ∃ k, fuel = k + 1 := ⟨fuel - 1, by omega⟩
  exact h k rest

theorem ReadsAll.doDecode {bs : BString} {obj : Obj} (h : ReadsAll bs obj) :
    doDecode bs = .ok (obj, []) := by
  have hread := h (bs.length + 1) [] (Nat.le_succ _)
  rwa [List.append_nil] at hread

theorem ReadsItems.cons {bs cs : BString} {obj : Obj} {objs : List Obj} (h : ReadsAll bs obj)
    (hs : ReadsItems cs objs) : ReadsItems (bs ++ cs) (obj :: objs) := by
  intro fuel rest hfuel
  rw [List.length_append] at hfuel
  simp only [List.length_cons, decodeItems, List.append_assoc, h fuel (cs ++ rest) (by omega),
    Fault.ok_bind, hs fuel rest (by omega)]

theorem ReadsEntries.cons {bs cs ds : BString} {key value : Obj} {objs : List (Obj × Obj)}
    (hkey : ReadsAll bs key) (hvalue : ReadsAll cs value) (hs : ReadsEntries ds objs) :
    ReadsEntries (bs ++ cs ++ ds) ((key, value) :: objs) := by
  intro fuel rest hfuel
  simp only [List.length_append] at hfuel
  simp only [List.length_cons, decodeEntries, List.append_assoc,
    hkey fuel (cs ++ (ds ++ rest)) (by omega), hvalue fuel (ds ++ rest) (by omega), Fault.ok_bind,
    hs fuel rest (by omega)]

/-! ### Headers

A header says how many parts follow and nothing about them.  So it is enough to know for each form
of a header that it is read as a count, and then the parts are read one after the other.
-/

theorem low_or {b : UInt8} {k : Nat}
    (h : ∀ n : Fin k, ((b ||| UInt8.ofNat n) ^^^ b).toNat = n) {n : Nat} (hn : n < k) :
    ((b ||| UInt8.ofNat n) ^^^ b).toNat = n := h ⟨n, hn⟩

theorem find_fixarray : ∀ n : Fin 16, mMasks.find? (·.describes (0x90 ||| UInt8.ofNat n)) =
    some ⟨.array, .arrayF, true, 0x90, 4, "M_ARRAY_F"⟩ := by
  decide +kernel

theorem find_fixmap : ∀ n : Fin 16, mMasks.find? (·.describes (0x80 ||| UInt8.ofNat n)) =
    some ⟨.map, .fixmap, true, 0x80, 4, "M_FIXMAP_F"⟩ := by
  decide +kernel

theorem find_fixstr : ∀ n : Fin 32, mMasks.find? (·.describes (0xA0 ||| UInt8.ofNat n)) =
    some ⟨.string, .fixstr, true, 0xA0, 5, "M_FIXSTR_F"⟩ := by
  decide +kernel

/-- After the header `bs` the decoder reads an array of `len` objects. -/
def OpensArray (bs : BString) (len : Nat) : Prop :=
  ∀ fuel rest, decodeFuel (fuel + 1) (bs ++ rest) =
    (do let (lst, buf) ← decodeItems (decodeFuel fuel) len rest; .ok (.array lst, buf))

/-- After the header `bs` the decoder reads a dictionary of `len` entries. -/
def OpensDict (bs : BString) (len : Nat) : Prop :=
  ∀ fuel rest, decodeFuel (fuel + 1) (bs ++ rest) =
    (do let (lst, buf) ← decodeEntries (decodeFuel fuel) len rest; .ok (.dict lst, buf))

theorem opensArray_header (form : SeqForm) {len : Nat} (h : form.Holds len) :
    OpensArray (form.arrayHeader len) len := by
  intro fuel rest
  cases form with
  | fix =>
      have hmask := idPackType_of_find (find_fixarray ⟨len, h⟩)
      have hlow := low_or (b := 0x90) (by decide +kernel) h
      rw [SeqForm.arrayHeader, List.singleton_append, decodeFuel_cons hmask]
      simp only [decodeGroup, arraySize, if_true, Mask.low, hlow, Fault.ok_bind]
  | seq16 =>
      have hmask : idPackType 0xDC = .ok ⟨.array, .array16, false, 0xDC, 0, "M_ARRAY_16"⟩ := rfl
      rw [SeqForm.arrayHeader, List.cons_append, decodeFuel_cons hmask]
      simp only [decodeGroup, arraySize, Bool.false_eq_true, if_false, readSwapped_append,
        Fault.ok_bind, Nat.mod_eq_of_lt (show len < 256 ^ 2 from h)]
  | seq32 =>
      have hmask : idPackType 0xDD = .ok ⟨.array, .array32, false, 0xDD, 0, "M_ARRAY_32"⟩ := rfl
      rw [SeqForm.arrayHeader, List.cons_append, decodeFuel_cons hmask]
      simp only [decodeGroup, arraySize, Bool.false_eq_true, if_false, readSwapped_append,
        Fault.ok_bind, Nat.mod_eq_of_lt (show len < 256 ^ 4 from h)]

theorem opensDict_header (form : SeqForm) {len : Nat} (h : form.Holds len) :
    OpensDict (form.mapHeader len) len := by
  intro fuel rest
  cases form with
  | fix =>
      have hmask := idPackType_of_find (find_fixmap ⟨len, h⟩)
      have hlow := low_or (b := 0x80) (by decide +kernel) h
      rw [SeqForm.mapHeader, List.singleton_append, decodeFuel_cons hmask]
      simp only [decodeGroup, dictionarySize, if_true, Mask.low, hlow, Fault.ok_bind]
  | seq16 =>
      have hmask : idPackType 0xDE = .ok ⟨.map, .map16, false, 0xDE, 0, "M_MAP_16"⟩ := rfl
      rw [SeqForm.mapHeader, List.cons_append, decodeFuel_cons hmask]
      simp only [decodeGroup, dictionarySize, Bool.false_eq_true, if_false, readSwapped_append,
        Fault.ok_bind, Nat.mod_eq_of_lt (show len < 256 ^ 2 from h)]
  | seq32 =>
      have hmask : idPackType 0xDF = .ok ⟨.map, .map32, false, 0xDF, 0, "M_MAP_32"⟩ := rfl
      rw [SeqForm.mapHeader, List.cons_append, decodeFuel_cons hmask]
      simp only [decodeGroup, dictionarySize, Bool.false_eq_true, if_false, readSwapped_append,
        Fault.ok_bind, Nat.mod_eq_of_lt (show len < 256 ^ 4 from h)]

/-- A header takes a byte: without one the decoder would stop. -/
theorem OpensArray.ne_nil {bs : BString} {len : Nat} (h : OpensArray bs len) : bs ≠ [] := by
  intro heq
  subst heq
  have := h 0 []
  cases len with
  | zero => simp [decodeFuel, readByte, objRead, decodeItems] at this
  | succ len => simp [decodeFuel, readByte, objRead, decodeItems] at this

theorem OpensDict.ne_nil {bs : BString} {len : Nat} (h : OpensDict bs len) : bs ≠ [] := by
  intro heq
  subst heq
  have := h 0 []
  cases len with
  | zero => simp [decodeFuel, readByte, objRead, decodeEntries] at this
  | succ len => simp [decodeFuel, readByte, objRead, decodeEntries] at this

/-- A header and its elements are an array. -/
theorem OpensArray.readsAll {bs cs : BString} {objs : List Obj} (h : OpensArray bs objs.length)
    (hs : ReadsItems cs objs) : ReadsAll (bs ++ cs) (.array objs) := by
  intro fuel rest hfuel
  have hpos := List.length_pos_iff.mpr h.ne_nil
  rw [List.length_append] at hfuel
  obtain ⟨k, rfl⟩ : ∃ k, fuel = k + 1 := ⟨fuel - 1, by omega⟩
  rw [List.append_assoc, h, hs k rest (by omega)]
  rfl

theorem OpensDict.readsAll {bs cs : BString} {objs : List (Obj × Obj)}
    (h : OpensDict bs objs.length) (hs : ReadsEntries cs objs) :
    ReadsAll (bs ++ cs) (.dict objs) := by
  intro fuel rest hfuel
  have hpos := List.length_pos_iff.mpr h.ne_nil
  rw [List.length_append] at hfuel
  obtain ⟨k, rfl⟩ : ∃ k, fuel = k + 1 := ⟨fuel - 1, by omega⟩
  rw [List.append_assoc, h, hs k rest (by omega)]
  rfl

/-! ### The form that is chosen

The encoder takes the short form of a header if the count fits in it, and otherwise one with a
count of 16 or 32 bits.  Whatever it takes is a form that the format has for this count.
-/

theorem arrayHeader_form (lib : BStringLib) (root : Packed) {len : Nat} (h : len < 4294967295) :
    ∃ root' form, mpackEncodeArray lib root len = .ok root' ∧ SeqForm.Holds len form ∧
      root'.data = root.data ++ form.arrayHeader len := by
  rw [mpackEncodeArray]
  by_cases h4 : len < 16
  · exact ⟨_, .fix, by rw [if_pos h4], h4, by simp [SeqForm.arrayHeader]⟩
  by_cases h16 : len < 65535
  · exact ⟨_, .seq16, by rw [if_neg h4, if_pos h16], Nat.lt_succ_of_lt h16,
      by simp [SeqForm.arrayHeader]⟩
  · exact ⟨_, .seq32, by rw [if_neg h4, if_neg h16, if_pos h], Nat.lt_succ_of_lt h,
      by simp [SeqForm.arrayHeader]⟩

theorem mapHeader_form (lib : BStringLib) (root : Packed) {len : Nat} (h : len < 4294967295) :
    ∃ root' form, mpackEncodeDictionary lib root len = .ok root' ∧ SeqForm.Holds len form ∧
      root'.data = root.data ++ form.mapHeader len := by
  rw [mpackEncodeDictionary]
  by_cases h4 : len < 16
  · exact ⟨_, .fix, by rw [if_pos h4], h4, by simp [SeqForm.mapHeader]⟩
  by_cases h16 : len < 65535
  · exact ⟨_, .seq16, by rw [if_neg h4, if_pos h16], Nat.lt_succ_of_lt h16,
      by simp [SeqForm.mapHeader]⟩
  · exact ⟨_, .seq32, by rw [if_neg h4, if_neg h16, if_pos h], Nat.lt_succ_of_lt h,
      by simp [SeqForm.mapHeader]⟩

theorem stringHeader_form (root : Packed) {len : Nat} (h : len < 4294967295) :
    ∃ form, StrForm.Holds len form ∧ (stringHeader root len).data = root.data ++ form.header len := by
  rw [stringHeader]
  by_cases h5 : len < 32
  · exact ⟨.fix, h5, by rw [if_pos h5]; simp [StrForm.header]⟩
  rw [if_neg h5]
  by_cases h8 : len < 255
  · exact ⟨.str8, Nat.lt_succ_of_lt h8, by rw [if_pos h8]; simp [StrForm.header, beBytes, leBytes]⟩
  rw [if_neg h8]
  by_cases h16 : len < 65535
  · exact ⟨.str16, Nat.lt_succ_of_lt h16, by rw [if_pos h16]; simp [StrForm.header]⟩
  · exact ⟨.str32, h, by rw [if_neg h16]; simp [StrForm.header]⟩

theorem mpackEncodeArray_header (lib : BStringLib) (root : Packed) {len : Nat}
    (h : len < 4294967295) :
    ∃ root' bs, mpackEncodeArray lib root len = .ok root' ∧ root'.data = root.data ++ bs ∧
      OpensArray bs len := by
  obtain ⟨root', form, hrun, hok, hdata⟩ := arrayHeader_form lib root h
  exact ⟨root', _, hrun, hdata, opensArray_header form hok⟩

theorem mpackEncodeDictionary_header (lib : BStringLib) (root : Packed) {len : Nat}
    (h : len < 4294967295) :
    ∃ root' bs, mpackEncodeDictionary lib root len = .ok root' ∧ root'.data = root.data ++ bs ∧
      OpensDict bs len := by
  obtain ⟨root', form, hrun, hok, hdata⟩ := mapHeader_form lib root h
  exact ⟨root', _, hrun, hdata, opensDict_header form hok⟩

/-! ### Strings -/

/-- Once its size is known, a string is read byte for byte. -/
theorem decodeString_of_size {ch : UInt8} {mask : Mask} (bs : BString) {str rest : BString}
    (hlen : str.length < 4294967295)
    (hsize : stringSize ch mask (bs ++ (str ++ rest)) = .ok (str.length, str ++ rest)) :
    decodeString ch mask (bs ++ (str ++ rest)) = .ok (.string str, rest) := by
  have hone : ¬(str.length + 1) % 2 ^ 32 = 0 := by omega
  simp only [decodeString, hsize, Fault.ok_bind, if_neg hone, objRead_append]

/-- Every form of a string is read. -/
theorem reads_string (form : StrForm) {str : BString} (h : form.Holds str.length) :
    Reads (form.header str.length ++ str) (.string str) := by
  intro fuel rest
  rw [List.append_assoc]
  cases form with
  | fix =>
      have hshort : str.length < 32 := h
      have hmask := idPackType_of_find (find_fixstr ⟨str.length, hshort⟩)
      have hlow := low_or (b := 0xA0) (by decide +kernel) hshort
      rw [StrForm.header, List.singleton_append, decodeFuel_cons hmask]
      exact decodeString_of_size [] (by omega) (by
        simp only [stringSize, if_true, Mask.low, hlow, List.nil_append])
  | str8 =>
      have hshort : str.length < 256 := h
      have hmask : idPackType 0xD9 = .ok ⟨.string, .str8, false, 0xD9, 0, "M_STR_8"⟩ := rfl
      have hbyte : (UInt8.ofNat str.length).toNat = str.length := by
        rw [UInt8.toNat_ofNat']
        omega
      rw [StrForm.header, List.cons_append, decodeFuel_cons hmask]
      exact decodeString_of_size [UInt8.ofNat str.length] (by omega) (by
        simp only [stringSize, Bool.false_eq_true, if_false, List.singleton_append, readByte_cons,
          Fault.ok_bind, hbyte])
  | str16 =>
      have hshort : str.length < 256 ^ 2 := h
      have hmask : idPackType 0xDA = .ok ⟨.string, .str16, false, 0xDA, 0, "M_STR_16"⟩ := rfl
      rw [StrForm.header, List.cons_append, decodeFuel_cons hmask]
      exact decodeString_of_size _ (by omega) (by
        simp only [stringSize, Bool.false_eq_true, if_false, readSwapped_append,
          Nat.mod_eq_of_lt hshort])
  | str32 =>
      have hshort : str.length < 4294967295 := h
      have hmask : idPackType 0xDB = .ok ⟨.string, .str32, false, 0xDB, 0, "M_STR_32"⟩ := rfl
      rw [StrForm.header, List.cons_append, decodeFuel_cons hmask]
      exact decodeString_of_size _ hshort (by
        simp only [stringSize, Bool.false_eq_true, if_false, readSwapped_append,
          Nat.mod_eq_of_lt (show str.length < 256 ^ 4 by omega)])

theorem stringHeader_reads (root : Packed) {str : BString} (h : str.length < 4294967295) :
    ∃ bs, (stringHeader root str.length).data = root.data ++ bs ∧
      Reads (bs ++ str) (.string str) := by
  obtain ⟨form, hok, hdata⟩ := stringHeader_form root h
  exact ⟨_, hdata, reads_string form hok⟩

/-! ### One byte and no more -/

theorem reads_nil : Reads [0xC0] .nil :=
  reads_cons ⟨.nil, .nil, false, 0xC0, 0, "M_NIL"⟩ rfl fun _ _ => rfl

theorem reads_true : Reads [0xC3] (.boolean true) :=
  reads_cons ⟨.bool, .bTrue, false, 0xC3, 0, "M_TRUE"⟩ rfl fun _ _ => rfl

theorem reads_false : Reads [0xC2] (.boolean false) :=
  reads_cons ⟨.bool, .bFalse, false, 0xC2, 0, "M_FALSE"⟩ rfl fun _ _ => rfl

/-! ### Trees

By induction on the tree: the calls for it append bytes that are read as its object.  The parts of
a container are lists of trees, so the induction is a mutual one over trees, items and entries.
-/

theorem readBack_of_fits {value : Int64} (h : ¬(-127 ≤ value.toInt ∧ value.toInt ≤ -33)) :
    readBack value = (Tree.integer value).toObj := by
  rw [readBack, Tree.toObj, if_neg h]

/-- The calls for the tree are made, and the bytes they append are read as the object. -/
def EmitsAs (lib : BStringLib) (t : Tree) (obj : Obj) : Prop :=
  ∀ root, ∃ root' bs, t.emit lib root = .ok root' ∧ root'.data = root.data ++ bs ∧ ReadsAll bs obj

namespace EmitsAs

variable {lib : BStringLib}

theorem integer (value : Int64) : EmitsAs lib (.integer value) (readBack value) := by
  intro root
  obtain ⟨root', bs, henc, hdata, hread⟩ := mpackEncodeInteger_reads lib root value
  exact ⟨root', bs, henc, hdata, hread.all⟩

theorem string {str : Option BString} (h : (str.getD []).length < 4294967295) :
    EmitsAs lib (.string str) (.string (str.getD [])) := by
  intro root
  obtain ⟨bs, hdata, hread⟩ := stringHeader_reads
    (sanityCheck lib root ((str.getD []).length + 5)) h
  refine ⟨_, bs ++ str.getD [], rfl, ?_, hread.all⟩
  rw [Packed.concat_data, hdata, sanityCheck_data, List.append_assoc]

theorem items {ts : List Tree} {objs : List Obj} (h : List.Forall₂ (EmitsAs lib) ts objs)
    (root : Packed) : ∃ root' bs, emitItems lib ts root = .ok root' ∧
      root'.data = root.data ++ bs ∧ ReadsItems bs objs := by
  induction h generalizing root with
  | nil => exact ⟨root, [], rfl, by simp, fun fuel rest _ => rfl⟩
  | cons hhead _ ih =>
      obtain ⟨root1, bs, hrun, hdata, hread⟩ := hhead root
      obtain ⟨root2, cs, hrun', hdata', hreads⟩ := ih root1
      refine ⟨root2, bs ++ cs, ?_, by rw [hdata', hdata, List.append_assoc],
        ReadsItems.cons hread hreads⟩
      rw [emitItems, hrun, Fault.ok_bind, hrun']

theorem array {ts : List Tree} {objs : List Obj} (hlen : ts.length < 4294967295)
    (h : List.Forall₂ (EmitsAs lib) ts objs) : EmitsAs lib (.array ts) (.array objs) := by
  intro root
  obtain ⟨root1, bs, henc, hdata, hopens⟩ := mpackEncodeArray_header lib root hlen
  obtain ⟨root2, cs, hitems, hdata', hreads⟩ := items h root1
  rw [h.length_eq] at hopens
  refine ⟨root2, bs ++ cs, ?_, by rw [hdata', hdata, List.append_assoc], hopens.readsAll hreads⟩
  rw [Tree.emit, henc, Fault.ok_bind, hitems]

end EmitsAs

mutual

theorem Tree.emit_reads (lib : BStringLib) : ∀ t : Tree, t.Fits → EmitsAs lib t t.toObj
  | .nil, _ => fun _ => ⟨_, [0xC0], rfl, by simp, reads_nil.all⟩
  | .boolean true, _ => fun _ => ⟨_, [0xC3], rfl, by simp, reads_true.all⟩
  | .boolean false, _ => fun _ => ⟨_, [0xC2], rfl, by simp, reads_false.all⟩
  | .integer value, h => readBack_of_fits h ▸ EmitsAs.integer value
  | .unsigned value, _ => fun root => by
      obtain ⟨root', bs, henc, hdata, hread⟩ := mpackEncodeUnsigned_reads lib root value
      exact ⟨root', bs, henc, hdata, hread.all⟩
  | .string _, h => EmitsAs.string h
  | .array items, h => EmitsAs.array h.1 (emitItems_reads lib items h.2)
  | .dictionary entries, h => fun root => by
      obtain ⟨root1, bs, henc, hdata, hopens⟩ := mpackEncodeDictionary_header lib root h.1
      obtain ⟨root2, cs, hentries, hdata', hreads⟩ := emitEntries_reads lib entries root1 h.2
      rw [← objEntries_length] at hopens
      refine ⟨root2, bs ++ cs, ?_, by rw [hdata', hdata, List.append_assoc], hopens.readsAll hreads⟩
      rw [Tree.emit, henc, Fault.ok_bind, hentries]

theorem emitItems_reads (lib : BStringLib) : ∀ ts : List Tree, FitItems ts →
    List.Forall₂ (EmitsAs lib) ts (objItems ts)
  | [], _ => .nil
  | t :: ts, h => .cons (t.emit_reads lib h.1) (emitItems_reads lib ts h.2)

theorem emitEntries_reads (lib : BStringLib) : ∀ (es : List (Tree × Tree)) (root : Packed),
    FitEntries es → ∃ root' bs, emitEntries lib es root = .ok root' ∧
      root'.data = root.data ++ bs ∧ ReadsEntries bs (objEntries es)
  | [], root, _ => ⟨root, [], rfl, by simp, fun fuel rest _ => rfl⟩
  | (k, v) :: es, root, h => by
      obtain ⟨root1, bs, hrun, hdata, hread⟩ := k.emit_reads lib h.1 root
      obtain ⟨root2, cs, hrun2, hdata2, hread2⟩ := v.emit_reads lib h.2.1 root1
      obtain ⟨root3, ds, hrun3, hdata3, hreads⟩ := emitEntries_reads lib es root2 h.2.2
      refine ⟨root3, bs ++ cs ++ ds, ?_, ?_, ReadsEntries.cons hread hread2 hreads⟩
      · rw [emitEntries, hrun, Fault.ok_bind, hrun2, Fault.ok_bind, hrun3]
      · rw [hdata3, hdata2, hdata, List.append_assoc, List.append_assoc, List.append_assoc]

end

mutual

theorem Tree.Fits.sized : ∀ {t : Tree}, t.Fits → t.Sized
  | .nil, _ => trivial
  | .boolean _, _ => trivial
  | .integer _, _ => trivial
  | .unsigned _, _ => trivial
  | .string _, h => h
  | .array _, h => ⟨h.1, sizedItems_of_fit h.2⟩
  | .dictionary _, h => ⟨h.1, sizedEntries_of_fit h.2⟩

theorem sizedItems_of_fit : ∀ {ts : List Tree}, FitItems ts → SizedItems ts
  | [], _ => trivial
  | _ :: _, h => ⟨h.1.sized, sizedItems_of_fit h.2⟩

theorem sizedEntries_of_fit : ∀ {es : List (Tree × Tree)}, FitEntries es → SizedEntries es
  | [], _ => trivial
  | _ :: _, h => ⟨h.1.sized, h.2.1.sized, sizedEntries_of_fit h.2.2⟩

end

theorem fitItems_of_forall {ts : List Tree} (h : ∀ t ∈ ts, t.Fits) : FitItems ts := by
  induction ts with
  | nil => trivial
  | cons t ts ih =>
      exact ⟨h t List.mem_cons_self, ih fun t' ht' => h t' (List.mem_cons_of_mem _ ht')⟩

/-- The tree is packed inside the buffer, and decoding gives it back and leaves what follows. -/
def Tree.RoundTrips (lib : BStringLib) (t : Tree) : Prop :=
  ∃ root, t.emit lib mpackMakeNew = .ok root ∧ root.Sound ∧
    ∀ rest, doDecode (root.data ++ rest) = .ok (t.toObj, rest)

/--
**The round trip.**  A tree comes back, whatever follows it, exactly if the encoder had room for
it at every call: the bytes are the right ones in any case, but then they are all inside the
buffer.
-/
theorem doDecode_emit_iff {lib : BStringLib} (hlib : lib.Grows) {t : Tree} (h : t.Fits) :
    t.RoundTrips lib ↔ t.HasRoom lib := by
  constructor
  · rintro ⟨root, hrun, hsound, -⟩
    exact (Tree.sound_iff hlib hrun).mp hsound
  · intro hroom
    obtain ⟨root, bs, hrun, hdata, hread⟩ := t.emit_reads lib h mpackMakeNew
    obtain rfl : root.data = bs := hdata
    refine ⟨root, hrun, (Tree.sound_iff hlib hrun).mpr hroom, fun rest => hread _ rest ?_⟩
    rw [List.length_append]
    omega

/-- A dictionary with an array in it. -/
def sampleTree : Tree :=
  .dictionary [(.string (some [107]), .array [.nil, .unsigned 70000, .boolean true])]

theorem sampleTree_fits : sampleTree.Fits := by
  simp [sampleTree, Tree.Fits, FitItems, FitEntries]

theorem doDecode_emit_iff_sample :
    (sampleTree.RoundTrips exactLib ↔ sampleTree.HasRoom exactLib) ∧ sampleTree.HasRoom exactLib :=
  ⟨doDecode_emit_iff exactLib_grows sampleTree_fits, sampleTree_fits.sized, by decide +kernel,
    by decide +kernel⟩

/-- 127 bytes are in the buffer when the header of the string comes. -/
def nilsThenString : Tree := .array (List.replicate 124 .nil ++ [.string (some (List.replicate 200 97))])

theorem nilsThenString_fits : nilsThenString.Fits := by
  refine ⟨by simp, fitItems_of_forall fun t ht => ?_⟩
  rcases List.mem_append.mp ht with hnil | hstring
  · obtain rfl := List.eq_of_mem_replicate hnil
    trivial
  · obtain rfl := List.mem_singleton.mp hstring
    rw [Tree.Fits, Option.getD_some, List.length_replicate]
    decide

theorem nilsThenString_not_roundTrips : nilsThenString.Fits ∧ ¬ nilsThenString.RoundTrips exactLib := by
  refine ⟨nilsThenString_fits, ?_⟩
  rintro ⟨root, hrun, hsound, -⟩
  have hroom := (Tree.sound_iff exactLib_grows hrun).mp hsound
  exact absurd hroom.fits (by decide +kernel)

/-! ### The bound on the nesting is never felt

The recursion of the decoder is on the bytes it has left, and every object takes at least one of
them.  So with as much fuel as there are bytes it never ends for lack of fuel, and more makes no
difference.
-/

/-- No more is left unread than there was. -/
def Shrinks {α : Type} (d : Decoder α) : Prop :=
  ∀ buf a rest, d buf = .ok (a, rest) → rest.length ≤ buf.length

section Shrinks

variable {α β : Type}

theorem shrinks_objRead (n : Nat) : Shrinks (objRead n) := by
  intro buf a rest h
  rw [objRead] at h
  split at h
  · cases h
  · simp only [Except.ok.injEq, Prod.mk.injEq] at h
    rw [← h.2, List.length_drop]
    omega

theorem shrinks_ok (a : α) : Shrinks fun buf => .ok (a, buf) := by
  intro buf b rest h
  simp only [Except.ok.injEq, Prod.mk.injEq] at h
  exact h.2 ▸ Nat.le_refl _

theorem shrinks_error (e : Fault) : Shrinks (α := α) fun _ => .error e := by
  intro buf b rest h
  cases h

/-- A step and then another one, on whatever the first has left. -/
theorem Shrinks.bind {d : Decoder α} {f : α → Decoder β} (hd : Shrinks d)
    (hf : ∀ a, Shrinks (f a)) : Shrinks fun buf => d buf >>= fun x => f x.1 x.2 := by
  intro buf b rest h
  obtain ⟨⟨a, mid⟩, hmid, hrest⟩ := Fault.bind_eq_ok.mp h
  exact Nat.le_trans (hf a _ _ _ hrest) (hd _ _ _ hmid)

theorem Shrinks.ite {c : Prop} [Decidable c] {d e : Decoder α} (hd : Shrinks d) (he : Shrinks e) :
    Shrinks fun buf => if c then d buf else e buf := by
  by_cases h : c
  · simpa only [if_pos h] using hd
  · simpa only [if_neg h] using he

end Shrinks

theorem shrinks_readByte : Shrinks readByte :=
  (shrinks_objRead 1).bind fun bytes => shrinks_ok (bytes.headD 0)

theorem shrinks_readSwapped (width : Nat) : Shrinks (readSwapped width) :=
  (shrinks_objRead width).bind fun bytes => shrinks_ok (bswap width (ofLE bytes))

theorem shrinks_arraySize (ch : UInt8) (mask : Mask) : Shrinks (arraySize ch mask) := by
  refine Shrinks.ite (shrinks_ok _) fun buf a rest h => ?_
  split at h
  · exact shrinks_readSwapped 2 _ _ _ h
  · exact shrinks_readSwapped 4 _ _ _ h
  · exact shrinks_error _ _ _ _ h

theorem shrinks_dictionarySize (ch : UInt8) (mask : Mask) : Shrinks (dictionarySize ch mask) := by
  refine Shrinks.ite (shrinks_ok _) fun buf a rest h => ?_
  split at h
  · exact shrinks_readSwapped 2 _ _ _ h
  · exact shrinks_readSwapped 4 _ _ _ h
  · exact shrinks_error _ _ _ _ h

theorem shrinks_decodeString (ch : UInt8) (mask : Mask) : Shrinks (decodeString ch mask) := by
  have hsize : Shrinks (stringSize ch mask) := by
    refine Shrinks.ite (shrinks_ok _) fun buf a rest h => ?_
    split at h
    · exact shrinks_readByte.bind (fun b => shrinks_ok _) _ _ _ h
    · exact shrinks_readSwapped 2 _ _ _ h
    · exact shrinks_readSwapped 4 _ _ _ h
    · exact shrinks_error _ _ _ _ h
  intro buf a rest h
  obtain ⟨⟨size, buf1⟩, hrun, h⟩ := Fault.bind_eq_ok.mp h
  have h1 := hsize _ _ _ hrun
  dsimp only at h h1
  split at h
  · cases h
  · obtain ⟨⟨bytes, buf2⟩, hread, h⟩ := Fault.bind_eq_ok.mp h
    have h2 := shrinks_objRead _ _ _ _ hread
    have h3 : rest.length ≤ buf2.length := shrinks_ok _ _ _ _ h
    omega

theorem shrinks_decodeInteger (ch : UInt8) (mask : Mask) : Shrinks (decodeInteger ch mask) := by
  have hvalue : Shrinks (integerValue ch mask) := by
    refine Shrinks.ite (shrinks_ok _) fun buf a rest h => ?_
    split at h
    · exact shrinks_readByte.bind (fun _ => shrinks_ok _) _ _ _ h
    · exact (shrinks_readSwapped 2).bind (fun n => shrinks_ok (n ||| _)) _ _ _ h
    · exact (shrinks_readSwapped 4).bind (fun n => shrinks_ok (n ||| _)) _ _ _ h
    · exact shrinks_readSwapped 8 _ _ _ h
    · exact shrinks_error _ _ _ _ h
  exact hvalue.bind fun value => shrinks_ok (Obj.signed (UInt64.ofNat value))

theorem shrinks_decodeUnsigned (ch : UInt8) (mask : Mask) : Shrinks (decodeUnsigned ch mask) := by
  have hvalue : Shrinks (unsignedValue ch mask) := by
    refine Shrinks.ite (shrinks_ok _) fun buf a rest h => ?_
    split at h
    · exact shrinks_readByte.bind (fun b => shrinks_ok b.toNat) _ _ _ h
    · exact shrinks_readSwapped 2 _ _ _ h
    · exact shrinks_readSwapped 4 _ _ _ h
    · exact shrinks_readSwapped 8 _ _ _ h
    · exact shrinks_error _ _ _ _ h
  exact hvalue.bind fun value => shrinks_ok (Obj.unsigned (UInt64.ofNat value))

theorem shrinks_decodeExt (mask : Mask) : Shrinks (decodeExt mask) := by
  have hread : ∀ len, Shrinks (readExt len) := fun len =>
    shrinks_readByte.bind fun type => (shrinks_objRead len).bind fun payload =>
      shrinks_ok (Obj.ext { type := type, len := UInt8.ofNat len, payload := payload })
  intro buf a rest h
  rw [decodeExt] at h
  split at h
  · exact hread 1 _ _ _ h
  · exact hread 2 _ _ _ h
  · exact hread 4 _ _ _ h
  · exact hread 8 _ _ _ h
  · obtain ⟨⟨len, buf1⟩, hlen, h⟩ := Fault.bind_eq_ok.mp h
    obtain ⟨⟨type, buf2⟩, htype, h⟩ := Fault.bind_eq_ok.mp h
    have h1 := shrinks_readByte _ _ _ hlen
    have h2 := shrinks_readByte _ _ _ htype
    dsimp only at h
    split at h
    · cases h
    · obtain ⟨⟨payload, buf3⟩, hpayload, h⟩ := Fault.bind_eq_ok.mp h
      have h3 := shrinks_objRead _ _ _ _ hpayload
      have h4 : rest.length ≤ buf3.length := shrinks_ok _ _ _ _ h
      omega
  · exact shrinks_error _ _ _ _ h

theorem Shrinks.items {d : Decoder Obj} (hd : Shrinks d) : ∀ n, Shrinks (decodeItems d n) := by
  intro n
  induction n with
  | zero => exact shrinks_ok []
  | succ n ih => exact hd.bind fun item => ih.bind fun items => shrinks_ok (item :: items)

theorem Shrinks.entries {d : Decoder Obj} (hd : Shrinks d) : ∀ n, Shrinks (decodeEntries d n) := by
  intro n
  induction n with
  | zero => exact shrinks_ok []
  | succ n ih =>
      exact hd.bind fun key => hd.bind fun value => ih.bind fun entries =>
        shrinks_ok ((key, value) :: entries)

theorem Shrinks.group {d : Decoder Obj} (hd : Shrinks d) (ch : UInt8) (mask : Mask) :
    Shrinks (decodeGroup d ch mask) := by
  intro buf a rest h
  rw [decodeGroup] at h
  split at h
  · exact shrinks_ok _ _ _ _ h
  · obtain ⟨b, -, h⟩ := Fault.bind_eq_ok.mp h
    exact shrinks_ok _ _ _ _ h
  · exact (shrinks_arraySize ch mask).bind 
      (fun n => (hd.items n).bind fun lst => shrinks_ok (Obj.array lst)) _ _ _ h
  · exact (shrinks_dictionarySize ch mask).bind
      (fun n => (hd.entries n).bind fun lst => shrinks_ok (Obj.dict lst)) _ _ _ h
  · exact shrinks_decodeString ch mask _ _ _ h
  · exact shrinks_decodeExt mask _ _ _ h
  · exact shrinks_decodeInteger ch mask _ _ _ h
  · exact shrinks_decodeInteger ch mask _ _ _ h
  · exact shrinks_decodeUnsigned ch mask _ _ _ h
  · exact shrinks_decodeUnsigned ch mask _ _ _ h
  · exact shrinks_error _ _ _ _ h

theorem shrinks_decodeFuel : ∀ fuel, Shrinks (decodeFuel fuel) := by
  intro fuel
  induction fuel with
  | zero => exact shrinks_error _
  | succ fuel ih =>
      refine Shrinks.bind (f := fun ch buf => do
        decodeGroup (decodeFuel fuel) ch (← idPackType ch) buf) shrinks_readByte
          fun ch buf a rest h => ?_
      obtain ⟨mask, -, h⟩ := Fault.bind_eq_ok.mp h
      exact ih.group ch mask _ _ _ h

/-- Two decoders that agree on short strings agree on what a container makes of them. -/
theorem decodeItems_congr {d e : Decoder Obj} {k : Nat} (hd : Shrinks d)
    (h : ∀ buf, buf.length ≤ k → d buf = e buf) :
    ∀ n buf, buf.length ≤ k → decodeItems d n buf = decodeItems e n buf := by
  intro n
  induction n with
  | zero => intro buf _; rfl
  | succ n ih =>
      intro buf hbuf
      rw [decodeItems, decodeItems, ← h buf hbuf]
      cases hrun : d buf with
      | error e => rfl
      | ok x =>
          have hx := hd _ _ _ hrun
          simp only [Fault.ok_bind, ih x.2 (by omega)]

theorem decodeEntries_congr {d e : Decoder Obj} {k : Nat} (hd : Shrinks d)
    (h : ∀ buf, buf.length ≤ k → d buf = e buf) :
    ∀ n buf, buf.length ≤ k → decodeEntries d n buf = decodeEntries e n buf := by
  intro n
  induction n with
  | zero => intro buf _; rfl
  | succ n ih =>
      intro buf hbuf
      rw [decodeEntries, decodeEntries, ← h buf hbuf]
      cases hrun : d buf with
      | error e => rfl
      | ok x =>
          have hx := hd _ _ _ hrun
          simp only [Fault.ok_bind, ← h x.2 (by omega)]
          cases hrun' : d x.2 with
          | error e => rfl
          | ok y =>
              have hy := hd _ _ _ hrun'
              simp only [Fault.ok_bind, ih y.2 (by omega)]

theorem decodeGroup_congr {d e : Decoder Obj} {k : Nat} (hd : Shrinks d)
    (h : ∀ buf, buf.length ≤ k → d buf = e buf) (ch : UInt8) (mask : Mask) {buf : BString}
    (hbuf : buf.length ≤ k) : decodeGroup d ch mask buf = decodeGroup e ch mask buf := by
  rw [decodeGroup, decodeGroup]
  cases mask.group with
  | array =>
      cases hsize : arraySize ch mask buf with
      | error e => rfl
      | ok x =>
          have hx := shrinks_arraySize ch mask _ _ _ hsize
          simp only [Fault.ok_bind, decodeItems_congr hd h x.1 x.2 (by omega)]
  | map =>
      cases hsize : dictionarySize ch mask buf with
      | error e => rfl
      | ok x =>
          have hx := shrinks_dictionarySize ch mask _ _ _ hsize
          simp only [Fault.ok_bind, decodeEntries_congr hd h x.1 x.2 (by omega)]
  | _ => rfl

/--
Fuel beyond the length of the message makes no difference: the recursion of the decoder
is never cut short.
-/
theorem decodeFuel_eq_doDecode : ∀ (fuel : Nat) (buf : BString), buf.length < fuel →
    decodeFuel fuel buf = doDecode buf := by
  have hagree : ∀ (k l : Nat) (buf : BString), buf.length < k → buf.length < l →
      decodeFuel k buf = decodeFuel l buf := by
    intro k
    induction k with
    | zero => intro l buf hk _; omega
    | succ k ih =>
        intro l buf hk hl
        obtain ⟨l, rfl⟩ : ∃ m, l = m + 1 := ⟨l - 1, by omega⟩
        cases buf with
        | nil => rfl
        | cons ch buf =>
            simp only [List.length_cons] at hk hl
            simp only [decodeFuel, readByte_cons, Fault.ok_bind]
            cases idPackType ch with
            | error e => rfl
            | ok mask =>
                exact decodeGroup_congr (k := buf.length) (shrinks_decodeFuel k)
                  (fun b hb => ih l b (by omega) (by omega)) ch mask (Nat.le_refl _)
  intro fuel buf h
  exact hagree fuel (buf.length + 1) buf h (Nat.lt_succ_self _)

end TagHighlight
