/-
The decoder keeps to the boundaries of messages.

Whatever form a sender has chosen, one call of the decoder reads an object's bytes and no
other.  The proof follows the object on the wire: every format byte has a lemma that says
what is read after it, the same lemmas the round trip of the encoder rests on.  For a
stream of messages, the induction is over the messages that are still to come.

Nothing is said here of what the object means, only which bytes are its own.  A number may come
out wrong and the next message is still found where it starts; what is kept of the object is its
shape.
-/
import TagHighlight.Mpack.Wire
import TagHighlight.Proofs.Mpack.RoundTrip

namespace TagHighlight

open Bytes

/-! ### Shapes of lists

The shape of an object is the object without its numbers and texts.  Containers of one shape have
equally many parts, which is what the count in a header is compared with.
-/

/-- Objects of one shape are equally many. -/
theorem length_of_objShapes {objs : List Obj} {ws : List Wire}
    (h : objShapes objs = itemShapes ws) : objs.length = ws.length := by
  induction ws generalizing objs with
  | nil =>
      cases objs with
      | nil => rfl
      | cons obj objs => simp [objShapes, itemShapes] at h
  | cons w ws ih =>
      cases objs with
      | nil => simp [objShapes, itemShapes] at h
      | cons obj objs =>
          simp only [objShapes, itemShapes, List.cons.injEq] at h
          rw [List.length_cons, List.length_cons, ih h.2]

theorem length_of_entryShapes {objs : List (Obj × Obj)} {ws : List (Wire × Wire)}
    (h : entryShapes objs = wireEntryShapes ws) : objs.length = ws.length := by
  induction ws generalizing objs with
  | nil =>
      cases objs with
      | nil => rfl
      | cons obj objs => simp [entryShapes, wireEntryShapes] at h
  | cons w ws ih =>
      cases objs with
      | nil => simp [entryShapes, wireEntryShapes] at h
      | cons obj objs =>
          simp only [entryShapes, wireEntryShapes, List.cons.injEq] at h
          rw [List.length_cons, List.length_cons, ih h.2]

/-! ### Every form

Of the forms that the encoder uses as well, it is known what is read.  The others are the longer
headers, the signed and unsigned numbers in more bytes than they need, and the extension objects,
which the encoder never writes.  With these the induction over the object has a lemma for every
format byte.
-/

/-- The bytes are read as an object of this shape, and nothing after them is. -/
def ReadsShape (bs : BString) (shape : Shape) : Prop :=
  ∃ obj, ReadsAll bs obj ∧ obj.shape = shape

theorem Reads.shape {bs : BString} {obj : Obj} (h : Reads bs obj) : ReadsShape bs obj.shape :=
  ⟨obj, h.all, rfl⟩

theorem readExt_append (type : UInt8) (payload rest : List UInt8) :
    readExt payload.length (type :: payload ++ rest) =
      .ok (.ext ⟨type, UInt8.ofNat payload.length, payload⟩, rest) := by
  simp only [readExt, List.cons_append, readByte_cons, Fault.ok_bind, objRead_append]

theorem reads_fixext (w : Width) (type : UInt8) {payload : List UInt8}
    (h : payload.length = w.size) :
    Reads (w.fixextCode :: type :: payload)
      (.ext ⟨type, UInt8.ofNat payload.length, payload⟩) := by
  have hread := readExt_append type payload
  cases w with
  | w8 =>
      refine reads_cons ⟨.ext, .fixext1, false, 0xD4, 0, "M_FIXEXT_1"⟩ rfl fun _ rest => ?_
      rw [← hread rest, h]
      rfl
  | w16 =>
      refine reads_cons ⟨.ext, .fixext2, false, 0xD5, 0, "M_FIXEXT_2"⟩ rfl fun _ rest => ?_
      rw [← hread rest, h]
      rfl
  | w32 =>
      refine reads_cons ⟨.ext, .fixext4, false, 0xD6, 0, "M_FIXEXT_4"⟩ rfl fun _ rest => ?_
      rw [← hread rest, h]
      rfl
  | w64 =>
      refine reads_cons ⟨.ext, .fixext8, false, 0xD7, 0, "M_FIXEXT_8"⟩ rfl fun _ rest => ?_
      rw [← hread rest, h]
      rfl

theorem decodeExt_ext8 {mask : Mask} (hmask : mask.type = .ext8) (type : UInt8)
    {payload : List UInt8} (h : payload.length ≤ 8) (rest : BString) :
    decodeExt mask (UInt8.ofNat payload.length :: type :: payload ++ rest) =
      .ok (.ext ⟨type, UInt8.ofNat payload.length, payload⟩, rest) := by
  have hlen : (UInt8.ofNat payload.length).toNat = payload.length := by
    rw [UInt8.toNat_ofNat']
    omega
  have hmax : ¬UInt8.ofNat payload.length > 8 := by
    rw [gt_iff_lt, UInt8.lt_iff_toNat_lt, hlen]
    have : (8 : UInt8).toNat = 8 := rfl
    omega
  simp only [decodeExt, hmask, List.cons_append, readByte_cons, Fault.ok_bind, hmax, if_false, hlen,
    objRead_append]

theorem reads_ext8 (type : UInt8) {payload : List UInt8} (h : payload.length ≤ 8) :
    Reads (0xC7 :: UInt8.ofNat payload.length :: type :: payload)
      (.ext ⟨type, UInt8.ofNat payload.length, payload⟩) := by
  refine reads_cons ⟨.ext, .ext8, false, 0xC7, 0, "M_EXT_8"⟩ rfl fun _ rest => ?_
  rw [decodeGroup]
  exact decodeExt_ext8 rfl type h rest

mutual

/-- One object, by induction on what the sender wrote. -/
theorem Wire.reads : ∀ w : Wire, w.Ok → ReadsShape w.bytes w.shape
  | .nil, _ => reads_nil.shape
  | .boolean true, _ => reads_true.shape
  | .boolean false, _ => reads_false.shape
  | .posFixint n, _ => (reads_posInt (by omega)).shape
  | .negFixint n, _ => (reads_negInt n.isLt).shape
  | .uint w n, _ => (reads_uint w n).shape
  | .int w n, _ => (reads_int w n).shape
  | .fixext w type payload, h => (reads_fixext w type h).shape
  | .ext8 type payload, h => (reads_ext8 type h).shape
  | .string form str, h => (reads_string form h).shape
  | .array form items, h => by
      obtain ⟨objs, hreads, hshape⟩ := itemBytes_reads items h.2
      have hopens := opensArray_header _ h.1
      rw [← length_of_objShapes hshape] at hopens
      refine ⟨.array objs, ?_, by rw [Obj.shape, hshape, Wire.shape]⟩
      rw [Wire.bytes, ← length_of_objShapes hshape]
      exact hopens.readsAll hreads
  | .map form entries, h => by
      obtain ⟨objs, hreads, hshape⟩ := entryBytes_reads entries h.2
      have hopens := opensDict_header _ h.1
      rw [← length_of_entryShapes hshape] at hopens
      refine ⟨.dict objs, ?_, by rw [Obj.shape, hshape, Wire.shape]⟩
      rw [Wire.bytes, ← length_of_entryShapes hshape]
      exact hopens.readsAll hreads

theorem itemBytes_reads : ∀ ws : List Wire, ItemsOk ws →
    ∃ objs, ReadsItems (itemBytes ws) objs ∧ objShapes objs = itemShapes ws
  | [], _ => ⟨[], fun _ _ _ => rfl, rfl⟩
  | w :: ws, h => by
      obtain ⟨obj, hread, hshape⟩ := w.reads h.1
      obtain ⟨objs, hreads, hshapes⟩ := itemBytes_reads ws h.2
      exact ⟨obj :: objs, ReadsItems.cons hread hreads, by rw [objShapes, hshape, hshapes, itemShapes]⟩

theorem entryBytes_reads : ∀ ws : List (Wire × Wire), EntriesOk ws →
    ∃ objs, ReadsEntries (entryBytes ws) objs ∧ entryShapes objs = wireEntryShapes ws
  | [], _ => ⟨[], fun _ _ _ => rfl, rfl⟩
  | (key, value) :: ws, h => by
      obtain ⟨k, hkey, hkshape⟩ := key.reads h.1
      obtain ⟨v, hvalue, hvshape⟩ := value.reads h.2.1
      obtain ⟨objs, hreads, hshapes⟩ := entryBytes_reads ws h.2.2
      exact ⟨(k, v) :: objs, ReadsEntries.cons hkey hvalue hreads,
        by rw [entryShapes, hkshape, hvshape, hshapes, wireEntryShapes]⟩

end

theorem Wire.doDecode_bytes (w : Wire) (h : w.Ok) (rest : BString) :
    ∃ obj, doDecode (w.bytes ++ rest) = .ok (obj, rest) ∧ obj.shape = w.shape := by
  obtain ⟨obj, hread, hshape⟩ := w.reads h
  refine ⟨obj, hread _ rest ?_, hshape⟩
  rw [List.length_append]
  omega

/-! ### Streams

A call that succeeds leaves exactly what follows its object.  So the next call starts at the next
message, and the number of calls is the number of messages.
-/

theorem stream_cons (w : Wire) (ws : List Wire) : stream (w :: ws) = w.bytes ++ stream ws := rfl

/--
**Framing.**  As many calls as there are messages all succeed.  The call for each message
returns an object of its shape and leaves exactly the messages after it.
-/
theorem decodeCalls_stream (ws : List Wire) (h : ∀ w ∈ ws, w.Ok) (rest : BString) :
    ∃ calls, decodeCalls ws.length (stream ws ++ rest) = .ok calls ∧ calls.length = ws.length ∧
      ∀ k w, ws[k]? = some w → ∃ obj,
        calls[k]? = some (obj, stream (ws.drop (k + 1)) ++ rest) ∧ obj.shape = w.shape := by
  induction ws with
  | nil => exact ⟨[], rfl, rfl, fun k w hk => by simp at hk⟩
  | cons w ws ih =>
      obtain ⟨obj, hdec, hshape⟩ := w.doDecode_bytes (h w List.mem_cons_self) (stream ws ++ rest)
      obtain ⟨calls, hcalls, hlen, hall⟩ := ih fun v hv => h v (List.mem_cons_of_mem w hv)
      refine ⟨(obj, stream ws ++ rest) :: calls, ?_, by rw [List.length_cons, List.length_cons, hlen],
        fun k v hk => ?_⟩
      · simp only [stream_cons, List.append_assoc, List.length_cons, decodeCalls, hdec, hcalls,
          Fault.ok_bind]
      · cases k with
        | zero =>
            obtain rfl : w = v := Option.some.inj hk
            exact ⟨obj, rfl, hshape⟩
        | succ k => exact hall k v hk

/-- A map with one entry in the longest form, then an extension object. -/
theorem decodeCalls_stream_two :
    (∀ w ∈ [Wire.map .seq32 [(.string .str16 [107], .boolean true)], .fixext .w16 1 [2, 3]], w.Ok) ∧
    ∃ calls, decodeCalls 2 (stream [.map .seq32 [(.string .str16 [107], .boolean true)],
        .fixext .w16 1 [2, 3]] ++ [0xC0]) = .ok calls ∧ calls.length = 2 ∧
      ∀ k w, [Wire.map .seq32 [(.string .str16 [107], .boolean true)],
          .fixext .w16 1 [2, 3]][k]? = some w → ∃ obj,
        calls[k]? = some (obj, stream ([Wire.map .seq32 [(.string .str16 [107], .boolean true)],
          .fixext .w16 1 [2, 3]].drop (k + 1)) ++ [0xC0]) ∧ obj.shape = w.shape := by
  have hok : ∀ w ∈ [Wire.map .seq32 [(.string .str16 [107], .boolean true)],
      .fixext .w16 1 [2, 3]], w.Ok := by
    simp [Wire.Ok, EntriesOk, SeqForm.Holds, StrForm.Holds, Width.size]
  exact ⟨hok, decodeCalls_stream _ hok [0xC0]⟩

end TagHighlight
