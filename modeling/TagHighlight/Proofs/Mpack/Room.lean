/-
Trees that the encoder has room for.

A tree is encoded by a sequence of calls, so what is known of such sequences (when they stay
inside the buffer) is known of trees, if only the two ways to run them agree.  They do as long
as the length of what is packed has 32 bits: `run_of_writes` is that argument.  Nothing that
has gone outside the buffer is ever undone, nor does the text become shorter, so a tree that
comes out sound has been sound at every call, and `Tree.hasRoom_iff` reads both directions off.
-/
import TagHighlight.Proofs.Mpack.Capacity

namespace TagHighlight

/-! ### Calls that are never refused

`EncodeOp.apply` leaves a text out that would be too long, which a caller of the encoder cannot
see.  `EncodeOp.write` is the call as the encoder makes it; the two are the same for every text
that `slen` has the bits for.
-/

/-- The call on `root`, whatever its length. -/
def EncodeOp.write (lib : BStringLib) (root : Packed) : EncodeOp → Except Fault Packed
  | .array len => mpackEncodeArray lib root len.toNat
  | .dictionary len => mpackEncodeDictionary lib root len.toNat
  | .integer value => mpackEncodeInteger lib root value
  | .unsigned value => mpackEncodeUnsigned lib root value
  | .string str => mpackEncodeString lib root str
  | .boolean value => mpackEncodeBoolean lib root value
  | .nil => mpackEncodeNil lib root

section

variable {lib : BStringLib} {root root' : Packed} {op : EncodeOp}

/-- The length of what is packed grows by the bytes of the call. -/
theorem EncodeOp.write_length (op : EncodeOp) (h : op.write lib root = .ok root') :
    root'.data.length = root.data.length + op.size := by
  have hwrote : ∀ {check direct : Nat}, Wrote (sanityCheck lib root check) root' direct →
      root'.data.length = root.data.length + direct := by
    intro check direct hwrote
    rw [hwrote.length, sanityCheck_data]
  cases op with
  | array len => exact hwrote (mpackEncodeArray_wrote h)
  | dictionary len => exact hwrote (mpackEncodeDictionary_wrote h)
  | integer value => exact hwrote (mpackEncodeInteger_wrote h)
  | unsigned value => exact hwrote (mpackEncodeUnsigned_wrote h)
  | string str =>
      obtain rfl := Except.ok.inj h
      rw [Packed.concat_data, List.length_append, (stringHeader_wrote _ str).length,
        sanityCheck_data, EncodeOp.size, Nat.add_assoc]
  | boolean value => exact hwrote (Except.ok.inj h ▸ Wrote.put _ _)
  | nil => exact hwrote (Except.ok.inj h ▸ Wrote.put _ _)

/-- A text that is not too long is not refused. -/
theorem EncodeOp.apply_eq_write (h : root.data.length + op.size < 2 ^ 32) :
    op.apply lib root = op.write lib root := by
  cases op with
  | string str =>
      have hheader := (stringHeader_wrote (sanityCheck lib root ((str.getD []).length + 5)) str).length
      rw [sanityCheck_data] at hheader
      rw [EncodeOp.size] at h
      exact if_pos (by omega)
  | _ => rfl

/-- A byte that went outside stays noted. -/
theorem EncodeOp.apply_overrun (h : op.apply lib root = .ok root') (hafter : root'.overrun = false) :
    root.overrun = false := by
  obtain ⟨mid, hwrote, hrest⟩ := EncodeOp.apply_wrote h
  have hmid : mid.overrun = false := by
    rcases hrest with rfl | ⟨text, -, rfl⟩
    · exact hafter
    · exact hafter
  rw [hwrote.overrun, Bool.or_eq_false_iff, sanityCheck_overrun] at hmid
  exact hmid.1

end

/-! ### Sequences of calls -/

section

variable {lib : BStringLib} {ops : List EncodeOp} {root root' : Packed}

theorem encodedSize_cons (op : EncodeOp) (ops : List EncodeOp) :
    encodedSize (op :: ops) = op.size + encodedSize ops := List.sum_cons

theorem encodedSize_append (ops ops' : List EncodeOp) :
    encodedSize (ops ++ ops') = encodedSize ops + encodedSize ops' := by
  rw [encodedSize, List.map_append, List.sum_append]
  rfl

theorem writes_length (h : ops.foldlM (EncodeOp.write lib) root = .ok root') :
    root'.data.length = root.data.length + encodedSize ops := by
  induction ops generalizing root with
  | nil =>
      obtain rfl : root = root' := Except.ok.inj h
      rfl
  | cons op ops ih =>
      rw [List.foldlM_cons] at h
      obtain ⟨mid, hmid, hrest⟩ := Fault.bind_eq_ok.mp h
      rw [ih hrest, EncodeOp.write_length op hmid, encodedSize_cons, Nat.add_assoc]

/-- Calls that `slen` has the bits for are a run of the encoder. -/
theorem run_of_writes (h : ops.foldlM (EncodeOp.write lib) root = .ok root')
    (hshort : root.data.length + encodedSize ops < 2 ^ 32) :
    (encodeSystem lib).run root ops = some root' := by
  induction ops generalizing root with
  | nil =>
      obtain rfl : root = root' := Except.ok.inj h
      rfl
  | cons op ops ih =>
      rw [List.foldlM_cons] at h
      obtain ⟨mid, hmid, hrest⟩ := Fault.bind_eq_ok.mp h
      rw [encodedSize_cons] at hshort
      have hlen := EncodeOp.write_length op hmid
      rw [TransitionSystem.run_cons, Option.bind_eq_some_iff]
      refine ⟨mid, ?_, ih hrest (by omega)⟩
      exact Fault.toOption_eq_some.mpr ((EncodeOp.apply_eq_write (by omega)).trans hmid)

/--
**What is packed is sound just if every call had room**, and the length of the whole has 32 bits.
-/
theorem sound_iff (hlib : lib.Grows) {root : Packed}
    (h : ops.foldlM (EncodeOp.write lib) mpackMakeNew = .ok root) :
    root.Sound ↔ (encodeSystem lib).Meets (fun root op => op.Fits root) (encodeSystem lib).init ops ∧
      encodedSize ops < 2 ^ 32 := by
  have hlen : root.data.length = encodedSize ops := (writes_length h).trans (Nat.zero_add _)
  have hrun : encodedSize ops < 2 ^ 32 →
      (encodeSystem lib).run (encodeSystem lib).init ops = some root := fun hshort =>
    run_of_writes h ((Nat.zero_add _).symm ▸ hshort)
  constructor
  · intro hsound
    have hshort : encodedSize ops < 2 ^ 32 := hlen ▸ hsound.short
    refine ⟨(noOverrun_iff hlib ops).mp ?_, hshort⟩
    refine TransitionSystem.throughout_of_last (fun root op root' hstep => ?_) (hrun hshort)
      hsound.inside
    exact EncodeOp.apply_overrun (Fault.toOption_eq_some.mp hstep)
  · rintro ⟨hfits, hshort⟩
    exact { inside := ((noOverrun_iff hlib ops).mpr hfits).last (hrun hshort)
            short := hlen ▸ hshort }

end

/-! ### Short strings

The comparison in `sanity_check` goes wrong where more is asked for than the buffer has in all,
or where it cannot be doubled any more.  No buffer has less than 128 bytes, so neither happens
to calls that ask for no more than that, up to half of what `mlen` can hold.
-/

/-- The call asks for no more than the first buffer has. -/
def EncodeOp.Short : EncodeOp → Prop
  | .string str => (str.getD []).length ≤ 123
  | _ => True

theorem EncodeOp.Short.check_le {op : EncodeOp} (h : op.Short) : op.direct ≤ op.check ∧ op.check ≤ 128 := by
  have hseq : ∀ len, seqWidth len ≤ 64 := by
    intro len
    unfold seqWidth
    split_ifs <;> omega
  have huint : ∀ bits, uintWidth bits ≤ 15 := by
    intro bits
    unfold uintWidth
    split_ifs <;> omega
  cases op with
  | array len => exact ⟨hseq _, Nat.le_of_ble_eq_true rfl⟩
  | dictionary len => exact ⟨hseq _, Nat.le_of_ble_eq_true rfl⟩
  | integer value =>
      refine ⟨?_, Nat.le_of_ble_eq_true rfl⟩
      simp only [EncodeOp.direct, EncodeOp.check]
      split
      · exact huint _
      · split_ifs <;> decide
  | unsigned value => exact ⟨huint _, Nat.le_of_ble_eq_true rfl⟩
  | string str =>
      have hlen : (str.getD []).length ≤ 123 := h
      simp only [EncodeOp.direct, EncodeOp.check]
      split_ifs <;> omega
  | boolean value => exact ⟨Nat.le_of_ble_eq_true rfl, Nat.le_of_ble_eq_true rfl⟩
  | nil => exact ⟨Nat.le_of_ble_eq_true rfl, Nat.le_of_ble_eq_true rfl⟩

theorem integer_size_le (value : Int64) : (EncodeOp.integer value).size ≤ 9 := by
  have huint : ∀ bits, uintWidth bits ≤ 9 := by
    intro bits
    unfold uintWidth
    split_ifs <;> omega
  simp only [EncodeOp.size, EncodeOp.direct]
  split
  · exact huint _
  · split_ifs <;> omega

/-- Calls with short strings have room, as long as the whole is below `2 ^ 31` bytes. -/
theorem meets_of_short {lib : BStringLib} (hlib : lib.Grows) {ops : List EncodeOp} {root : Packed}
    (hroot : Roomy root) (hops : ∀ op ∈ ops, op.Short)
    (hsmall : root.data.length + encodedSize ops + 128 ≤ 2 ^ 31) :
    (encodeSystem lib).Meets (fun root op => op.Fits root) root ops := by
  induction ops generalizing root with
  | nil => trivial
  | cons op ops ih =>
      intro root' hstep
      have happly := Fault.toOption_eq_some.mp hstep
      rw [encodedSize_cons] at hsmall
      obtain ⟨hdirect, hcheck⟩ := (hops op List.mem_cons_self).check_le
      have hfits : op.Fits root := by
        have hfirst := hroot.first
        unfold EncodeOp.Fits
        omega
      have hwrite : op.apply lib root = op.write lib root := EncodeOp.apply_eq_write (by omega)
      have hlen := op.write_length (hwrite.symm.trans happly)
      refine ⟨hfits, ih (hroot.step hlib hfits happly) (fun op' hop' => ?_) (by omega)⟩
      exact hops op' (List.mem_cons_of_mem _ hop')

/-! ### Trees

What a tree has the encoder do is its sequence of calls.  The count of a container is an
`unsigned` in a call and a length in the tree, so they agree on trees whose sizes the encoder
has forms for; and what it has packed in 32 bits was of such a tree.
-/

theorem sizedItems_of_forall {ts : List Tree} (h : ∀ t ∈ ts, t.Sized) : SizedItems ts := by
  induction ts with
  | nil => trivial
  | cons t ts ih =>
      exact ⟨h t List.mem_cons_self, ih fun t' ht' => h t' (List.mem_cons_of_mem _ ht')⟩

theorem writes_singleton (lib : BStringLib) (op : EncodeOp) (root : Packed) :
    [op].foldlM (EncodeOp.write lib) root = op.write lib root := bind_pure _

theorem toNat_ofNat_length {n : Nat} (h : n < 4294967295) : (UInt32.ofNat n).toNat = n := by
  rw [UInt32.toNat_ofNat']
  omega

mutual

theorem Tree.emit_eq (lib : BStringLib) : ∀ (t : Tree) (root : Packed), t.Sized →
    t.emit lib root = t.calls.foldlM (EncodeOp.write lib) root
  | .nil, root, _ => (writes_singleton lib .nil root).symm
  | .boolean value, root, _ => (writes_singleton lib (.boolean value) root).symm
  | .integer value, root, _ => (writes_singleton lib (.integer value) root).symm
  | .unsigned value, root, _ => (writes_singleton lib (.unsigned value) root).symm
  | .string str, root, _ => (writes_singleton lib (.string str) root).symm
  | .array items, root, h => by
      rw [Tree.emit, Tree.calls, List.foldlM_cons, EncodeOp.write, toNat_ofNat_length h.1]
      exact bind_congr fun mid => emitItems_eq lib items mid h.2
  | .dictionary entries, root, h => by
      rw [Tree.emit, Tree.calls, List.foldlM_cons, EncodeOp.write, toNat_ofNat_length h.1]
      exact bind_congr fun mid => emitEntries_eq lib entries mid h.2

theorem emitItems_eq (lib : BStringLib) : ∀ (ts : List Tree) (root : Packed), SizedItems ts →
    emitItems lib ts root = (itemCalls ts).foldlM (EncodeOp.write lib) root
  | [], root, _ => rfl
  | t :: ts, root, h => by
      rw [emitItems, itemCalls, List.foldlM_append, t.emit_eq lib root h.1]
      exact bind_congr fun mid => emitItems_eq lib ts mid h.2

theorem emitEntries_eq (lib : BStringLib) : ∀ (es : List (Tree × Tree)) (root : Packed),
    SizedEntries es → emitEntries lib es root = (entryCalls es).foldlM (EncodeOp.write lib) root
  | [], root, _ => rfl
  | (k, v) :: es, root, h => by
      rw [emitEntries, entryCalls, List.foldlM_append, List.foldlM_append, k.emit_eq lib root h.1,
        bind_assoc]
      refine bind_congr fun mid => ?_
      rw [v.emit_eq lib mid h.2.1]
      exact bind_congr fun mid' => emitEntries_eq lib es mid' h.2.2

end

/-- The header of a container of a size there is a form for. -/
theorem seqHeader_ok {len : Nat} (h : len < 4294967295) (short two four : Packed) (fault : Fault) :
    ∃ root, (if len < 16 then .ok short else if len < 65535 then .ok two
      else if len < 4294967295 then .ok four else .error fault) = Except.ok root := by
  rw [if_pos h]
  split_ifs <;> exact ⟨_, rfl⟩

mutual

/-- The encoder takes every tree whose sizes it has forms for. -/
theorem Tree.emit_ok (lib : BStringLib) : ∀ (t : Tree) (root : Packed), t.Sized →
    ∃ root', t.emit lib root = .ok root'
  | .nil, _, _ => ⟨_, rfl⟩
  | .boolean _, _, _ => ⟨_, rfl⟩
  | .integer value, root, _ =>
      let ⟨root', _, hrun, _⟩ := mpackEncodeInteger_reads lib root value
      ⟨root', hrun⟩
  | .unsigned value, root, _ =>
      let ⟨root', _, hrun, _⟩ := mpackEncodeUnsigned_reads lib root value
      ⟨root', hrun⟩
  | .string _, _, _ => ⟨_, rfl⟩
  | .array items, root, h => by
      obtain ⟨mid, hmid⟩ := seqHeader_ok h.1 _ _ _ _
      obtain ⟨root', hrun⟩ := emitItems_ok lib items mid h.2
      exact ⟨root', Fault.bind_eq_ok.mpr ⟨mid, hmid, hrun⟩⟩
  | .dictionary entries, root, h => by
      obtain ⟨mid, hmid⟩ := seqHeader_ok h.1 _ _ _ _
      obtain ⟨root', hrun⟩ := emitEntries_ok lib entries mid h.2
      exact ⟨root', Fault.bind_eq_ok.mpr ⟨mid, hmid, hrun⟩⟩

theorem emitItems_ok (lib : BStringLib) : ∀ (ts : List Tree) (root : Packed), SizedItems ts →
    ∃ root', emitItems lib ts root = .ok root'
  | [], root, _ => ⟨root, rfl⟩
  | t :: ts, root, h => by
      obtain ⟨mid, hmid⟩ := t.emit_ok lib root h.1
      obtain ⟨root', hrun⟩ := emitItems_ok lib ts mid h.2
      exact ⟨root', Fault.bind_eq_ok.mpr ⟨mid, hmid, hrun⟩⟩

theorem emitEntries_ok (lib : BStringLib) : ∀ (es : List (Tree × Tree)) (root : Packed),
    SizedEntries es → ∃ root', emitEntries lib es root = .ok root'
  | [], root, _ => ⟨root, rfl⟩
  | (k, v) :: es, root, h => by
      obtain ⟨mid, hmid⟩ := k.emit_ok lib root h.1
      obtain ⟨mid', hmid'⟩ := v.emit_ok lib mid h.2.1
      obtain ⟨root', hrun⟩ := emitEntries_ok lib es mid' h.2.2
      exact ⟨root', Fault.bind_eq_ok.mpr ⟨mid, hmid, Fault.bind_eq_ok.mpr ⟨mid', hmid', hrun⟩⟩⟩

end

mutual

/-- What has been packed in 32 bits had sizes that the encoder has forms for. -/
theorem Tree.sized_of_emit {lib : BStringLib} : ∀ {t : Tree} {root root' : Packed},
    t.emit lib root = .ok root' → root'.data.length < 2 ^ 32 →
      t.Sized ∧ root.data.length ≤ root'.data.length
  | .nil, root, root', h, _ => ⟨trivial, by rw [EncodeOp.write_length .nil h]; omega⟩
  | .boolean value, root, root', h, _ =>
      ⟨trivial, by rw [EncodeOp.write_length (.boolean value) h]; omega⟩
  | .integer value, root, root', h, _ =>
      ⟨trivial, by rw [EncodeOp.write_length (.integer value) h]; omega⟩
  | .unsigned value, root, root', h, _ =>
      ⟨trivial, by rw [EncodeOp.write_length (.unsigned value) h]; omega⟩
  | .string str, root, root', h, hshort => by
      have hlen := EncodeOp.write_length (.string str) h
      rw [EncodeOp.size, EncodeOp.direct] at hlen
      refine ⟨?_, by omega⟩
      rw [Tree.Sized]
      split_ifs at hlen <;> omega
  | .array items, root, root', h, hshort => by
      obtain ⟨mid, hmid, hrest⟩ := Fault.bind_eq_ok.mp h
      obtain ⟨hitems, hle⟩ := sizedItems_of_emit hrest hshort
      have hlen := (mpackEncodeArray_wrote hmid).length
      rw [sanityCheck_data] at hlen
      refine ⟨⟨?_, hitems⟩, by omega⟩
      by_contra hlarge
      simp only [mpackEncodeArray] at hmid
      rw [if_neg (by omega), if_neg (by omega), if_neg hlarge] at hmid
      cases hmid
  | .dictionary entries, root, root', h, hshort => by
      obtain ⟨mid, hmid, hrest⟩ := Fault.bind_eq_ok.mp h
      obtain ⟨hentries, hle⟩ := sizedEntries_of_emit hrest hshort
      have hlen := (mpackEncodeDictionary_wrote hmid).length
      rw [sanityCheck_data] at hlen
      refine ⟨⟨?_, hentries⟩, by omega⟩
      by_contra hlarge
      simp only [mpackEncodeDictionary] at hmid
      rw [if_neg (by omega), if_neg (by omega), if_neg hlarge] at hmid
      cases hmid

theorem sizedItems_of_emit {lib : BStringLib} : ∀ {ts : List Tree} {root root' : Packed},
    emitItems lib ts root = .ok root' → root'.data.length < 2 ^ 32 →
      SizedItems ts ∧ root.data.length ≤ root'.data.length
  | [], root, root', h, _ => ⟨trivial, Nat.le_of_eq (by rw [Except.ok.inj h])⟩
  | t :: ts, root, root', h, hshort => by
      obtain ⟨mid, hmid, hrest⟩ := Fault.bind_eq_ok.mp h
      obtain ⟨hitems, hle⟩ := sizedItems_of_emit hrest hshort
      obtain ⟨hsized, hle'⟩ := Tree.sized_of_emit hmid (by omega)
      exact ⟨⟨hsized, hitems⟩, by omega⟩

theorem sizedEntries_of_emit {lib : BStringLib} : ∀ {es : List (Tree × Tree)}
    {root root' : Packed}, emitEntries lib es root = .ok root' → root'.data.length < 2 ^ 32 →
      SizedEntries es ∧ root.data.length ≤ root'.data.length
  | [], root, root', h, _ => ⟨trivial, Nat.le_of_eq (by rw [Except.ok.inj h])⟩
  | (k, v) :: es, root, root', h, hshort => by
      obtain ⟨mid, hmid, h'⟩ := Fault.bind_eq_ok.mp h
      obtain ⟨mid', hmid', hrest⟩ := Fault.bind_eq_ok.mp h'
      obtain ⟨hentries, hle⟩ := sizedEntries_of_emit hrest hshort
      obtain ⟨hvalue, hle'⟩ := Tree.sized_of_emit hmid' (by omega)
      obtain ⟨hkey, hle''⟩ := Tree.sized_of_emit hmid (by omega)
      exact ⟨⟨hkey, hvalue, hentries⟩, by omega⟩

end

section

variable {lib : BStringLib} {t : Tree} {root : Packed}

theorem Tree.sound_iff (hlib : lib.Grows) (h : t.emit lib mpackMakeNew = .ok root) :
    root.Sound ↔ t.HasRoom lib := by
  constructor
  · intro hsound
    have hsized := (Tree.sized_of_emit h hsound.short).1
    obtain ⟨hfits, hshort⟩ := (TagHighlight.sound_iff hlib (t.emit_eq lib _ hsized ▸ h)).mp hsound
    exact ⟨hsized, hfits, hshort⟩
  · intro hroom
    exact (TagHighlight.sound_iff hlib (t.emit_eq lib _ hroom.sized ▸ h)).mpr
      ⟨hroom.fits, hroom.short⟩

/--
**A tree is packed without going outside the buffer just if it has room.**
-/
theorem Tree.hasRoom_iff (hlib : lib.Grows) :
    (∃ root, t.emit lib mpackMakeNew = .ok root ∧ root.Sound) ↔ t.HasRoom lib := by
  constructor
  · rintro ⟨root, hrun, hsound⟩
    exact (Tree.sound_iff hlib hrun).mp hsound
  · intro hroom
    obtain ⟨root, hrun⟩ := t.emit_ok lib mpackMakeNew hroom.sized
    exact ⟨root, hrun, (Tree.sound_iff hlib hrun).mpr hroom⟩

theorem Tree.hasRoom_of_short (hlib : lib.Grows) (hsized : t.Sized)
    (hcalls : ∀ op ∈ t.calls, op.Short) (hsmall : encodedSize t.calls + 128 ≤ 2 ^ 31) :
    t.HasRoom lib where
  sized := hsized
  fits := meets_of_short hlib Roomy.init hcalls ((Nat.zero_add _).symm ▸ hsmall)
  short := by omega

end

end TagHighlight
