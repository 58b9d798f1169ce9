/-
What the handlers of messages do with short or odd ones.

An access is in range or it is not, whatever else happens on the path, so `InRange` is
taken through the path one `bind` at a time: `inRange_bind` splits it, and for every
function of the path there is one lemma that says when it is in range.  The second half is
about the tick, where the element is there but `mpack_expect` makes too much of it.

What a union holds that was written through another member is a parameter, and the theorem holds
whatever it is.  It says for which messages no element is read that is not there, by the sizes of
the message and of its parameters; what such a read would give does not matter then.
-/
import TagHighlight.Events.Notification
import TagHighlight.Proofs.Mpack.Expect

namespace TagHighlight.Notification

section InRange

variable {α β : Type}

/-! ### Steps of a path

The path of a message is a chain of calls, each of which may be the last.  It stays in range if
the first call does and, for whatever it returns, the rest does; so each call is looked at once,
with all results it can have.
-/

@[simp] theorem inRange_ok (a : α) : InRange (.ok a : Except Stop α) := by
  intro stop h
  cases h

@[simp] theorem inRange_fault (f : Fault) : InRange (.error (.fault f) : Except Stop α) := by
  intro stop h
  cases h
  exact ⟨nofun, nofun⟩

@[simp] theorem inRange_hang : InRange (.error .hang : Except Stop α) := by
  intro stop h
  cases h
  exact ⟨nofun, nofun⟩

@[simp] theorem not_inRange_wild : ¬ InRange (.error .wild : Except Stop α) :=
  fun h => (h .wild rfl).1 rfl

@[simp] theorem not_inRange_outOfRange (index qty : Nat) :
    ¬ InRange (.error (.outOfRange index qty) : Except Stop α) :=
  fun h => (h _ rfl).2 index qty rfl

/-- A step and then another one. -/
theorem inRange_bind (x : Except Stop α) (f : α → Except Stop β) :
    InRange (x >>= f) ↔ InRange x ∧ ∀ a, x = .ok a → InRange (f a) := by
  cases x with
  | error stop =>
      refine ⟨fun h => ⟨fun s hs => ?_, nofun⟩, fun h => fun s hs => ?_⟩
      · exact h s (by cases hs; rfl)
      · exact h.1 s (by cases hs; rfl)
  | ok a =>
      refine ⟨fun h => ⟨inRange_ok a, fun b hb => ?_⟩, fun h => h.2 a rfl⟩
      cases hb
      exact h

@[simp] theorem ok_bind (a : α) (f : α → Except Stop β) : (Except.ok a >>= f) = f a := rfl

/-- A path that succeeds splits into its two successful halves. -/
theorem bind_eq_ok {x : Except Stop α} {f : α → Except Stop β} {b : β} :
    (x >>= f) = .ok b ↔ ∃ a, x = .ok a ∧ f a = .ok b := by
  cases x with
  | error stop => exact iff_of_false nofun fun h => by obtain ⟨a, ha, -⟩ := h; cases ha
  | ok a => simp

theorem inRange_element (lst : List Obj) (index : Nat) :
    InRange (element lst index) ↔ index < lst.length := by
  unfold element
  cases hget : lst[index]? with
  | none => simpa using List.getElem?_eq_none_iff.mp hget
  | some obj => simpa using (List.getElem?_eq_some_iff.mp hget).1

theorem element_eq_ok {lst : List Obj} {index : Nat} {obj : Obj} :
    element lst index = .ok obj ↔ lst[index]? = some obj := by
  unfold element
  cases lst[index]? with
  | none => simp
  | some obj' => simp

@[simp] theorem inRange_expect (obj : Option Obj) (type : Expect) (alternatives : UInt32) :
    InRange (expect obj type alternatives) := by
  unfold expect
  split
  · exact inRange_hang
  · exact inRange_ok _
  · exact inRange_fault _

@[simp] theorem inRange_newStrings (ret : Retval) : InRange (newStrings ret) := by
  unfold newStrings
  split
  · exact inRange_ok _
  · exact inRange_fault _

end InRange

/-! ### The handlers of one event

The test for a lines event asks for five parameters, and then the sixth is read: so there is one
length of the array for which the test passes and the last element is not there.  For a tick there
is no test at all.
-/

theorem applyLineEvent_inRange (mem : Memory) (bdata : Bufdata) {arr : List Obj}
    (h : 5 ≤ arr.length) : InRange (applyLineEvent mem bdata arr) := by
  have helem : ∀ index, index < 5 → InRange (element arr index) := fun index hi =>
    (inRange_element arr index).mpr (by omega)
  unfold applyLineEvent
  simp only [inRange_bind, inRange_expect, inRange_newStrings, true_and]
  refine ⟨helem 2 (by decide), fun _ _ first _ => ⟨helem 3 (by decide), fun _ _ last _ =>
    ⟨helem 4 (by decide), fun _ _ _ _ strs _ => ?_⟩⟩⟩
  split
  · exact inRange_ok _
  · exact inRange_fault _

/-- The test of the length lets through the one array that is too short. -/
theorem handleLineEvent_inRange_iff (mem : Memory) (bdata : Bufdata) (arr : List Obj) :
    InRange (handleLineEvent mem bdata arr) ↔ arr.length ≠ 5 := by
  unfold handleLineEvent
  by_cases hshort : arr.length < 5
  · rw [if_pos hshort]
    exact iff_of_true (inRange_fault _) (by omega)
  rw [if_neg hshort, inRange_bind, inRange_element]
  constructor
  · intro h
    have := h.1
    omega
  · intro h
    refine ⟨by omega, fun obj _ => ?_⟩
    split
    · exact inRange_fault _
    · exact applyLineEvent_inRange mem bdata (by omega)

/-- What `mpack_expect` makes of a tick that is no number: the second try is with `E_MPACK_NIL`. -/
theorem mpackExpect_tick {tick : Obj} (h : Expect.num.branch tick = none) :
    mpackExpect (some tick) Expect.num.flag Expect.mpackNil.flag =
      match tick.retry.branch tick with
      | some ret => some ret
      | none =>
          if OnlyAlternatives Expect.mpackNil.flag (Expect.num.flag ||| tick.retry.flag) then
            some (.ok .null)
          else none :=
  mpackExpect_retry h (by decide)

/-- The call that reads the tick returns, unless it is a boolean. -/
theorem expect_tick_ok {tick : Obj} (hext : ∀ e, tick = .ext e → e.len ≤ 8)
    (h : ∀ b, tick ≠ .boolean b) :
    ∃ ret, expect (some tick) .num Expect.mpackNil.flag = .ok ret := by
  suffices hrun : ∃ ret, mpackExpect (some tick) Expect.num.flag Expect.mpackNil.flag =
      some (.ok ret) by
    obtain ⟨ret, hret⟩ := hrun
    exact ⟨ret, by rw [expect, hret]⟩
  cases tick with
  | boolean b => exact absurd rfl (h b)
  | nil => exact ⟨_, mpackExpect_tick rfl⟩
  | signed n => exact ⟨_, mpackExpect_taken rfl⟩
  | unsigned n => exact ⟨_, mpackExpect_taken rfl⟩
  | ext e =>
      obtain ⟨n, hn⟩ := attemptToInterpretExt_ok (hext e rfl)
      exact ⟨.num n, mpackExpect_taken (by simp [Expect.branch, hn])⟩
  | string str => exact ⟨_, mpackExpect_tick rfl⟩
  | array lst => exact ⟨_, mpackExpect_tick rfl⟩
  | dict lst =>
      have honly : OnlyAlternatives Expect.mpackNil.flag
          (Expect.num.flag ||| Expect.mpackNil.flag) := by decide
      exact ⟨_, (mpackExpect_tick rfl).trans (if_pos honly)⟩

theorem expect_tick_boolean (b : Bool) :
    expect (some (.boolean b)) .num Expect.mpackNil.flag = .error .hang := by
  have honly : ¬ OnlyAlternatives Expect.mpackNil.flag
      (Expect.num.flag ||| Expect.mpackExt.flag) := by decide
  have hrun : mpackExpect (some (.boolean b)) Expect.num.flag Expect.mpackNil.flag = none :=
    (mpackExpect_tick rfl).trans (if_neg honly)
  rw [expect, hrun]

theorem handleBufferUpdate_inRange_iff (mem : Memory) (bdata : Bufdata) {params : List Obj}
    (type : EventType) (hext : ∀ obj ∈ params, ∀ e, obj = .ext e → e.len ≤ 8) :
    InRange (handleBufferUpdate mem bdata (.arr params) type) ↔
      ∃ tick, params[1]? = some tick ∧
        (type = .bufLines → (∀ b, tick ≠ .boolean b) → params.length ≠ 5) := by
  unfold handleBufferUpdate
  rw [inRange_bind]
  simp only [elementOf, inRange_element, element_eq_ok, inRange_bind, inRange_expect, true_and]
  constructor
  · intro h
    obtain ⟨hlen, hrest⟩ := h
    obtain ⟨tick, htick⟩ : ∃ tick, params[1]? = some tick := ⟨_, List.getElem?_eq_getElem hlen⟩
    refine ⟨tick, htick, fun htype hbool => ?_⟩
    obtain ⟨ret, hret⟩ := expect_tick_ok (hext tick (List.mem_of_getElem? htick)) hbool
    have hlines := hrest tick htick ret hret
    subst htype
    exact (handleLineEvent_inRange_iff mem _ params).mp hlines
  · intro h
    obtain ⟨tick, htick, hlines⟩ := h
    refine ⟨(List.getElem?_eq_some_iff.mp htick).1, fun tick' htick' ret hret => ?_⟩
    obtain rfl : tick = tick' := Option.some.inj (htick.symm.trans htick')
    cases type with
    | bufLines =>
        refine (handleLineEvent_inRange_iff mem _ params).mpr (hlines rfl fun b hb => ?_)
        rw [hb, expect_tick_boolean] at hret
        cases hret
    | _ => exact inRange_ok _

/-! ### The path

The elements of the message are asked for by `mpack_index`, which lets through the index just
behind the last one.  So a message without parameters has them read all the same, and one whose
parameters are no array has its union read as if they were.
-/

theorem expect_mpackArray (obj : Obj) :
    expect (some obj) .mpackArray 0 =
      .ok (match obj with | .array lst => .arr lst | obj => .misread obj) := by
  have htaken : ∀ ret, Expect.mpackArray.branch obj = some (.ok ret) →
      expect (some obj) .mpackArray 0 = .ok ret := by
    intro ret hret
    rw [expect, mpackExpect_taken hret]
  cases obj with
  | _ => exact htaken _ rfl

theorem idEvent_name {event : List Obj} {type : EventType}
    (h : event[1]? = some (.string type.name)) : idEvent event = .ok type := by
  rw [idEvent, element_eq_ok.mpr h]
  cases type with
  | _ => rfl

theorem mpackIndex_lt {lst : List Obj} {index : Nat} {obj : Obj} (h : lst[index]? = some obj) :
    mpackIndex (.array lst) index = .ok (some obj) := by
  have hlen := (List.getElem?_eq_some_iff.mp h).1
  rw [mpackIndex, if_pos (Nat.le_of_lt hlen), element_eq_ok.mpr h]
  rfl

/-- The comparison with the number of elements is off by one. -/
theorem mpackIndex_length (lst : List Obj) :
    mpackIndex (.array lst) lst.length = .error (.outOfRange lst.length lst.length) := by
  rw [mpackIndex, if_pos (Nat.le_refl _), element, List.getElem?_eq_none (Nat.le_refl _)]
  rfl

theorem notify_inRange_iff {mem : Memory} {params : List Obj} {type : EventType}
    (hdetach : type ≠ .bufDetach) (hext : ∀ obj ∈ params, ∀ e, obj = .ext e → e.len ≤ 8)
    (bufnum : UInt32) (found : Option Bufdata) :
    InRange (notify mem (.arr params) type bufnum found) ↔ (found.isSome →
      ∃ tick, params[1]? = some tick ∧
        (type = .bufLines → (∀ b, tick ≠ .boolean b) → params.length ≠ 5)) := by
  cases found with
  | none => exact iff_of_true (inRange_fault _) nofun
  | some bdata =>
      rw [notify, if_neg hdetach, inRange_bind, handleBufferUpdate_inRange_iff mem bdata type hext]
      simp

/-- From the parameters on. -/
theorem dispatch_inRange_iff {mem : Memory} {find : UInt32 → Option Bufdata} {params : List Obj}
    {type : EventType} (htype : type = .bufLines ∨ type = .bufChangedTick)
    (hext : ∀ obj ∈ params, ∀ e, obj = .ext e → e.len ≤ 8) :
    InRange (dispatch mem find (.arr params) type) ↔
      ∃ bufnum, params[0]? = some bufnum ∧ ((target mem find bufnum).isSome →
        ∃ tick, params[1]? = some tick ∧
          (type = .bufLines → (∀ b, tick ≠ .boolean b) → params.length ≠ 5)) := by
  have hupdate : type ≠ .vimUpdate := by
    rcases htype with rfl | rfl <;> exact nofun
  have hdetach : type ≠ .bufDetach := by
    rcases htype with rfl | rfl <;> exact nofun
  unfold dispatch
  simp only [inRange_bind, inRange_expect, true_and, elementOf, inRange_element, element_eq_ok,
    if_neg hupdate, notify_inRange_iff hdetach hext]
  constructor
  · intro h
    obtain ⟨hlen, hrest⟩ := h
    obtain ⟨bufnum, hbufnum⟩ : ∃ bufnum, params[0]? = some bufnum :=
      ⟨_, List.getElem?_eq_getElem hlen⟩
    refine ⟨bufnum, hbufnum, fun hknown => ?_⟩
    cases hret : expect (some bufnum) .num 0 with
    | error stop => simp [target, hret] at hknown
    | ok ret => exact hrest bufnum hbufnum ret hret (by rwa [target, hret] at hknown)
  · intro h
    obtain ⟨bufnum, hbufnum, hknown⟩ := h
    refine ⟨(List.getElem?_eq_some_iff.mp hbufnum).1, fun bufnum' hbufnum' ret hret hfound => ?_⟩
    obtain rfl : bufnum = bufnum' := Option.some.inj (hbufnum.symm.trans hbufnum')
    exact hknown (by rwa [target, hret])

/-- Parameters that are not an array are read all the same. -/
theorem not_inRange_dispatch {mem : Memory} {find : UInt32 → Option Bufdata} (obj : Obj)
    (type : EventType) : ¬ InRange (dispatch mem find (.misread obj) type) :=
  not_inRange_wild

theorem handleNvimNotification_inRange_iff {mem : Memory} {find : UInt32 → Option Bufdata}
    {event : List Obj} {type : EventType} (htype : type = .bufLines ∨ type = .bufChangedTick)
    (hname : ∀ obj, event[1]? = some obj → obj = .string type.name) (hne : event ≠ [])
    (hext : ∀ params, event[2]? = some (.array params) →
      ∀ obj ∈ params, ∀ e, obj = .ext e → e.len ≤ 8) :
    InRange (handleNvimNotification mem find event) ↔ WellSized mem find event type := by
  unfold handleNvimNotification WellSized
  cases event with
  | nil => exact absurd rfl hne
  | cons e0 event =>
      cases event with
      | nil =>
          refine iff_of_false (not_inRange_outOfRange 1 1) fun h => ?_
          obtain ⟨params, bufnum, hparams, -⟩ := h
          cases hparams
      | cons e1 event =>
          cases event with
          | nil =>
              rw [show mpackIndex (.array [e0, e1]) 2 = .error (.outOfRange 2 2) from
                mpackIndex_length [e0, e1]]
              refine iff_of_false (not_inRange_outOfRange 2 2) fun h => ?_
              obtain ⟨params, bufnum, hparams, -⟩ := h
              cases hparams
          | cons e2 event =>
              have he1 : e1 = .string type.name := hname e1 rfl
              have hid : idEvent (e0 :: e1 :: e2 :: event) = .ok type :=
                idEvent_name (by rw [← he1]; rfl)
              have hindex : mpackIndex (.array (e0 :: e1 :: e2 :: event)) 2 = .ok (some e2) :=
                mpackIndex_lt rfl
              simp only [hindex, ok_bind, expect_mpackArray, hid]
              cases e2 with
              | array params =>
                  rw [dispatch_inRange_iff htype (hext params rfl)]
                  constructor
                  · intro h
                    obtain ⟨bufnum, hbufnum, hknown⟩ := h
                    exact ⟨params, bufnum, rfl, hbufnum, hknown⟩
                  · intro h
                    obtain ⟨params', bufnum, hparams, hbufnum, hknown⟩ := h
                    cases hparams
                    exact ⟨bufnum, hbufnum, hknown⟩
              | _ =>
                  refine iff_of_false (not_inRange_dispatch _ type) fun h => ?_
                  obtain ⟨params, bufnum, hparams, -⟩ := h
                  cases hparams

/--
**Which notifications are read within their bounds.**  A decoded message that is handled as
a lines or changedtick notification is, exactly if it is well-sized.
-/
theorem handleNvimMessage_inRange_iff (mem : Memory) (find : UInt32 → Option Bufdata)
    {event : List Obj} (hdec : Decoded (.array event)) {type : EventType}
    (htype : type = .bufLines ∨ type = .bufChangedTick) (h : Announces mem event type) :
    InRange (handleNvimMessage mem find event) ↔ WellSized mem find event type := by
  cases event with
  | nil =>
      refine iff_of_false (not_inRange_outOfRange 0 0) fun hsize => ?_
      obtain ⟨params, bufnum, hparams, -⟩ := hsize
      cases hparams
  | cons e0 event =>
      obtain ⟨ret, hret, hmtype⟩ := h.mtype e0 rfl
      have hindex : mpackIndex (.array (e0 :: event)) 0 = .ok (some e0) := mpackIndex_lt rfl
      have hmessage : handleNvimMessage mem find (e0 :: event) =
          handleNvimNotification mem find (e0 :: event) := by
        simp only [handleNvimMessage, hindex, ok_bind, hret, hmtype, if_true]
      rw [hmessage]
      refine handleNvimNotification_inRange_iff htype h.name (List.cons_ne_nil _ _)
        fun params hparams obj hobj e he => ?_
      refine hdec.extsFit e (.item (List.mem_of_getElem? hparams) (.item hobj ?_))
      exact he ▸ .self _

/-- Memory that held zeros before the objects were decoded into it. -/
def zeros : Memory := { word := fun _ => 0xC0, truthy := fun _ => false, word_nil := rfl }

/-- A buffer without lines, at tick 5. -/
def fresh : Bufdata := { buffer := { lines := llMakeNew, initialized := false }, ctick := 5 }

/-- A lines event whose last parameter, `more`, is missing. -/
def withoutMore : List Obj :=
  [.unsigned 2, .string EventType.bufLines.name,
    .array [.unsigned 1, .unsigned 7, .unsigned 0, .unsigned 1, .array []]]

theorem withoutMore_decoded : Decoded (.array withoutMore) := by
  refine ⟨[0x93, 0x02, 0xB4] ++ EventType.bufLines.name ++
    [0x95, 0x01, 0x07, 0x00, 0x01, 0x90], .array withoutMore, [], ?_, .self _⟩
  rfl

theorem withoutMore_announces : Announces zeros withoutMore .bufLines where
  mtype obj h := by
    obtain rfl : Obj.unsigned 2 = obj := Option.some.inj h
    exact ⟨.num 2, rfl, rfl⟩
  name obj h := (Option.some.inj h).symm

/-- The length 5 passes the test `qty < 5`, and the element 5 is read. -/
theorem withoutMore_outOfRange : Decoded (.array withoutMore) ∧
    Announces zeros withoutMore .bufLines ∧
    handleNvimMessage zeros (fun _ => some fresh) withoutMore = .error (.outOfRange 5 5) ∧
    ¬ InRange (handleNvimMessage zeros (fun _ => some fresh) withoutMore) := by
  have hrun : handleNvimMessage zeros (fun _ => some fresh) withoutMore =
      .error (.outOfRange 5 5) := rfl
  refine ⟨withoutMore_decoded, withoutMore_announces, hrun, ?_⟩
  rw [hrun]
  exact not_inRange_outOfRange 5 5

/-- For a buffer that is not known, the same message ends in a reported error. -/
theorem withoutMore_unknown : InRange (handleNvimMessage zeros (fun _ => none) withoutMore) ↔
    WellSized zeros (fun _ => none) withoutMore .bufLines :=
  handleNvimMessage_inRange_iff zeros (fun _ => none) withoutMore_decoded (Or.inl rfl)
    withoutMore_announces

/-! ### The tick

The tick is asked for with an alternative, so the second try of `mpack_expect` comes into play.  A
nil is then handed out as if it had something in it, and what the buffer gets for its tick is what
was in that memory.
-/

theorem applyLineEvent_ctick {mem : Memory} {bdata bdata' : Bufdata} {arr : List Obj}
    (h : applyLineEvent mem bdata arr = .ok bdata') : bdata'.ctick = bdata.ctick := by
  unfold applyLineEvent at h
  simp only [bind_eq_ok] at h
  obtain ⟨_, _, first, _, _, _, last, _, _, _, _, _, strs, _, h⟩ := h
  split at h
  · cases h
    rfl
  · cases h

theorem handleLineEvent_ctick {mem : Memory} {bdata bdata' : Bufdata} {arr : List Obj}
    (h : handleLineEvent mem bdata arr = .ok bdata') : bdata'.ctick = bdata.ctick := by
  unfold handleLineEvent at h
  split at h
  · cases h
  obtain ⟨more, _, h⟩ := bind_eq_ok.mp h
  split at h
  · cases h
  · exact applyLineEvent_ctick h

/-- Of a nil, `mpack_expect` gives out what is in its union. -/
theorem expect_tick_nil :
    expect (some .nil) .num Expect.mpackNil.flag = .ok (.misread .nil) := by
  have hrun : mpackExpect (some .nil) Expect.num.flag Expect.mpackNil.flag =
      some (.ok (.misread .nil)) := mpackExpect_tick rfl
  rw [expect, hrun]

theorem handleBufferUpdate_nil_ctick {mem : Memory} {bdata bdata' : Bufdata} {params : List Obj}
    {type : EventType} (htick : params[1]? = some .nil)
    (h : handleBufferUpdate mem bdata (.arr params) type = .ok bdata') :
    bdata'.ctick = (mem.word (.misread .nil)).toUInt32 := by
  have hword : mem.num (.misread .nil) ≠ 0 := by
    intro hzero
    have hlow := mem.word_nil
    rw [show mem.word (.misread .nil) = 0 from hzero] at hlow
    exact absurd hlow (by decide)
  unfold handleBufferUpdate at h
  simp only [elementOf, element_eq_ok.mpr htick, ok_bind, expect_tick_nil, exchangeTick, if_pos hword]
    at h
  cases type with
  | bufLines => exact handleLineEvent_ctick h
  | _ =>
      cases h
      rfl

/--
**The contract of `mpack_expect`.**  For a decoded object, a call comes back with what its
caller relies on exactly as `ExpectOk` says.  And a notification whose tick is nil leaves the
tick of the buffer as it was only if that is by chance what the union of the nil holds.
-/
theorem mpackExpect_contract_iff (mem : Memory) :
    (∀ (type : Expect) (alternatives : UInt32) (obj : Obj), Decoded obj → type ≠ .dict2arr →
      (Delivers type alternatives obj ↔ ExpectOk type alternatives obj)) ∧
    ∀ (bdata bdata' : Bufdata) (params : List Obj) (type : EventType),
      params[1]? = some .nil → handleBufferUpdate mem bdata (.arr params) type = .ok bdata' →
        (bdata'.ctick = bdata.ctick ↔ bdata.ctick = (mem.word (.misread .nil)).toUInt32) := by
  refine ⟨fun type alternatives obj hdec hd2a => delivers_iff hdec.ext_len hd2a,
    fun bdata bdata' params type htick h => ?_⟩
  rw [handleBufferUpdate_nil_ctick htick h]
  exact eq_comm

theorem nil_decoded : Decoded .nil := ⟨[0xC0], .nil, [], rfl, .self _⟩

theorem mpackExpect_contract_iff_nil : Decoded .nil ∧
    (Delivers .num Expect.mpackNil.flag .nil ↔ ExpectOk .num Expect.mpackNil.flag .nil) :=
  ⟨nil_decoded, (mpackExpect_contract_iff zeros).1 .num _ .nil nil_decoded nofun⟩

/-- With `E_MPACK_NIL` as an alternative, a nil is taken for a pointer: tick 5 becomes 192. -/
theorem nil_tick_taken : Decoded .nil ∧ ¬ Delivers .num Expect.mpackNil.flag .nil ∧
    ∃ bdata', handleBufferUpdate zeros fresh (.arr [.unsigned 1, .nil]) .bufChangedTick = .ok bdata' ∧
      fresh.ctick = 5 ∧ bdata'.ctick = 192 := by
  refine ⟨nil_decoded, fun hdel => ?_, _, rfl, rfl, rfl⟩
  obtain ⟨ret, hrun, hret⟩ := hdel
  rw [mpackExpect_tick rfl] at hrun
  cases hrun
  exact not_delivered_misread _ hret

end TagHighlight.Notification
