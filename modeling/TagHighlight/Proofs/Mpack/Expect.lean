/-
When `mpack_expect` gives its caller what the object holds.

One round of the loop either takes a branch or takes a flag out of the alternatives.  The
flag of the second round depends on the object alone, so a second failure repeats itself;
that is `expectLoop_retry`.  What the second round does to each type of object is
`retry_eq`, and the condition `ExpectOk` is read off it.

Two things come together in the failures.  The second try takes the number of the object's type
for flags, so it asks for something that has nothing to do with the object; and the branch for
arrays does not look at the type at all.  Where the number of a type happens to be the flag of
arrays, a union is read through a member that was never written.
-/
import Mathlib.Tactic.IntervalCases
import TagHighlight.Mpack.Expect

namespace TagHighlight

/-! ### Flags -/

/-- A flag that was taken out stays out. -/
theorem clear_clear (a x : UInt32) : a &&& ~~~x &&& ~~~x = a &&& ~~~x := by
  rw [UInt32.and_assoc, UInt32.and_self]

theorem clear_or (a x y : UInt32) : a &&& ~~~x &&& ~~~y = a &&& ~~~(x ||| y) := by
  refine UInt32.toBitVec_inj.mp (BitVec.eq_of_getLsbD_eq fun i hi => ?_)
  simp [hi, Bool.and_assoc]

theorem or_and_eq_zero {x y z : UInt32} (hx : x &&& z = 0) (hy : y &&& z = 0) :
    (x ||| y) &&& z = 0 := by
  refine UInt32.toBitVec_inj.mp ?_
  rw [UInt32.toBitVec_and, UInt32.toBitVec_or, BitVec.and_or_distrib_right, ← UInt32.toBitVec_and,
    ← UInt32.toBitVec_and, hx, hy]
  rfl

/-- Where every alternative is among `x`, none is apart from `x`. -/
theorem OnlyAlternatives.and_eq_zero {a x y : UInt32} (h : OnlyAlternatives a x)
    (hxy : x &&& y = 0) : a &&& y = 0 := by
  refine UInt32.toBitVec_inj.mp (BitVec.eq_of_getLsbD_eq fun i hi => ?_)
  have h1 := congrArg (fun n : UInt32 => n.toBitVec.getLsbD i) h
  have h2 := congrArg (fun n : UInt32 => n.toBitVec.getLsbD i) hxy
  simp [hi] at h1 h2 ⊢
  grind

theorem Expect.flag_inj {d e : Expect} (h : d.flag &&& e.flag ≠ 0) : d = e := by
  revert h
  cases d <;> cases e <;> decide

theorem find_flag (e : Expect) :
    (expectOrder.find? fun d => e.flag &&& d.flag != 0) = some e := by
  cases e <;> rfl

/-! ### The loop

The first round looks at the flag that was asked for, and all later ones at the number of the
object's own type.  So two rounds decide everything: if the second fails and alternatives are
left, the third is the same as the second, and the function never returns.
-/

theorem expectLoop_succ (obj : Obj) (fuel : Nat) {type : UInt32} (alternatives : UInt32)
    {e : Expect} (h : (expectOrder.find? fun d => type &&& d.flag != 0) = some e) :
    expectLoop obj (fuel + 1) type alternatives =
      match e.branch obj with
      | some ret => some ret
      | none =>
          if alternatives &&& ~~~e.flag ≠ 0 then
            expectLoop obj fuel obj.mpackType (alternatives &&& ~~~e.flag)
          else some (.ok .null) := by
  cases hbranch : e.branch obj with
  | none => simp only [expectLoop, h, hbranch]
  | some ret => simp only [expectLoop, h, hbranch]

/-- The number of a type, read as flags. -/
theorem find_mpackType (obj : Obj) :
    (expectOrder.find? fun d => obj.mpackType &&& d.flag != 0) = some obj.retry := by
  cases obj <;> simp only [Obj.mpackType, Obj.retry] <;> decide

/-- From the second round on nothing changes. -/
theorem expectLoop_retry (obj : Obj) : ∀ (fuel : Nat) (alternatives : UInt32),
    expectLoop obj (fuel + 1) obj.mpackType alternatives =
      expectLoop obj 1 obj.mpackType alternatives := by
  have he := find_mpackType obj
  intro fuel
  induction fuel with
  | zero => intro _; rfl
  | succ fuel ih =>
      intro alternatives
      rw [expectLoop_succ obj (fuel + 1) _ he, expectLoop_succ obj 0 _ he]
      cases hbranch : obj.retry.branch obj with
      | some ret => rfl
      | none =>
          dsimp only
          split
          · rename_i hleft
            rw [ih, expectLoop_succ obj 0 _ he, hbranch, clear_clear]
            exact if_pos hleft
          · rfl

/-- The loop ends in its second round or never. -/
theorem mpackExpect_eq_expectLoop (obj : Obj) (type alternatives : UInt32) (fuel : Nat) :
    expectLoop obj (fuel + 2) type alternatives = mpackExpect (some obj) type alternatives := by
  rw [mpackExpect, expectLoop, expectLoop]
  cases expectOrder.find? fun d => type &&& d.flag != 0 with
  | none => rfl
  | some e =>
      dsimp only
      rw [expectLoop_retry]

section OneType

variable {obj : Obj} {type : Expect} {alternatives : UInt32}

theorem mpackExpect_taken {ret : Except Fault Retval} (h : type.branch obj = some ret) :
    mpackExpect (some obj) type.flag alternatives = some ret := by
  rw [mpackExpect, expectLoop_succ obj 1 _ (find_flag type), h]

/-- Nothing is left to try. -/
theorem mpackExpect_alone (h : type.branch obj = none)
    (halone : OnlyAlternatives alternatives type.flag) :
    mpackExpect (some obj) type.flag alternatives = some (.ok .null) := by
  rw [mpackExpect, expectLoop_succ obj 1 _ (find_flag type), h]
  exact if_neg (not_not_intro halone)

/-- The second try is the branch for the number of the object's type. -/
theorem mpackExpect_retry (h : type.branch obj = none)
    (hleft : ¬ OnlyAlternatives alternatives type.flag) :
    mpackExpect (some obj) type.flag alternatives =
      match obj.retry.branch obj with
      | some ret => some ret
      | none =>
          if OnlyAlternatives alternatives (type.flag ||| obj.retry.flag) then some (.ok .null)
          else none := by
  rw [mpackExpect, expectLoop_succ obj 1 _ (find_flag type), h]
  dsimp only
  rw [if_pos (show alternatives &&& ~~~type.flag ≠ 0 from hleft),
    expectLoop_succ obj 0 _ (find_mpackType obj), clear_or]
  cases obj.retry.branch obj with
  | some ret => rfl
  | none => exact ite_not _ _ _

/-! ### Branches

A branch that is taken for an object of its own type gives out its payload.  For an object of
another type most branches go to the error label; only the one for arrays gives out what it finds
in the union.
-/

theorem attemptToInterpretExt_ok {e : Ext} (h : e.len ≤ 8) :
    ∃ n, attemptToInterpretExt e = .ok n := by
  have hlen : e.len.toNat ≤ 8 := h
  unfold attemptToInterpretExt
  dsimp only
  generalize e.len.toNat = len at hlen
  interval_cases len <;> exact ⟨_, rfl⟩

theorem mpackArrayToBlist_strings {lst : List Obj} (h : ∀ obj ∈ lst, obj.str?.isSome) :
    ∃ strs, lst.mapM Obj.str? = some strs := by
  induction lst with
  | nil => exact ⟨[], rfl⟩
  | cons obj lst ih =>
      obtain ⟨str, hstr⟩ := Option.isSome_iff_exists.mp (h obj List.mem_cons_self)
      obtain ⟨strs, hstrs⟩ := ih fun o ho => h o (List.mem_cons_of_mem obj ho)
      exact ⟨str :: strs, by simp [List.mapM_cons, hstr, hstrs]⟩

theorem mpackArrayToBlist_others {lst : List Obj} (h : ¬ ∀ obj ∈ lst, obj.str?.isSome) :
    lst.mapM Obj.str? = none := by
  induction lst with
  | nil => simp at h
  | cons obj lst ih =>
      cases hstr : obj.str? with
      | none => simp [List.mapM_cons, hstr]
      | some str =>
          have hrest : ¬ ∀ o ∈ lst, o.str?.isSome := by
            intro hall
            refine h fun o ho => ?_
            rcases List.mem_cons.mp ho with rfl | ho
            · rw [hstr]
              rfl
            · exact hall o ho
          simp [List.mapM_cons, hstr, ih hrest]

/-- An object that meets the expectation is given out as it is. -/
theorem Expect.branch_of_accepts (hext : ∀ e, obj = .ext e → e.len ≤ 8)
    (h : type.accepts obj) (hstrs : type = .strlist → obj.AllStrings) :
    ∃ ret, type.branch obj = some (.ok ret) ∧ type.payload obj = some ret := by
  cases type with
  | strlist =>
      cases obj with
      | array lst =>
          obtain ⟨strs, hmap⟩ := mpackArrayToBlist_strings (hstrs rfl)
          exact ⟨.strlist strs, by simp [Expect.branch, mpackArrayToBlist, hmap],
            by simp [Expect.payload, hmap]⟩
      | _ => cases h
  | num =>
      cases obj with
      | ext e =>
          obtain ⟨n, hn⟩ := attemptToInterpretExt_ok (hext e rfl)
          exact ⟨.num n, by simp [Expect.branch, hn], by simp [Expect.payload, hn, Except.toOption]⟩
      | signed n => exact ⟨_, rfl, rfl⟩
      | unsigned n => exact ⟨_, rfl, rfl⟩
      | _ => cases h
  | _ =>
      cases obj with
      | _ => first | exact ⟨_, rfl, rfl⟩ | cases h

/-- Apart from arrays, the branches test the type. -/
theorem Expect.branch_eq_none (h : ¬ type.accepts obj) (harr : type ≠ .mpackArray)
    (hd2a : type ≠ .dict2arr) : type.branch obj = none := by
  cases type with
  | mpackArray => exact absurd rfl harr
  | dict2arr => exact absurd rfl hd2a
  | _ =>
      cases obj with
      | _ => first | rfl | exact absurd rfl h

theorem Expect.payload_ne_misread (e : Expect) (obj obj' : Obj) :
    e.payload obj ≠ some (.misread obj') := by
  cases e with
  | strlist =>
      cases obj with
      | array lst => simp [Expect.payload]
      | _ => simp [Expect.payload]
  | num =>
      cases obj with
      | _ => simp [Expect.payload]
  | _ =>
      cases obj with
      | _ => simp [Expect.payload]

/-- What was read through the wrong member is never what the caller relies on. -/
theorem not_delivered_misread (obj' : Obj) : ¬ Delivered type alternatives obj (.misread obj') := by
  intro h
  rcases h with ⟨e, _, _, hpayload⟩ | ⟨_, hnull⟩
  · exact Expect.payload_ne_misread e obj obj' hpayload
  · cases hnull

/-- Where every alternative is one of two flags, nothing else is expected. -/
theorem Expected.eq_or_eq {x e : Expect} (h : Expected type alternatives e)
    (honly : OnlyAlternatives alternatives (type.flag ||| x.flag)) : e = type ∨ e = x := by
  by_contra hno
  have htype : type.flag &&& e.flag = 0 := by
    by_contra hne
    exact hno (Or.inl (Expect.flag_inj hne).symm)
  have hx : x.flag &&& e.flag = 0 := by
    by_contra hne
    exact hno (Or.inr (Expect.flag_inj hne).symm)
  rcases h with rfl | hne
  · exact hno (Or.inl rfl)
  · refine hne (honly.and_eq_zero ?_)
    exact or_and_eq_zero htype hx

theorem Expected.eq_type {e : Expect} (h : Expected type alternatives e)
    (honly : OnlyAlternatives alternatives type.flag) : e = type := by
  rcases h with rfl | hne
  · rfl
  · by_contra hno
    refine hne (honly.and_eq_zero ?_)
    by_contra h'
    exact hno (Expect.flag_inj h').symm

theorem delivered_null_of_none (h : ∀ e, Expected type alternatives e → ¬ e.accepts obj) :
    Delivered type alternatives obj .null := Or.inr ⟨h, rfl⟩

/-! ### The contract

The three cases of `ExpectOk` are those of the loop: the first try succeeds, nothing is left to
try, or the second try does no harm.  The last one is possible for arrays, where the second try
may be asked for on purpose, and for objects whose number is no flag that matters.
-/

/-- Apart from arrays, no object meets the expectation its own number is taken for. -/
theorem Obj.retry_not_accepts (h : obj.retry ≠ .mpackArray) : ¬ obj.retry.accepts obj := by
  cases obj with
  | _ => first | exact absurd rfl h | exact Bool.false_ne_true

/-- The call comes back with what its caller relies on. -/
def Delivers (type : Expect) (alternatives : UInt32) (obj : Obj) : Prop :=
  ∃ ret, mpackExpect (some obj) type.flag alternatives = some (.ok ret) ∧
    Delivered type alternatives obj ret

theorem delivers_of_accepts (hext : ∀ e, obj = .ext e → e.len ≤ 8) (h : type.accepts obj)
    (hstrs : type = .strlist → obj.AllStrings) : Delivers type alternatives obj := by
  obtain ⟨ret, hbranch, hpayload⟩ := Expect.branch_of_accepts hext h hstrs
  exact ⟨ret, mpackExpect_taken hbranch, Or.inl ⟨type, Or.inl rfl, h, hpayload⟩⟩

/-- A list of strings that has something else in it is not given out as it is. -/
theorem not_delivers_strlist (h : ¬ obj.AllStrings) : ¬ Delivers .strlist alternatives obj := by
  intro hdel
  obtain ⟨ret, hrun, hret⟩ := hdel
  cases obj with
  | array lst =>
      have hbranch : Expect.strlist.branch (.array lst) = some (.ok (.misread (.array lst))) := by
        simp only [Expect.branch, mpackArrayToBlist, mpackArrayToBlist_others h]
      rw [mpackExpect_taken hbranch] at hrun
      cases hrun
      exact not_delivered_misread _ hret
  | _ => exact h trivial

/-- Without a test of its type, anything is given out for an array. -/
theorem Expect.mpackArray_branch (h : ¬ Expect.mpackArray.accepts obj) :
    Expect.mpackArray.branch obj = some (.ok (.misread obj)) := by
  cases obj with
  | array lst => exact absurd rfl h
  | _ => rfl

theorem not_delivers_mpackArray (h : ¬ Expect.mpackArray.accepts obj) :
    ¬ Delivers .mpackArray alternatives obj := by
  intro hdel
  obtain ⟨ret, hrun, hret⟩ := hdel
  rw [mpackExpect_taken (Expect.mpackArray_branch h)] at hrun
  cases hrun
  exact not_delivered_misread _ hret

/-- The branch for arrays serves a caller that asked for something else, if it takes arrays too. -/
theorem delivered_mpackArray_iff (harr : type ≠ .mpackArray) :
    (∃ ret, Expect.mpackArray.branch obj = some (.ok ret) ∧
      Delivered type alternatives obj ret) ↔
    Expect.mpackArray.accepts obj ∧ alternatives &&& Expect.mpackArray.flag ≠ 0 := by
  constructor
  · intro hdel
    obtain ⟨ret, hbranch, hret⟩ := hdel
    have hacc : Expect.mpackArray.accepts obj := by
      by_contra hno
      rw [Expect.mpackArray_branch hno] at hbranch
      cases hbranch
      exact not_delivered_misread _ hret
    refine ⟨hacc, ?_⟩
    cases obj with
    | array lst =>
        cases hbranch
        rcases hret with ⟨e, hexp, _, hpayload⟩ | ⟨_, hnull⟩
        · have he : e = .mpackArray := by
            cases e with
            | mpackArray => rfl
            | strlist => simp [Expect.payload] at hpayload
            | _ => cases hpayload
          subst he
          exact hexp.resolve_left harr.symm
        · cases hnull
    | _ => cases hacc
  · intro hboth
    obtain ⟨hacc, hflag⟩ := hboth
    cases obj with
    | array lst => exact ⟨_, rfl, Or.inl ⟨.mpackArray, Or.inr hflag, rfl, rfl⟩⟩
    | _ => cases hacc

/-- The second try, when the first has failed and alternatives are left. -/
theorem delivers_retry_iff (h : ¬ type.accepts obj) (hbranch : type.branch obj = none)
    (hleft : ¬ OnlyAlternatives alternatives type.flag) (harr : type ≠ .mpackArray) :
    Delivers type alternatives obj ↔
      (obj.retry ≠ .mpackArray ∧ OnlyAlternatives alternatives (type.flag ||| obj.retry.flag)) ∨
      (Expect.mpackArray.accepts obj ∧ alternatives &&& Expect.mpackArray.flag ≠ 0) := by
  unfold Delivers
  rw [mpackExpect_retry hbranch hleft]
  by_cases hretry : obj.retry = .mpackArray
  · -- The number has the bit of `E_MPACK_ARRAY`, whose branch takes anything.
    obtain ⟨ret, hsome⟩ : ∃ ret, Expect.mpackArray.branch obj = some ret := by
      cases obj with
      | _ => exact ⟨_, rfl⟩
    rw [← delivered_mpackArray_iff harr, hretry, hsome]
    simp only [ne_eq, not_true_eq_false, false_and, false_or]
  · have hnot := Obj.retry_not_accepts hretry
    have hnoarr : ¬ Expect.mpackArray.accepts obj := by
      cases obj with
      | array lst => exact absurd rfl hretry
      | _ => exact Bool.false_ne_true
    have hd2a : obj.retry ≠ .dict2arr := by
      cases obj with
      | _ => exact Expect.noConfusion
    rw [Expect.branch_eq_none hnot hretry hd2a]
    dsimp only
    by_cases honly : OnlyAlternatives alternatives (type.flag ||| obj.retry.flag)
    · rw [if_pos honly]
      refine iff_of_true ⟨_, rfl, delivered_null_of_none fun e he => ?_⟩ (Or.inl ⟨hretry, honly⟩)
      rcases he.eq_or_eq honly with rfl | rfl
      · exact h
      · exact hnot
    · rw [if_neg honly]
      refine iff_of_false (fun hdel => ?_) fun hor => ?_
      · obtain ⟨ret, hrun, _⟩ := hdel
        cases hrun
      · exact hor.elim (fun hc => honly hc.2) fun hc => hnoarr hc.1

/-- When a call comes back with what its caller relies on. -/
theorem delivers_iff (hext : ∀ e, obj = .ext e → e.len ≤ 8) (hd2a : type ≠ .dict2arr) :
    Delivers type alternatives obj ↔ ExpectOk type alternatives obj := by
  unfold ExpectOk
  by_cases hacc : type.accepts obj
  · have hfirst : ¬¬ type.accepts obj := not_not_intro hacc
    simp only [hacc, not_true_eq_false, true_and, false_and, or_false]
    refine ⟨fun hdel hstr => ?_, delivers_of_accepts hext hacc⟩
    by_contra hno
    exact not_delivers_strlist hno (hstr ▸ hdel)
  · simp only [hacc, Bool.false_eq_true, not_false_eq_true, false_and, true_and, false_or]
    by_cases harr : type = .mpackArray
    · subst harr
      exact iff_of_false (not_delivers_mpackArray hacc) fun hc => hc.1 rfl
    · have hbranch := Expect.branch_eq_none hacc harr hd2a
      by_cases halone : OnlyAlternatives alternatives type.flag
      · refine iff_of_true ⟨_, mpackExpect_alone hbranch halone, delivered_null_of_none fun e he => ?_⟩
          ⟨harr, Or.inl halone⟩
        rw [he.eq_type halone]
        exact hacc
      · rw [delivers_retry_iff hacc hbranch halone harr]
        simp only [ne_eq, harr, not_false_eq_true, true_and, halone, false_or]

end OneType

/-! ### Decoded objects

The abort for extension objects that are too long needs an object that the decoder does not make,
for it exits when it is told of more than eight bytes.  This is followed through the containers,
for an object may be a part of another one.
-/

/-- No extension object in it is longer than the union that holds it. -/
def Obj.ExtsFit (obj : Obj) : Prop := ∀ e, (Obj.ext e).Part obj → e.len ≤ 8

theorem Obj.ExtsFit.array {lst : List Obj} (h : ∀ obj ∈ lst, obj.ExtsFit) :
    (Obj.array lst).ExtsFit := by
  intro e hpart
  cases hpart with
  | item mem hpart => exact h _ mem e hpart

theorem Obj.ExtsFit.dict {lst : List (Obj × Obj)}
    (h : ∀ key value, (key, value) ∈ lst → key.ExtsFit ∧ value.ExtsFit) :
    (Obj.dict lst).ExtsFit := by
  intro e hpart
  cases hpart with
  | key mem hpart => exact (h _ _ mem).1 e hpart
  | value mem hpart => exact (h _ _ mem).2 e hpart

theorem decodeExt_extsFit {mask : Mask} {buf rest : BString} {obj : Obj}
    (h : decodeExt mask buf = .ok (obj, rest)) : obj.ExtsFit := by
  suffices hlen : ∃ e, obj = .ext e ∧ e.len ≤ 8 by
    obtain ⟨e, rfl, hle⟩ := hlen
    intro e' hpart
    cases hpart
    exact hle
  have hread : ∀ len, len ≤ 8 → readExt len buf = .ok (obj, rest) →
      ∃ e, obj = .ext e ∧ e.len ≤ 8 := by
    intro len hlen hrun
    obtain ⟨⟨type, buf1⟩, -, hrun⟩ := Fault.bind_eq_ok.mp hrun
    obtain ⟨⟨payload, buf2⟩, -, hrun⟩ := Fault.bind_eq_ok.mp hrun
    cases hrun
    refine ⟨_, rfl, ?_⟩
    show UInt8.ofNat len ≤ 8
    interval_cases len <;> decide
  rw [decodeExt] at h
  split at h
  · exact hread 1 (by decide) h
  · exact hread 2 (by decide) h
  · exact hread 4 (by decide) h
  · exact hread 8 (by decide) h
  · obtain ⟨⟨len, buf1⟩, -, h⟩ := Fault.bind_eq_ok.mp h
    obtain ⟨⟨type, buf2⟩, -, h⟩ := Fault.bind_eq_ok.mp h
    dsimp only at h
    split at h
    · cases h
    · rename_i hlen
      obtain ⟨⟨payload, buf3⟩, -, h⟩ := Fault.bind_eq_ok.mp h
      cases h
      exact ⟨_, rfl, UInt8.not_lt.mp hlen⟩
  · cases h

section Inner

variable {d : Decoder Obj} (hd : ∀ buf obj rest, d buf = .ok (obj, rest) → obj.ExtsFit)

include hd

theorem decodeItems_extsFit : ∀ (count : Nat) (buf : BString) {lst : List Obj} {rest : BString},
    decodeItems d count buf = .ok (lst, rest) → ∀ obj ∈ lst, obj.ExtsFit := by
  intro count
  induction count with
  | zero =>
      intro buf lst rest h obj hobj
      cases h
      cases hobj
  | succ count ih =>
      intro buf lst rest h obj hobj
      obtain ⟨⟨item, buf1⟩, hitem, h⟩ := Fault.bind_eq_ok.mp h
      obtain ⟨⟨items, buf2⟩, hitems, h⟩ := Fault.bind_eq_ok.mp h
      cases h
      rcases List.mem_cons.mp hobj with rfl | hmem
      · exact hd _ _ _ hitem
      · exact ih _ hitems obj hmem

theorem decodeEntries_extsFit : ∀ (count : Nat) (buf : BString) {lst : List (Obj × Obj)}
    {rest : BString}, decodeEntries d count buf = .ok (lst, rest) →
      ∀ key value, (key, value) ∈ lst → key.ExtsFit ∧ value.ExtsFit := by
  intro count
  induction count with
  | zero =>
      intro buf lst rest h key value hmem
      cases h
      cases hmem
  | succ count ih =>
      intro buf lst rest h key value hmem
      obtain ⟨⟨k, buf1⟩, hk, h⟩ := Fault.bind_eq_ok.mp h
      obtain ⟨⟨v, buf2⟩, hv, h⟩ := Fault.bind_eq_ok.mp h
      obtain ⟨⟨entries, buf3⟩, hentries, h⟩ := Fault.bind_eq_ok.mp h
      cases h
      rcases List.mem_cons.mp hmem with heq | hmem
      · cases heq
        exact ⟨hd _ _ _ hk, hd _ _ _ hv⟩
      · exact ih _ hentries key value hmem

theorem decodeGroup_extsFit {ch : UInt8} {mask : Mask} {buf rest : BString} {obj : Obj}
    (h : decodeGroup d ch mask buf = .ok (obj, rest)) : obj.ExtsFit := by
  rw [decodeGroup] at h
  split at h
  · cases h
    intro e hpart
    cases hpart
  · obtain ⟨b, hbool, h⟩ := Fault.bind_eq_ok.mp h
    cases h
    rw [decodeBool] at hbool
    intro e hpart
    split at hbool <;> cases hbool <;> cases hpart
  · obtain ⟨⟨size, buf1⟩, -, h⟩ := Fault.bind_eq_ok.mp h
    obtain ⟨⟨lst, buf2⟩, hlst, h⟩ := Fault.bind_eq_ok.mp h
    cases h
    exact Obj.ExtsFit.array (decodeItems_extsFit hd _ _ hlst)
  · obtain ⟨⟨size, buf1⟩, -, h⟩ := Fault.bind_eq_ok.mp h
    obtain ⟨⟨lst, buf2⟩, hlst, h⟩ := Fault.bind_eq_ok.mp h
    cases h
    exact Obj.ExtsFit.dict (decodeEntries_extsFit hd _ _ hlst)
  · obtain ⟨⟨size, buf1⟩, -, h⟩ := Fault.bind_eq_ok.mp h
    dsimp only at h
    split at h
    · cases h
    · obtain ⟨⟨bytes, buf2⟩, -, h⟩ := Fault.bind_eq_ok.mp h
      cases h
      intro e hpart
      cases hpart
  · exact decodeExt_extsFit h
  all_goals
    first
      | obtain ⟨⟨value, buf1⟩, -, h⟩ := Fault.bind_eq_ok.mp h
        cases h
        intro e hpart
        cases hpart
      | cases h

end Inner

theorem decodeFuel_extsFit : ∀ (fuel : Nat) (buf : BString) (obj : Obj) (rest : BString),
    decodeFuel fuel buf = .ok (obj, rest) → obj.ExtsFit := by
  intro fuel
  induction fuel with
  | zero => intro buf obj rest h; cases h
  | succ fuel ih =>
      intro buf obj rest h
      obtain ⟨⟨ch, buf1⟩, -, h⟩ := Fault.bind_eq_ok.mp h
      obtain ⟨mask, -, h⟩ := Fault.bind_eq_ok.mp h
      exact decodeGroup_extsFit ih h

theorem Obj.Part.trans {a b c : Obj} (hab : a.Part b) (hbc : b.Part c) : a.Part c := by
  induction hbc with
  | self => exact hab
  | item mem _ ih => exact .item mem ih
  | key mem _ ih => exact .key mem ih
  | value mem _ ih => exact .value mem ih

theorem Decoded.extsFit {obj : Obj} (h : Decoded obj) : obj.ExtsFit := by
  obtain ⟨buf, top, rest, hrun, hpart⟩ := h
  intro e he
  exact decodeFuel_extsFit _ _ _ _ hrun e (he.trans hpart)

/-- A decoded extension object fits its union. -/
theorem Decoded.ext_len {obj : Obj} (h : Decoded obj) : ∀ e, obj = .ext e → e.len ≤ 8 := by
  intro e he
  exact h.extsFit e (he ▸ .self _)

end TagHighlight
