/-
When requests overtake each other.

As long as no two requests of a buffer wait to be written at the same time, there is nothing
to overtake: the requests of a buffer are those written and then the one that waits, if any.
That is the invariant.  As soon as two of them wait, the schedule can have the newer one
written first, and the invariant up to then shows that this is out of order.

Nothing is assumed of the schedule.  The condition is on the moments at which requests are issued,
and these are in the hands of the program: it could wait for the thread that it has started.  It
does not, and `secondFirst` is what comes of it.
-/
import TagHighlight.NvimApi.AsyncCall

namespace TagHighlight.AsyncCall

theorem ofBuffer_append (bufnum : Nat) (gcs gcs' : List Gencall) :
    ofBuffer bufnum (gcs ++ gcs') = ofBuffer bufnum gcs ++ ofBuffer bufnum gcs' :=
  List.filter_append ..

theorem ofBuffer_self (gc : Gencall) : ofBuffer gc.bufnum [gc] = [gc] := by simp [ofBuffer]

theorem ofBuffer_other {bufnum : Nat} {gc : Gencall} (h : gc.bufnum ≠ bufnum) :
    ofBuffer bufnum [gc] = [] := by
  simp [ofBuffer, h]

/-- The list around its `i`-th element. -/
theorem eq_around {gcs : List Gencall} {i : Nat} {gc : Gencall} (h : gcs[i]? = some gc) :
    gcs = gcs.take i ++ [gc] ++ gcs.drop (i + 1) ∧
      gcs.eraseIdx i = gcs.take i ++ gcs.drop (i + 1) := by
  obtain ⟨hi, rfl⟩ := List.getElem?_eq_some_iff.mp h
  refine ⟨?_, List.eraseIdx_eq_take_drop_succ ..⟩
  rw [List.append_assoc, List.singleton_append, List.getElem_cons_drop, List.take_append_drop]

/-! ### The invariant

The requests of each buffer are looked at by themselves.  Issuing one puts it at the end of them,
and writing one takes it from those that wait; if it is the only one of its buffer that waits, it
is also the one that was issued last, and so it belongs at the end of those that were written.
-/

/-- No two requests of a buffer wait, and the one that does is the last one. -/
structure Kept (s : CallState) : Prop where
  split : ∀ bufnum, ofBuffer bufnum s.issued = ofBuffer bufnum s.wire ++ ofBuffer bufnum s.threads
  one : ∀ bufnum, (ofBuffer bufnum s.threads).length ≤ 1
  counted : ∀ gc ∈ s.threads, gc.count < s.count

namespace Kept

variable {s s' : CallState} {a : CallAction}

theorem init : Kept callSystem.init where
  split _ := rfl
  one _ := Nat.zero_le _
  counted := nofun

theorem inOrder (h : Kept s) : InOrder s where
  written bufnum := by
    rw [h.split]
    exact List.prefix_append _ _
  newest hnone bufnum := by
    rw [h.split, hnone]
    simp [ofBuffer]

/-- A request that is issued alone. -/
theorem issue (h : Kept s) {gc : Gencall} (hcount : gc.count = s.count)
    (halone : ofBuffer gc.bufnum s.threads = []) : Kept (s.start gc) where
  split bufnum := by
    simp only [CallState.start, ofBuffer_append, h.split bufnum, List.append_assoc]
  one bufnum := by
    simp only [CallState.start, ofBuffer_append, List.length_append]
    by_cases hb : gc.bufnum = bufnum
    · subst hb
      rw [halone, ofBuffer_self]
      exact Nat.le_refl 1
    · rw [ofBuffer_other hb]
      exact h.one bufnum
  counted gc' hgc' := by
    rcases List.mem_append.mp hgc' with hold | hnew
    · exact Nat.lt_succ_of_lt (h.counted gc' hold)
    · rw [List.mem_singleton.mp hnew, hcount]
      exact Nat.lt_succ_self _

/-- A request that is written. -/
theorem write (h : Kept s) {i : Nat} {gc : Gencall} (hgc : s.threads[i]? = some gc) :
    Kept { s with threads := s.threads.eraseIdx i, wire := s.wire ++ [gc] } := by
  obtain ⟨haround, herase⟩ := eq_around hgc
  have hsplit : ∀ bufnum, ofBuffer bufnum s.threads = ofBuffer bufnum (s.threads.take i) ++
      ofBuffer bufnum [gc] ++ ofBuffer bufnum (s.threads.drop (i + 1)) := by
    intro bufnum
    rw [← ofBuffer_append, ← ofBuffer_append, ← haround]
  have hone : ∀ bufnum, (ofBuffer bufnum (s.threads.take i)).length +
      (ofBuffer bufnum [gc]).length + (ofBuffer bufnum (s.threads.drop (i + 1))).length ≤ 1 := by
    intro bufnum
    have hle := h.one bufnum
    rwa [hsplit bufnum, List.length_append, List.length_append] at hle
  refine { split := fun bufnum => ?_, one := fun bufnum => ?_, counted := fun gc' hgc' => ?_ }
  · dsimp only
    rw [h.split bufnum, hsplit bufnum, herase]
    simp only [ofBuffer_append, List.append_assoc]
    by_cases hb : gc.bufnum = bufnum
    · -- It is the only one of its buffer.
      have hfirst : ofBuffer bufnum (s.threads.take i) = [] := by
        have hle := hone bufnum
        rw [← hb, ofBuffer_self, List.length_singleton] at hle
        rw [← hb]
        exact List.length_eq_zero_iff.mp (by omega)
      rw [hfirst, List.nil_append, List.nil_append]
    · rw [ofBuffer_other hb, List.nil_append, List.nil_append]
  · dsimp only
    rw [herase, ofBuffer_append, List.length_append]
    have hle := hone bufnum
    omega
  · exact h.counted gc' (List.mem_of_mem_eraseIdx hgc')

theorem step (h : Kept s) (hok : Alone s a) (hstep : s.step a = some s') : Kept s' := by
  cases a with
  | issue bufnum pack =>
      cases hstep
      exact h.issue rfl hok
  | write i =>
      obtain ⟨gc, hgc, hs'⟩ := Option.bind_eq_some_iff.mp hstep
      cases hs'
      exact h.write hgc

/-- The thread that was started last may run first. -/
theorem write_last (s : CallState) (gc : Gencall) :
    (s.start gc).step (.write s.threads.length) =
      some { s.start gc with threads := s.threads, wire := s.wire ++ [gc] } := by
  have hlast : (s.start gc).threads[s.threads.length]? = some gc := by simp [CallState.start]
  have herase : (s.start gc).threads.eraseIdx s.threads.length = s.threads := by
    simp [CallState.start, List.eraseIdx_append_of_length_le]
  simp only [CallState.step, hlast, Option.bind_eq_bind, Option.bind_some, herase]
  rfl

/-- Its request then stands where an older one of its buffer belongs. -/
theorem not_inOrder_last (h : Kept s) {gc : Gencall} (hcount : gc.count = s.count)
    (hne : ofBuffer gc.bufnum s.threads ≠ []) :
    ¬ InOrder { s.start gc with threads := s.threads, wire := s.wire ++ [gc] } := by
  intro horder
  obtain ⟨old, olds, holds⟩ := List.exists_cons_of_ne_nil hne
  have hprefix := horder.written gc.bufnum
  simp only [CallState.start, ofBuffer_append, h.split gc.bufnum, holds, ofBuffer_self,
    List.append_assoc] at hprefix
  have hcons := (List.prefix_append_right_inj _).mp hprefix
  have hsame : gc = old := (List.cons_prefix_cons.mp hcons).1
  have hmem : old ∈ ofBuffer gc.bufnum s.threads := holds ▸ List.mem_cons_self
  have hlt := h.counted old (List.mem_of_mem_filter hmem)
  rw [← hsame, hcount] at hlt
  exact Nat.lt_irrefl _ hlt

/-- A request that is not issued alone can be written before one that was there already. -/
theorem overtaken (h : Kept s) (hno : ¬ Alone s a) (hstep : s.step a = some s') :
    ∃ as, ¬ callSystem.Throughout InOrder s' as := by
  cases a with
  | write i => exact absurd trivial hno
  | issue bufnum pack =>
      cases hstep
      refine ⟨[.write s.threads.length], fun hall => ?_⟩
      have hlast := (hall.2 _ (write_last s _)).start
      refine absurd hlast (h.not_inOrder_last rfl ?_)
      exact hno

end Kept

/--
**Requests keep their order**, whatever the schedule, in a run that issues none while an
older one of the same buffer waits to be written.  After the first step that does, some
schedule has them written out of order.
-/
theorem inOrder_of_alone (as : List CallAction)
    (halone : callSystem.Meets Alone callSystem.init as) :
    callSystem.Throughout InOrder callSystem.init as ∧
    ∀ s, callSystem.run callSystem.init as = some s → ∀ a s', callSystem.step s a = some s' →
      ¬ Alone s a → ∃ as', ¬ callSystem.Throughout InOrder s' as' := by
  have hkeep : ∀ s a s', Kept s → Alone s a → callSystem.step s a = some s' → Kept s' :=
    fun _ _ _ h hok hstep => h.step hok hstep
  refine ⟨TransitionSystem.throughout_of_meets (fun _ h => h.inOrder) hkeep Kept.init halone,
    fun s hrun a s' hstep hno => ?_⟩
  have hreached := TransitionSystem.Reached.init.run halone hrun
  exact (hreached.invariant Kept.init hkeep).overtaken hno hstep

/-- Two requests for buffer 1 are issued, and the second thread runs first. -/
def secondFirst : List CallAction := [.issue 1 [], .issue 1 [], .write 1, .write 0]

/-- The highlights of the first computation are shown in the end. -/
theorem secondFirst_stale :
    (∃ s, callSystem.run callSystem.init secondFirst = some s ∧ s.threads = [] ∧
      s.issued.map Gencall.count = [0, 1] ∧ s.wire.map Gencall.count = [1, 0]) ∧
    ¬ callSystem.Throughout InOrder callSystem.init secondFirst := by
  refine ⟨⟨_, rfl, rfl, rfl, rfl⟩, fun h => ?_⟩
  have hnewest := (h.last rfl).newest rfl 1
  revert hnewest
  decide

/-- With the first request written before the second is issued, all is well. -/
theorem inOrder_of_alone_two :
    callSystem.Meets Alone callSystem.init [.issue 1 [], .write 0, .issue 1 [], .write 0] ∧
    callSystem.Throughout InOrder callSystem.init [.issue 1 [], .write 0, .issue 1 [], .write 0] := by
  have hmeets : callSystem.Meets Alone callSystem.init
      [.issue 1 [], .write 0, .issue 1 [], .write 0] := by
    intro s1 h1
    cases h1
    refine ⟨rfl, fun s2 h2 => ?_⟩
    cases h2
    refine ⟨trivial, fun s3 h3 => ?_⟩
    cases h3
    refine ⟨rfl, fun s4 h4 => ?_⟩
    exact ⟨trivial, trivial⟩
  exact ⟨hmeets, (inOrder_of_alone _ hmeets).1⟩

end TagHighlight.AsyncCall
