/-
When every use of a `Buffer` comes before its end.

`destroy_buffer` makes sure of two things: nobody finds the `Buffer` from the closing of
its node on, and nobody is counted in `num_workers` when it stops waiting.  The first means
that a pointer can only be passed on by somebody who has it, and holds in every run.  The
second is no help against a thread that has a pointer and is not counted: one that sleeps,
has not got to the increment, or is past the decrement.  So the condition is about
pointers, and whenever it is not met somebody is left who makes the next access.

The condition cannot be checked by `destroy_buffer` as it is, for it knows only the count.  It is
what would have to be true for the count to be enough: that nobody who has a pointer is outside of
the counted part when the `Buffer` is freed.  Nothing is said here of whether the wait for the
count ends.
-/
import TagHighlight.Buffer.Lifetime

namespace TagHighlight.Lifetime

/-- `destroy_buffer` has closed the node. -/
def Stage.closed : Stage → Bool
  | .uninit | .await | .lockLast | .dispose | .unlockLast | .free => true
  | _ => false

/-- What one access can do, wherever the thread stands. -/
structure Advanced (t : Thread) (bdata after : Bufdata) (next : Option Stage)
    (started : List Thread) : Prop where
  num : after.num = bdata.num
  /-- Nobody but `destroy_buffer` gets past the closing of the node. -/
  closed : ∀ stage, next = some stage → stage.closed = true →
    t.stage.closed = true ∨ t.stage = .closeNode
  fresh : ∀ u ∈ started, u.bdata = t.bdata ∧ u.stage.closed = false

theorem Thread.return_closed {t : Thread} {stage : Stage} (h : t.return = some stage) :
    stage.closed = false := by
  obtain ⟨-, h⟩ := Option.ite_none_right_eq_some.mp h
  obtain rfl := Option.some.inj h
  rfl

theorem Thread.advance_spec {t : Thread} {bdata after : Bufdata} {failed : Bool}
    {next : Option Stage} {started : List Thread}
    (h : t.advance bdata failed = some (after, next, started)) :
    Advanced t bdata after next started := by
  have hreturn : ∀ stage, t.return = some stage → stage.closed = false := fun _ =>
    Thread.return_closed
  unfold advance at h
  constructor
  · grind
  · grind [Stage.closed]
  · grind [Stage.closed]

namespace State

structure Inv (s : State) : Prop where
  threads : ∀ t ∈ s.threads, s.buffers t.bdata ≠ none
  loop : ∀ p, s.loop.bdata = some p → s.buffers p ≠ none
  found : ∀ n p, s.found n = some p → ∃ bdata, s.buffers p = some bdata ∧ bdata.num = n
  /-- A `Buffer` is not found any more once its node was closed. -/
  closed : ∀ t ∈ s.threads, t.stage.closed = true → ∀ n, s.found n ≠ some t.bdata
  unused : ∀ p, s.fresh ≤ p → s.buffers p = none
  intact : s.misused = false

theorem inv_start : Inv start where
  threads := by simp [start]
  loop := by simp [start, Loop.bdata]
  found := by simp [start]
  closed := by simp [start]
  unused := fun _ _ => rfl
  intact := rfl

variable {s s' : State} {t : Thread} {i : Nat}

/-! ### Threads and `Buffer`s

The invariant is about pointers: whoever has one, its `Buffer` is there, and nobody finds one
whose node was closed.  So these lemmas are about what can be done with a pointer: to start a
thread with it, to write through it, and to take it out of the list.
-/

/-- A thread is started with a `Buffer` that is there. -/
theorem Inv.startThread (h : Inv s) (hp : s.buffers t.bdata ≠ none)
    (hopen : t.stage.closed = false) : Inv (s.startThread t) where
  threads := by
    intro u hu
    rcases List.mem_append.mp hu with hu | hu
    · exact h.threads u hu
    · exact List.mem_singleton.mp hu ▸ hp
  loop := h.loop
  found := h.found
  closed := by
    intro u hu hclosed
    rcases List.mem_append.mp hu with hu | hu
    · exact h.closed u hu hclosed
    · rw [List.mem_singleton.mp hu, hopen] at hclosed
      simp at hclosed
  unused := h.unused
  intact := h.intact

theorem Inv.setBuffer (h : Inv s) {p : Nat} {before : Bufdata}
    (hbuffer : s.buffers p = some before) (after : Bufdata) (hnum : after.num = before.num) :
    Inv (s.setBuffer p after) := by
  have hkept : ∀ q, s.buffers q ≠ none → (s.setBuffer p after).buffers q ≠ none := by
    intro q hq
    by_cases hqp : q = p
    · simp [State.setBuffer, hqp]
    · simpa [State.setBuffer, Function.update_of_ne hqp] using hq
  exact {
    threads := fun t ht => hkept _ (h.threads t ht)
    loop := fun q hq => hkept q (h.loop q hq)
    found := by
      intro n q hq
      obtain ⟨bdata, hbdata, hn⟩ := h.found n q hq
      by_cases hqp : q = p
      · obtain rfl : before = bdata := Option.some.inj (hbuffer.symm.trans (hqp ▸ hbdata))
        exact ⟨after, by simp [State.setBuffer, hqp], hnum.trans hn⟩
      · exact ⟨bdata, by simpa [State.setBuffer, Function.update_of_ne hqp] using hbdata, hn⟩
    closed := h.closed
    unused := by
      intro q hq
      have hqp : q ≠ p := by
        intro heq
        subst heq
        simp [h.unused q hq] at hbuffer
      simpa [State.setBuffer, Function.update_of_ne hqp] using h.unused q hq
    intact := h.intact }

theorem Inv.found_ne (h : Inv s) {p num : Nat} {bdata : Bufdata}
    (hbuffer : s.buffers p = some bdata) (hnum : num ≠ bdata.num) : s.found num ≠ some p := by
  intro hfound
  obtain ⟨other, hother, rfl⟩ := h.found num p hfound
  exact hnum (congrArg _ (Option.some.inj (hother.symm.trans hbuffer)))

theorem Inv.closeNode (h : Inv s) (num : Nat) :
    Inv { s with found := Function.update s.found num none } := by
  have hfound : ∀ n p, Function.update s.found num none n = some p → s.found n = some p := by
    intro n p hp
    by_cases hn : n = num
    · simp [hn] at hp
    · simpa [Function.update_of_ne hn] using hp
  exact {
    threads := h.threads
    loop := h.loop
    found := fun n p hp => h.found n p (hfound n p hp)
    closed := fun t ht hclosed n hn => h.closed t ht hclosed n (hfound n _ hn)
    unused := h.unused
    intact := h.intact }

/-! ### Going on and ending

A thread that goes on changes its own stage and its `Buffer`, and may start others.  `Advanced`
says what matters of these: the number stays, the threads that are started have the same pointer,
and nobody gets behind the closing of the node but by closing it.
-/

section Resume

variable {next : Option Stage} {started : List Thread}

@[simp] theorem found_resume : (s.resume i t next started).found = s.found := by
  cases next <;> rfl

@[simp] theorem buffers_resume : (s.resume i t next started).buffers = s.buffers := by
  cases next <;> rfl

@[simp] theorem fresh_resume : (s.resume i t next started).fresh = s.fresh := by
  cases next <;> rfl

@[simp] theorem loop_resume : (s.resume i t next started).loop = s.loop := by
  cases next <;> rfl

@[simp] theorem misused_resume : (s.resume i t next started).misused = s.misused := by
  cases next <;> rfl

theorem mem_resume {u : Thread} (hu : u ∈ (s.resume i t next started).threads) :
    u ∈ s.threads ∨ (∃ stage, next = some stage ∧ u = { t with stage := stage }) ∨ u ∈ started := by
  cases next with
  | none =>
      rcases List.mem_append.mp hu with hu | hu
      · exact Or.inl (List.mem_of_mem_eraseIdx hu)
      · exact Or.inr (Or.inr hu)
  | some stage =>
      rcases List.mem_append.mp hu with hu | hu
      · rcases List.mem_or_eq_of_mem_set hu with hu | hu
        · exact Or.inl hu
        · exact Or.inr (Or.inl ⟨stage, rfl, hu⟩)
      · exact Or.inr (Or.inr hu)

theorem Inv.resume (h : Inv s) (ht : t ∈ s.threads)
    (hnext : ∀ stage, next = some stage → stage.closed = true → ∀ n, s.found n ≠ some t.bdata)
    (hstarted : ∀ u ∈ started, u.bdata = t.bdata ∧ u.stage.closed = false) :
    Inv (s.resume i t next started) where
  threads := by
    intro u hu
    rw [buffers_resume]
    rcases mem_resume hu with hu | ⟨stage, -, rfl⟩ | hu
    · exact h.threads u hu
    · exact h.threads t ht
    · rw [(hstarted u hu).1]
      exact h.threads t ht
  loop := by simpa using h.loop
  found := by simpa using h.found
  closed := by
    intro u hu hclosed
    rw [found_resume]
    rcases mem_resume hu with hu | ⟨stage, hstage, rfl⟩ | hu
    · exact h.closed u hu hclosed
    · exact hnext stage hstage hclosed
    · simp [(hstarted u hu).2] at hclosed
  unused := by simpa using h.unused
  intact := by simpa using h.intact

end Resume

theorem threadStep_free (ht : s.threads[i]? = some t) {bdata : Bufdata}
    (hbuffer : s.buffers t.bdata = some bdata) (hfree : t.stage = .free) (failed : Bool) :
    s.threadStep i failed = some
      { s with
        buffers := Function.update s.buffers t.bdata none, threads := s.threads.eraseIdx i } := by
  have hadvance : t.advance bdata failed = some (bdata, none, []) := by
    simp [Thread.advance, hfree]
  simp [State.threadStep, ht, hbuffer, hadvance, hfree, State.effect, State.resume,
    State.setBuffer]

/-- The last owner frees the `Buffer` and ends. -/
theorem Inv.free (h : Inv s) (ht : s.threads[i]? = some t) (hfree : t.stage = .free)
    (hsole : s.SoleOwner i t.bdata) :
    Inv { s with
      buffers := Function.update s.buffers t.bdata none, threads := s.threads.eraseIdx i } := by
  have hmem := List.mem_of_getElem? ht
  have hkept : ∀ p, p ≠ t.bdata → s.buffers p ≠ none →
      Function.update s.buffers t.bdata none p ≠ none := fun p hne hp => by
    rwa [Function.update_of_ne hne]
  exact {
    threads := by
      intro u hu
      exact hkept _ (hsole.1 u hu) (h.threads u (List.mem_of_mem_eraseIdx hu))
    loop := fun p hp => hkept p (fun heq => hsole.2 (heq ▸ hp)) (h.loop p hp)
    found := by
      intro n p hp
      have hne : p ≠ t.bdata := by
        intro heq
        subst heq
        exact h.closed t hmem (by simp [hfree, Stage.closed]) n hp
      simpa [Function.update_of_ne hne] using h.found n p hp
    closed := fun u hu => h.closed u (List.mem_of_mem_eraseIdx hu)
    unused := by
      intro p hp
      by_cases hne : p = t.bdata
      · simp [hne]
      · simpa [Function.update_of_ne hne] using h.unused p hp
    intact := h.intact }

/-! ### One step

New `Buffer`s have new addresses, so no old pointer is one of theirs.  A pointer that is handed to
a thread was found, or belongs to a thread that has it, and in both cases the `Buffer` is there.
The only step that takes one away is the last of `destroy_buffer`, and that is where the condition
is needed.
-/

/-- A new `Buffer` has an address that nobody has. -/
theorem Inv.newBuffer (h : Inv s) (num : Nat) (ft : Lang) :
    Inv { s with
      found := Function.update s.found num (some s.fresh)
      buffers := Function.update s.buffers s.fresh (some (getBufdata num ft))
      fresh := s.fresh + 1 } := by
  have hne : ∀ p, s.buffers p ≠ none → p ≠ s.fresh := by
    intro p hp heq
    subst heq
    exact hp (h.unused _ (Nat.le_refl _))
  have hkept : ∀ p, s.buffers p ≠ none →
      Function.update s.buffers s.fresh (some (getBufdata num ft)) p ≠ none := fun p hp => by
    rwa [Function.update_of_ne (hne p hp)]
  exact {
    threads := fun t ht => hkept _ (h.threads t ht)
    loop := fun p hp => hkept p (h.loop p hp)
    found := by
      intro n p hp
      by_cases hn : n = num
      · obtain rfl : s.fresh = p := by simpa [hn] using hp
        exact ⟨_, Function.update_self _ _ _, hn.symm⟩
      · simp only [Function.update_of_ne hn] at hp
        obtain ⟨bdata, hbuffer, hnum⟩ := h.found n p hp
        have hold : p ≠ s.fresh := hne p (by simp [hbuffer])
        exact ⟨bdata, by simpa only [Function.update_of_ne hold] using hbuffer, hnum⟩
    closed := by
      intro t ht hclosed n
      by_cases hn : n = num
      · simpa [hn] using (hne _ (h.threads t ht)).symm
      · simpa only [Function.update_of_ne hn] using h.closed t ht hclosed n
    unused := by
      intro p hp
      have hlt : p ≠ s.fresh := Nat.ne_of_gt hp
      simpa only [Function.update_of_ne hlt] using h.unused p (Nat.le_of_succ_le hp)
    intact := h.intact }

theorem Inv.attach (h : Inv s) {num : Nat} {ft : Lang} (hstep : s.attach num ft = some s') :
    Inv s' := by
  unfold State.attach at hstep
  cases hfound : s.found num with
  | some p => simp [hfound] at hstep
  | none =>
      simp only [hfound, Option.some.injEq] at hstep
      exact hstep ▸ (h.newBuffer num ft).startThread
        (t := { bdata := s.fresh, wrapped := false, stage := .fill }) (by simp) rfl

theorem Inv.update (h : Inv s) {num : Nat} (hstep : s.update num = some s') : Inv s' := by
  obtain ⟨p, hp, hs'⟩ := Option.bind_eq_some_iff.mp hstep
  obtain rfl := Option.some.inj hs'
  obtain ⟨bdata, hbuffer, -⟩ := h.found num p hp
  exact h.startThread (by simp [hbuffer]) rfl

/-- The event loop takes up a `Buffer` that is there, or lets go of one. -/
theorem Inv.setLoop (h : Inv s) {loop : Loop}
    (hloop : ∀ p, loop.bdata = some p → s.buffers p ≠ none) : Inv { s with loop := loop } where
  threads := h.threads
  loop := hloop
  found := h.found
  closed := h.closed
  unused := h.unused
  intact := h.intact

theorem Loop.start_bdata {p q newTick : Nat} {lines : Bool}
    (h : (Loop.start p newTick lines).bdata = some q) : p = q := by
  unfold Loop.start at h
  split at h
  · simpa [Loop.bdata] using h
  · cases lines <;> simp [Loop.bdata] at h
    exact h

theorem Inv.notify (h : Inv s) {num : Nat} {event : Notification}
    (hstep : s.notify num event = some s') : Inv s' := by
  obtain ⟨-, hstep⟩ := Option.ite_none_right_eq_some.mp hstep
  cases hfound : s.found num with
  | none =>
      simp only [hfound, Option.some.injEq] at hstep
      exact hstep ▸ ⟨h.threads, h.loop, h.found, h.closed, h.unused, h.intact⟩
  | some p =>
      obtain ⟨bdata, hbuffer, -⟩ := h.found num p hfound
      have halive : s.buffers p ≠ none := by simp [hbuffer]
      cases event with
      | lines newTick | changedtick newTick =>
          simp only [hfound, Option.some.injEq] at hstep
          exact hstep ▸ h.setLoop fun q hq => Loop.start_bdata hq ▸ halive
      | detach =>
          simp only [hfound, Option.some.injEq] at hstep
          exact hstep ▸ h.startThread halive rfl

theorem Inv.loopStep (h : Inv s) (hstep : s.loopStep = some s') : Inv s' := by
  obtain ⟨p, hp, hstep⟩ := Option.bind_eq_some_iff.mp hstep
  obtain ⟨bdata, hbuffer⟩ := Option.ne_none_iff_exists'.mp (h.loop p hp)
  have halive : ∀ q, p = q → s.buffers q ≠ none := by
    intro q heq
    subst heq
    simp [hbuffer]
  have hidle : Inv { s with loop := .idle } := h.setLoop (by simp [Loop.bdata])
  cases hloop : s.loop with
  | idle => simp [hloop, Loop.bdata] at hp
  | tick q newTick lines =>
      obtain rfl : q = p := by simpa [hloop, Loop.bdata] using hp
      simp only [hbuffer, hloop, Option.some.injEq] at hstep
      subst hstep
      have hset := h.setBuffer hbuffer { bdata with ctick := newTick } rfl
      refine hset.setLoop fun r hr => ?_
      cases lines with
      | false => simp [Loop.bdata] at hr
      | true =>
          obtain rfl : q = r := by simpa [Loop.bdata] using hr
          simp [State.setBuffer]
  | lines q =>
      obtain rfl : q = p := by simpa [hloop, Loop.bdata] using hp
      simp only [hbuffer, hloop, Option.some.injEq] at hstep
      exact hstep ▸ h.setLoop fun r hr => halive r (by simpa [Loop.bdata] using hr)
  | parser q =>
      obtain rfl : q = p := by simpa [hloop, Loop.bdata] using hp
      simp only [hbuffer, hloop, Option.some.injEq] at hstep
      subst hstep
      split
      · exact hidle.startThread (halive q rfl) rfl
      · exact hidle

/-- The access of a thread, at any stage but the last. -/
theorem Inv.access (h : Inv s) (ht : t ∈ s.threads) {bdata after : Bufdata} {next : Option Stage}
    {started : List Thread} (hbuffer : s.buffers t.bdata = some bdata)
    (hadvanced : Advanced t bdata after next started) (hfree : t.stage ≠ .free) :
    Inv (((s.setBuffer t.bdata after).effect t.bdata after t.stage).resume i t next started) := by
  have hset := h.setBuffer hbuffer after hadvanced.num
  by_cases hclose : t.stage = .closeNode
  · rw [hclose]
    refine (hset.closeNode after.num).resume ht (fun stage _ _ n => ?_) hadvanced.fresh
    by_cases hn : n = after.num
    · simp [hn]
    · simpa [Function.update_of_ne hn, State.setBuffer] using
        h.found_ne hbuffer (hadvanced.num ▸ hn)
  · have heffect : (s.setBuffer t.bdata after).effect t.bdata after t.stage =
        s.setBuffer t.bdata after := by
      unfold State.effect
      split
      · contradiction
      · contradiction
      · rfl
    rw [heffect]
    refine hset.resume ht (fun stage hstage hclosed => ?_) hadvanced.fresh
    exact h.closed t ht ((hadvanced.closed stage hstage hclosed).resolve_right hclose)

theorem Inv.threadStep (h : Inv s) {failed : Bool}
    (hok : ∀ t ∈ s.threads[i]?, t.stage = .free → s.SoleOwner i t.bdata)
    (hstep : s.threadStep i failed = some s') : Inv s' := by
  obtain ⟨t, ht, hrest⟩ := Option.bind_eq_some_iff.mp hstep
  have hmem := List.mem_of_getElem? ht
  obtain ⟨bdata, hbuffer⟩ := Option.ne_none_iff_exists'.mp (h.threads t hmem)
  by_cases hfree : t.stage = .free
  · rw [threadStep_free ht hbuffer hfree, Option.some.injEq] at hstep
    exact hstep ▸ h.free ht hfree (hok t ht hfree)
  · rw [hbuffer] at hrest
    obtain ⟨⟨after, next, started⟩, hadvance, hs'⟩ := Option.bind_eq_some_iff.mp hrest
    obtain rfl := Option.some.inj hs'
    exact h.access hmem hbuffer (Thread.advance_spec hadvance) hfree

theorem Inv.step (h : Inv s) {action : Action} (hok : FreesLast s action)
    (hstep : s.step action = some s') : Inv s' := by
  obtain ⟨-, hstep⟩ := Option.ite_none_left_eq_some.mp hstep
  cases action with
  | attach num ft => exact h.attach hstep
  | update num => exact h.update hstep
  | notify num event => exact h.notify hstep
  | loop => exact h.loopStep hstep
  | thread i failed => exact h.threadStep hok hstep

/-! ### What follows when the condition is not met

Somebody else has a pointer to the `Buffer` that is freed.  Whoever it is has an access to make: a
thread at its stage, or when it wakes up, and the event loop with the event that it has taken up.
So there is a continuation of the run in which it makes it, and the condition cannot be left out.
-/

/-- Some continuation of the run accesses a freed `Buffer`. -/
def Doomed (s : State) : Prop :=
  ∃ actions s', lifetimeSystem.run s actions = some s' ∧ s'.misused = true

theorem doomed_of_step {action : Action} (hstep : s.step action = some s')
    (h : s'.Doomed) : s.Doomed := by
  obtain ⟨actions, s'', hrun, hmisused⟩ := h
  exact ⟨action :: actions, s'', by simp [lifetimeSystem, hstep, ← hrun], hmisused⟩

theorem doomed_of_misused (h : s.misused = true) : s.Doomed := ⟨[], s, rfl, h⟩

section Stale

variable (hrunning : s.exited = false) (hintact : s.misused = false)
include hrunning hintact

theorem doomed_of_awake (ht : s.threads[i]? = some t) (hfreed : s.buffers t.bdata = none)
    (hawake : t.stage ≠ .asleep) : s.Doomed := by
  have hstep : s.step (.thread i false) = some { s with misused := true } := by
    simp [State.step, hrunning, hintact, State.threadStep, ht, hfreed, hawake]
  exact doomed_of_step hstep (doomed_of_misused rfl)

/-- A thread that sleeps calls `update_highlight` when it wakes up. -/
theorem doomed_of_thread (ht : s.threads[i]? = some t) (hfreed : s.buffers t.bdata = none) :
    s.Doomed := by
  by_cases hasleep : t.stage = .asleep
  · let woken := s.resume i t (some .update) []
    have hwoken : woken.threads[i]? = some { t with stage := .update } := by
      have hlt : i < s.threads.length := (List.getElem?_eq_some_iff.mp ht).1
      simp [woken, State.resume, hlt]
    have hstep : s.step (.thread i false) = some woken := by
      simp [State.step, hrunning, hintact, State.threadStep, ht, hfreed, hasleep, woken]
    exact doomed_of_step hstep (doomed_of_awake hrunning hintact hwoken hfreed (by simp))
  · exact doomed_of_awake hrunning hintact ht hfreed hasleep

theorem doomed_of_loop {p : Nat} (hp : s.loop.bdata = some p) (hfreed : s.buffers p = none) :
    s.Doomed := by
  have hstep : s.step .loop = some { s with misused := true } := by
    simp [State.step, hrunning, hintact, State.loopStep, hp, hfreed]
  exact doomed_of_step hstep (doomed_of_misused rfl)

end Stale

/-- Whoever is left when the `Buffer` is freed accesses it next. -/
theorem Inv.early_free (h : Inv s) {action : Action} (hearly : ¬ FreesLast s action)
    (hstep : s.step action = some s') : s'.Doomed := by
  cases action with
  | thread i failed =>
      simp only [FreesLast, not_forall] at hearly
      obtain ⟨t, ht, hfree, hshared⟩ := hearly
      obtain ⟨bdata, hbuffer⟩ :=
        Option.ne_none_iff_exists'.mp (h.threads t (List.mem_of_getElem? ht))
      have hrunning : s.exited = false := by
        have hgo := (Option.ite_none_left_eq_some.mp hstep).1
        simpa [h.intact] using hgo
      simp only [State.step, hrunning, h.intact, Bool.false_eq_true, or_self, if_false,
        threadStep_free ht hbuffer hfree, Option.some.injEq] at hstep
      subst hstep
      by_cases hloop : s.loop.bdata = some t.bdata
      · exact doomed_of_loop rfl rfl hloop (Function.update_self _ _ _)
      · simp only [SoleOwner, hloop, ne_eq, not_false_eq_true, and_true, not_forall,
          not_not] at hshared
        obtain ⟨u, hu, hsame⟩ := hshared
        obtain ⟨k, hk⟩ := List.mem_iff_getElem?.mp hu
        exact doomed_of_thread rfl rfl hk (by simp [hsame])
  | attach | update | notify | loop => exact absurd trivial hearly

end State

/--
**No thread accesses a freed `Buffer`** in a run in which `destroy_buffer` frees a `Buffer`
only when nobody else is left who was given it; and the first time it does not, the run
can go on to such an access.
-/
theorem freed_buffer_unused {s : State} (h : lifetimeSystem.Reached FreesLast s) :
    s.misused = false ∧ ∀ action s', ¬ FreesLast s action → s.step action = some s' → s'.Doomed := by
  have hinv : s.Inv := h.invariant State.inv_start fun _ _ _ hinv hok hstep => hinv.step hok hstep
  exact ⟨hinv.intact, fun action s' => hinv.early_free⟩

/-- A C buffer is attached and edited, up to the point where only the delayed thread is left. -/
def edited : List Action :=
  .attach 1 .clang :: List.replicate 8 (.thread 0 false) ++
    [.notify 1 (.lines 5), .loop, .loop, .loop] ++ List.replicate 9 (.thread 0 false)

/-- `destroy_buffer`, by the `i`-th thread. -/
def destroyed (i : Nat) : List Action := List.replicate 8 (.thread i false)

/-- The delayed thread wakes up and does its work, and then the buffer is destroyed. -/
def destroyAfterDelay : List Action :=
  edited ++ List.replicate 8 (.thread 0 false) ++ .notify 1 .detach :: destroyed 0

theorem freed_buffer_unused_destroyAfterDelay :
    ∃ s, lifetimeSystem.run lifetimeSystem.init destroyAfterDelay = some s ∧
      s.buffers 0 = none ∧ s.misused = false := by
  have hmeets : lifetimeSystem.Meets FreesLast lifetimeSystem.init destroyAfterDelay := by decide
  exact ⟨_, rfl, rfl, (freed_buffer_unused (TransitionSystem.Reached.init.run hmeets rfl)).1⟩

/-- The buffer is destroyed while the delayed thread sleeps. -/
def destroyDuringDelay : List Action :=
  edited ++ .notify 1 .detach :: destroyed 1 ++ [.thread 0 false, .thread 0 false]

/-- Nothing is counted in `num_workers` when `destroy_buffer` looks. -/
theorem destroyDuringDelay_misused :
    ¬ lifetimeSystem.Throughout (fun s => s.misused = false) lifetimeSystem.init
      destroyDuringDelay := by
  intro h
  exact absurd (h.last rfl) (by decide)

end TagHighlight.Lifetime
