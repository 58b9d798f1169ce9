/-
When the count of workers is right.

As long as an error jumps to the frame of its own call, every call works on its own buffer
from its first statement to the last.  Then the count of a buffer is the number of calls
between the increment and the decrement, and its mutex belongs to the one call between the
lock and the unlock; what a thread does to one buffer leaves the others alone.

libclang is not looked into.  It may fail in any call that is inside of it, as often as the run
has it, and all that matters is into whose frame the error then jumps.
-/
import TagHighlight.Lang.Clang

namespace TagHighlight.Clang

namespace ClangState

variable (s : ClangState) (t : Nat) (th : Thread) {bdata bdata' : Nat} (b : Buffer)

@[simp] theorem setThread_buffers : (s.setThread t th).buffers = s.buffers := rfl

@[simp] theorem setThread_threads : (s.setThread t th).threads = s.threads.set t th := rfl

@[simp] theorem setBuffer_threads : (s.setBuffer bdata b).threads = s.threads := rfl

@[simp] theorem setBuffer_jbuf : (s.setBuffer bdata b).jbuf = s.jbuf := rfl

@[simp] theorem setBuffer_self : (s.setBuffer bdata b).buffers bdata = b :=
  Function.update_self ..

theorem setBuffer_other (hne : bdata' ≠ bdata) :
    (s.setBuffer bdata b).buffers bdata' = s.buffers bdata' :=
  Function.update_of_ne hne ..

@[simp] theorem setBuffer_same : s.setBuffer bdata (s.buffers bdata) = s := by
  unfold setBuffer
  rw [Function.update_eq_self]

end ClangState

/-! ### Counting threads

A count is a sum over all threads, of one for each that works on the buffer.  So it changes with
one thread at a time, by what that thread adds or takes away.
-/

/-- One for a thread that works on the buffer. -/
def Thread.worker (th : Thread) (bdata : Nat) : Nat := (th.worksOn bdata).toNat

variable {th : Thread} {c : Call}

theorem worksOn_own (hcall : th.call = some c) : th.worksOn c.bdata = c.place.inProgress := by
  simp [Thread.worksOn, hcall]

theorem hasMutex_own (hcall : th.call = some c) : th.hasMutex c.bdata = c.place.hasMutex := by
  simp [Thread.hasMutex, hcall]

theorem bdata_own (hcall : th.call = some c) : ∀ c', th.call = some c' → c'.bdata = c.bdata := by
  intro c' hc'
  rw [Option.some.inj (hc'.symm.trans hcall)]

theorem worker_other (hcall : th.call = some c) {bdata : Nat} (hne : c.bdata ≠ bdata) :
    th.worker bdata = 0 := by
  simp [Thread.worker, Thread.worksOn, hcall, hne]

theorem workers_init (threads bdata : Nat) : (clangSystem threads).init.workers bdata = 0 := by
  unfold ClangState.workers
  refine List.countP_eq_zero.mpr fun th hth => ?_
  rw [List.eq_of_mem_replicate hth]
  simp [Thread.worksOn]

theorem workers_set {threads : List Thread} {t : Nat} {th : Thread} (hth : threads[t]? = some th)
    (th' : Thread) (bdata : Nat) :
    (threads.set t th').countP (fun th => th.worksOn bdata) + th.worker bdata =
      threads.countP (fun th => th.worksOn bdata) + th'.worker bdata := by
  obtain ⟨ht, rfl⟩ := List.getElem?_eq_some_iff.mp hth
  have hpos : threads[t].worker bdata ≤ threads.countP fun th => th.worksOn bdata := by
    unfold Thread.worker
    cases hworks : threads[t].worksOn bdata with
    | false => exact Nat.zero_le _
    | true => exact List.countP_pos_iff.mpr ⟨_, List.getElem_mem ht, hworks⟩
  have hone : ∀ works : Bool, (if works = true then 1 else 0) = works.toNat := by decide
  have hset := List.countP_set (p := fun th => th.worksOn bdata) (a := th') ht
  simp only [hone] at hset
  unfold Thread.worker at hpos ⊢
  omega

theorem getElem?_set_thread {threads : List Thread} {t : Nat} {th : Thread}
    (hth : threads[t]? = some th) (th' : Thread) : (threads.set t th')[t]? = some th' := by
  obtain ⟨ht, -⟩ := List.getElem?_eq_some_iff.mp hth
  exact List.getElem?_set_self ht

/-! ### The mutex

Who has a mutex is in the state of the buffer and in that of the thread.  They say the same, as
long as each thread unlocks what it has locked itself.
-/

namespace Mutex

variable {m m' : Mutex} {t t' n : Nat}

/-- A mutex that the thread does not have yet is free when it gets it. -/
theorem lock_eq (h : m.lock t = some m') (hnot : ∀ n, m ≠ some (t, n)) :
    m = none ∧ m' = some (t, 0) := by
  unfold lock at h
  split at h
  · exact ⟨rfl, (Option.some.inj h).symm⟩
  · rename_i holder n
    split at h
    · rename_i hsame
      exact absurd (by rw [hsame]) (hnot n)
    · exact absurd h nofun

theorem unlock_own : Mutex.unlock t (some (t, 0)) = none := by simp [unlock]

end Mutex

/-- What a step can be. -/
theorem step_cases {s s' : ClangState} {a : ClangAction} (hstep : s.step a = some s') :
    (∃ bdata initialized,
      s' = s.setBuffer bdata { s.buffers bdata with initialized := initialized }) ∨
    (∃ t th bdata, s.threads[t]? = some th ∧ th.call = none ∧ s' = s.goTo t th (.start bdata)) ∨
    (∃ t th c, s.threads[t]? = some th ∧ th.call = some c ∧ s.next t th c = some s') ∨
    (∃ t th c, a = .fail t ∧ s.threads[t]? = some th ∧ th.call = some c ∧
      c.place = .compiling ∧ s.handleLibclangError t th c = some s') := by
  cases a with
  | fill bdata => exact .inl ⟨bdata, true, (Option.some.inj hstep).symm⟩
  | destroy bdata => exact .inl ⟨bdata, false, (Option.some.inj hstep).symm⟩
  | call t bdata =>
      obtain ⟨th, hth, hrest⟩ := Option.bind_eq_some_iff.mp hstep
      dsimp only at hrest
      split at hrest
      · rename_i hfree
        exact .inr (.inl ⟨t, th, bdata, hth, hfree.1, (Option.some.inj hrest).symm⟩)
      · exact absurd hrest nofun
  | next t =>
      obtain ⟨th, hth, hrest⟩ := Option.bind_eq_some_iff.mp hstep
      obtain ⟨c, hcall, hnext⟩ := Option.bind_eq_some_iff.mp hrest
      exact .inr (.inr (.inl ⟨t, th, c, hth, hcall, hnext⟩))
  | fail t =>
      obtain ⟨th, hth, hrest⟩ := Option.bind_eq_some_iff.mp hstep
      obtain ⟨c, hcall, hfail⟩ := Option.bind_eq_some_iff.mp hrest
      split at hfail
      · rename_i hplace
        exact .inr (.inr (.inr ⟨t, th, c, rfl, hth, hcall, hplace, hfail⟩))
      · exact absurd hfail nofun

/-! ### The invariant

Each thread is at a place of its call, and with the place it is known whether it has counted
itself and whether it has the mutex.  The frame to which an error jumps is common to all; the
condition is that whoever jumps is the one that has set it last.
-/

/-- What thread `t` has done in its call, and where the next jump would go. -/
structure CallOk (jbuf : Option JmpBuf) (t : Nat) (c : Call) : Prop where
  own : ∀ bdata, c.place = .done bdata ∨ c.place = .leaving bdata → bdata = c.bdata
  decremented : c.decremented = if c.place = .leaving c.bdata then [c.bdata] else []
  unlocked : c.unlocked = []
  jumps : c.place = .waiting ∨ c.place = .locked ∨ c.place = .compiling →
    ∀ frame, jbuf = some frame → frame.thread = t → frame.bdata = c.bdata
  goesOn : c.place ≠ .returned ∧ c.place ≠ .turnedAway

structure ThreadOk (jbuf : Option JmpBuf) (t : Nat) (th : Thread) : Prop where
  call : ∀ c, th.call = some c → CallOk jbuf t c
  past : ∀ c ∈ th.past, c.Ended

namespace ThreadOk

variable {jbuf jbuf' : Option JmpBuf} {t : Nat} {th : Thread} {c : Call}

theorem goOn (h : ThreadOk jbuf t th) (hc : CallOk jbuf' t c) :
    ThreadOk jbuf' t { th with call := some c } where
  call _ hc' := Option.some.inj hc' ▸ hc
  past := h.past

theorem finish (h : ThreadOk jbuf t th) (hc : c.Ended) :
    ThreadOk jbuf' t { call := none, past := th.past ++ [c] } where
  call := nofun
  past := by
    intro c' hc'
    rcases List.mem_append.mp hc' with hold | hnew
    · exact h.past c' hold
    · exact List.mem_singleton.mp hnew ▸ hc

end ThreadOk

structure Kept (s : ClangState) : Prop where
  counts : ∀ bdata, (s.buffers bdata).numWorkers = UInt32.ofNat (s.workers bdata)
  threads : ∀ t th, s.threads[t]? = some th → ThreadOk s.jbuf t th
  /-- A mutex belongs to the thread whose call has it. -/
  mutex : ∀ bdata t n, (s.buffers bdata).langMtx = some (t, n) ↔
    n = 0 ∧ ∃ th, s.threads[t]? = some th ∧ th.hasMutex bdata

namespace Kept

variable {s s' : ClangState} {t : Nat} {th th' : Thread}

theorem init (threads : Nat) : Kept (clangSystem threads).init where
  counts bdata := by
    rw [workers_init]
    rfl
  threads t th hth := by
    rw [List.eq_of_mem_replicate (List.mem_of_getElem? hth)]
    exact ⟨nofun, nofun⟩
  mutex bdata t n := by
    refine ⟨nofun, ?_⟩
    rintro ⟨-, th, hth, hmutex⟩
    rw [List.eq_of_mem_replicate (List.mem_of_getElem? hth)] at hmutex
    simp [Thread.hasMutex] at hmutex

/--
A thread moves: the buffers change as its own count and its own mutex do, and the saved
frame does not become a wrong one for the others.
-/
theorem move (h : Kept s) (hth : s.threads[t]? = some th) {buffers : Nat → Buffer}
    {jbuf : Option JmpBuf}
    (hcount : ∀ bdata, (buffers bdata).numWorkers + UInt32.ofNat (th.worker bdata) =
      (s.buffers bdata).numWorkers + UInt32.ofNat (th'.worker bdata))
    (hok : ThreadOk jbuf t th')
    (hjbuf : ∀ frame, jbuf = some frame → frame.thread ≠ t → s.jbuf = some frame)
    (hmine : ∀ bdata n, (buffers bdata).langMtx = some (t, n) ↔ n = 0 ∧ th'.hasMutex bdata)
    (hothers : ∀ bdata t' n, t' ≠ t → ((buffers bdata).langMtx = some (t', n) ↔
      (s.buffers bdata).langMtx = some (t', n))) :
    Kept { buffers := buffers, threads := s.threads.set t th', jbuf := jbuf } where
  counts bdata := by
    have hset := workers_set hth th' bdata
    have hsum : UInt32.ofNat ((s.threads.set t th').countP fun th => th.worksOn bdata) +
        UInt32.ofNat (th.worker bdata) =
        UInt32.ofNat (s.workers bdata) + UInt32.ofNat (th'.worker bdata) := by
      rw [← UInt32.ofNat_add, hset, UInt32.ofNat_add]
      rfl
    have hbuffers := hcount bdata
    rw [h.counts bdata, ← hsum] at hbuffers
    exact (UInt32.add_left_inj _).mp hbuffers
  threads t' th'' hth'' := by
    by_cases hsame : t' = t
    · subst hsame
      rw [getElem?_set_thread hth] at hth''
      cases hth''
      exact hok
    · rw [List.getElem?_set_ne (Ne.symm hsame)] at hth''
      have hold := h.threads t' th'' hth''
      refine ⟨fun c hc => ?_, hold.past⟩
      refine { hold.call c hc with jumps := fun hplace frame hframe hthread => ?_ }
      exact (hold.call c hc).jumps hplace frame
        (hjbuf frame hframe (hthread ▸ hsame)) hthread
  mutex bdata t' n := by
    by_cases hsame : t' = t
    · subst hsame
      dsimp only
      rw [hmine, getElem?_set_thread hth]
      simp
    · dsimp only
      rw [hothers bdata t' n hsame, h.mutex, List.getElem?_set_ne (Ne.symm hsame)]

/-- What the mutex of a buffer says about one thread. -/
theorem mine (h : Kept s) (hth : s.threads[t]? = some th) (bdata n : Nat) :
    (s.buffers bdata).langMtx = some (t, n) ↔ n = 0 ∧ th.hasMutex bdata := by
  rw [h.mutex, hth]
  simp

/-- A thread moves that only ever works on one buffer. -/
theorem moveOn (h : Kept s) (hth : s.threads[t]? = some th) {bdata : Nat}
    (hcall : ∀ c, th.call = some c → c.bdata = bdata)
    (hcall' : ∀ c, th'.call = some c → c.bdata = bdata) {b : Buffer} {jbuf : Option JmpBuf}
    (hcount : b.numWorkers + UInt32.ofNat (th.worker bdata) =
      (s.buffers bdata).numWorkers + UInt32.ofNat (th'.worker bdata))
    (hok : ThreadOk jbuf t th')
    (hjbuf : ∀ frame, jbuf = some frame → frame.thread ≠ t → s.jbuf = some frame)
    (hmine : ∀ n, b.langMtx = some (t, n) ↔ n = 0 ∧ th'.hasMutex bdata)
    (hothers : ∀ t' n, t' ≠ t →
      (b.langMtx = some (t', n) ↔ (s.buffers bdata).langMtx = some (t', n))) :
    Kept { (s.setBuffer bdata b).setThread t th' with jbuf := jbuf } := by
  have hidle : ∀ th : Thread, (∀ c, th.call = some c → c.bdata = bdata) → ∀ bdata', bdata' ≠ bdata →
      th.worksOn bdata' = false ∧ th.hasMutex bdata' = false := by
    intro th hcall bdata' hne
    unfold Thread.worksOn Thread.hasMutex
    cases hc : th.call with
    | none => exact ⟨rfl, rfl⟩
    | some c => simp [hcall c hc, Ne.symm hne]
  refine h.move hth (fun bdata' => ?_) hok hjbuf (fun bdata' n => ?_) (fun bdata' t' n hne => ?_)
  all_goals
    dsimp only [ClangState.setThread_buffers]
    by_cases hsame : bdata' = bdata
  · subst hsame
    rw [ClangState.setBuffer_self]
    exact hcount
  · rw [ClangState.setBuffer_other _ _ hsame]
    unfold Thread.worker
    rw [(hidle th hcall bdata' hsame).1, (hidle th' hcall' bdata' hsame).1]
  · subst hsame
    rw [ClangState.setBuffer_self]
    exact hmine n
  · rw [ClangState.setBuffer_other _ _ hsame, h.mine hth, (hidle th hcall bdata' hsame).2,
      (hidle th' hcall' bdata' hsame).2]
  · subst hsame
    rw [ClangState.setBuffer_self]
    exact hothers t' n hne
  · rw [ClangState.setBuffer_other _ _ hsame]

variable {c : Call}

/-- The call of a thread goes on, and the mutex stays with whoever has it. -/
theorem goTo_jbuf (h : Kept s) (hth : s.threads[t]? = some th) (hcall : th.call = some c) {c' : Call}
    {b : Buffer} {jbuf : Option JmpBuf} (hok : CallOk jbuf t c') (hbdata : c'.bdata = c.bdata)
    (hcount : b.numWorkers + UInt32.ofNat c.place.inProgress.toNat =
      (s.buffers c.bdata).numWorkers + UInt32.ofNat c'.place.inProgress.toNat)
    (hjbuf : ∀ frame, jbuf = some frame → frame.thread ≠ t → s.jbuf = some frame)
    (hmutex : b.langMtx = (s.buffers c.bdata).langMtx)
    (hhas : c'.place.hasMutex = c.place.hasMutex) :
    Kept { (s.setBuffer c.bdata b).goTo t th c' with jbuf := jbuf } := by
  have hown' : ∀ c'', some c' = some c'' → c''.bdata = c.bdata := by
    intro c'' hc''
    rw [← Option.some.inj hc'', hbdata]
  have hcall' : ({ th with call := some c' } : Thread).call = some c' := rfl
  refine h.moveOn hth (bdata_own hcall) hown' ?_ ((h.threads t th hth).goOn hok) hjbuf (fun n => ?_)
    (fun t' n _ => by rw [hmutex])
  · unfold Thread.worker
    rw [worksOn_own hcall, ← hbdata, worksOn_own hcall', hbdata]
    exact hcount
  · have hmine := h.mine hth c.bdata n
    rw [hmutex, ← hbdata, hasMutex_own hcall', hhas, hbdata]
    rwa [hasMutex_own hcall] at hmine

theorem goTo (h : Kept s) (hth : s.threads[t]? = some th) (hcall : th.call = some c) {c' : Call}
    {b : Buffer} (hok : CallOk s.jbuf t c') (hbdata : c'.bdata = c.bdata)
    (hcount : b.numWorkers + UInt32.ofNat c.place.inProgress.toNat =
      (s.buffers c.bdata).numWorkers + UInt32.ofNat c'.place.inProgress.toNat)
    (hmutex : b.langMtx = (s.buffers c.bdata).langMtx)
    (hhas : c'.place.hasMutex = c.place.hasMutex) :
    Kept ((s.setBuffer c.bdata b).goTo t th c') :=
  h.goTo_jbuf hth hcall hok hbdata hcount (fun _ hframe _ => hframe) hmutex hhas

/-- The call of a thread goes on, and nothing else changes. -/
theorem goTo_only (h : Kept s) (hth : s.threads[t]? = some th) (hcall : th.call = some c)
    {c' : Call} (hok : CallOk s.jbuf t c') (hbdata : c'.bdata = c.bdata)
    (hcount : c'.place.inProgress = c.place.inProgress)
    (hhas : c'.place.hasMutex = c.place.hasMutex) : Kept (s.goTo t th c') := by
  have hkept := h.goTo hth hcall (b := s.buffers c.bdata) hok hbdata (by rw [hcount]) rfl hhas
  rwa [ClangState.setBuffer_same] at hkept

/-- The call of a thread ends. -/
theorem finish (h : Kept s) (hth : s.threads[t]? = some th) (hcall : th.call = some c) {c' : Call}
    (hended : c'.Ended) {b : Buffer}
    (hcount : b.numWorkers + UInt32.ofNat c.place.inProgress.toNat =
      (s.buffers c.bdata).numWorkers)
    (hmine : ∀ n, b.langMtx ≠ some (t, n))
    (hothers : ∀ t' n, t' ≠ t →
      (b.langMtx = some (t', n) ↔ (s.buffers c.bdata).langMtx = some (t', n))) :
    Kept ((s.setBuffer c.bdata b).finish t th c') := by
  refine h.moveOn hth (bdata_own hcall) (by simp) ?_ ((h.threads t th hth).finish hended)
    (fun _ hframe _ => hframe) (fun n => ?_) hothers
  · unfold Thread.worker
    rw [worksOn_own hcall, hcount]
    simp [Thread.worksOn]
  · simp [hmine n, Thread.hasMutex]

/-- `setjmp`: this call is now the one that has executed it last. -/
theorem setjmp (h : Kept s) (hth : s.threads[t]? = some th) (hcall : th.call = some c)
    {cntVal : UInt32} (hplace : c.place = .counted cntVal) :
    Kept ({ s with jbuf := some { thread := t, bdata := c.bdata } }.goTo t th
      { c with place := .waiting }) := by
  have hok := (h.threads t th hth).call c hcall
  have hdecs := hok.decremented
  rw [hplace] at hdecs
  have hjumps : CallOk (some { thread := t, bdata := c.bdata }) t { c with place := .waiting } := by
    refine { own := by simp, decremented := hdecs, unlocked := hok.unlocked,
             jumps := fun _ frame hframe _ => ?_, goesOn := by simp }
    rw [← Option.some.inj hframe]
  have hkept := h.goTo_jbuf hth hcall (b := s.buffers c.bdata) hjumps rfl (by rw [hplace]; rfl) ?_
    rfl (by rw [hplace]; rfl)
  · rwa [ClangState.setBuffer_same] at hkept
  · intro frame hframe hne
    rw [← Option.some.inj hframe] at hne
    exact absurd rfl hne

/-- `pthread_mutex_lock`, for a call that waits for it. -/
theorem lock (h : Kept s) (hth : s.threads[t]? = some th) (hcall : th.call = some c)
    (hplace : c.place = .waiting) {langMtx : Mutex}
    (hlock : (s.buffers c.bdata).langMtx.lock t = some langMtx) :
    Kept ((s.setBuffer c.bdata { s.buffers c.bdata with langMtx := langMtx }).goTo t th
      { c with place := .locked }) := by
  have hok := (h.threads t th hth).call c hcall
  have hdecs := hok.decremented
  rw [hplace] at hdecs
  have hnot : ∀ n, (s.buffers c.bdata).langMtx ≠ some (t, n) := by
    intro n hn
    have hhas := ((h.mine hth c.bdata n).mp hn).2
    rw [hasMutex_own hcall, hplace] at hhas
    exact Bool.false_ne_true hhas
  obtain ⟨hfree, rfl⟩ := Mutex.lock_eq hlock hnot
  refine h.moveOn hth (bdata_own hcall) (fun c' hc' => by rw [← Option.some.inj hc']) ?_
    ((h.threads t th hth).goOn ?_) (fun _ hframe _ => hframe) (fun n => ?_) (fun t' n hne => ?_)
  · unfold Thread.worker
    rw [worksOn_own hcall, hplace, worksOn_own (c := { c with place := .locked }) rfl]
    rfl
  · exact { own := by simp, decremented := hdecs, unlocked := hok.unlocked,
            jumps := fun _ => hok.jumps (Or.inl hplace), goesOn := by simp }
  · simp [Thread.hasMutex, Where.hasMutex, eq_comm]
  · simp [hfree, Ne.symm hne]

/-- More than three calls are in progress on the buffer. -/
theorem turnAway (h : Kept s) (hth : s.threads[t]? = some th) (hcall : th.call = some c)
    {cntVal : UInt32} (hplace : c.place = .counted cntVal) :
    Kept ((s.countDec c.bdata).finish t th
      { c with place := .turnedAway, decremented := c.decremented ++ [c.bdata] }) := by
  have hok := (h.threads t th hth).call c hcall
  have hdecs := hok.decremented
  rw [hplace] at hdecs
  refine h.finish hth hcall ?_ ?_ (fun n => ?_) (fun _ _ _ => Iff.rfl)
  · refine ⟨?_, Or.inr ⟨rfl, hok.unlocked⟩⟩
    dsimp only
    rw [hdecs]
    rfl
  · rw [hplace]
    exact UInt32.sub_add_cancel _ _
  · simp [h.mine hth, hasMutex_own hcall, hplace, Where.hasMutex]

/-- The count is taken back, for the buffer the call has counted itself on. -/
theorem countDown (h : Kept s) (hth : s.threads[t]? = some th) (hcall : th.call = some c)
    (hplace : c.place = .done c.bdata) :
    Kept ((s.countDec c.bdata).goTo t th
      { c with place := .leaving c.bdata, decremented := c.decremented ++ [c.bdata] }) := by
  have hok := (h.threads t th hth).call c hcall
  have hdecs := hok.decremented
  rw [hplace] at hdecs
  refine h.goTo hth hcall ?_ rfl ?_ rfl (by rw [hplace]; rfl)
  · exact { own := by simp, decremented := by simp [hdecs], unlocked := hok.unlocked,
            jumps := by simp, goesOn := by simp }
  · rw [hplace]
    exact (UInt32.sub_add_cancel _ _).trans (UInt32.add_zero _).symm

/-- `pthread_mutex_unlock`, of the mutex the call has. -/
theorem unlock (h : Kept s) (hth : s.threads[t]? = some th) (hcall : th.call = some c)
    (hplace : c.place = .leaving c.bdata) :
    Kept ((s.setBuffer c.bdata { s.buffers c.bdata with
        langMtx := (s.buffers c.bdata).langMtx.unlock t }).finish t th
      { c with place := .returned, unlocked := c.unlocked ++ [c.bdata] }) := by
  have hok := (h.threads t th hth).call c hcall
  have hdecs := hok.decremented
  rw [hplace] at hdecs
  have hheld : (s.buffers c.bdata).langMtx = some (t, 0) := by
    rw [h.mine hth, hasMutex_own hcall, hplace]
    exact ⟨rfl, rfl⟩
  refine h.finish hth hcall ⟨?_, Or.inl ⟨rfl, ?_⟩⟩ ?_ (fun n => ?_) (fun t' n hne => ?_)
  · simpa using hdecs
  · dsimp only
    rw [hok.unlocked]
    rfl
  · rw [hplace]
    exact UInt32.add_zero _
  · simp [hheld, Mutex.unlock_own]
  · simp [hheld, Mutex.unlock_own, Ne.symm hne]

/-- The next statement of a call that has kept to its buffer. -/
theorem next (h : Kept s) (hth : s.threads[t]? = some th) (hcall : th.call = some c)
    (hnext : s.next t th c = some s') : Kept s' := by
  have hok := (h.threads t th hth).call c hcall
  have hdecs := hok.decremented
  unfold ClangState.next at hnext
  cases hplace : c.place with
  | entered =>
      rw [hplace] at hnext hdecs
      cases hnext
      refine h.goTo hth hcall ?_ rfl ?_ rfl (by rw [hplace]; rfl)
      · exact { own := by simp, decremented := hdecs, unlocked := hok.unlocked,
                jumps := by simp, goesOn := by simp }
      · rw [hplace]
        exact UInt32.add_zero _
  | counted cntVal =>
      rw [hplace] at hnext
      dsimp only at hnext
      split at hnext
      · cases hnext
        exact h.turnAway hth hcall hplace
      · cases hnext
        exact h.setjmp hth hcall hplace
  | waiting =>
      rw [hplace] at hnext
      obtain ⟨langMtx, hlock, hs'⟩ := Option.bind_eq_some_iff.mp hnext
      cases hs'
      exact h.lock hth hcall hplace hlock
  | locked =>
      rw [hplace] at hnext hdecs
      dsimp only at hnext
      split at hnext
      · cases hnext
        refine h.goTo hth hcall ?_ rfl (by rw [hplace]; rfl) rfl (by rw [hplace]; rfl)
        exact { own := by simp, decremented := hdecs, unlocked := hok.unlocked,
                jumps := by simp, goesOn := by simp }
      · cases hnext
        refine h.goTo_only hth hcall ?_ rfl (by rw [hplace]; rfl) (by rw [hplace]; rfl)
        exact { own := by simp, decremented := hdecs, unlocked := hok.unlocked,
                jumps := fun _ => hok.jumps (by simp [hplace]), goesOn := by simp }
  | compiling =>
      rw [hplace] at hnext hdecs
      cases hnext
      refine h.goTo_only hth hcall ?_ rfl (by rw [hplace]; rfl) (by rw [hplace]; rfl)
      exact { own := by simp, decremented := hdecs, unlocked := hok.unlocked,
              jumps := by simp, goesOn := by simp }
  | done bdata =>
      rw [hplace] at hnext
      cases hnext
      obtain rfl := hok.own bdata (Or.inl hplace)
      exact h.countDown hth hcall hplace
  | leaving bdata =>
      rw [hplace] at hnext
      cases hnext
      obtain rfl := hok.own bdata (Or.inr hplace)
      exact h.unlock hth hcall hplace
  | returned =>
      rw [hplace] at hnext
      exact absurd hnext nofun
  | turnedAway =>
      rw [hplace] at hnext
      exact absurd hnext nofun

/-- An error of libclang, in the call that has executed `setjmp` last. -/
theorem fail (h : Kept s) (hth : s.threads[t]? = some th) (hcall : th.call = some c)
    (hplace : c.place = .compiling) (hjump : s.jbuf.map JmpBuf.thread = some t)
    (hfail : s.handleLibclangError t th c = some s') : Kept s' := by
  have hok := (h.threads t th hth).call c hcall
  have hdecs := hok.decremented
  rw [hplace] at hdecs
  obtain ⟨frame, hframe, hs'⟩ := Option.bind_eq_some_iff.mp hfail
  cases hs'
  have hthread : frame.thread = t := by simpa [hframe] using hjump
  have hsame : frame.bdata = c.bdata := hok.jumps (by simp [hplace]) frame hframe hthread
  refine h.goTo hth hcall ?_ rfl (by rw [hplace]; rfl) rfl (by rw [hplace]; rfl)
  exact { own := by simp [hsame], decremented := by simpa using hdecs, unlocked := hok.unlocked,
          jumps := by simp, goesOn := by simp }

/-- A new call; it is not counted yet. -/
theorem call (h : Kept s) (hth : s.threads[t]? = some th) (hidle : th.call = none) (bdata : Nat) :
    Kept (s.goTo t th (.start bdata)) := by
  have hok : CallOk s.jbuf t (.start bdata) :=
    { own := by simp [Call.start], decremented := rfl, unlocked := rfl,
      jumps := by simp [Call.start], goesOn := by simp [Call.start] }
  have hkept : Kept ((s.setBuffer bdata (s.buffers bdata)).goTo t th (.start bdata)) := by
    refine h.moveOn hth (by simp [hidle]) (by simp [Call.start]) ?_
      ((h.threads t th hth).goOn hok) (fun _ hframe _ => hframe) (fun n => ?_)
      (fun _ _ _ => Iff.rfl)
    · have hbefore : th.worksOn bdata = false := by simp [Thread.worksOn, hidle]
      have hafter : Thread.worksOn { th with call := some (.start bdata) } bdata = false :=
        worksOn_own (c := .start bdata) rfl
      unfold Thread.worker
      rw [hbefore, hafter]
    · rw [h.mine hth]
      simp [Thread.hasMutex, hidle, Where.hasMutex, Call.start]
  rwa [ClangState.setBuffer_same] at hkept

/-- `initialized` is for calls to come. -/
theorem flag (h : Kept s) (bdata : Nat) (initialized : Bool) :
    Kept (s.setBuffer bdata { s.buffers bdata with initialized := initialized }) := by
  have hsame : ∀ bdata', ((s.setBuffer bdata
      { s.buffers bdata with initialized := initialized }).buffers bdata').numWorkers =
        (s.buffers bdata').numWorkers ∧ ((s.setBuffer bdata
      { s.buffers bdata with initialized := initialized }).buffers bdata').langMtx =
        (s.buffers bdata').langMtx := by
    intro bdata'
    by_cases heq : bdata' = bdata
    · subst heq
      simp
    · simp [ClangState.setBuffer_other _ _ heq]
  refine { counts := fun bdata' => ?_, threads := h.threads, mutex := fun bdata' t n => ?_ }
  · rw [(hsame bdata').1]
    exact h.counts bdata'
  · rw [(hsame bdata').2]
    exact h.mutex bdata' t n

theorem step {a : ClangAction} (h : Kept s) (hok : OwnJump s a) (hstep : s.step a = some s') :
    Kept s' := by
  rcases step_cases hstep with ⟨bdata, initialized, rfl⟩ | ⟨t, th, bdata, hth, hidle, rfl⟩ |
    ⟨t, th, c, hth, hcall, hnext⟩ | ⟨t, th, c, rfl, hth, hcall, hplace, hfail⟩
  · exact h.flag bdata initialized
  · exact h.call hth hidle bdata
  · exact h.next hth hcall hnext
  · exact h.fail hth hcall hplace hok.2 hfail

/-! ### What it says about a state -/

theorem conserved (h : Kept s) (hsize : ∀ bdata, s.workers bdata < UInt32.size) :
    Conserved s where
  counts bdata := by
    rw [h.counts bdata]
    exact UInt32.toNat_ofNat_of_lt' (hsize bdata)
  ended th hth c hc := by
    obtain ⟨t, ht⟩ := List.getElem?_of_mem hth
    exact (h.threads t th ht).past c hc
  released bdata t n hheld := ((h.mutex bdata t n).mp hheld).2
  free bdata hnone := by
    have hzero : s.workers bdata = 0 := List.countP_eq_zero.mpr (by simpa using hnone)
    unfold ClangState.destroyWaits
    rw [h.counts bdata, hzero]
    rfl

end Kept

/-! ### Whole runs

A thread that goes on in the frame of another call takes that call's buffer for its own.  It
counts down there, and its own buffer keeps a worker that does not work any more; so one run is
enough to see that the condition is needed.
-/

theorem next_length {s s' : ClangState} {t : Nat} {th : Thread} {c : Call}
    (hnext : s.next t th c = some s') : s'.threads.length = s.threads.length := by
  unfold ClangState.next at hnext
  cases hplace : c.place with
  | entered | compiling | done _ | leaving _ =>
      rw [hplace] at hnext
      cases hnext
      exact List.length_set
  | counted _ | locked =>
      rw [hplace] at hnext
      dsimp only at hnext
      split at hnext
      all_goals
        cases hnext
        exact List.length_set
  | waiting =>
      rw [hplace] at hnext
      obtain ⟨langMtx, -, hs'⟩ := Option.bind_eq_some_iff.mp hnext
      cases hs'
      exact List.length_set
  | returned | turnedAway =>
      rw [hplace] at hnext
      exact absurd hnext nofun

theorem step_length {s s' : ClangState} {a : ClangAction} (hstep : s.step a = some s') :
    s'.threads.length = s.threads.length := by
  rcases step_cases hstep with ⟨bdata, initialized, rfl⟩ | ⟨t, th, bdata, hth, hidle, rfl⟩ |
    ⟨t, th, c, hth, hcall, hnext⟩ | ⟨t, th, c, rfl, hth, hcall, hplace, hfail⟩
  · rfl
  · exact List.length_set
  · exact next_length hnext
  · obtain ⟨frame, -, hs'⟩ := Option.bind_eq_some_iff.mp hfail
    cases hs'
    exact List.length_set

/-- A thread that goes on in the frame of another buffer takes away one of its workers. -/
theorem not_throughout_fail {threads : Nat} {s : ClangState} {t : Nat} {th : Thread} {c : Call}
    {frame : JmpBuf} (hth : s.threads[t]? = some th) (hcall : th.call = some c)
    (hplace : c.place = .compiling) (hframe : s.jbuf = some frame)
    (hother : frame.bdata ≠ c.bdata) :
    ¬ (clangSystem threads).Throughout Conserved s [.fail t, .next t] := by
  intro hall
  obtain ⟨hbefore, hall⟩ := hall
  let jumped : Call := { c with place := .done frame.bdata }
  let left : Call :=
    { c with place := .leaving frame.bdata, decremented := c.decremented ++ [frame.bdata] }
  let b := s.buffers c.bdata
  let s1 := (s.setBuffer c.bdata { b with numFailures := b.numFailures + 1 }).goTo t th jumped
  have hs1 : s.step (.fail t) = some s1 := by
    simp only [ClangState.step, hth, hcall, hplace, hframe, ClangState.handleLibclangError,
      Option.bind_eq_bind, Option.bind_some, if_pos]
    rfl
  have hth1 : s1.threads[t]? = some { th with call := some jumped } :=
    getElem?_set_thread hth _
  let s2 := (s1.countDec frame.bdata).goTo t { th with call := some jumped } left
  have hs2 : s1.step (.next t) = some s2 := by
    simp only [ClangState.step, hth1, Option.bind_eq_bind, Option.bind_some]
    rfl
  have hafter := ((hall _ hs1).2 _ hs2).counts frame.bdata
  have hbuffer : (s2.buffers frame.bdata).numWorkers = (s.buffers frame.bdata).numWorkers - 1 := by
    change ((s1.countDec frame.bdata).buffers frame.bdata).numWorkers = _
    unfold ClangState.countDec
    rw [ClangState.setBuffer_self]
    dsimp only [s1, ClangState.goTo, ClangState.setThread]
    rw [ClangState.setBuffer_other _ _ hother]
  have hworkers : s2.workers frame.bdata = s.workers frame.bdata := by
    have hone := workers_set hth { th with call := some jumped } frame.bdata
    have htwo := workers_set hth1 { th with call := some left } frame.bdata
    have hjumped : ({ th with call := some jumped } : Thread).worker frame.bdata = 0 :=
      worker_other (c := jumped) rfl (Ne.symm hother)
    have hleft : ({ th with call := some left } : Thread).worker frame.bdata = 0 :=
      worker_other (c := left) rfl (Ne.symm hother)
    rw [hjumped, hleft] at htwo
    rw [worker_other hcall (Ne.symm hother), hjumped] at hone
    exact htwo.trans hone
  rw [hbuffer, hworkers, ← hbefore.counts frame.bdata] at hafter
  have hlt := (s.buffers frame.bdata).numWorkers.toNat_lt
  rw [UInt32.toNat_sub, UInt32.toNat_one] at hafter
  omega

/--
**Every count is right and every mutex is released**, whatever the threads do, in a run in
which each error jumps to the call it comes from.  A jump into the frame of a call on another
buffer leaves the count of that buffer wrong after one more statement.
-/
theorem conserved_of_ownJump (threads : Nat) :
    (∀ as, (clangSystem threads).Meets OwnJump (clangSystem threads).init as →
      (clangSystem threads).Throughout Conserved (clangSystem threads).init as) ∧
    ∀ (s : ClangState) (t : Nat) (th : Thread) (c : Call) (frame : JmpBuf),
      s.threads[t]? = some th → th.call = some c → c.place = .compiling → s.jbuf = some frame →
      frame.bdata ≠ c.bdata →
      ¬ (clangSystem threads).Throughout Conserved s [.fail t, .next t] := by
  refine ⟨fun as => ?_, fun s t th c frame => not_throughout_fail⟩
  let I : ClangState → Prop := fun s => Kept s ∧ ∀ bdata, s.workers bdata < UInt32.size
  have hinit : I (clangSystem threads).init := by
    refine ⟨Kept.init threads, fun bdata => ?_⟩
    rw [workers_init]
    decide
  refine TransitionSystem.throughout_of_meets (I := I) (fun s h => h.1.conserved h.2)
    (fun s a s' h hok hstep => ⟨h.1.step hok hstep, fun bdata => ?_⟩) hinit
  have hle : s'.workers bdata ≤ s'.threads.length := List.countP_le_length
  rw [step_length hstep] at hle
  exact Nat.lt_of_le_of_lt hle hok.1

/-- Thread 0 works on buffer 1 when thread 1 comes with buffer 2; then libclang fails in thread 0. -/
def failsSecond : List ClangAction :=
  [.fill 1, .fill 2, .call 0 1, .next 0, .next 0, .next 0, .next 0,
    .call 1 2, .next 1, .next 1, .fail 0, .next 0, .next 0]

/-- Buffer 1 has a worker for ever, and its mutex is never free again. -/
theorem failsSecond_stuck :
    (∃ s, (clangSystem 2).run (clangSystem 2).init failsSecond = some s ∧
      s.threads.map Thread.call = [none, some { Call.start 2 with place := .waiting }] ∧
      (s.buffers 1).numWorkers = 1 ∧ (s.buffers 1).langMtx = some (0, 0) ∧
      s.destroyWaits 1 = true ∧ (s.buffers 2).numWorkers = 0) ∧
    ¬ (clangSystem 2).Throughout Conserved (clangSystem 2).init failsSecond := by
  refine ⟨⟨_, rfl, rfl, rfl, rfl, rfl, rfl⟩, fun h => ?_⟩
  have hcounts := (h.last rfl).counts 1
  revert hcounts
  decide

/-- libclang fails in the thread that came last, and then in the other one. -/
theorem conserved_of_ownJump_two : (clangSystem 2).Throughout Conserved (clangSystem 2).init
    [.fill 1, .fill 2, .call 0 1, .next 0, .next 0, .next 0, .next 0, .fail 0,
      .call 1 2, .next 1, .next 1, .next 0, .next 1, .next 1, .fail 1, .next 1, .next 1, .next 0] :=
  (conserved_of_ownJump 2).1 _ (by decide)

end TagHighlight.Clang
