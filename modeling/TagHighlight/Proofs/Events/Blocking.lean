/-
The event loop and its workers wait for each other in a circle exactly when a lines event
gets between a request and its response.

A worker locks one buffer at a time, so a worker that has a mutex never waits for
another: it can go on, or it waits for a response.  A response is always on its way, with
Neovim or on the wire, and the event loop gets to it unless it stops at a lines event of
a buffer whose mutex the very worker has.

So the condition is about two moments only: that at which a worker makes a request with a mutex,
and that at which Neovim tells of an edit.  Everything else that the threads do, in whatever
order, neither makes a circle nor stops them all.
-/
import TagHighlight.Events.Blocking
import Mathlib.Data.List.Perm.Basic
import Mathlib.Data.List.Nodup
import Mathlib.Data.List.TakeWhile

namespace TagHighlight.Blocking

/-! ### One buffer at a time

Each of the functions locks the mutex of one buffer, more than once perhaps, and gives it back as
often; and it asks for no other meanwhile.  So a list of acts can be read from the front like a
list of brackets, and `Balanced` says how deep a worker is in it.
-/

/--
A worker that has a mutex, `n` times beyond once, and what it has left to do: it locks no
other buffer's, and ends up with none.
-/
def Balanced : Option (Nat × Nat) → List Act → Prop
  | none, [] => True
  | some _, [] => False
  | none, .lock b :: todo => Balanced (some (b, 0)) todo
  | some (b, n), .lock b' :: todo => b' = b ∧ Balanced (some (b, n + 1)) todo
  | none, .unlock _ :: _ => False
  | some (b, 0), .unlock b' :: todo => b' = b ∧ Balanced none todo
  | some (b, n + 1), .unlock b' :: todo => b' = b ∧ Balanced (some (b, n)) todo
  | held, .request :: todo => Balanced held todo
  | held, .async :: todo => Balanced held todo

theorem balanced_lock {held : Option (Nat × Nat)} {b : Nat} {todo : List Act}
    (h : Balanced held (.lock b :: todo)) :
    held = none ∧ Balanced (some (b, 0)) todo ∨
      ∃ n, held = some (b, n) ∧ Balanced (some (b, n + 1)) todo := by
  cases held with
  | none => exact Or.inl ⟨rfl, h⟩
  | some entry =>
      obtain ⟨b', n⟩ := entry
      obtain ⟨rfl, h⟩ := h
      exact Or.inr ⟨n, rfl, h⟩

theorem balanced_unlock {held : Option (Nat × Nat)} {b : Nat} {todo : List Act}
    (h : Balanced held (.unlock b :: todo)) :
    held = some (b, 0) ∧ Balanced none todo ∨
      ∃ n, held = some (b, n + 1) ∧ Balanced (some (b, n)) todo := by
  cases held with
  | none => exact h.elim
  | some entry =>
      obtain ⟨b', n⟩ := entry
      cases n with
      | zero =>
          obtain ⟨rfl, h⟩ := h
          exact Or.inl ⟨rfl, h⟩
      | succ n =>
          obtain ⟨rfl, h⟩ := h
          exact Or.inr ⟨n, rfl, h⟩

@[simp] theorem balanced_request {held : Option (Nat × Nat)} {todo : List Act} :
    Balanced held (.request :: todo) ↔ Balanced held todo := by
  cases held <;> rfl

@[simp] theorem balanced_async {held : Option (Nat × Nat)} {todo : List Act} :
    Balanced held (.async :: todo) ↔ Balanced held todo := by
  cases held <;> rfl

/-- Acts that give back every mutex they take, and take no mutex but `b`'s. -/
def Neutral (b : Nat) (acts : List Act) : Prop :=
  ∀ n todo, Balanced (some (b, n)) todo → Balanced (some (b, n)) (acts ++ todo)

namespace Neutral

variable {b : Nat} {acts acts' : List Act}

theorem nil : Neutral b [] := fun _ _ h => h

theorem append (h : Neutral b acts) (h' : Neutral b acts') : Neutral b (acts ++ acts') := by
  intro n todo htodo
  rw [List.append_assoc]
  exact h n _ (h' n todo htodo)

theorem request : Neutral b [.request] := fun _ _ h => balanced_request.mpr h

theorem async : Neutral b [.async] := fun _ _ h => balanced_async.mpr h

theorem flatMap {α : Type} (l : List α) {f : α → List Act} (h : ∀ x ∈ l, Neutral b (f x)) :
    Neutral b (l.flatMap f) := by
  induction l with
  | nil => exact nil
  | cons x l ih =>
      rw [List.flatMap_cons]
      exact (h x (by simp)).append (ih fun y hy => h y (List.mem_cons_of_mem x hy))

theorem requests {α : Type} (l : List α) : Neutral b (l.map fun _ => .request) := by
  rw [← List.flatMap_pure_eq_map]
  exact flatMap l fun _ _ => request

/-- A function that runs under the mutex may itself be called with it. -/
theorem locked (h : Neutral b acts) : Neutral b ([.lock b] ++ acts ++ [.unlock b]) := by
  intro n todo htodo
  simp only [List.append_assoc, List.cons_append, List.nil_append, Balanced]
  exact ⟨trivial, h (n + 1) _ ⟨rfl, htodo⟩⟩

theorem ite {c : Prop} [Decidable c] (h : Neutral b acts) : Neutral b (if c then acts else []) := by
  split
  · exact h
  · exact nil

end Neutral

/-- What is done under the mutex leaves a worker without one. -/
theorem balanced_locked {b : Nat} {acts todo : List Act} (h : Neutral b acts)
    (htodo : Balanced none todo) :
    Balanced none ([.lock b] ++ acts ++ [.unlock b] ++ todo) := by
  simp only [List.append_assoc, List.cons_append, List.nil_append, Balanced]
  exact h 0 _ ⟨rfl, htodo⟩

theorem neutral_echo (b : Nat) (verbose : Bool) : Neutral b (echo verbose) := Neutral.async.ite

theorem neutral_updateTaglist (b : Nat) : Neutral b (updateTaglist b) := Neutral.request.locked

theorem neutral_updateCommands (b : Nat) (order tags : BString) :
    Neutral b (updateCommands order tags) :=
  (Neutral.requests order).append
    (Neutral.flatMap order fun _ _ => (Neutral.request.append Neutral.request).ite)

theorem neutral_updateRound (b : Nat) (d : UpdateData) (tags : Option BString) :
    Neutral b (updateRound b d tags) := by
  refine (neutral_updateTaglist b).append ?_
  cases tags with
  | none => exact Neutral.nil
  | some tags =>
      exact (((neutral_echo b d.verbose).append (neutral_updateCommands b d.order tags)).append
        Neutral.async).append Neutral.request.ite

theorem neutral_updateRetry (b : Nat) (d : UpdateData) : Neutral b (updateRetry b d) := by
  unfold updateRetry
  cases d.first with
  | some tags => exact Neutral.nil
  | none =>
      exact ((neutral_echo b d.verbose).append (neutral_updateTaglist b)).append
        (neutral_updateRound b d d.second)

theorem neutral_clearSyntax (b : Nat) (order : Option BString) :
    Neutral b (clearSyntax order) := by
  cases order with
  | none => exact Neutral.nil
  | some order => exact (Neutral.requests order).append Neutral.request

theorem neutral_clearNamespace (b : Nat) (d : ClearData) : Neutral b (clearNamespace d) := by
  refine Neutral.ite ?_
  cases d.blocking with
  | false => exact Neutral.async
  | true => exact Neutral.request

theorem balanced_acts (call : Call) {todo : List Act} (htodo : Balanced none todo) :
    Balanced none (call.acts ++ todo) := by
  cases call with
  | getInitialLines b => exact balanced_locked (b := b) Neutral.request htodo
  | updateOther b d =>
      exact balanced_locked ((neutral_updateRound b d d.first).append (neutral_updateRetry b d))
        htodo
  | clearHighlight b d =>
      exact balanced_locked ((neutral_clearSyntax b d.order).append (neutral_clearNamespace b d))
        htodo

/-- Whatever a worker is given to run, it starts and ends without a mutex. -/
theorem balanced_calls (calls : List Call) : Balanced none (calls.flatMap Call.acts) := by
  induction calls with
  | nil => trivial
  | cons call calls ih =>
      rw [List.flatMap_cons]
      exact balanced_acts call ih

/-! ### Who has which mutex

A mutex is with the one that has locked it, with a count.  Of a step it matters who has a mutex
before and after it; for everybody else nothing has changed.
-/

/-- The only mutex `who` has is the one of `held`, if any. -/
def MutexOf (mutex : Nat → Option (Holder × Nat)) (who : Holder) (held : Option (Nat × Nat)) :
    Prop :=
  ∀ b n, mutex b = some (who, n) ↔ held = some (b, n)

namespace MutexOf

variable {mutex : Nat → Option (Holder × Nat)} {who : Holder} {held : Option (Nat × Nat)} {b n : Nat}

/-- The mutex that `who` takes is the only one it has. -/
theorem taken (h : MutexOf mutex who held) (hheld : ∀ b' m, held = some (b', m) → b' = b) :
    MutexOf (Function.update mutex b (some (who, n))) who (some (b, n)) := by
  intro b' m
  rw [Function.update_apply]
  split
  · rename_i hb
    simp [hb]
  · rename_i hb
    refine iff_of_false (fun hm => hb (hheld b' m ((h b' m).mp hm))) fun heq => hb ?_
    exact (Prod.mk.inj (Option.some.inj heq)).1.symm

theorem given (h : MutexOf mutex who (some (b, n))) :
    MutexOf (Function.update mutex b none) who none := by
  intro b' m
  rw [Function.update_apply]
  split
  · simp
  · rename_i hb
    refine iff_of_false (fun hm => hb ?_) (by simp)
    exact (Prod.mk.inj (Option.some.inj ((h b' m).mp hm))).1.symm

/-- A mutex that passes between nobody and `other` is not `who`'s before or after. -/
theorem passed (h : MutexOf mutex who held) (other : Holder) (hne : other ≠ who)
    {new : Option (Holder × Nat)} (hold : ∀ m, mutex b ≠ some (who, m))
    (hnew : new = none ∨ ∃ m, new = some (other, m)) :
    MutexOf (Function.update mutex b new) who held := by
  intro b' m
  rw [← h b' m, Function.update_apply]
  split
  · rename_i hb
    refine iff_of_false ?_ (hb ▸ hold m)
    rcases hnew with rfl | ⟨k, rfl⟩ <;> simp [hne]
  · rfl

end MutexOf

namespace LoopSystemState

variable {s s' : LoopSystemState} {i j b : Nat} {w : Worker} {who : Holder}

theorem acquire_cases (hs : s.acquire who b = some s') :
    ∃ n, s' = { s with mutex := Function.update s.mutex b (some (who, n)) } ∧
      (s.mutex b = none ∧ n = 0 ∨ ∃ m, s.mutex b = some (who, m) ∧ n = m + 1) := by
  unfold acquire at hs
  cases hmutex : s.mutex b with
  | none =>
      rw [hmutex] at hs
      exact ⟨0, (Option.some.inj hs).symm, Or.inl ⟨rfl, rfl⟩⟩
  | some entry =>
      obtain ⟨holder, n⟩ := entry
      simp only [hmutex] at hs
      obtain ⟨rfl, hs⟩ := Option.ite_none_right_eq_some.mp hs
      exact ⟨n + 1, (Option.some.inj hs).symm, Or.inr ⟨n, rfl, rfl⟩⟩

theorem release_cases (hs : s.release who b = some s') :
    ∃ n, s.mutex b = some (who, n) ∧
      (n = 0 ∧ s' = { s with mutex := Function.update s.mutex b none } ∨
        ∃ m, n = m + 1 ∧ s' = { s with mutex := Function.update s.mutex b (some (who, m)) }) := by
  unfold release at hs
  cases hmutex : s.mutex b with
  | none => simp [hmutex] at hs
  | some entry =>
      obtain ⟨holder, n⟩ := entry
      simp only [hmutex] at hs
      obtain ⟨rfl, hs⟩ := Option.ite_none_right_eq_some.mp hs
      refine ⟨n, rfl, ?_⟩
      cases n with
      | zero => exact Or.inl ⟨rfl, (Option.some.inj hs).symm⟩
      | succ m => exact Or.inr ⟨m, rfl, (Option.some.inj hs).symm⟩

/-- What a step of a worker can be. -/
theorem stepWorker_cases (hs : s.stepWorker i = some s') :
    ∃ w, s.workers[i]? = some w ∧ w.waiting = false ∧
      ((∃ b todo, w.todo = .lock b :: todo ∧
          (s.setWorker i { w with todo := todo }).acquire (.worker i) b = some s') ∨
        (∃ b todo, w.todo = .unlock b :: todo ∧
          (s.setWorker i { w with todo := todo }).release (.worker i) b = some s') ∨
        (∃ todo, w.todo = .request :: todo ∧
          s' = { s.setWorker i { todo := todo, waiting := true } with
                  requests := s.requests ++ [i] }) ∨
        ∃ todo, w.todo = .async :: todo ∧
          s' = { s with
                  workers := (s.setWorker i { w with todo := todo }).workers ++
                    [{ todo := [.request], waiting := false }] }) := by
  obtain ⟨w, hi, hs⟩ := Option.bind_eq_some_iff.mp hs
  obtain ⟨hw, hs⟩ := Option.ite_none_left_eq_some.mp hs
  refine ⟨w, hi, by simpa using hw, ?_⟩
  split at hs
  · simp at hs
  · rename_i b todo htodo
    exact Or.inl ⟨b, todo, htodo, hs⟩
  · rename_i b todo htodo
    exact Or.inr (Or.inl ⟨b, todo, htodo, hs⟩)
  · rename_i todo htodo
    exact Or.inr (Or.inr (Or.inl ⟨todo, htodo, (Option.some.inj hs).symm⟩))
  · rename_i todo htodo
    exact Or.inr (Or.inr (Or.inr ⟨todo, htodo, (Option.some.inj hs).symm⟩))

theorem receive_cases (hs : s.receive = some s') :
    s.loop = .idle ∧
      ((∃ b rest, s.wire = .lines b :: rest ∧ s' = { s with loop := .locking b, wire := rest }) ∨
        ∃ i rest w, s.wire = .response i :: rest ∧ s.workers[i]? = some w ∧
          s' = { s.setWorker i { w with waiting := false } with wire := rest }) := by
  unfold receive at hs
  split at hs
  · rename_i b rest hloop hwire
    exact ⟨hloop, Or.inl ⟨b, rest, hwire, (Option.some.inj hs).symm⟩⟩
  · rename_i i rest hloop hwire
    obtain ⟨w, hi, hs⟩ := Option.bind_eq_some_iff.mp hs
    exact ⟨hloop, Or.inr ⟨i, rest, w, hwire, hi, (Option.some.inj hs).symm⟩⟩
  · simp at hs

theorem answer_cases {k : Nat} (hs : s.answer k = some s') :
    ∃ i, s.requests[k]? = some i ∧
      s' = { s with requests := s.requests.eraseIdx k, wire := s.wire ++ [.response i] } := by
  obtain ⟨i, hk, hs⟩ := Option.bind_eq_some_iff.mp hs
  exact ⟨i, hk, (Option.some.inj hs).symm⟩

theorem lockLines_cases (hs : s.lockLines = some s') :
    ∃ b, s.loop = .locking b ∧ { s with loop := .editing b }.acquire .eventLoop b = some s' := by
  unfold lockLines at hs
  split at hs
  · rename_i b hloop
    exact ⟨b, hloop, hs⟩
  · simp at hs

theorem finishLines_cases (hs : s.finishLines = some s') :
    ∃ b, s.loop = .editing b ∧ { s with loop := .idle }.release .eventLoop b = some s' := by
  unfold finishLines at hs
  split at hs
  · rename_i b hloop
    exact ⟨b, hloop, hs⟩
  · simp at hs

theorem acquire_isSome (h : s.mutex b = none ∨ ∃ m, s.mutex b = some (who, m)) :
    (s.acquire who b).isSome := by
  rcases h with h | ⟨m, h⟩ <;> simp [acquire, h]

theorem release_isSome {n : Nat} (h : s.mutex b = some (who, n)) : (s.release who b).isSome := by
  simp [release, h]

end LoopSystemState

/-! ### The invariant

A worker has the mutex that its acts say and no other, and so has the event loop.  And whoever
waits has one answer to come, either among the requests that Neovim has not answered or on the
wire.
-/

/-- The mutex the event loop has. -/
def LoopState.held : LoopState → Option (Nat × Nat)
  | .editing b => some (b, 0)
  | _ => none

/-- The worker a response is for. -/
def Message.addressee : Message → Option Nat
  | .lines _ => none
  | .response i => some i

namespace LoopSystemState

variable {s s' : LoopSystemState} {i j b : Nat} {w : Worker} {who : Holder}

/-- The workers for which an answer is to come, from Neovim or off the wire. -/
def answers (s : LoopSystemState) : List Nat := s.requests ++ s.wire.filterMap (·.addressee)

structure Inv (s : LoopSystemState) : Prop where
  worker : ∀ i w, s.workers[i]? = some w →
    ∃ held, Balanced held w.todo ∧ MutexOf s.mutex (.worker i) held
  absent : ∀ i, s.workers[i]? = none → MutexOf s.mutex (.worker i) none
  loop : MutexOf s.mutex .eventLoop s.loop.held
  answersNodup : s.answers.Nodup
  waiting : ∀ i, s.Waiting i ↔ i ∈ s.answers

theorem inv_init (calls : List (List Call)) : Inv (loopSystem calls).init where
  worker := by
    intro i w hi
    simp only [loopSystem, List.getElem?_map, Option.map_eq_some_iff] at hi
    obtain ⟨cs, -, rfl⟩ := hi
    exact ⟨none, balanced_calls cs, by simp [MutexOf, loopSystem]⟩
  absent := by simp [MutexOf, loopSystem]
  loop := by simp [MutexOf, loopSystem, LoopState.held]
  answersNodup := by simp [answers, loopSystem]
  waiting := by
    intro i
    simp only [Waiting, answers, loopSystem, List.getElem?_map, Option.map_eq_some_iff]
    simp only [List.filterMap_nil, List.append_nil, List.not_mem_nil, iff_false]
    intro hex
    obtain ⟨w, ⟨cs, -, rfl⟩, hw⟩ := hex
    simp at hw

theorem workers_setWorker (hi : s.workers[i]? = some w) (w' : Worker) (j : Nat) :
    (s.setWorker i w').workers[j]? = if i = j then some w' else s.workers[j]? := by
  obtain ⟨hlt, -⟩ := List.getElem?_eq_some_iff.mp hi
  rw [setWorker, List.getElem?_set]
  simp [hlt]

/-- A worker that goes on without Neovim waits for it no more and no less. -/
theorem waiting_setWorker (hi : s.workers[i]? = some w) (todo : List Act) :
    (s.setWorker i { w with todo := todo }).Waiting j ↔ s.Waiting j := by
  unfold Waiting
  rw [workers_setWorker hi]
  split
  · rename_i hij
    subst hij
    simp [hi]
  · rfl

namespace Inv

variable (h : Inv s)
include h

/-- The invariant after a worker did something to the mutex it is about. -/
theorem acted (hi : s.workers[i]? = some w) {todo : List Act} {held : Option (Nat × Nat)}
    {mutex : Nat → Option (Holder × Nat)} (hbalanced : Balanced held todo)
    (hmine : MutexOf mutex (.worker i) held)
    (hothers : ∀ who held, who ≠ .worker i → MutexOf s.mutex who held → MutexOf mutex who held) :
    Inv { s.setWorker i { w with todo := todo } with mutex := mutex } where
  worker := by
    intro j v hj
    replace hj := (workers_setWorker hi { w with todo := todo } j).symm.trans hj
    split at hj
    · rename_i hij
      obtain rfl := Option.some.inj hj
      exact ⟨held, hbalanced, hij ▸ hmine⟩
    · rename_i hij
      obtain ⟨heldj, hbal, hmutex⟩ := h.worker j v hj
      exact ⟨heldj, hbal, hothers _ _ (by simp [Ne.symm hij]) hmutex⟩
  absent := by
    intro j hj
    replace hj := (workers_setWorker hi { w with todo := todo } j).symm.trans hj
    split at hj
    · simp at hj
    · rename_i hij
      exact hothers _ _ (by simp [Ne.symm hij]) (h.absent j hj)
  loop := hothers _ _ (by simp) h.loop
  answersNodup := h.answersNodup
  waiting := fun j => (waiting_setWorker hi todo).trans (h.waiting j)

theorem acquire {todo : List Act} (hi : s.workers[i]? = some w)
    (htodo : w.todo = .lock b :: todo)
    (hs : (s.setWorker i { w with todo := todo }).acquire (.worker i) b = some s') : Inv s' := by
  obtain ⟨held, hbalanced, hmutex⟩ := h.worker i w hi
  rw [htodo] at hbalanced
  obtain ⟨n, rfl, hn⟩ := acquire_cases hs
  have hpass : ∀ who held, who ≠ .worker i → MutexOf s.mutex who held →
      MutexOf (Function.update s.mutex b (some (.worker i, n))) who held := by
    intro who held hne hwho
    refine hwho.passed (.worker i) (Ne.symm hne) (fun m hm => ?_) (Or.inr ⟨n, rfl⟩)
    rcases hn with ⟨hnone, -⟩ | ⟨k, hk, -⟩
    · exact absurd (hm.symm.trans hnone) (by simp)
    · exact hne (Prod.mk.inj (Option.some.inj (hm.symm.trans hk))).1
  rcases balanced_lock hbalanced with ⟨rfl, hrest⟩ | ⟨k, rfl, hrest⟩
  · obtain rfl : n = 0 := by
      rcases hn with ⟨-, hn⟩ | ⟨m, hm, -⟩
      · exact hn
      · exact absurd ((hmutex b m).mp hm) (by simp)
    exact h.acted hi hrest (hmutex.taken (by simp)) hpass
  · obtain rfl : n = k + 1 := by
      have hk : s.mutex b = some (.worker i, k) := (hmutex b k).mpr rfl
      rcases hn with ⟨hnone, -⟩ | ⟨m, hm, rfl⟩
      · exact absurd (hk.symm.trans hnone) (by simp)
      · rw [(Prod.mk.inj (Option.some.inj (hk.symm.trans hm))).2]
    exact h.acted hi hrest
      (hmutex.taken fun b' m heq => (Prod.mk.inj (Option.some.inj heq)).1.symm) hpass

theorem release {todo : List Act} (hi : s.workers[i]? = some w)
    (htodo : w.todo = .unlock b :: todo)
    (hs : (s.setWorker i { w with todo := todo }).release (.worker i) b = some s') : Inv s' := by
  obtain ⟨held, hbalanced, hmutex⟩ := h.worker i w hi
  rw [htodo] at hbalanced
  obtain ⟨n, hn, hs⟩ := release_cases hs
  have hn' : s.mutex b = some (.worker i, n) := hn
  have hpass : ∀ new, (new = none ∨ ∃ m, new = some (.worker i, m)) →
      ∀ who held, who ≠ .worker i → MutexOf s.mutex who held →
        MutexOf (Function.update s.mutex b new) who held := by
    intro new hnew who held hne hwho
    refine hwho.passed (.worker i) (Ne.symm hne) (fun m hm => ?_) hnew
    exact hne (Prod.mk.inj (Option.some.inj (hm.symm.trans hn'))).1
  rcases balanced_unlock hbalanced with ⟨rfl, hrest⟩ | ⟨k, rfl, hrest⟩
  · have h0 : n = 0 := (Prod.mk.inj (Option.some.inj ((hmutex b n).mp hn'))).2.symm
    rcases hs with ⟨-, rfl⟩ | ⟨m, hm, -⟩
    · exact h.acted hi hrest hmutex.given (hpass none (Or.inl rfl))
    · omega
  · have hk : n = k + 1 := (Prod.mk.inj (Option.some.inj ((hmutex b n).mp hn'))).2.symm
    rcases hs with ⟨h0, -⟩ | ⟨m, hm, rfl⟩
    · omega
    · obtain rfl : m = k := by omega
      exact h.acted hi hrest
        (hmutex.taken fun b' m heq => (Prod.mk.inj (Option.some.inj heq)).1.symm)
        (hpass _ (Or.inr ⟨m, rfl⟩))

/-- The invariant after a worker began or stopped waiting. -/
theorem flagged (hi : s.workers[i]? = some w) {w' : Worker} {requests : List Nat}
    {wire : List Message} (hbalanced : ∀ held, Balanced held w.todo → Balanced held w'.todo)
    (hnodup : (requests ++ wire.filterMap (·.addressee)).Nodup)
    (hwaiting : ∀ j, (if i = j then w'.waiting = true else s.Waiting j) ↔
      j ∈ requests ++ wire.filterMap (·.addressee)) :
    Inv { s.setWorker i w' with requests := requests, wire := wire } where
  worker := by
    intro j v hj
    replace hj := (workers_setWorker hi w' j).symm.trans hj
    split at hj
    · rename_i hij
      obtain rfl := Option.some.inj hj
      obtain ⟨held, hbal, hmutex⟩ := h.worker i w hi
      exact ⟨held, hbalanced held hbal, hij ▸ hmutex⟩
    · exact h.worker j v hj
  absent := by
    intro j hj
    replace hj := (workers_setWorker hi w' j).symm.trans hj
    split at hj
    · simp at hj
    · exact h.absent j hj
  loop := h.loop
  answersNodup := hnodup
  waiting := by
    intro j
    refine Iff.trans ?_ (hwaiting j)
    show (∃ v, (s.setWorker i w').workers[j]? = some v ∧ v.waiting = true) ↔ _
    rw [workers_setWorker hi]
    split
    · simp
    · rfl

theorem not_mem_answers (hi : s.workers[i]? = some w) (hw : w.waiting = false) :
    i ∉ s.answers := by
  intro hmem
  obtain ⟨v, hv, hwait⟩ := (h.waiting i).mpr hmem
  obtain rfl := Option.some.inj (hi.symm.trans hv)
  simp [hw] at hwait

theorem request {todo : List Act} (hi : s.workers[i]? = some w) (hw : w.waiting = false)
    (htodo : w.todo = .request :: todo) :
    Inv { s.setWorker i { todo := todo, waiting := true } with requests := s.requests ++ [i] } := by
  have hperm : (s.requests ++ [i] ++ s.wire.filterMap (·.addressee)).Perm (i :: s.answers) := by
    rw [List.append_assoc]
    exact List.perm_middle
  refine h.flagged hi (fun held hbal => ?_) (hperm.nodup_iff.mpr
    (List.nodup_cons.mpr ⟨h.not_mem_answers hi hw, h.answersNodup⟩)) fun j => ?_
  · rwa [htodo, balanced_request] at hbal
  · refine Iff.trans ?_ hperm.mem_iff.symm
    rw [List.mem_cons, ← h.waiting]
    split
    · rename_i hij
      simp [hij]
    · rename_i hij
      simp [Ne.symm hij]

/-- The invariant with one more worker, which has yet to make its only request. -/
theorem spawned :
    Inv { s with workers := s.workers ++ [{ todo := [.request], waiting := false }] } where
  worker := by
    intro j v hj
    rw [List.getElem?_append] at hj
    split at hj
    · exact h.worker j v hj
    · rename_i hle
      obtain rfl := List.mem_singleton.mp (List.mem_of_getElem? hj)
      refine ⟨none, trivial, h.absent j ?_⟩
      exact List.getElem?_eq_none (Nat.le_of_not_lt hle)
  absent := by
    intro j hj
    refine h.absent j (List.getElem?_eq_none ?_)
    have := List.getElem?_eq_none_iff.mp hj
    simp only [List.length_append] at this
    omega
  loop := h.loop
  answersNodup := h.answersNodup
  waiting := by
    intro j
    refine Iff.trans ?_ (h.waiting j)
    constructor
    · intro hex
      obtain ⟨v, hv, hw⟩ := hex
      rw [List.getElem?_append] at hv
      split at hv
      · exact ⟨v, hv, hw⟩
      · obtain rfl := List.mem_singleton.mp (List.mem_of_getElem? hv)
        simp at hw
    · intro hex
      obtain ⟨v, hv, hw⟩ := hex
      exact ⟨v, by rw [List.getElem?_append_left (List.getElem?_eq_some_iff.mp hv).1, hv], hw⟩

/-- The invariant when only Neovim's side has moved. -/
theorem replied {requests : List Nat} {wire : List Message}
    (hperm : (requests ++ wire.filterMap (·.addressee)).Perm s.answers) :
    Inv { s with requests := requests, wire := wire } where
  worker := h.worker
  absent := h.absent
  loop := h.loop
  answersNodup := hperm.nodup_iff.mpr h.answersNodup
  waiting := fun j => (h.waiting j).trans hperm.mem_iff.symm

theorem worker_step (hs : s.stepWorker i = some s') : Inv s' := by
  obtain ⟨w, hi, hw, ⟨b, todo, htodo, hs⟩ | ⟨b, todo, htodo, hs⟩ | ⟨todo, htodo, rfl⟩ |
    ⟨todo, htodo, rfl⟩⟩ := stepWorker_cases hs
  · exact h.acquire hi htodo hs
  · exact h.release hi htodo hs
  · exact h.request hi hw htodo
  · obtain ⟨held, hbal, hmutex⟩ := h.worker i w hi
    rw [htodo, balanced_async] at hbal
    exact (h.acted hi hbal hmutex fun _ _ _ hwho => hwho).spawned

theorem answer {k : Nat} (hs : s.answer k = some s') : Inv s' := by
  obtain ⟨i, hk, rfl⟩ := answer_cases hs
  obtain ⟨hlt, rfl⟩ := List.getElem?_eq_some_iff.mp hk
  refine h.replied ?_
  rw [List.filterMap_append, ← List.append_assoc]
  refine (List.perm_append_singleton _ _).trans ?_
  exact (List.getElem_cons_eraseIdx_perm hlt).append_right _

theorem edit (b : Nat) : Inv { s with wire := s.wire ++ [.lines b] } := by
  refine h.replied (List.Perm.of_eq ?_)
  simp [answers, Message.addressee]

/-- The event loop moves on with the mutex of a buffer, or without one. -/
theorem looped {loop : LoopState} {mutex : Nat → Option (Holder × Nat)} {wire : List Message}
    (hmine : MutexOf mutex .eventLoop loop.held)
    (hothers : ∀ i held, MutexOf s.mutex (.worker i) held → MutexOf mutex (.worker i) held)
    (hwire : wire.filterMap (·.addressee) = s.wire.filterMap (·.addressee)) :
    Inv { s with loop := loop, mutex := mutex, wire := wire } where
  worker := fun i w hi => (h.worker i w hi).imp fun held hheld =>
    ⟨hheld.1, hothers i held hheld.2⟩
  absent := fun i hi => hothers i none (h.absent i hi)
  loop := hmine
  answersNodup := by
    rw [answers, hwire]
    exact h.answersNodup
  waiting := fun i => by
    rw [answers, hwire]
    exact h.waiting i

theorem receive (hs : s.receive = some s') : Inv s' := by
  obtain ⟨hloop, ⟨b, rest, hwire, rfl⟩ | ⟨i, rest, w, hwire, hi, rfl⟩⟩ := receive_cases hs
  · have hmine := h.loop
    rw [hloop] at hmine
    exact h.looped hmine (fun _ _ hwho => hwho) (by rw [hwire]; rfl)
  · have hperm : s.answers.Perm (i :: (s.requests ++ rest.filterMap (·.addressee))) := by
      rw [answers, hwire]
      exact List.perm_middle
    obtain ⟨hnot, hnodup⟩ := List.nodup_cons.mp (hperm.nodup_iff.mp h.answersNodup)
    refine h.flagged hi (fun held hbal => hbal) hnodup fun j => ?_
    split
    · rename_i hij
      exact iff_of_false (by simp) (hij ▸ hnot)
    · rename_i hij
      rw [h.waiting, hperm.mem_iff, List.mem_cons]
      exact or_iff_right (Ne.symm hij)

theorem lockLines (hs : s.lockLines = some s') : Inv s' := by
  obtain ⟨b, hloop, hs⟩ := lockLines_cases hs
  have hmine := h.loop
  rw [hloop] at hmine
  obtain ⟨n, rfl, hn⟩ := acquire_cases hs
  have hfree : s.mutex b = none ∧ n = 0 :=
    hn.resolve_right fun ⟨m, hm, _⟩ => absurd ((hmine b m).mp hm) (by simp [LoopState.held])
  obtain ⟨hnone, rfl⟩ := hfree
  refine h.looped (hmine.taken (by simp [LoopState.held])) (fun i held hwho => ?_) rfl
  exact hwho.passed .eventLoop (by simp) (fun m hm => by simp [hnone] at hm) (Or.inr ⟨0, rfl⟩)

theorem finishLines (hs : s.finishLines = some s') : Inv s' := by
  obtain ⟨b, hloop, hs⟩ := finishLines_cases hs
  have hmine := h.loop
  rw [hloop] at hmine
  obtain ⟨n, hn, hs⟩ := release_cases hs
  have hn' : s.mutex b = some (.eventLoop, n) := hn
  have h0 : n = 0 := (Prod.mk.inj (Option.some.inj ((hmine b n).mp hn'))).2.symm
  rcases hs with ⟨-, rfl⟩ | ⟨m, hm, -⟩
  · refine h.looped hmine.given (fun i held hwho => ?_) rfl
    exact hwho.passed .eventLoop (by simp) (fun m hm => by simp [hn'] at hm) (Or.inl rfl)
  · omega

theorem step {a : LoopAction} (hs : s.step a = some s') : Inv s' := by
  cases a with
  | worker i => exact h.worker_step hs
  | answer k => exact h.answer hs
  | edit b => exact Option.some.inj hs ▸ h.edit b
  | receive => exact h.receive hs
  | lockLines => exact h.lockLines hs
  | finishLines => exact h.finishLines hs

end Inv

/-! ### Waiting in a circle

A circle is a worker that waits for a response with a mutex that the event loop needs first.
Lines events that get to the wire later than the response do no harm, since the loop reads in
order.  So a circle can only come about when a request is made while such an event is there, or an
event is sent while such a request is open.
-/

/-- No worker waits for a response with a mutex that the event loop needs before. -/
def NoCycle (s : LoopSystemState) : Prop :=
  ∀ i b, s.Waiting i → s.Holds i b → ¬ s.NeedsFirst i b

theorem NeedsFirst.inFlight (h : s.NeedsFirst i b) : s.LinesInFlight b :=
  h.imp_right fun hmem => List.takeWhile_subset _ hmem

/-- Before Neovim has answered, every lines event in flight comes first. -/
theorem needsFirst_of_absent (h : .response i ∉ s.wire) (hlines : s.LinesInFlight b) :
    s.NeedsFirst i b := by
  refine hlines.imp_right fun hmem => ?_
  have hall : s.wire.takeWhile (· ≠ .response i) = s.wire := by
    rw [List.takeWhile_eq_self_iff]
    intro m hm
    have hne : m ≠ .response i := fun heq => h (heq ▸ hm)
    simpa using hne
  rwa [hall]

/-- What is sent last comes before nothing that was sent already. -/
theorem needsFirst_append {m : Message} (hm : m ≠ .lines b)
    (h : .lines b ∈ (s.wire ++ [m]).takeWhile (· ≠ .response i)) :
    .lines b ∈ s.wire.takeWhile (· ≠ .response i) := by
  rw [List.takeWhile_append] at h
  split at h
  · rename_i hall
    rw [(List.takeWhile_prefix _).eq_of_length hall]
    rcases List.mem_append.mp h with h | h
    · exact h
    · exact absurd (List.mem_singleton.mp (List.takeWhile_subset _ h)).symm hm
  · exact h

namespace Inv

variable (h : Inv s)
include h

theorem response_absent (hi : i ∈ s.requests) : .response i ∉ s.wire := by
  intro hmem
  have hnot := (List.nodup_append.mp h.answersNodup).2.2 i hi i
  exact hnot (List.mem_filterMap.mpr ⟨_, hmem, rfl⟩) rfl

theorem response_absent_of_running (hi : s.workers[i]? = some w) (hw : w.waiting = false) :
    .response i ∉ s.wire := fun hmem =>
  h.not_mem_answers hi hw (List.mem_append_right _ (List.mem_filterMap.mpr ⟨_, hmem, rfl⟩))

end Inv

/-- No circle comes about where nobody new waits, takes a mutex or is held up. -/
theorem NoCycle.mono (hno : NoCycle s) (hwaiting : ∀ i, s'.Waiting i → s.Waiting i)
    (hholds : ∀ i b, s'.Waiting i → s'.Holds i b → s.Holds i b)
    (hneeds : ∀ i b, s'.Waiting i → s'.Holds i b → s'.NeedsFirst i b → s.NeedsFirst i b) :
    NoCycle s' := fun i b hw hb hn =>
  hno i b (hwaiting i hw) (hholds i b hw hb) (hneeds i b hw hb hn)

theorem acquire_others (hs : s.acquire who b = some s') {c n : Nat} {other : Holder}
    (hne : other ≠ who) (hc : s'.mutex c = some (other, n)) : s.mutex c = some (other, n) := by
  obtain ⟨m, rfl, -⟩ := acquire_cases hs
  simp only [Function.update_apply] at hc
  split at hc
  · exact absurd (Prod.mk.inj (Option.some.inj hc)).1.symm hne
  · exact hc

theorem release_others (hs : s.release who b = some s') {c n : Nat} {other : Holder}
    (hne : other ≠ who) (hc : s'.mutex c = some (other, n)) : s.mutex c = some (other, n) := by
  obtain ⟨m, -, ⟨-, rfl⟩ | ⟨k, -, rfl⟩⟩ := release_cases hs <;>
    simp only [Function.update_apply] at hc <;> split at hc
  · simp at hc
  · exact hc
  · exact absurd (Prod.mk.inj (Option.some.inj hc)).1.symm hne
  · exact hc

/-- A worker that is running does not wait, so what it does to a mutex makes no circle. -/
theorem NoCycle.acted (hno : NoCycle s) (hi : s.workers[i]? = some w) (hw : w.waiting = false)
    {todo : List Act} (hworkers : s'.workers = (s.setWorker i { w with todo := todo }).workers)
    (hloop : s'.loop = s.loop) (hwire : s'.wire = s.wire)
    (hothers : ∀ c n j, j ≠ i → s'.mutex c = some (.worker j, n) →
      s.mutex c = some (.worker j, n)) : NoCycle s' := by
  have hwaiting : ∀ j, s'.Waiting j → s.Waiting j := by
    intro j hj
    rw [← waiting_setWorker hi todo]
    simpa only [Waiting, hworkers] using hj
  have hrunning : ∀ j, s.Waiting j → j ≠ i := by
    intro j hex heq
    obtain ⟨v, hv, hvw⟩ := hex
    subst heq
    obtain rfl := Option.some.inj (hi.symm.trans hv)
    simp [hw] at hvw
  refine hno.mono hwaiting (fun j b hj hb => ?_) (fun j b _ _ hn => ?_)
  · obtain ⟨n, hn⟩ := hb
    exact ⟨n, hothers b n j (hrunning j (hwaiting j hj)) hn⟩
  · simpa only [NeedsFirst, hloop, hwire] using hn

theorem noCycle_worker (hno : NoCycle s) (hok : KeptApart s (.worker i))
    (hs : s.stepWorker i = some s') : NoCycle s' := by
  obtain ⟨w, hi, hw, ⟨b, todo, htodo, hs⟩ | ⟨b, todo, htodo, hs⟩ | ⟨todo, htodo, rfl⟩ |
    ⟨todo, htodo, rfl⟩⟩ := stepWorker_cases hs
  · have hothers : ∀ c n j, j ≠ i → s'.mutex c = some (.worker j, n) →
        s.mutex c = some (.worker j, n) := fun c n j hne => acquire_others hs (by simpa using hne)
    obtain ⟨n, rfl, -⟩ := acquire_cases hs
    exact hno.acted hi hw rfl rfl rfl hothers
  · have hothers : ∀ c n j, j ≠ i → s'.mutex c = some (.worker j, n) →
        s.mutex c = some (.worker j, n) := fun c n j hne => release_others hs (by simpa using hne)
    obtain ⟨n, -, ⟨-, rfl⟩ | ⟨m, -, rfl⟩⟩ := release_cases hs
    · exact hno.acted hi hw rfl rfl rfl hothers
    · exact hno.acted hi hw rfl rfl rfl hothers
  · intro j b hj hb hn
    by_cases hji : j = i
    · subst hji
      exact hok w todo hi hw htodo b hb hn.inFlight
    · refine hno j b ?_ hb hn
      obtain ⟨v, hv, hvw⟩ := hj
      replace hv := (workers_setWorker hi _ j).symm.trans hv
      rw [if_neg (Ne.symm hji)] at hv
      exact ⟨v, hv, hvw⟩
  · have hacted : NoCycle (s.setWorker i { w with todo := todo }) :=
      hno.acted hi hw rfl rfl rfl fun _ _ _ _ hc => hc
    refine hacted.mono (fun j hj => ?_) (fun _ _ _ hb => hb) (fun _ _ _ _ hn => hn)
    obtain ⟨v, hv, hvw⟩ := hj
    rw [List.getElem?_append] at hv
    split at hv
    · exact ⟨v, hv, hvw⟩
    · obtain rfl := List.mem_singleton.mp (List.mem_of_getElem? hv)
      simp at hvw

theorem noCycle_receive (hno : NoCycle s) (hs : s.receive = some s') : NoCycle s' := by
  obtain ⟨hloop, ⟨b, rest, hwire, rfl⟩ | ⟨i, rest, w, hwire, hi, rfl⟩⟩ := receive_cases hs
  · refine hno.mono (fun _ hj => hj) (fun _ _ _ hb => hb) fun j c _ _ hn => Or.inr ?_
    rw [hwire, List.takeWhile_cons_of_pos (by simp)]
    rcases hn with hn | hn
    · obtain rfl := LoopState.locking.inj hn
      exact List.mem_cons_self
    · exact List.mem_cons_of_mem _ hn
  · have hwaiting : ∀ j, (s.setWorker i { w with waiting := false }).Waiting j →
        j ≠ i ∧ s.Waiting j := by
      intro j hex
      obtain ⟨v, hv, hvw⟩ := hex
      rw [workers_setWorker hi] at hv
      split at hv
      · obtain rfl := Option.some.inj hv
        simp at hvw
      · rename_i hij
        exact ⟨Ne.symm hij, v, hv, hvw⟩
    refine hno.mono (fun j hj => (hwaiting j hj).2) (fun _ _ _ hb => hb) fun j c hj _ hn => ?_
    refine hn.imp_right fun hn => ?_
    have hne : i ≠ j := Ne.symm (hwaiting j hj).1
    rw [hwire, List.takeWhile_cons_of_pos (by simpa using hne)]
    exact List.mem_cons_of_mem _ hn

theorem noCycle_answer (hno : NoCycle s) {k : Nat} (hs : s.answer k = some s') : NoCycle s' := by
  obtain ⟨i, hk, rfl⟩ := answer_cases hs
  exact hno.mono (fun _ hj => hj) (fun _ _ _ hb => hb) fun j c _ _ hn =>
    hn.imp_right (needsFirst_append (by simp))

theorem noCycle_lockLines (hno : NoCycle s) (hs : s.lockLines = some s') : NoCycle s' := by
  obtain ⟨b, hloop, hs⟩ := lockLines_cases hs
  have hothers : ∀ c n j, s'.mutex c = some (.worker j, n) → s.mutex c = some (.worker j, n) :=
    fun c n j => acquire_others hs (by simp)
  obtain ⟨n, rfl, -⟩ := acquire_cases hs
  refine hno.mono (fun _ hj => hj) (fun j c _ hc => hc.imp fun n => hothers c n j)
    fun j c _ _ hn => Or.inr (hn.resolve_left (by simp))

theorem noCycle_finishLines (hno : NoCycle s) (hs : s.finishLines = some s') : NoCycle s' := by
  obtain ⟨b, hloop, hs⟩ := finishLines_cases hs
  have hothers : ∀ c n j, s'.mutex c = some (.worker j, n) → s.mutex c = some (.worker j, n) :=
    fun c n j => release_others hs (by simp)
  obtain ⟨n, -, ⟨-, rfl⟩ | ⟨m, -, rfl⟩⟩ := release_cases hs <;>
    exact hno.mono (fun _ hj => hj) (fun j c _ hc => hc.imp fun n => hothers c n j)
      fun j c _ _ hn => Or.inr (hn.resolve_left (by simp))

namespace Inv

variable (h : Inv s)
include h

theorem noCycle_edit (hno : NoCycle s) (hok : KeptApart s (.edit b)) :
    NoCycle { s with wire := s.wire ++ [.lines b] } := by
  intro j c hj hc hn
  rcases List.mem_append.mp ((h.waiting j).mp hj) with hrequest | hwire
  · by_cases hcb : c = b
    · exact hok j hrequest (hcb ▸ hc)
    · exact hno j c hj hc (hn.imp_right (needsFirst_append (by simp [Ne.symm hcb])))
  · -- Neovim has answered already, so the new event comes after the response.
    obtain ⟨m, hm, haddressee⟩ := List.mem_filterMap.mp hwire
    obtain rfl : m = .response j := by
      cases m <;> simp_all [Message.addressee]
    refine hno j c hj hc (hn.imp_right fun hmem => ?_)
    rw [List.takeWhile_append] at hmem
    split at hmem
    · rename_i hall
      have heq := (List.takeWhile_prefix (fun x => decide (x ≠ Message.response j))).eq_of_length hall
      have := List.takeWhile_eq_self_iff.mp heq _ hm
      simp at this
    · exact hmem

theorem noCycle_step (hno : NoCycle s) {a : LoopAction} (hok : KeptApart s a)
    (hs : s.step a = some s') : NoCycle s' := by
  cases a with
  | worker i => exact noCycle_worker hno hok hs
  | answer k => exact noCycle_answer hno hs
  | edit b => exact Option.some.inj hs ▸ h.noCycle_edit hno hok
  | receive => exact noCycle_receive hno hs
  | lockLines => exact noCycle_lockLines hno hs
  | finishLines => exact noCycle_finishLines hno hs

/-- A request or an edit at the wrong moment closes the circle. -/
theorem cycle_of_not_keptApart {a : LoopAction} (hbad : ¬ KeptApart s a)
    (hs : s.step a = some s') : ¬ NoCycle s' := by
  cases a with
  | worker i =>
      simp only [KeptApart, not_forall, not_not] at hbad
      obtain ⟨w, todo, hi, hw, htodo, b, hb, hlines⟩ := hbad
      have hrequest : s.step (.worker i) = some { s.setWorker i { todo := todo, waiting := true } with
          requests := s.requests ++ [i] } := by
        simp [LoopSystemState.step, stepWorker, hi, hw, htodo]
      obtain rfl := Option.some.inj (hrequest.symm.trans hs)
      intro hno
      refine hno i b ⟨_, workers_setWorker hi _ i |>.trans (if_pos rfl), rfl⟩ hb ?_
      exact needsFirst_of_absent (h.response_absent_of_running hi hw) hlines
  | edit b =>
      simp only [KeptApart, not_forall, not_not] at hbad
      obtain ⟨i, hi, hb⟩ := hbad
      obtain rfl := Option.some.inj hs
      intro hno
      refine hno i b ((h.waiting i).mpr (List.mem_append_left _ hi)) hb ?_
      refine needsFirst_of_absent ?_ (Or.inr (List.mem_append_right _ (by simp)))
      simpa using h.response_absent hi
  | answer k => exact absurd trivial hbad
  | receive => exact absurd trivial hbad
  | lockLines => exact absurd trivial hbad
  | finishLines => exact absurd trivial hbad

/-! ### Somebody can go on

Whoever has a mutex and does not wait can go on, since it needs no other.  If it waits, then
Neovim can answer, or the event loop can read, unless it stops at a mutex; and the one that has
this mutex does not wait, for that would be a circle.  So in each case somebody can go on.
-/

/-- A worker that is running can go on, unless it is at a mutex that somebody else has. -/
theorem runs (hi : s.workers[i]? = some w) (hw : w.waiting = false) (htodo : w.todo ≠ [])
    (hfree : ∀ b todo, w.todo = .lock b :: todo →
      s.mutex b = none ∨ ∃ n, s.mutex b = some (.worker i, n)) :
    (s.step (.worker i)).isSome := by
  obtain ⟨held, hbal, hmutex⟩ := h.worker i w hi
  cases hacts : w.todo with
  | nil => exact absurd hacts htodo
  | cons act todo =>
      cases act with
      | lock b =>
          simp only [LoopSystemState.step, stepWorker, hi, Option.bind_eq_bind, Option.bind_some,
            hw, hacts]
          exact acquire_isSome (hfree b todo hacts)
      | unlock b =>
          rw [hacts] at hbal
          obtain ⟨n, hn⟩ : ∃ n, s.mutex b = some (.worker i, n) := by
            rcases balanced_unlock hbal with ⟨rfl, -⟩ | ⟨n, rfl, -⟩
            · exact ⟨0, (hmutex b 0).mpr rfl⟩
            · exact ⟨n + 1, (hmutex b (n + 1)).mpr rfl⟩
          simp only [LoopSystemState.step, stepWorker, hi, Option.bind_eq_bind, Option.bind_some,
            hw, hacts]
          exact release_isSome hn
      | request => simp [LoopSystemState.step, stepWorker, hi, hw, hacts]
      | async => simp [LoopSystemState.step, stepWorker, hi, hw, hacts]

/-- A worker that has a mutex and does not wait can go on. -/
theorem holder_runs (hb : s.Holds i b) (hnot : ¬ s.Waiting i) : (s.step (.worker i)).isSome := by
  obtain ⟨n, hn⟩ := hb
  cases hi : s.workers[i]? with
  | none => exact absurd ((h.absent i hi b n).mp hn) (by simp)
  | some w =>
      have hw : w.waiting = false := by
        by_contra hw
        exact hnot ⟨w, hi, by simpa using hw⟩
      obtain ⟨held, hbal, hmutex⟩ := h.worker i w hi
      obtain rfl : held = some (b, n) := (hmutex b n).mp hn
      refine h.runs hi hw ?_ ?_
      · intro hnil
        rw [hnil] at hbal
        exact hbal
      · intro c todo htodo
        rw [htodo] at hbal
        rcases balanced_lock hbal with ⟨hnone, -⟩ | ⟨m, hm, -⟩
        · simp at hnone
        · obtain ⟨rfl, rfl⟩ := Prod.mk.inj (Option.some.inj hm)
          exact Or.inr ⟨n, hn⟩

/-- Where the mutex of a buffer is not free, the one that has it can go on. -/
theorem mutex_progress (hnot : ∀ i, s.Holds i b → ¬ s.Waiting i) (hb : s.mutex b ≠ none) :
    ∃ a, (∀ c, a ≠ .edit c) ∧ (s.step a).isSome := by
  obtain ⟨⟨holder, n⟩, hn⟩ := Option.ne_none_iff_exists'.mp hb
  cases holder with
  | worker i =>
      exact ⟨.worker i, by simp, h.holder_runs ⟨n, hn⟩ (hnot i ⟨n, hn⟩)⟩
  | eventLoop =>
      refine ⟨.finishLines, by simp, ?_⟩
      have hheld := (h.loop b n).mp hn
      cases hloop : s.loop with
      | idle => simp [hloop, LoopState.held] at hheld
      | locking c => simp [hloop, LoopState.held] at hheld
      | editing c =>
          obtain ⟨rfl, -⟩ : c = b ∧ 0 = n := by simpa [hloop, LoopState.held] using hheld
          simp only [LoopSystemState.step, LoopSystemState.finishLines, hloop]
          exact release_isSome hn

theorem progress (hno : NoCycle s) (hi : s.Unfinished i) :
    ∃ a, (∀ b, a ≠ .edit b) ∧ (s.step a).isSome := by
  cases hloop : s.loop with
  | editing b =>
      refine ⟨.finishLines, by simp, ?_⟩
      have hmutex : s.mutex b = some (.eventLoop, 0) := (h.loop b 0).mpr (by rw [hloop]; rfl)
      simp only [LoopSystemState.step, LoopSystemState.finishLines, hloop]
      exact release_isSome hmutex
  | locking b =>
      by_cases hb : s.mutex b = none
      · refine ⟨.lockLines, by simp, ?_⟩
        simp only [LoopSystemState.step, LoopSystemState.lockLines, hloop]
        exact acquire_isSome (Or.inl hb)
      · exact h.mutex_progress (fun j hj hw => hno j b hw hj (Or.inl hloop)) hb
  | idle =>
      cases hwire : s.wire with
      | cons m rest =>
          refine ⟨.receive, by simp, ?_⟩
          cases m with
          | lines b => simp [LoopSystemState.step, LoopSystemState.receive, hloop, hwire]
          | response j =>
              obtain ⟨w, hj, -⟩ := (h.waiting j).mpr (by simp [answers, hwire, Message.addressee])
              simp [LoopSystemState.step, LoopSystemState.receive, hloop, hwire, hj]
      | nil =>
          cases hrequests : s.requests with
          | cons j rest => exact ⟨.answer 0, by simp, by simp [LoopSystemState.step, LoopSystemState.answer, hrequests]⟩
          | nil =>
              have hnone : ∀ j, ¬ s.Waiting j := fun j hj => by
                simpa [answers, hwire, hrequests] using (h.waiting j).mp hj
              obtain ⟨w, hw, hleft⟩ := hi
              have hrunning : w.waiting = false := by
                by_contra hwait
                exact hnone i ⟨w, hw, by simpa using hwait⟩
              have htodo : w.todo ≠ [] := hleft.resolve_right (by simp [hrunning])
              by_cases hfree : ∀ b todo, w.todo = .lock b :: todo → s.mutex b = none
              · exact ⟨.worker i, by simp,
                  h.runs hw hrunning htodo fun b todo heq => Or.inl (hfree b todo heq)⟩
              · simp only [not_forall] at hfree
                obtain ⟨b, todo, -, hb⟩ := hfree
                exact h.mutex_progress (fun j _ => hnone j) hb

theorem deadlockFree (hno : NoCycle s) : DeadlockFree s where
  noCycle := hno
  progress := fun _ => h.progress hno

end Inv

theorem noCycle_init (calls : List (List Call)) : NoCycle (loopSystem calls).init := by
  intro i b _ hex
  obtain ⟨n, hn⟩ := hex
  simp [loopSystem] at hn

end LoopSystemState

/-! ### Whole runs

One direction is the invariant along the run.  For the other, a step that does not meet the
condition closes a circle, and so it leads to a state that is not as it should be.
-/

/--
**No run gets stuck exactly as long as no lines event gets between a request that is made
with the mutex of its buffer and the response.**
-/
theorem deadlockFree_iff (calls : List (List Call)) (actions : List LoopAction) :
    (loopSystem calls).Throughout DeadlockFree (loopSystem calls).init actions ↔
      (loopSystem calls).Meets KeptApart (loopSystem calls).init actions :=
  TransitionSystem.throughout_iff_meets (I := fun s => s.Inv ∧ s.NoCycle)
    (fun _ h => h.1.deadlockFree h.2)
    (fun _ _ _ h hok hs => ⟨h.1.step hs, h.1.noCycle_step h.2 hok hs⟩)
    (fun _ _ _ h hbad hs hfree => h.1.cycle_of_not_keptApart hbad hs hfree.noCycle)
    ⟨LoopSystemState.inv_init calls, LoopSystemState.noCycle_init calls⟩ actions

/-- One worker, in `get_initial_lines` of buffer 1. -/
def loading : TransitionSystem LoopSystemState LoopAction := loopSystem [[.getInitialLines 1]]

/-- The user edits buffer 1 after its lines were asked for and before Neovim answers. -/
def editWhileLoading : List LoopAction := [.worker 0, .worker 0, .edit 1, .answer 0, .receive]

/--
The event loop waits for the mutex that the worker has, and the worker for the response
behind the edit: nothing can happen any more, except further edits.
-/
theorem editWhileLoading_stuck :
    (∃ s, loading.run loading.init editWhileLoading = some s ∧ s.Unfinished 0 ∧
      ∀ a, (∀ b, a ≠ .edit b) → s.step a = none) ∧
    ¬ loading.Throughout DeadlockFree loading.init editWhileLoading := by
  have hstuck : ∀ s, loading.run loading.init editWhileLoading = some s →
      s.Unfinished 0 ∧ ∀ a, (∀ b, a ≠ .edit b) → s.step a = none := by
    intro _ hrun
    obtain ⟨⟩ := hrun
    refine ⟨⟨_, rfl, Or.inr rfl⟩, fun a ha => ?_⟩
    cases a with
    | worker i => cases i <;> rfl
    | answer k => rfl
    | edit b => exact absurd rfl (ha b)
    | receive => rfl
    | lockLines => rfl
    | finishLines => rfl
  obtain ⟨s, hs⟩ : ∃ s, loading.run loading.init editWhileLoading = some s := ⟨_, rfl⟩
  obtain ⟨hleft, hnone⟩ := hstuck s hs
  refine ⟨⟨s, hs, hleft, hnone⟩, fun h => ?_⟩
  obtain ⟨a, ha, hsome⟩ := (h.last hs).progress 0 hleft
  simp [hnone a ha] at hsome

end TagHighlight.Blocking
