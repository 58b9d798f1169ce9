/-
Every call gets the response to its own request, and no wait node goes astray.

A node that was queued and not woken is in one place: once in the queue, or in the hands
of one response thread.  Popping and putting back only move it, so as lists the places
before and after a step are permutations of each other.  The same is said of the answers:
each call under way has one, as a request Neovim has still to answer, as a response on
the wire, or as a thread that looks for the node.  That there are fewer requests than
the counter can tell apart is used once, where a thread compares the count in a node with
the message id it looks for.

The pop of a response thread takes the node that was queued first, whatever it is, and puts it
back behind the others if it is not the one.  So two threads can each hold the node that the other
one looks for, and go on exchanging them; nothing is said here of how long that takes.  What is
said is that each of them, when it has found a node with its count, has found the node of the call
it answers, and that the node was put there by nobody else.
-/
import TagHighlight.NvimApi.WaitQueue
import Mathlib.Data.List.Perm.Basic
import Mathlib.Data.List.Nodup

namespace TagHighlight

/-- The count of the call in progress. -/
def Caller.current {ρ : Type} : Caller ρ → Option Nat
  | .counted count => some count
  | .written count => some count
  | .waiting count _ => some count
  | _ => none

namespace WaitState

variable {ρ : Type} {s s' : WaitState ρ} {i t a : Nat} {thread : ResponseThread ρ}

/-- The nodes in the hands of the response threads. -/
def hands (s : WaitState ρ) : List Nat := s.threads.filterMap (·.stage.hand)

/-- The nodes in the hands of all response threads but one. -/
def otherHands (s : WaitState ρ) (i : Nat) : List Nat :=
  (s.threads.eraseIdx i).filterMap (·.stage.hand)

/-- Where nodes are while their calls are not answered. -/
def places (s : WaitState ρ) : List Nat := s.queue ++ s.hands

/-- The message ids of the answers under way. -/
def answers (s : WaitState ρ) : List Nat :=
  s.requests ++ s.responses.map (·.msgid) ++ s.threads.map (·.obj.msgid)

/-! ### One thread among the others

The lists of nodes and answers are concatenated over all threads.  When one thread changes its
stage, what it had in hand is replaced by what it has then, and the rest of the list stays.  So a
statement about all threads is one about the thread and one about the others.
-/

theorem threads_perm (hi : s.threads[i]? = some thread) :
    s.threads.Perm (thread :: s.threads.eraseIdx i) := by
  obtain ⟨hlt, rfl⟩ := List.getElem?_eq_some_iff.mp hi
  exact (List.getElem_cons_eraseIdx_perm hlt).symm

theorem setStage_perm (hi : s.threads[i]? = some thread) (stage : Stage) :
    (s.setStage i thread stage).threads.Perm
      ({ thread with stage := stage } :: s.threads.eraseIdx i) := by
  obtain ⟨hlt, -⟩ := List.getElem?_eq_some_iff.mp hi
  exact List.set_perm_cons_eraseIdx hlt _

theorem hands_perm (hi : s.threads[i]? = some thread) :
    s.hands.Perm (thread.stage.hand.toList ++ s.otherHands i) := by
  refine ((threads_perm hi).filterMap _).trans (List.Perm.of_eq ?_)
  cases hhand : thread.stage.hand <;> simp [otherHands, hhand]

theorem hands_setStage_perm (hi : s.threads[i]? = some thread) (stage : Stage) :
    (s.setStage i thread stage).hands.Perm (stage.hand.toList ++ s.otherHands i) := by
  refine ((setStage_perm hi stage).filterMap _).trans (List.Perm.of_eq ?_)
  cases hhand : stage.hand <;> simp [otherHands, hhand]

theorem answers_setStage_perm (hi : s.threads[i]? = some thread) (stage : Stage) :
    (s.setStage i thread stage).answers.Perm s.answers := by
  refine List.Perm.append_left _ ?_
  exact ((setStage_perm hi stage).map _).trans ((threads_perm hi).map (·.obj.msgid)).symm

theorem places_perm (hi : s.threads[i]? = some thread) (hhand : thread.stage.hand = some a) :
    s.places.Perm (a :: (s.queue ++ s.otherHands i)) := by
  refine ((hands_perm hi).append_left s.queue).trans ?_
  rw [hhand]
  exact List.perm_middle

/-- The answers under way without the one that a thread has. -/
def otherAnswers (s : WaitState ρ) (i : Nat) : List Nat :=
  s.requests ++ s.responses.map (·.msgid) ++ (s.threads.eraseIdx i).map (·.obj.msgid)

theorem answers_perm (hi : s.threads[i]? = some thread) :
    s.answers.Perm (thread.obj.msgid :: s.otherAnswers i) :=
  (((threads_perm hi).map (·.obj.msgid)).append_left _).trans List.perm_middle

/-! ### The invariant

The part about places says that each node that was queued and not woken is in one place.  The part
about answers says that each call that waits has one answer, and each answer one call.  The rest
says what is in the nodes: the count of the call that has queued it, and an object only once the
right thread has put it there.
-/

/-- The count in the node at an address. -/
def countOf (s : WaitState ρ) (a : Nat) : Option Nat := (s.nodes a).map (·.count)

/-- Whether the futex in the node at an address was woken. -/
def futOf (s : WaitState ρ) (a : Nat) : Option Bool := (s.nodes a).map (·.fut)

theorem countOf_setNode (a : Nat) (node : WaitNode ρ) :
    (s.setNode a node).countOf = Function.update s.countOf a (some node.count) := by
  funext b
  simp only [countOf, setNode, Function.update_apply]
  split <;> rfl

theorem futOf_setNode (a : Nat) (node : WaitNode ρ) :
    (s.setNode a node).futOf = Function.update s.futOf a (some node.fut) := by
  funext b
  simp only [futOf, setNode, Function.update_apply]
  split <;> rfl

/-- Thread `t` waits for an answer to its request `count`. -/
def Awaits (s : WaitState ρ) (t count : Nat) : Prop :=
  s.callers t = .written count ∨
  ∃ a, s.callers t = .waiting count a ∧ s.futOf a = some false

/-- A thread out of the loop has the right node, with the object in it once it was stored. -/
def Holds (nodes : Nat → Option (WaitNode ρ)) (thread : ResponseThread ρ) : Prop :=
  match thread.stage with
  | .delivering a => ∃ node, nodes a = some node ∧ node.count = thread.obj.msgid
  | .waking a =>
      ∃ node, nodes a = some node ∧ node.count = thread.obj.msgid ∧ node.obj = some thread.obj
  | _ => True

/-- A thread does not notice what happens to nodes it does not have. -/
theorem Holds.update {nodes : Nat → Option (WaitNode ρ)} {node : Option (WaitNode ρ)}
    (hhand : thread.stage.hand ≠ some a) (h : Holds nodes thread) :
    Holds (Function.update nodes a node) thread := by
  unfold Holds at h ⊢
  cases hstage : thread.stage with
  | popping => trivial
  | comparing b => trivial
  | delivering b =>
      have hb : b ≠ a := fun hb => hhand (by rw [hstage, hb]; rfl)
      simpa only [hstage, Function.update_of_ne hb] using h
  | waking b =>
      have hb : b ≠ a := fun hb => hhand (by rw [hstage, hb]; rfl)
      simpa only [hstage, Function.update_of_ne hb] using h

/-- What is stored in a node belongs there, and is there once the futex was woken. -/
structure Genuine (node : WaitNode ρ) : Prop where
  msgid : ∀ obj, node.obj = some obj → obj.msgid = node.count
  stored : node.fut = true → node.obj ≠ none

theorem genuine_setNode {node : WaitNode ρ} (hnode : Genuine node)
    (h : ∀ b other, s.nodes b = some other → Genuine other) (b : Nat) (other : WaitNode ρ)
    (hother : (s.setNode a node).nodes b = some other) : Genuine other := by
  simp only [setNode, Function.update_apply] at hother
  split at hother
  · obtain rfl := Option.some.inj hother
    exact hnode
  · exact h b other hother

/-- What holds of the callers alone, `next` being the count that is given out next. -/
structure Numbered (next : Nat) (callers : Nat → Caller ρ) : Prop where
  small : next < 2 ^ 31
  counted : ∀ t count, (callers t).current = some count → count < next
  distinct : ∀ t t' count, (callers t).current = some count →
    (callers t').current = some count → t = t'
  returned : ∀ t count obj, callers t = .returned count obj → obj.msgid = count

structure Inv (s : WaitState ρ) : Prop extends Numbered s.count s.callers where
  /-- A waiting thread has its node. -/
  node : ∀ t count a, s.callers t = .waiting count a → s.countOf a = some count
  /-- A node has its waiting thread. -/
  caller : ∀ a count, s.countOf a = some count → ∃ t, s.callers t = .waiting count a
  genuine : ∀ a node, s.nodes a = some node → Genuine node
  placesNodup : s.places.Nodup
  places : ∀ a, a ∈ s.places ↔ s.futOf a = some false
  answersNodup : s.answers.Nodup
  answers : ∀ count, count ∈ s.answers ↔ ∃ t, s.Awaits t count
  holds : ∀ thread ∈ s.threads, Holds s.nodes thread

theorem Awaits.current {count : Nat} (h : s.Awaits t count) :
    (s.callers t).current = some count := by
  rcases h with h | ⟨a, h, -⟩ <;> simp [h, Caller.current]

theorem inv_init : Inv (init : WaitState ρ) where
  small := by simp [init]
  counted := by simp [init, Caller.current]
  distinct := by simp [init, Caller.current]
  node := by simp [init]
  caller := by simp [init, countOf]
  genuine := by simp [init]
  placesNodup := by simp [init, WaitState.places, hands]
  places := by simp [init, WaitState.places, hands, futOf]
  answersNodup := by simp [init, WaitState.answers]
  answers := by simp [init, WaitState.answers, Awaits]
  holds := by simp [init]
  returned := by simp [init]

namespace Inv

variable (h : Inv s)
include h

/-- An answer under way has an id below `2 ^ 31`. -/
theorem answer_lt {count : Nat} (hc : count ∈ s.answers) : count < 2 ^ 31 := by
  obtain ⟨t, ht⟩ := (h.answers count).mp hc
  exact Nat.lt_trans (h.counted t count ht.current) h.small

/-- The invariant of a state in which nodes and answers were only moved about. -/
theorem moved (hcount : s'.count = s.count) (hcallers : s'.callers = s.callers)
    (hcountOf : s'.countOf = s.countOf) (hfutOf : s'.futOf = s.futOf)
    (hgenuine : ∀ a node, s'.nodes a = some node → Genuine node)
    (hplaces : s'.places.Perm s.places) (hanswers : s'.answers.Perm s.answers)
    (hholds : ∀ th ∈ s'.threads, Holds s'.nodes th) : Inv s' where
  toNumbered := by rw [hcount, hcallers]; exact h.toNumbered
  node := by rw [hcallers, hcountOf]; exact h.node
  caller := by rw [hcallers, hcountOf]; exact h.caller
  genuine := hgenuine
  placesNodup := hplaces.nodup_iff.mpr h.placesNodup
  places := by intro a; rw [hplaces.mem_iff, hfutOf]; exact h.places a
  answersNodup := hanswers.nodup_iff.mpr h.answersNodup
  answers := by
    intro count
    rw [hanswers.mem_iff, h.answers]
    simp only [Awaits, hcallers, hfutOf]
  holds := hholds

end Inv

/-! ### Response threads

A thread pops, compares, delivers and wakes.  The first two move a node, so places and answers are
permuted.  The delivery writes into a node that is in the hands of this thread and of no other, so
nobody else sees it; and the wake takes the node and the answer out of the lists together.
-/

theorem pop_cases (hs : s.pop i = some s') :
    s' = s ∨ ∃ thread a rest, s.threads[i]? = some thread ∧ thread.stage = .popping ∧
      s.queue = a :: rest ∧ s' = { s.setStage i thread (.comparing a) with queue := rest } := by
  obtain ⟨thread, hi, hs⟩ := Option.bind_eq_some_iff.mp hs
  cases hstage : thread.stage <;> cases hqueue : s.queue <;> simp only [hstage, hqueue] at hs
  case popping.nil => exact Or.inl (Option.some.inj hs).symm
  case popping.cons a rest =>
    exact Or.inr ⟨thread, a, rest, hi, hstage, rfl, (Option.some.inj hs).symm⟩
  all_goals exact absurd hs (by simp)

theorem compare_cases (hs : s.compare i = some s') :
    ∃ thread a node, s.threads[i]? = some thread ∧ thread.stage = .comparing a ∧
      s.nodes a = some node ∧
      (node.count = toUnsigned thread.obj.msgid ∧ s' = s.setStage i thread (.delivering a) ∨
        s' = { s.setStage i thread .popping with queue := s.queue ++ [a] }) := by
  obtain ⟨thread, hi, hs⟩ := Option.bind_eq_some_iff.mp hs
  cases hstage : thread.stage <;> simp only [hstage] at hs
  case comparing a =>
    obtain ⟨node, hnode, hs⟩ := Option.bind_eq_some_iff.mp hs
    refine ⟨thread, a, node, hi, hstage, hnode, ?_⟩
    split at hs
    · rename_i hmatch
      exact Or.inl ⟨hmatch.2, (Option.some.inj hs).symm⟩
    · exact Or.inr (Option.some.inj hs).symm
  all_goals exact absurd hs (by simp)

theorem deliver_cases (hs : s.deliver i = some s') :
    ∃ thread a node, s.threads[i]? = some thread ∧ thread.stage = .delivering a ∧
      s.nodes a = some node ∧
      s' = (s.setNode a { node with obj := some thread.obj }).setStage i thread (.waking a) := by
  obtain ⟨thread, hi, hs⟩ := Option.bind_eq_some_iff.mp hs
  cases hstage : thread.stage <;> simp only [hstage] at hs
  case delivering a =>
    obtain ⟨node, hnode, hs⟩ := Option.bind_eq_some_iff.mp hs
    exact ⟨thread, a, node, hi, hstage, hnode, (Option.some.inj hs).symm⟩
  all_goals exact absurd hs (by simp)

theorem wake_cases (hs : s.wake i = some s') :
    ∃ thread a node, s.threads[i]? = some thread ∧ thread.stage = .waking a ∧
      s.nodes a = some node ∧
      s' = { s.setNode a { node with fut := true } with threads := s.threads.eraseIdx i } := by
  obtain ⟨thread, hi, hs⟩ := Option.bind_eq_some_iff.mp hs
  cases hstage : thread.stage <;> simp only [hstage] at hs
  case waking a =>
    obtain ⟨node, hnode, hs⟩ := Option.bind_eq_some_iff.mp hs
    exact ⟨thread, a, node, hi, hstage, hnode, (Option.some.inj hs).symm⟩
  all_goals exact absurd hs (by simp)

theorem holds_setStage {nodes : Nat → Option (WaitNode ρ)} {stage : Stage}
    (hi : s.threads[i]? = some thread) (hothers : ∀ th ∈ s.threads.eraseIdx i, Holds nodes th)
    (hnew : Holds nodes { thread with stage := stage }) :
    ∀ th ∈ (s.setStage i thread stage).threads, Holds nodes th := by
  intro th hth
  rcases List.mem_cons.mp ((setStage_perm hi stage).mem_iff.mp hth) with rfl | hth
  · exact hnew
  · exact hothers th hth

namespace Inv

variable (h : Inv s)
include h

theorem others {th : ResponseThread ρ} (hth : th ∈ s.threads.eraseIdx i) : Holds s.nodes th :=
  h.holds th (List.mem_of_mem_eraseIdx hth)

/-- A node in the hands of one thread is nowhere else. -/
theorem not_elsewhere (hi : s.threads[i]? = some thread) (hhand : thread.stage.hand = some a) :
    (s.queue ++ s.otherHands i).Nodup ∧ a ∉ s.queue ++ s.otherHands i := by
  have hnodup := (places_perm hi hhand).nodup_iff.mp h.placesNodup
  exact ⟨(List.nodup_cons.mp hnodup).2, (List.nodup_cons.mp hnodup).1⟩

/-- The other threads do not notice a change to the node one thread has. -/
theorem others_update (hi : s.threads[i]? = some thread) (hhand : thread.stage.hand = some a)
    (node : Option (WaitNode ρ)) {th : ResponseThread ρ} (hth : th ∈ s.threads.eraseIdx i) :
    Holds (Function.update s.nodes a node) th := by
  refine (h.others hth).update fun heq => (h.not_elsewhere hi hhand).2 ?_
  exact List.mem_append_right _ (List.mem_filterMap.mpr ⟨th, hth, heq⟩)

theorem pop (hs : s.pop i = some s') : Inv s' := by
  rcases pop_cases hs with rfl | ⟨thread, a, rest, hi, hstage, hqueue, rfl⟩
  · exact h
  refine h.moved rfl rfl rfl rfl h.genuine ?_ (answers_setStage_perm hi _)
    (holds_setStage hi (fun th => h.others) trivial)
  have hbefore := (hands_perm hi).append_left s.queue
  have hafter := (hands_setStage_perm hi (.comparing a)).append_left rest
  refine hafter.trans (List.Perm.trans ?_ hbefore.symm)
  rw [hstage, hqueue]
  exact List.perm_middle

theorem compare (hs : s.compare i = some s') : Inv s' := by
  obtain ⟨thread, a, node, hi, hstage, hnode, hs⟩ := compare_cases hs
  have hbefore := (hands_perm hi).append_left s.queue
  rw [hstage] at hbefore
  rcases hs with ⟨hcount, rfl⟩ | rfl
  · have hmsgid : node.count = thread.obj.msgid := by
      have hmem : thread.obj.msgid ∈ s.answers :=
        List.mem_append_right _ (List.mem_map_of_mem (List.mem_of_getElem? hi))
      have hlt := h.answer_lt hmem
      rw [hcount, toUnsigned, Nat.mod_eq_of_lt (by omega)]
    refine h.moved rfl rfl rfl rfl h.genuine ?_ (answers_setStage_perm hi _)
      (holds_setStage hi (fun th => h.others) ⟨node, hnode, hmsgid⟩)
    exact ((hands_setStage_perm hi (.delivering a)).append_left s.queue).trans hbefore.symm
  · refine h.moved rfl rfl rfl rfl h.genuine ?_ (answers_setStage_perm hi _)
      (holds_setStage hi (fun th => h.others) trivial)
    have hafter := (hands_setStage_perm hi .popping).append_left (s.queue ++ [a])
    refine hafter.trans (List.Perm.trans ?_ hbefore.symm)
    simp [Stage.hand]

/-- The object goes into the node of the call it answers. -/
theorem deliver (hs : s.deliver i = some s') : Inv s' := by
  obtain ⟨thread, a, node, hi, hstage, hnode, rfl⟩ := deliver_cases hs
  have hhand : thread.stage.hand = some a := by rw [hstage]; rfl
  have hholds := h.holds thread (List.mem_of_getElem? hi)
  rw [Holds, hstage] at hholds
  obtain ⟨node', hnode', hmsgid⟩ := hholds
  obtain rfl : node' = node := Option.some.inj (hnode'.symm.trans hnode)
  refine h.moved rfl rfl ?_ ?_ ?_ ?_ (answers_setStage_perm hi _) ?_
  · refine (countOf_setNode a _).trans ?_
    rw [show some node'.count = s.countOf a by simp [countOf, hnode], Function.update_eq_self]
  · refine (futOf_setNode a _).trans ?_
    rw [show some node'.fut = s.futOf a by simp [futOf, hnode], Function.update_eq_self]
  · exact genuine_setNode ⟨fun obj hobj => by rw [← Option.some.inj hobj, hmsgid], by simp⟩
      h.genuine
  · have hafter := (hands_setStage_perm hi (.waking a)).append_left s.queue
    have hbefore := (hands_perm hi).append_left s.queue
    rw [hhand] at hbefore
    exact hafter.trans hbefore.symm
  · exact holds_setStage hi (fun th => h.others_update hi hhand _)
      ⟨_, Function.update_self _ _ _, hmsgid, rfl⟩

/-- Waking the futex in a node ends the wait of the node's caller, and no other. -/
theorem awaits_woken (node : WaitNode ρ) {msgid t' count : Nat}
    (hcountOf : s.countOf a = some msgid) :
    (s.setNode a { node with fut := true }).Awaits t' count ↔
      s.Awaits t' count ∧ count ≠ msgid := by
  obtain ⟨t, ht⟩ := h.caller a msgid hcountOf
  have hwoken : ∀ b, (s.setNode a { node with fut := true }).futOf b = some false ↔
      b ≠ a ∧ s.futOf b = some false := by
    intro b
    rw [futOf_setNode, Function.update_apply]
    split <;> simp_all
  constructor
  · intro hafter
    have hbefore : s.Awaits t' count :=
      hafter.imp_right fun ⟨b, hb, hfut⟩ => ⟨b, hb, ((hwoken b).mp hfut).2⟩
    refine ⟨hbefore, ?_⟩
    intro heq
    subst heq
    -- Only the caller whose node was woken has this count.
    obtain rfl := h.distinct t' t _ hbefore.current (by rw [ht]; rfl)
    rcases hafter with hw | ⟨b, hb, hfut⟩
    · exact absurd (ht.symm.trans hw) (by simp)
    · obtain ⟨-, rfl⟩ := Caller.waiting.inj (ht.symm.trans hb)
      exact ((hwoken a).mp hfut).1 rfl
  · intro hand
    obtain ⟨hbefore, hne⟩ := hand
    refine hbefore.imp_right ?_
    intro hex
    obtain ⟨b, hb, hfut⟩ := hex
    refine ⟨b, hb, (hwoken b).mpr ⟨?_, hfut⟩⟩
    intro heq
    subst heq
    rw [h.node t' count b hb, Option.some.injEq] at hcountOf
    exact hne hcountOf

/-- The call is answered: its node leaves the thread's hands, and the answer is used up. -/
theorem wake (hs : s.wake i = some s') : Inv s' := by
  obtain ⟨thread, a, node, hi, hstage, hnode, rfl⟩ := wake_cases hs
  have hhand : thread.stage.hand = some a := by rw [hstage]; rfl
  have hholds := h.holds thread (List.mem_of_getElem? hi)
  rw [Holds, hstage] at hholds
  obtain ⟨node', hnode', hmsgid, hobj⟩ := hholds
  obtain rfl : node' = node := Option.some.inj (hnode'.symm.trans hnode)
  have hcountOf : s.countOf a = some thread.obj.msgid := by simp [countOf, hnode, hmsgid]
  have hcountOf' : (s.setNode a { node' with fut := true }).countOf = s.countOf := by
    rw [countOf_setNode, hmsgid, ← hcountOf, Function.update_eq_self]
  have hfutOf' : (s.setNode a { node' with fut := true }).futOf
      = Function.update s.futOf a (some true) := futOf_setNode a _
  obtain ⟨hnodup, hnot⟩ := h.not_elsewhere hi hhand
  have hanswers := List.nodup_cons.mp ((answers_perm hi).nodup_iff.mp h.answersNodup)
  exact {
    toNumbered := h.toNumbered
    node := fun t count b hb => hcountOf' ▸ h.node t count b hb
    caller := fun b count hb => h.caller b count (hcountOf' ▸ hb)
    genuine :=
      genuine_setNode ⟨(h.genuine a node' hnode).msgid, fun _ => by simp [hobj]⟩ h.genuine
    placesNodup := hnodup
    places := by
      intro b
      have hbefore := h.places b
      rw [(places_perm hi hhand).mem_iff, List.mem_cons] at hbefore
      refine Iff.trans ?_ (iff_of_eq (congrArg (· = some false) (congrFun hfutOf' b))).symm
      by_cases hba : b = a
      · subst hba
        exact iff_of_false hnot (by simp)
      · rw [Function.update_of_ne hba, ← hbefore]
        exact (or_iff_right hba).symm
    answersNodup := hanswers.2
    answers := by
      intro count
      have hbefore := h.answers count
      rw [(answers_perm hi).mem_iff, List.mem_cons] at hbefore
      refine Iff.trans ?_ (exists_congr fun t' => h.awaits_woken node' hcountOf).symm
      rw [exists_and_right, ← hbefore]
      constructor
      · intro hc
        exact ⟨Or.inr hc, fun heq => hanswers.1 (heq ▸ hc)⟩
      · intro hand
        exact hand.1.resolve_left hand.2
    holds := fun th hth => h.others_update hi hhand _ hth }

end Inv

/-! ### Neovim and the event loop

An answer is taken from the requests that are open and put on the wire, and from the wire it goes
to a new thread.  Both only move an element of the list of answers.
-/

theorem answer_cases {result : ρ} (hs : s.answer i result = some s') :
    ∃ msgid, s.requests[i]? = some msgid ∧
      s' = { s with
              requests := s.requests.eraseIdx i
              responses := s.responses ++ [{ msgid := msgid, result := result }] } := by
  obtain ⟨msgid, hi, hs⟩ := Option.bind_eq_some_iff.mp hs
  exact ⟨msgid, hi, (Option.some.inj hs).symm⟩

theorem receive_cases (hs : s.receive = some s') :
    ∃ obj rest, s.responses = obj :: rest ∧
      s' = { s with
              responses := rest
              threads := s.threads ++
                [{ fd := responseFd stdinFileno, obj := obj, stage := .popping }] } := by
  unfold receive at hs
  cases hresponses : s.responses with
  | nil => simp [hresponses] at hs
  | cons obj rest =>
      rw [hresponses] at hs
      exact ⟨obj, rest, rfl, (Option.some.inj hs).symm⟩

namespace Inv

variable (h : Inv s)
include h

theorem answer {result : ρ} (hs : s.answer i result = some s') : Inv s' := by
  obtain ⟨msgid, hi, rfl⟩ := answer_cases hs
  refine h.moved rfl rfl rfl rfl h.genuine (List.Perm.refl _) ?_ h.holds
  obtain ⟨hlt, rfl⟩ := List.getElem?_eq_some_iff.mp hi
  refine List.Perm.append_right _ ?_
  have hrequests := (List.getElem_cons_eraseIdx_perm hlt).append_right (s.responses.map (·.msgid))
  refine List.Perm.trans ?_ hrequests
  simp only [List.map_append, List.map_cons, List.map_nil, ← List.append_assoc]
  exact List.perm_append_singleton _ _

theorem receive (hs : s.receive = some s') : Inv s' := by
  obtain ⟨obj, rest, hresponses, rfl⟩ := receive_cases hs
  refine h.moved rfl rfl rfl rfl h.genuine ?_ ?_ ?_
  · exact List.Perm.of_eq (by simp [WaitState.places, hands, Stage.hand])
  · simp only [WaitState.answers, hresponses, List.map_append, List.map_cons, List.map_nil,
      List.append_assoc, List.cons_append]
    refine List.Perm.append_left _ ?_
    rw [← List.append_assoc]
    exact List.perm_append_singleton _ _
  · intro th hth
    rcases List.mem_append.mp hth with hth | hth
    · exact h.holds th hth
    · rw [List.mem_singleton.mp hth]
      trivial

end Inv

/-! ### Callers

A caller takes a count that no other has, writes its request, and queues its node.  Here the lists
get an element: the answer it will have when the request is written, and the node when it is
queued.  A count is told from the others as long as the counter has not come round.
-/

@[simp] theorem callers_setCaller_self (caller : Caller ρ) :
    (s.setCaller t caller).callers t = caller := Function.update_self _ _ _

theorem callers_setCaller_of_ne {caller : Caller ρ} {t' : Nat} (hne : t' ≠ t) :
    (s.setCaller t caller).callers t' = s.callers t' := Function.update_of_ne hne _ _

theorem incCount_cases (hs : s.incCount t = some s') :
    (s.callers t).current = none ∧
      s' = { s.setCaller t (.counted s.count) with count := s.count + 1 } := by
  unfold incCount at hs
  cases hcaller : s.callers t <;> simp only [hcaller] at hs
  case idle => exact ⟨rfl, (Option.some.inj hs).symm⟩
  case returned => exact ⟨rfl, (Option.some.inj hs).symm⟩
  all_goals exact absurd hs (by simp)

theorem write_cases (hs : s.write t = some s') :
    ∃ count, s.callers t = .counted count ∧
      s' = { s.setCaller t (.written count) with requests := s.requests ++ [count] } := by
  unfold write at hs
  cases hcaller : s.callers t <;> simp only [hcaller] at hs
  case counted count => exact ⟨count, rfl, (Option.some.inj hs).symm⟩
  all_goals exact absurd hs (by simp)

theorem append_cases (hs : s.append t a = some s') :
    ∃ count, s.callers t = .written count ∧ s.nodes a = none ∧
      s' = { (s.setNode a { fd := 1, count := toUnsigned count, obj := none, fut := false }).setCaller
              t (.waiting count a) with queue := s.queue ++ [a] } := by
  unfold append at hs
  cases hcaller : s.callers t <;> cases hnode : s.nodes a <;> simp only [hcaller, hnode] at hs
  case written.none count => exact ⟨count, rfl, rfl, (Option.some.inj hs).symm⟩
  all_goals exact absurd hs (by simp)

theorem resume_cases (hs : s.resume t = some s') :
    ∃ count a node obj, s.callers t = .waiting count a ∧ s.nodes a = some node ∧
      node.fut = true ∧ node.obj = some obj ∧
      s' = { s.setCaller t (.returned count obj) with
              nodes := Function.update s.nodes a none } := by
  unfold resume at hs
  cases hcaller : s.callers t <;> simp only [hcaller] at hs
  case waiting count a =>
    obtain ⟨node, hnode, hs⟩ := Option.bind_eq_some_iff.mp hs
    cases hfut : node.fut with
    | false => simp [hfut] at hs
    | true =>
        rw [if_pos hfut] at hs
        obtain ⟨obj, hobj, hs⟩ := Option.bind_eq_some_iff.mp hs
        exact ⟨count, a, node, obj, rfl, hnode, hfut, hobj, (Option.some.inj hs).symm⟩
  all_goals exact absurd hs (by simp)

/-- A call that goes on keeps its count, or is over. -/
theorem current_setCaller {caller : Caller ρ}
    (hkeep : ∀ count, caller.current = some count → (s.callers t).current = some count)
    {t' count : Nat} (hc : ((s.setCaller t caller).callers t').current = some count) :
    (s.callers t').current = some count := by
  by_cases hne : t' = t
  · rw [hne, callers_setCaller_self] at hc
    exact hne ▸ hkeep count hc
  · rwa [callers_setCaller_of_ne hne] at hc

theorem Numbered.setCaller {next : Nat} {caller : Caller ρ} (h : Numbered next s.callers)
    (hkeep : ∀ count, caller.current = some count → (s.callers t).current = some count)
    (hreturned : ∀ count obj, caller = .returned count obj → obj.msgid = count) :
    Numbered next (s.setCaller t caller).callers where
  small := h.small
  counted := by
    intro t' count hc
    exact h.counted t' count (current_setCaller hkeep hc)
  distinct := by
    intro t' t'' count hc' hc''
    exact h.distinct t' t'' count (current_setCaller hkeep hc') (current_setCaller hkeep hc'')
  returned := by
    intro t' count obj ht'
    by_cases hne : t' = t
    · rw [hne, callers_setCaller_self] at ht'
      exact hreturned count obj ht'
    · rw [callers_setCaller_of_ne hne] at ht'
      exact h.returned t' count obj ht'

theorem awaits_setCaller_of_ne {caller : Caller ρ} {t' count : Nat} (hne : t' ≠ t) :
    (s.setCaller t caller).Awaits t' count ↔ s.Awaits t' count := by
  simp only [Awaits, callers_setCaller_of_ne hne]
  rfl

/-- Whether a call waits for its node does not change where neither end of the step waits. -/
theorem waiting_setCaller {caller : Caller ρ} {t' count a : Nat}
    (hbefore : s.callers t ≠ .waiting count a) (hafter : caller ≠ .waiting count a) :
    (s.setCaller t caller).callers t' = .waiting count a ↔
      s.callers t' = .waiting count a := by
  by_cases hne : t' = t
  · rw [hne, callers_setCaller_self]
    exact iff_of_false hafter hbefore
  · rw [callers_setCaller_of_ne hne]

/-- A call that starts gets a count that no other call has. -/
theorem Numbered.incCount (h : Numbered s.count s.callers) (hfits : s.count < 2 ^ 31 - 1) :
    Numbered (s.count + 1) (s.setCaller t (.counted s.count)).callers where
  small := by omega
  counted := by
    intro t' count hc
    refine Nat.lt_succ_of_le ?_
    by_cases hne : t' = t
    · simp only [hne, callers_setCaller_self, Caller.current, Option.some.injEq] at hc
      exact Nat.le_of_eq hc.symm
    · rw [callers_setCaller_of_ne hne] at hc
      exact Nat.le_of_lt (h.counted t' count hc)
  distinct := by
    have hbefore : ∀ {t' count : Nat}, (s.callers t').current = some count → count ≠ s.count :=
      fun hc => Nat.ne_of_lt (h.counted _ _ hc)
    intro t' t'' count hc' hc''
    by_cases hne' : t' = t <;> by_cases hne'' : t'' = t
    · rw [hne', hne'']
    · simp only [hne', callers_setCaller_self, Caller.current, Option.some.injEq] at hc'
      rw [callers_setCaller_of_ne hne''] at hc''
      exact absurd hc'.symm (hbefore hc'')
    · simp only [hne'', callers_setCaller_self, Caller.current, Option.some.injEq] at hc''
      rw [callers_setCaller_of_ne hne'] at hc'
      exact absurd hc''.symm (hbefore hc')
    · rw [callers_setCaller_of_ne hne'] at hc'
      rw [callers_setCaller_of_ne hne''] at hc''
      exact h.distinct t' t'' count hc' hc''
  returned := by
    intro t' count obj ht'
    by_cases hne : t' = t
    · simp [hne] at ht'
    · rw [callers_setCaller_of_ne hne] at ht'
      exact h.returned t' count obj ht'

namespace Inv

variable (h : Inv s)
include h

theorem incCount (hfits : s.count < 2 ^ 31 - 1) (hs : s.incCount t = some s') : Inv s' := by
  obtain ⟨hcurrent, rfl⟩ := incCount_cases hs
  have hidle : ∀ count a, s.callers t ≠ .waiting count a := fun count a hw => by
    simp [hw, Caller.current] at hcurrent
  exact {
    toNumbered := h.toNumbered.incCount hfits
    node := fun t' count a ha =>
      h.node t' count a ((waiting_setCaller (hidle count a) (by simp)).mp ha)
    caller := fun a count ha => (h.caller a count ha).imp fun _ =>
      (waiting_setCaller (hidle count a) (by simp)).mpr
    genuine := h.genuine
    placesNodup := h.placesNodup
    places := h.places
    answersNodup := h.answersNodup
    answers := by
      intro count
      refine (h.answers count).trans (exists_congr fun t' => ?_)
      by_cases hne : t' = t
      · subst hne
        refine iff_of_false (fun hw => ?_) (by simp [Awaits])
        simp [hw.current] at hcurrent
      · exact (awaits_setCaller_of_ne hne).symm
    holds := h.holds }

theorem write (hs : s.write t = some s') : Inv s' := by
  obtain ⟨count, hcaller, rfl⟩ := write_cases hs
  have hnot : count ∉ s.answers := by
    intro hmem
    obtain ⟨t', ht'⟩ := (h.answers count).mp hmem
    obtain rfl := h.distinct t' t count ht'.current (by rw [hcaller]; rfl)
    simp [Awaits, hcaller] at ht'
  have hperm : (s.requests ++ [count] ++ s.responses.map (·.msgid)
      ++ s.threads.map (·.obj.msgid)).Perm (count :: s.answers) := by
    simp only [WaitState.answers, List.append_assoc, List.cons_append, List.nil_append]
    exact List.perm_middle
  have hkeep : ∀ c, (Caller.written (ρ := ρ) count).current = some c →
      (s.callers t).current = some c := fun c hc => by rw [hcaller]; exact hc
  exact {
    toNumbered := h.toNumbered.setCaller hkeep (by simp)
    node := fun t' c a ha =>
      h.node t' c a ((waiting_setCaller (by simp [hcaller]) (by simp)).mp ha)
    caller := fun a c ha => (h.caller a c ha).imp fun _ =>
      (waiting_setCaller (by simp [hcaller]) (by simp)).mpr
    genuine := h.genuine
    placesNodup := h.placesNodup
    places := h.places
    answersNodup := hperm.nodup_iff.mpr (List.nodup_cons.mpr ⟨hnot, h.answersNodup⟩)
    answers := by
      intro c
      refine hperm.mem_iff.trans ?_
      rw [List.mem_cons, h.answers]
      constructor
      · intro hor
        rcases hor with rfl | ⟨t', ht'⟩
        · exact ⟨t, Or.inl (callers_setCaller_self _)⟩
        · have hne : t' ≠ t := by
            intro heq
            subst heq
            simp [Awaits, hcaller] at ht'
          exact ⟨t', (awaits_setCaller_of_ne hne).mpr ht'⟩
      · intro hex
        obtain ⟨t', ht'⟩ := hex
        by_cases hne : t' = t
        · subst hne
          refine Or.inl ?_
          simpa [Awaits, eq_comm] using ht'
        · exact Or.inr ⟨t', (awaits_setCaller_of_ne hne).mp ht'⟩
    holds := h.holds }

/-- No thread notices a change to a node that is nowhere. -/
theorem holds_update {node : Option (WaitNode ρ)} (hnot : a ∉ s.places)
    {th : ResponseThread ρ} (hth : th ∈ s.threads) :
    Holds (Function.update s.nodes a node) th := by
  refine (h.holds th hth).update fun hhand => hnot ?_
  exact List.mem_append_right _ (List.mem_filterMap.mpr ⟨th, hth, hhand⟩)

/-- A count is its own `unsigned` while the counter has not overflowed. -/
theorem toUnsigned_current {count : Nat} (hc : (s.callers t).current = some count) :
    toUnsigned count = count := by
  have hlt := Nat.lt_trans (h.counted t count hc) h.small
  rw [toUnsigned, Nat.mod_eq_of_lt (by omega)]

theorem append (hs : s.append t a = some s') : Inv s' := by
  obtain ⟨count, hcaller, hnone, rfl⟩ := append_cases hs
  have hcurrent : (s.callers t).current = some count := by rw [hcaller]; rfl
  have hkeep : ∀ c, (Caller.waiting (ρ := ρ) count a).current = some c →
      (s.callers t).current = some c := fun c hc => by rw [hcaller]; exact hc
  rw [h.toUnsigned_current hcurrent]
  have hcountOf := countOf_setNode (s := s) a { fd := 1, count := count, obj := none, fut := false }
  have hfutOf : ∀ b, (s.setNode a { fd := 1, count := count, obj := none, fut := false }).futOf b
      = some false ↔ b = a ∨ s.futOf b = some false := by
    intro b
    rw [futOf_setNode, Function.update_apply]
    split <;> simp_all
  have hnewCount : s.countOf a = none := by simp [countOf, hnone]
  have hnewFut : s.futOf a = none := by simp [futOf, hnone]
  have hne_of_waiting : ∀ {t' c b}, s.callers t' = .waiting c b → b ≠ a := by
    intro t' c b hb heq
    subst heq
    simp [h.node t' c b hb] at hnewCount
  have hnot : a ∉ s.places := fun ha => by simp [h.places, hnewFut] at ha
  have hperm : (s.queue ++ [a] ++ s.hands).Perm (a :: s.places) := by
    simp only [WaitState.places, List.append_assoc, List.cons_append, List.nil_append]
    exact List.perm_middle
  exact {
    toNumbered := h.toNumbered.setCaller hkeep (by simp)
    node := by
      intro t' c b hb
      refine (congrFun hcountOf b).trans ?_
      by_cases hne : t' = t
      · obtain ⟨rfl, rfl⟩ : count = c ∧ a = b := by simpa [hne] using hb
        exact Function.update_self _ _ _
      · have hb' : s.callers t' = .waiting c b := (callers_setCaller_of_ne hne).symm.trans hb
        rw [Function.update_of_ne (hne_of_waiting hb')]
        exact h.node t' c b hb'
    caller := by
      intro b c hb
      have hb' := (congrFun hcountOf b).symm.trans hb
      by_cases hba : b = a
      · obtain rfl : count = c := by simpa [hba] using hb'
        exact ⟨t, hba ▸ callers_setCaller_self _⟩
      · rw [Function.update_of_ne hba] at hb'
        obtain ⟨t', ht'⟩ := h.caller b c hb'
        have hne : t' ≠ t := by
          intro heq
          subst heq
          simp [hcaller] at ht'
        exact ⟨t', (callers_setCaller_of_ne hne).trans ht'⟩
    genuine := genuine_setNode ⟨by simp, by simp⟩ h.genuine
    placesNodup := hperm.nodup_iff.mpr (List.nodup_cons.mpr ⟨hnot, h.placesNodup⟩)
    places := by
      intro b
      refine hperm.mem_iff.trans (Iff.trans ?_ (hfutOf b).symm)
      rw [List.mem_cons, h.places]
    answersNodup := h.answersNodup
    answers := by
      intro c
      refine (h.answers c).trans (exists_congr fun t' => ?_)
      by_cases hne : t' = t
      · subst hne
        constructor
        · intro hw
          obtain rfl : count = c := by simpa [Awaits, hcaller] using hw
          exact Or.inr ⟨a, callers_setCaller_self _, (hfutOf a).mpr (Or.inl rfl)⟩
        · intro hor
          rcases hor with hw | ⟨b, hb, -⟩
          · simp at hw
          · obtain ⟨rfl, -⟩ : count = c ∧ a = b := by simpa using hb
            exact Or.inl hcaller
      · refine Iff.trans ?_ (awaits_setCaller_of_ne hne).symm
        refine or_congr_right (exists_congr fun b => and_congr_right fun hb => ?_)
        exact ((hfutOf b).trans (or_iff_right (hne_of_waiting hb))).symm
    holds := fun _ => h.holds_update hnot }

theorem resume (hs : s.resume t = some s') : Inv s' := by
  obtain ⟨count, a, node, obj, hcaller, hnode, hfut, hobj, rfl⟩ := resume_cases hs
  have hcountOf : s.countOf a = some count := h.node t count a hcaller
  have hfutOf : s.futOf a = some true := by simp [futOf, hnode, hfut]
  have hnot : a ∉ s.places := fun ha => by simp [h.places, hfutOf] at ha
  have hgone : ∀ b, (Function.update s.nodes a none b).map (·.fut) = some false ↔
      s.futOf b = some false := by
    intro b
    rw [Function.update_apply]
    split
    · simp_all
    · rfl
  -- No other call waits on this node.
  have hne_of_waiting : ∀ {t' c b}, t' ≠ t → s.callers t' = .waiting c b → b ≠ a := by
    intro t' c b hne hb heq
    subst heq
    refine hne (h.distinct t' t count ?_ (by rw [hcaller]; rfl))
    rw [hb, ← hcountOf, h.node t' c b hb]
    rfl
  have hkeep : ∀ c, (Caller.returned count obj).current = some c →
      (s.callers t).current = some c := fun c hc => by simp [Caller.current] at hc
  have hreturned : ∀ c o, Caller.returned count obj = .returned c o → o.msgid = c := by
    intro c o hco
    obtain ⟨rfl, rfl⟩ := Caller.returned.inj hco
    rw [(h.genuine a node hnode).msgid obj hobj]
    simpa [countOf, hnode] using hcountOf
  have hwaiting : ∀ {t' c b},
      (s.setCaller t (.returned count obj)).callers t' = .waiting c b →
      t' ≠ t ∧ s.callers t' = .waiting c b := by
    intro t' c b hb
    have hne : t' ≠ t := by
      intro heq
      subst heq
      simp at hb
    exact ⟨hne, (callers_setCaller_of_ne hne).symm.trans hb⟩
  exact {
    toNumbered := h.toNumbered.setCaller hkeep hreturned
    node := by
      intro t' c b hb
      obtain ⟨hne, hb⟩ := hwaiting hb
      have hrest := h.node t' c b hb
      simpa only [countOf, Function.update_of_ne (hne_of_waiting hne hb)] using hrest
    caller := by
      intro b c hb
      have hba : b ≠ a := by
        intro heq
        subst heq
        simp [countOf] at hb
      simp only [countOf, Function.update_of_ne hba] at hb
      obtain ⟨t', ht'⟩ := h.caller b c hb
      have hne : t' ≠ t := by
        intro heq
        subst heq
        rw [hcaller] at ht'
        exact hba (Caller.waiting.inj ht').2.symm
      exact ⟨t', (callers_setCaller_of_ne hne).trans ht'⟩
    genuine := by
      intro b other hb
      simp only [Function.update_apply] at hb
      split at hb
      · simp at hb
      · exact h.genuine b other hb
    placesNodup := h.placesNodup
    places := fun b => (h.places b).trans (hgone b).symm
    answersNodup := h.answersNodup
    answers := by
      intro c
      refine (h.answers c).trans (exists_congr fun t' => ?_)
      by_cases hne : t' = t
      · subst hne
        refine iff_of_false ?_ (by simp [Awaits])
        intro hor
        rcases hor with hw | ⟨b, hb, hfut'⟩
        · simp [hcaller] at hw
        · obtain ⟨-, rfl⟩ := Caller.waiting.inj (hcaller.symm.trans hb)
          simp [hfutOf] at hfut'
      · let gone : WaitState ρ := { s with nodes := Function.update s.nodes a none }
        refine Iff.trans ?_ (awaits_setCaller_of_ne (s := gone) hne).symm
        exact or_congr_right (exists_congr fun b => and_congr_right fun _ => (hgone b).symm)
    holds := fun _ => h.holds_update hnot }

theorem step {action : WaitAction ρ} (hfits : CountFits s action)
    (hs : s.step action = some s') : Inv s' := by
  cases action with
  | incCount t => exact h.incCount hfits hs
  | write t => exact h.write hs
  | append t a => exact h.append hs
  | resume t => exact h.resume hs
  | answer i result => exact h.answer hs
  | receive => exact h.receive hs
  | pop i => exact h.pop hs
  | compare i => exact h.compare hs
  | deliver i => exact h.deliver hs
  | wake i => exact h.wake hs

end Inv

end WaitState

/-! ### Every reachable state

By induction over the run, and then the invariant is read for what it says of the calls: a call
that has returned has the object that Neovim has sent for its count, and one that has not is still
to be answered.
-/

/-- The responses match the calls. -/
structure Matched {ρ : Type} (s : WaitState ρ) : Prop where
  /-- The node of a call that is not answered is in the queue or in one thread's hands. -/
  conserved : ∀ t count a, s.callers t = .waiting count a →
    ∃ node, s.nodes a = some node ∧ node.count = count ∧
      (node.fut = false → s.queue.count a + s.hands.count a = 1)
  /-- Nothing else is in the queue or in a thread's hands. -/
  nothingElse : ∀ a, a ∈ s.queue ∨ a ∈ s.hands → ∃ t count, s.callers t = .waiting count a
  /-- What is stored in a node is the response to the call the node is for. -/
  genuine : ∀ a node obj, s.nodes a = some node → node.obj = some obj → obj.msgid = node.count
  /-- No caller is woken before its object is there. -/
  stored : ∀ a node, s.nodes a = some node → node.fut = true → node.obj ≠ none
  /-- A call that is not answered has one answer under way. -/
  underWay : ∀ t count, s.Awaits t count → s.answers.count count = 1
  /-- A call returns the response to its own request. -/
  returned : ∀ t count obj, s.callers t = .returned count obj → obj.msgid = count

theorem WaitState.Inv.matched {ρ : Type} {s : WaitState ρ} (h : s.Inv) : Matched s where
  conserved := by
    intro t count a ht
    obtain ⟨node, hnode, hcount⟩ := Option.map_eq_some_iff.mp (h.node t count a ht)
    refine ⟨node, hnode, hcount, fun hfut => ?_⟩
    rw [← List.count_append]
    exact List.count_eq_one_of_mem h.placesNodup
      ((h.places a).mpr (by simp [WaitState.futOf, hnode, hfut]))
  nothingElse := by
    intro a ha
    have hfut := (h.places a).mp (List.mem_append.mpr ha)
    obtain ⟨node, hnode, -⟩ := Option.map_eq_some_iff.mp hfut
    obtain ⟨t, ht⟩ := h.caller a node.count (by simp [WaitState.countOf, hnode])
    exact ⟨t, node.count, ht⟩
  genuine := fun a node obj hnode => (h.genuine a node hnode).msgid obj
  stored := fun a node hnode => (h.genuine a node hnode).stored
  underWay := fun t count ht =>
    List.count_eq_one_of_mem h.answersNodup ((h.answers count).mpr ⟨t, ht⟩)
  returned := h.returned

/--
**Whatever the threads, the order of the answers and the interleaving, no wait node is lost
or duplicated, and every response goes to the call it answers.**
-/
theorem waitSystem_matched {ρ : Type} {s : WaitState ρ}
    (h : (waitSystem ρ).Reached CountFits s) : Matched s :=
  (h.invariant (I := WaitState.Inv) WaitState.inv_init
    fun _ _ _ hinv hfits hs => hinv.step hfits hs).matched

/-- Two calls; the second is answered first, and the thread for the answer finds its node. -/
def crossedCalls : List (WaitAction Unit) :=
  [.incCount 0, .write 0, .append 0 0, .incCount 1, .write 1, .append 1 1,
    .answer 1 (), .receive, .pop 0, .compare 0, .pop 0, .compare 0]

theorem waitSystem_matched_crossed :
    ∃ s, (waitSystem Unit).run (waitSystem Unit).init crossedCalls = some s ∧
      s.queue = [0] ∧ s.hands = [1] ∧ Matched s := by
  have hmeets : (waitSystem Unit).Meets CountFits (waitSystem Unit).init crossedCalls := by decide
  exact ⟨_, rfl, rfl, rfl,
    waitSystem_matched (TransitionSystem.Reached.init.run hmeets rfl)⟩

end TagHighlight
