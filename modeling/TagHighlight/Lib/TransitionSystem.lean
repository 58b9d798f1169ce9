/-
Systems that change state by labelled steps.

The label of a step carries whatever was not determined: which thread ran, which answer
came back.  So a step is a function, and `none` where the label does not apply.

Two questions are asked of a system.  What holds in every state it can get into, where
every step on the way met some condition: that is `Reached` and its invariant rule.  And
along one given run, whether a condition on the steps is exactly what keeps a property
alive: that is `Throughout`, `Meets` and the rule that relates them.
-/
import Mathlib.Data.Option.Basic

/-- A system with a first state and labelled steps. -/
structure TransitionSystem (σ α : Type) where
  init : σ
  step : σ → α → Option σ

namespace TransitionSystem

variable {σ α : Type} (S : TransitionSystem σ α)

/-- The state at the end of a run. -/
def run : σ → List α → Option σ
  | s, [] => some s
  | s, a :: as => do run (← S.step s a) as

@[simp] theorem run_nil (s : σ) : S.run s [] = some s := rfl

@[simp] theorem run_cons (s : σ) (a : α) (as : List α) :
    S.run s (a :: as) = (S.step s a).bind fun s' => S.run s' as := rfl

/-! ### What holds in every state -/

/-- The states a run gets to whose steps all meet `ok`. -/
inductive Reached (ok : σ → α → Prop) : σ → Prop where
  | init : Reached ok S.init
  | step {s s' : σ} {a : α} (before : Reached ok s) (meets : ok s a)
      (taken : S.step s a = some s') : Reached ok s'

variable {S} {ok : σ → α → Prop}

/-- What the first state has, and the steps keep, every state reached has. -/
theorem Reached.invariant {I : σ → Prop} (hinit : I S.init)
    (hstep : ∀ s a s', I s → ok s a → S.step s a = some s' → I s') {s : σ}
    (h : S.Reached ok s) : I s := by
  induction h with
  | init => exact hinit
  | step _ meets taken ih => exact hstep _ _ _ ih meets taken

/-! ### What holds along one run -/

variable (S)

/-- Every state of the run has the property. -/
def Throughout (P : σ → Prop) : σ → List α → Prop
  | s, [] => P s
  | s, a :: as => P s ∧ ∀ s', S.step s a = some s' → Throughout P s' as

/-- Every step of the run meets the condition. -/
def Meets (ok : σ → α → Prop) : σ → List α → Prop
  | _, [] => True
  | s, a :: as => ∀ s', S.step s a = some s' → ok s a ∧ Meets ok s' as

variable {S}

theorem meets_cons {s s' : σ} {a : α} {as : List α} (hstep : S.step s a = some s') :
    S.Meets ok s (a :: as) ↔ ok s a ∧ S.Meets ok s' as := by
  simp [Meets, hstep]

instance Meets.decidable [∀ s a, Decidable (ok s a)] :
    (s : σ) → (as : List α) → Decidable (S.Meets ok s as)
  | _, [] => isTrue trivial
  | s, a :: as =>
      match hstep : S.step s a with
      | none => isTrue fun s' h => by simp [hstep] at h
      | some s' =>
          have := Meets.decidable s' as
          decidable_of_iff _ (meets_cons hstep).symm

/-- A run of steps that meet the condition in any state. -/
theorem meets_of_forall {as : List α} (h : ∀ a ∈ as, ∀ s, ok s a) (s : σ) : S.Meets ok s as := by
  induction as generalizing s with
  | nil => trivial
  | cons a as ih =>
      intro s' _
      exact ⟨h a List.mem_cons_self s, ih (fun a' ha' => h a' (List.mem_cons_of_mem _ ha')) s'⟩

/-- A run whose steps meet the condition stays among the states reached. -/
theorem Reached.run {s s' : σ} {as : List α} (h : S.Reached ok s) (hmeets : S.Meets ok s as)
    (hrun : S.run s as = some s') : S.Reached ok s' := by
  induction as generalizing s with
  | nil => exact Option.some.inj hrun ▸ h
  | cons a as ih =>
      obtain ⟨t, ht, hrest⟩ := Option.bind_eq_some_iff.mp hrun
      obtain ⟨hok, hmeets⟩ := (meets_cons ht).mp hmeets
      exact ih (h.step hok ht) hmeets hrest

theorem Throughout.start {P : σ → Prop} {s : σ} {as : List α} (h : S.Throughout P s as) : P s := by
  cases as with
  | nil => exact h
  | cons a as => exact h.1

theorem Throughout.last {P : σ → Prop} {s s' : σ} {as : List α} (h : S.Throughout P s as)
    (hrun : S.run s as = some s') : P s' := by
  induction as generalizing s with
  | nil => exact Option.some.inj hrun ▸ h
  | cons a as ih =>
      obtain ⟨t, ht, hrest⟩ := Option.bind_eq_some_iff.mp hrun
      exact ih (h.2 t ht) hrest

/-- What is never regained once it is lost held all along if it holds at the end. -/
theorem throughout_of_last {P : σ → Prop} (hback : ∀ s a s', S.step s a = some s' → P s' → P s)
    {s s' : σ} {as : List α} (hrun : S.run s as = some s') (h : P s') : S.Throughout P s as := by
  induction as generalizing s with
  | nil => exact Option.some.inj hrun ▸ h
  | cons a as ih =>
      obtain ⟨t, ht, hrest⟩ := Option.bind_eq_some_iff.mp hrun
      have hall := ih hrest
      refine ⟨hback s a t ht hall.start, fun t' ht' => ?_⟩
      obtain rfl : t = t' := Option.some.inj (ht.symm.trans ht')
      exact hall

/-- Where steps that meet the condition keep what implies the property, it lasts. -/
theorem throughout_of_meets {I P : σ → Prop} (hP : ∀ s, I s → P s)
    (hkeep : ∀ s a s', I s → ok s a → S.step s a = some s' → I s') {s : σ} (hs : I s)
    {as : List α} (hmeets : S.Meets ok s as) : S.Throughout P s as := by
  induction as generalizing s with
  | nil => exact hP s hs
  | cons a as ih =>
      refine ⟨hP s hs, fun s' hstep => ?_⟩
      obtain ⟨hok, hrest⟩ := hmeets s' hstep
      exact ih (hkeep s a s' hs hok hstep) hrest

/--
**A property lasts exactly as long as the steps meet the condition**, where they keep the
invariant that implies it and the first one that does not spoils it.
-/
theorem throughout_iff_meets {I P : σ → Prop} (hP : ∀ s, I s → P s)
    (hkeep : ∀ s a s', I s → ok s a → S.step s a = some s' → I s')
    (hspoil : ∀ s a s', I s → ¬ ok s a → S.step s a = some s' → ¬ P s') {s : σ} (hs : I s)
    (as : List α) : S.Throughout P s as ↔ S.Meets ok s as := by
  refine ⟨fun hex => ?_, throughout_of_meets hP hkeep hs⟩
  induction as generalizing s with
  | nil => trivial
  | cons a as ih =>
      intro s' hstep
      obtain ⟨_, hall⟩ := hex
      have hok : ok s a := by
        by_contra hno
        exact hspoil s a s' hs hno hstep (hall s' hstep).start
      exact ⟨hok, ih (hkeep s a s' hs hok hstep) (hall s' hstep)⟩

end TransitionSystem
