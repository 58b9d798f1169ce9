/-
A system close to the code, and one that says what it is for.

The first has more steps: what is one step of the second may take several, and some only move
about what the second does not see.  So a step of the first is a run of the second, which may
be empty.  What holds in every state of the second then holds of the first, seen through the
relation between them.
-/
import TagHighlight.Lib.TransitionSystem

namespace TransitionSystem

variable {σ α τ β : Type} {C : TransitionSystem σ α} {A : TransitionSystem τ β}
  {okC : σ → α → Prop} {okA : τ → β → Prop} {R : σ → τ → Prop}

/-- From this state, some steps that meet the condition lead to one with the property. -/
def Leads (A : TransitionSystem τ β) (okA : τ → β → Prop) (t : τ) (P : τ → Prop) : Prop :=
  ∃ bs t', A.Meets okA t bs ∧ A.run t bs = some t' ∧ P t'

/-- No step at all. -/
theorem Leads.stay {P : τ → Prop} {t : τ} (h : P t) : Leads A okA t P := ⟨[], t, trivial, rfl, h⟩

/-- One step. -/
theorem Leads.one {P : τ → Prop} {t t' : τ} {b : β} (hok : okA t b) (hstep : A.step t b = some t')
    (h : P t') : Leads A okA t P := by
  refine ⟨[b], t', (meets_cons hstep).mpr ⟨hok, trivial⟩, ?_, h⟩
  rw [run_cons, hstep]
  rfl

/-- Every step of `C` is a run of `A`, between states that are related. -/
structure Simulation (C : TransitionSystem σ α) (A : TransitionSystem τ β)
    (okC : σ → α → Prop) (okA : τ → β → Prop) (R : σ → τ → Prop) : Prop where
  init : R C.init A.init
  step : ∀ s a s' t, A.Reached okA t → R s t → okC s a → C.step s a = some s' →
    Leads A okA t (R s')

/-- Every state reached is related to one that the other system reaches. -/
theorem Simulation.reached (h : Simulation C A okC okA R) {s : σ} (hs : C.Reached okC s) :
    ∃ t, A.Reached okA t ∧ R s t := by
  refine hs.invariant (I := fun s => ∃ t, A.Reached okA t ∧ R s t) ⟨A.init, .init, h.init⟩ ?_
  intro s a s' hbefore hok hstep
  obtain ⟨t, ht, hrel⟩ := hbefore
  obtain ⟨bs, t', hmeets, hrun, hrel'⟩ := h.step s a s' t ht hrel hok hstep
  exact ⟨t', ht.run hmeets hrun, hrel'⟩

end TransitionSystem
