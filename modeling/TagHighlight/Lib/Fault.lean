/-
How a C function can fail to return.

Every fallible function of the model returns `Except Fault`.  A fault is never
handled: once one is raised the process is gone, or its behaviour is undefined and
nothing more is said about it.  `Fault` keeps the cases apart because theorems about
the program do: stopping with a reported error is one thing, touching freed memory
is another.
-/
import Mathlib.Data.List.Basic

/-- The ways a run of a C program can stop short. -/
inductive Fault where
  /-- `errx (code, msg)`: the message is printed and the process exits. -/
  | errx (code : Nat) (msg : String)
  /-- A failed `assert`, with the text of its condition. -/
  | assertion (cond : String)
  /-- A call of `abort`. -/
  | abort
  /-- NULL or freed memory is touched, or an index is outside its array. -/
  | undefined
  deriving DecidableEq, Repr

namespace Fault

variable {α β : Type}

@[simp] theorem ok_bind (a : α) (f : α → Except Fault β) : (Except.ok a >>= f) = f a := rfl

@[simp] theorem error_bind (e : Fault) (f : α → Except Fault β) :
    (Except.error e >>= f) = Except.error e := rfl

@[simp] theorem pure_ok (a : α) : (pure a : Except Fault α) = Except.ok a := rfl

/-- A sequence that succeeds splits into its two successful halves. -/
theorem bind_eq_ok {x : Except Fault α} {f : α → Except Fault β} {b : β} :
    (x >>= f) = Except.ok b ↔ ∃ a, x = Except.ok a ∧ f a = Except.ok b := by
  cases x with
  | error e => simp
  | ok a => simp

theorem map_eq_ok {x : Except Fault α} {f : α → β} {b : β} :
    x.map f = Except.ok b ↔ ∃ a, x = Except.ok a ∧ f a = b := by
  cases x with
  | error e => simp [Except.map]
  | ok a => simp [Except.map]

theorem toOption_eq_some {x : Except Fault α} {a : α} : x.toOption = some a ↔ x = Except.ok a := by
  cases x with
  | error e => simp [Except.toOption]
  | ok b => simp [Except.toOption]

/-! ### What holds if a computation returns -/

/-- If the computation returns, then what it returns has the property. -/
def Yields (x : Except Fault α) (P : α → Prop) : Prop := ∀ a, x = .ok a → P a

variable {x : Except Fault α} {P Q : α → Prop} {f : α → Except Fault β} {R : β → Prop}

theorem yields_ok {a : α} (h : P a) : Yields (.ok a) P := by
  intro a' heq
  rwa [← Except.ok.inj heq]

theorem yields_error (e : Fault) : Yields (.error e) P := by
  intro a heq
  cases heq

theorem Yields.bind (h : Yields x P) (hf : ∀ a, P a → Yields (f a) R) : Yields (x >>= f) R := by
  intro b hb
  obtain ⟨a, hx, hfa⟩ := bind_eq_ok.mp hb
  exact hf a (h a hx) b hfa

/-- A step about whose result nothing needs to be known. -/
theorem yields_bind (hf : ∀ a, Yields (f a) R) : Yields (x >>= f) R := by
  intro b hb
  obtain ⟨a, -, hfa⟩ := bind_eq_ok.mp hb
  exact hf a b hfa

theorem yields_ite {c : Prop} [Decidable c] {y : Except Fault α} (hx : c → Yields x P)
    (hy : ¬c → Yields y P) : Yields (if c then x else y) P := by
  by_cases hc : c
  · rw [if_pos hc]
    exact hx hc
  · rw [if_neg hc]
    exact hy hc

end Fault
