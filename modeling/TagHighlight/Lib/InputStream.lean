/-
A descriptor that is read from, piece by piece.

How a stream of bytes is split up is not for the reader to say.  A call of `read` fails, or it
takes what has arrived, which is one byte at least, but no more than was asked for.  At the end
of the stream it takes nothing.
-/
import Mathlib.Data.List.Basic

/-- What has not been read yet, and what happens in each call. -/
structure InputStream where
  rest : List UInt8
  /-- The call fails, or one byte more than this has arrived. -/
  chunk : Nat → Option Nat
  /-- The calls so far. -/
  calls : Nat

namespace InputStream

/-- The stream after a call that has taken `k` bytes. -/
def after (s : InputStream) (k : Nat) : InputStream :=
  { s with rest := s.rest.drop k, calls := s.calls + 1 }

/-- `read (fd, dest, count)`: the bytes it has taken; nothing for -1. -/
def read (s : InputStream) (count : Nat) : Option (List UInt8) × InputStream :=
  match s.chunk s.calls with
  | none => (none, s.after 0)
  | some k => (some (s.rest.take (min count (k + 1))), s.after (min count (k + 1)))

@[simp] theorem after_rest (s : InputStream) (k : Nat) : (s.after k).rest = s.rest.drop k := rfl

@[simp] theorem after_chunk (s : InputStream) (k : Nat) : (s.after k).chunk = s.chunk := rfl

@[simp] theorem after_calls (s : InputStream) (k : Nat) : (s.after k).calls = s.calls + 1 := rfl

/-- A call takes from the stream what it delivers. -/
theorem length_after (s : InputStream) (k : Nat) :
    (s.after k).rest.length = s.rest.length - (s.rest.take k).length := by
  rw [after_rest, List.length_drop, List.length_take]
  omega

theorem read_none {s : InputStream} (h : s.chunk s.calls = none) (count : Nat) :
    s.read count = (none, s.after 0) := by
  rw [read, h]

theorem read_some {s : InputStream} {k : Nat} (h : s.chunk s.calls = some k) (count : Nat) :
    s.read count =
      (some (s.rest.take (min count (k + 1))), s.after (min count (k + 1))) := by
  rw [read, h]

/-! ### What has arrived -/

/-- The bytes that can arrive in `m` calls from call `c` on. -/
def arrivedFrom (chunk : Nat → Option Nat) : (c m : Nat) → Nat
  | _, 0 => 0
  | c, m + 1 => (chunk c).getD 0 + 1 + arrivedFrom chunk (c + 1) m

/-- The bytes that can arrive in the next `m` calls. -/
def arrived (s : InputStream) (m : Nat) : Nat := arrivedFrom s.chunk s.calls m

@[simp] theorem arrived_zero (s : InputStream) : s.arrived 0 = 0 := rfl

theorem arrived_succ {s : InputStream} {k : Nat} (h : s.chunk s.calls = some k) (j m : Nat) :
    s.arrived (m + 1) = k + 1 + (s.after j).arrived m := by
  unfold arrived
  rw [arrivedFrom, h]
  rfl

/-- Some call from now on fails. -/
def Fails (s : InputStream) : Prop := ∃ i, s.calls ≤ i ∧ s.chunk i = none

theorem Fails.after {s : InputStream} (h : s.Fails) {k : Nat} (hk : s.chunk s.calls = some k)
    (j : Nat) : (s.after j).Fails := by
  obtain ⟨i, hle, hnone⟩ := h
  refine ⟨i, ?_, hnone⟩
  rcases Nat.eq_or_lt_of_le hle with heq | hlt
  · rw [heq, hnone] at hk
    cases hk
  · exact hlt

theorem Fails.of_after {s : InputStream} {j : Nat} (h : (s.after j).Fails) : s.Fails := by
  obtain ⟨i, hle, hnone⟩ := h
  exact ⟨i, Nat.le_of_succ_le hle, hnone⟩

end InputStream
