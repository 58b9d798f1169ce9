/-
Work that is split into parts, and the results put together again.

A list is cut into consecutive parts of one size, the last of which takes what is left over.
The parts together are the list.  What the parts give is sorted, and repeats are dropped by
comparing each element with the last one that was kept.  On a sorted list that leaves every
element once, in strictly increasing order, provided the comparison starts with a value that
is below all of them.
-/
import Mathlib.Data.List.Basic
import Mathlib.Order.Lattice

namespace Collect

variable {α : Type}

/-! ### Consecutive parts -/

/-- The `i`-th of `n` parts. -/
def part (l : List α) (n i : Nat) : List α :=
  (l.drop (i * (l.length / n))).take
    (if i = n - 1 then l.length - (n - 1) * (l.length / n) else l.length / n)

theorem flatMap_take_drop (l : List α) (q k : Nat) :
    ((List.range k).flatMap fun i => (l.drop (i * q)).take q) = l.take (k * q) := by
  induction k with
  | zero => simp
  | succ k ih =>
      rw [List.range_succ, List.flatMap_append, ih, List.flatMap_singleton, Nat.succ_mul,
        List.take_add]

/-- **The parts together are the list.** -/
theorem flatMap_part (l : List α) {n : Nat} (hn : 0 < n) :
    (List.range n).flatMap (part l n) = l := by
  obtain ⟨k, rfl⟩ : ∃ k, n = k + 1 := ⟨n - 1, by omega⟩
  have hinner : ∀ i ∈ List.range k, part l (k + 1) i =
      (l.drop (i * (l.length / (k + 1)))).take (l.length / (k + 1)) := by
    intro i hi
    have hlt := List.mem_range.mp hi
    unfold part
    rw [if_neg (by omega)]
  have hlast : part l (k + 1) k = l.drop (k * (l.length / (k + 1))) := by
    unfold part
    rw [Nat.add_sub_cancel, if_pos rfl]
    exact List.take_of_length_le (Nat.le_of_eq List.length_drop)
  rw [List.range_succ, List.flatMap_append, List.flatMap_singleton, hlast,
    List.flatMap_congr hinner, flatMap_take_drop, List.take_append_drop]

/-! ### Repeats -/

/-- Keeps the elements that differ from the last one kept. -/
def dropRepeats [DecidableEq α] (last : α) : List α → List α
  | [] => []
  | a :: as => if a = last then dropRepeats last as else a :: dropRepeats a as

section Repeats

variable [DecidableEq α] {last a : α} {l : List α}

theorem mem_of_mem_dropRepeats (h : a ∈ dropRepeats last l) : a ∈ l := by
  induction l generalizing last with
  | nil => exact h
  | cons b bs ih =>
      unfold dropRepeats at h
      split at h
      · exact List.mem_cons_of_mem _ (ih h)
      · rcases List.mem_cons.mp h with rfl | h
        · exact List.mem_cons_self
        · exact List.mem_cons_of_mem _ (ih h)

/-- Nothing is lost but repeats of the value the comparison started with. -/
theorem mem_dropRepeats (h : a ∈ l) : a = last ∨ a ∈ dropRepeats last l := by
  induction l generalizing last with
  | nil => exact absurd h List.not_mem_nil
  | cons b bs ih =>
      unfold dropRepeats
      split
      · rename_i hb
        rcases List.mem_cons.mp h with rfl | h
        · exact Or.inl hb
        · exact ih h
      · right
        rcases List.mem_cons.mp h with rfl | h
        · exact List.mem_cons_self
        · exact List.mem_cons.mpr (ih h)

/-- Sorted values come out in strictly increasing order, all above the first comparison. -/
theorem dropRepeats_sorted {β : Type} [LinearOrder β] {key : α → β} (hkey : Function.Injective key)
    (hsorted : l.Pairwise fun a b => key a ≤ key b) (hlast : ∀ b ∈ l, key last ≤ key b) :
    (last :: dropRepeats last l).Pairwise fun a b => key a < key b := by
  induction l generalizing last with
  | nil => exact List.pairwise_singleton _ _
  | cons b bs ih =>
      obtain ⟨hb, hbs⟩ := List.pairwise_cons.mp hsorted
      have hle := hlast b List.mem_cons_self
      unfold dropRepeats
      split
      · exact ih hbs fun c hc => hlast c (List.mem_cons_of_mem _ hc)
      · rename_i hne
        have hlt : key last < key b := lt_of_le_of_ne hle fun h => hne (hkey h).symm
        have hrest := ih hbs hb
        refine List.pairwise_cons.mpr ⟨fun c hc => ?_, hrest⟩
        rcases List.mem_cons.mp hc with rfl | hc
        · exact hlt
        · exact lt_trans hlt ((List.pairwise_cons.mp hrest).1 c hc)

end Repeats

end Collect
