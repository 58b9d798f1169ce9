/-
The lines of a text, as a table of the offsets where they begin.

A line begins at offset zero and after every newline, unless the text ends there.  The table is
all that is kept of the text: the line of an offset is the last one that begins at or before it.
For an offset inside of a text, `reached_table` says which entries these are by cutting the
text there: they come from the newlines before the cut, and the last of them is as far back as
the column of the cut.
-/
import Mathlib.Data.List.Induction

namespace LineTable

variable {α : Type} (isNewline : α → Bool)

/-- The offsets behind the newlines of a text that begins at `offset`. -/
def starts : (offset : Nat) → List α → List Nat
  | _, [] => []
  | offset, c :: s =>
      if isNewline c then (offset + 1) :: starts (offset + 1) s else starts (offset + 1) s

/-- Where the lines of a text begin. -/
def table (text : List α) : List Nat := 0 :: (starts isNewline 0 text).filter (· < text.length)

/-- The lines that begin at or before an offset. -/
def reached (table : List Nat) (offset : Nat) : List Nat := table.filter (· ≤ offset)

/-- The line on which a text ends, counted from zero. -/
def row (text : List α) : Nat := text.countP isNewline

/-- How far from the beginning of its last line a text ends. -/
def col (text : List α) : Nat := (text.reverse.takeWhile fun c => !isNewline c).length

variable {isNewline}

/-! ### Rows and columns -/

theorem col_newline (text : List α) {c : α} (hc : isNewline c = true) :
    col isNewline (text ++ [c]) = 0 := by
  simp [col, hc]

theorem col_other (text : List α) {c : α} (hc : isNewline c = false) :
    col isNewline (text ++ [c]) = col isNewline text + 1 := by
  simp [col, hc]

theorem col_le (text : List α) : col isNewline text ≤ text.length := by
  calc col isNewline text ≤ text.reverse.length := (List.takeWhile_sublist _).length_le
    _ = text.length := List.length_reverse

/-- A text that does not end at the beginning of a line has a byte before its end on it. -/
theorem exists_of_col_pos {text : List α} (h : 0 < col isNewline text) :
    ∃ s c, text = s ++ [c] ∧ isNewline c = false := by
  induction text using List.reverseRecOn with
  | nil => exact absurd h (Nat.lt_irrefl 0)
  | append_singleton s c =>
      by_cases hc : isNewline c = true
      · rw [col_newline s hc] at h
        exact absurd h (Nat.lt_irrefl 0)
      · exact ⟨s, c, rfl, by simpa using hc⟩

/-- Going on along a line. -/
theorem col_append (text : List α) {w : List α} (hw : ∀ c ∈ w, isNewline c = false) :
    col isNewline (text ++ w) = col isNewline text + w.length := by
  induction w using List.reverseRecOn with
  | nil => simp
  | append_singleton w c ih =>
      have hc : isNewline c = false := hw c (by simp)
      have hrest := ih fun d hd => hw d (by simp [hd])
      rw [← List.append_assoc, col_other _ hc, hrest, List.length_append]
      rfl

theorem row_append (text : List α) {w : List α} (hw : ∀ c ∈ w, isNewline c = false) :
    row isNewline (text ++ w) = row isNewline text := by
  have hnone : w.countP isNewline = 0 := by
    rw [List.countP_eq_zero]
    intro c hc
    simp [hw c hc]
  rw [row, List.countP_append, hnone]
  rfl

/-! ### The table -/

theorem starts_append (offset : Nat) (s t : List α) :
    starts isNewline offset (s ++ t) =
      starts isNewline offset s ++ starts isNewline (offset + s.length) t := by
  induction s generalizing offset with
  | nil => rfl
  | cons c s ih =>
      rw [List.cons_append, starts, starts, ih, List.length_cons,
        show offset + 1 + s.length = offset + (s.length + 1) by omega]
      by_cases hc : isNewline c = true
      · rw [if_pos hc, if_pos hc, List.cons_append]
      · rw [if_neg hc, if_neg hc]

theorem starts_bounds {offset : Nat} {s : List α} {n : Nat}
    (h : n ∈ starts isNewline offset s) : offset < n ∧ n ≤ offset + s.length := by
  induction s generalizing offset with
  | nil => cases h
  | cons c s ih =>
      rw [List.length_cons]
      by_cases hc : isNewline c = true
      · rw [starts, if_pos hc] at h
        rcases List.mem_cons.mp h with rfl | hmem
        · omega
        · have := ih hmem
          omega
      · rw [starts, if_neg hc] at h
        have := ih h
        omega

theorem length_starts (offset : Nat) (s : List α) :
    (starts isNewline offset s).length = row isNewline s := by
  induction s generalizing offset with
  | nil => rfl
  | cons c s ih =>
      unfold row at ih ⊢
      by_cases hc : isNewline c = true
      · rw [starts, if_pos hc, List.length_cons, ih, List.countP_cons_of_pos hc]
      · rw [starts, if_neg hc, ih, List.countP_cons_of_neg hc]

/-- The last line begins as far back as the column says. -/
theorem getLast?_starts (s : List α) :
    (0 :: starts isNewline 0 s).getLast? = some (s.length - col isNewline s) := by
  induction s using List.reverseRecOn with
  | nil => rfl
  | append_singleton s c ih =>
      rw [starts_append, Nat.zero_add, List.length_append, List.length_singleton]
      by_cases hc : isNewline c = true
      · rw [starts, if_pos hc, starts, col_newline s hc, ← List.cons_append,
          List.getLast?_concat, Nat.sub_zero]
      · have hle : col isNewline s ≤ s.length := col_le s
        rw [starts, if_neg hc, starts, List.append_nil, ih, col_other s (by simpa using hc)]
        congr 1
        omega

/-- The lines that begin at or before an offset inside of a text. -/
theorem reached_table (before : List α) {after : List α} (h : after ≠ []) :
    reached (table isNewline (before ++ after)) before.length = 0 :: starts isNewline 0 before := by
  have hpos : 0 < after.length := List.length_pos_iff.mpr h
  have hbefore : ∀ n ∈ starts isNewline 0 before,
      (decide (n ≤ before.length) && decide (n < (before ++ after).length)) = true := by
    intro n hn
    have := starts_bounds hn
    rw [List.length_append]
    simp
    omega
  have hafter : ∀ n ∈ starts isNewline (0 + before.length) after,
      ¬(decide (n ≤ before.length) && decide (n < (before ++ after).length)) = true := by
    intro n hn
    have := starts_bounds hn
    simp
    omega
  rw [reached, table, List.filter_cons_of_pos (by simp), List.filter_filter, starts_append,
    List.filter_append, List.filter_eq_self.mpr hbefore, List.filter_eq_nil_iff.mpr hafter,
    List.append_nil]

end LineTable
