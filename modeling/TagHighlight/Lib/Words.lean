/-
Text that is cut into commands, and commands that are cut into words.

Words stand between blanks.  A bar ends a command where a word could begin; whether it also
does inside of a word is a parameter.  Words that hold no blank and no such bar can be put
together with blanks between them, and are found again.  Whatever the text is, the words that
are found in its commands are of this kind.
-/
import Mathlib.Data.List.Basic

namespace Words

variable {α : Type} (isBlank isBar : α → Bool)

/-- The words of a command. -/
def words (s : List α) : List (List α) := (s.splitOnP isBlank).filter fun w => !w.isEmpty

/-- The commands of a text; `start` says that a word could begin here. -/
def commands (inWord : Bool) : (start : Bool) → List α → List (List α)
  | _, [] => [[]]
  | start, c :: s =>
      if isBar c && (start || inWord) then [] :: commands inWord true s
      else (commands inWord (isBlank c) s).modifyHead (c :: ·)

/-- Nothing in the word ends it, or the command. -/
structure IsWord (inWord : Bool) (w : List α) : Prop where
  ne_nil : w ≠ []
  noBlank : ∀ c ∈ w, isBlank c = false
  noBar : ∀ c ∈ if inWord then w else w.take 1, isBar c = false

/-- Words with a blank after each. -/
def spaced (blank : α) (ws : List (List α)) : List α := ws.flatMap fun w => w ++ [blank]

variable {isBlank isBar} {inWord : Bool}

/-! ### Words that are put together -/

theorem words_blank {c : α} (hc : isBlank c = true) (s : List α) :
    words isBlank (c :: s) = words isBlank s := by
  simp [words, List.splitOnP_cons_eq_if_modifyHead, hc]

theorem words_word {w : List α} (hw : IsWord isBlank isBar inWord w) {c : α}
    (hc : isBlank c = true) (s : List α) :
    words isBlank (w ++ c :: s) = w :: words isBlank s := by
  unfold words
  rw [List.splitOnP_append_cons_of_forall_mem hw.noBlank c hc]
  simp [hw.ne_nil]

theorem words_last {w : List α} (hw : IsWord isBlank isBar inWord w) :
    words isBlank w = [w] := by
  unfold words
  rw [List.splitOnP_eq_singleton hw.noBlank]
  simp [hw.ne_nil]

theorem words_spaced {blank : α} (hblank : isBlank blank = true) {ws : List (List α)}
    (hws : ∀ w ∈ ws, IsWord isBlank isBar inWord w) (s : List α) :
    words isBlank (spaced blank ws ++ s) = ws ++ words isBlank s := by
  induction ws with
  | nil => rfl
  | cons w ws ih =>
      have hw := hws w List.mem_cons_self
      have hrest := ih fun v hv => hws v (List.mem_cons_of_mem _ hv)
      rw [show spaced blank (w :: ws) ++ s = w ++ blank :: (spaced blank ws ++ s) by
        simp [spaced], words_word hw hblank, hrest, List.cons_append]

theorem commands_bar {c : α} (hc : isBar c = true) (s : List α) :
    commands isBlank isBar inWord true (c :: s) =
      [] :: commands isBlank isBar inWord true s := by
  rw [commands, hc]
  rfl

theorem commands_blank {c : α} (hblank : isBlank c = true) (hbar : isBar c = false)
    (start : Bool) (s : List α) :
    commands isBlank isBar inWord start (c :: s) =
      (commands isBlank isBar inWord true s).modifyHead (c :: ·) := by
  rw [commands, hbar, hblank]
  rfl

theorem modifyHead_nil_append (l : List (List α)) : l.modifyHead ([] ++ ·) = l := by
  cases l <;> rfl

/-- The letters of a word after its first. -/
theorem commands_letters {w : List α} (hblank : ∀ c ∈ w, isBlank c = false)
    (hbar : inWord = true → ∀ c ∈ w, isBar c = false) (s : List α) :
    commands isBlank isBar inWord false (w ++ s) =
      (commands isBlank isBar inWord false s).modifyHead (w ++ ·) := by
  induction w with
  | nil => rw [modifyHead_nil_append, List.nil_append]
  | cons c w ih =>
      have hrest := ih (fun d hd => hblank d (List.mem_cons_of_mem _ hd))
        fun hin d hd => hbar hin d (List.mem_cons_of_mem _ hd)
      have hc : (isBar c && (false || inWord)) = false := by
        cases inWord with
        | false => simp
        | true => simp [hbar rfl c List.mem_cons_self]
      rw [List.cons_append, commands, hc, hblank c List.mem_cons_self, hrest]
      cases commands isBlank isBar inWord false s <;> rfl

theorem commands_word {w : List α} (hw : IsWord isBlank isBar inWord w) (s : List α) :
    commands isBlank isBar inWord true (w ++ s) =
      (commands isBlank isBar inWord false s).modifyHead (w ++ ·) := by
  cases w with
  | nil => exact absurd rfl hw.ne_nil
  | cons c w =>
      have hbar := hw.noBar
      have hc : isBar c = false := by
        cases inWord with
        | false => exact hbar c (by simp)
        | true => exact hbar c (by simp)
      have hletters : inWord = true → ∀ d ∈ w, isBar d = false := by
        intro hin d hd
        rw [if_pos hin] at hbar
        exact hbar d (List.mem_cons_of_mem _ hd)
      have hrest := commands_letters (fun d hd => hw.noBlank d (List.mem_cons_of_mem _ hd))
        hletters s
      rw [List.cons_append, commands, hc, hw.noBlank c List.mem_cons_self]
      simp only [Bool.false_and, Bool.false_eq_true, if_false, hrest]
      cases commands isBlank isBar inWord false s <;> rfl

theorem commands_spaced {blank : α} (hblank : isBlank blank = true) (hbar : isBar blank = false)
    {ws : List (List α)} (hws : ∀ w ∈ ws, IsWord isBlank isBar inWord w) (s : List α) :
    commands isBlank isBar inWord true (spaced blank ws ++ s) =
      (commands isBlank isBar inWord true s).modifyHead (spaced blank ws ++ ·) := by
  induction ws with
  | nil => rw [show spaced blank [] = [] from rfl, modifyHead_nil_append, List.nil_append]
  | cons w ws ih =>
      have hw := hws w List.mem_cons_self
      have hrest := ih fun v hv => hws v (List.mem_cons_of_mem _ hv)
      rw [show spaced blank (w :: ws) ++ s = w ++ blank :: (spaced blank ws ++ s) by
        simp [spaced], commands_word hw, commands_blank hblank hbar, hrest]
      cases commands isBlank isBar inWord true s <;> simp [spaced]

/-! ### Words that are found -/

/-- No bar stands where it would end the command. -/
def barFree (isBlank isBar : α → Bool) (inWord : Bool) : (start : Bool) → List α → Prop
  | _, [] => True
  | start, c :: s =>
      (isBar c && (start || inWord)) = false ∧ barFree isBlank isBar inWord (isBlank c) s

theorem barFree_commands (isBlank isBar : α → Bool) (inWord : Bool) (s : List α) :
    ∀ start : Bool,
    ∃ c cs, commands isBlank isBar inWord start s = c :: cs ∧
      barFree isBlank isBar inWord start c ∧ ∀ d ∈ cs, barFree isBlank isBar inWord true d := by
  induction s with
  | nil =>
      intro start
      exact ⟨[], [], rfl, trivial, by simp⟩
  | cons b s ih =>
      intro start
      rw [commands]
      by_cases hb : (isBar b && (start || inWord)) = true
      · obtain ⟨c, cs, hcs, hc, hall⟩ := ih true
        rw [if_pos hb, hcs]
        refine ⟨[], c :: cs, rfl, trivial, ?_⟩
        intro d hd
        rcases List.mem_cons.mp hd with rfl | hmem
        · exact hc
        · exact hall d hmem
      · obtain ⟨c, cs, hcs, hc, hall⟩ := ih (isBlank b)
        rw [if_neg hb, hcs]
        exact ⟨b :: c, cs, rfl, ⟨by simpa using hb, hc⟩, hall⟩

theorem noBlank_of_mem_splitOnP (c : List α) :
    ∀ w ∈ c.splitOnP isBlank, ∀ b ∈ w, isBlank b = false := by
  induction c with
  | nil => simp
  | cons b c ih =>
      obtain ⟨v, vs, hvs⟩ := List.exists_cons_of_ne_nil (List.splitOnP_ne_nil isBlank c)
      rw [List.splitOnP_cons_eq_if_modifyHead, hvs]
      rw [hvs] at ih
      by_cases hb : isBlank b = true
      · simpa [hb] using ih
      · simpa [hb] using ih

theorem barFree_splitOnP (c : List α) : ∀ start : Bool, barFree isBlank isBar inWord start c →
    ∃ w ws, c.splitOnP isBlank = w :: ws ∧ barFree isBlank isBar inWord start w ∧
      ∀ v ∈ ws, barFree isBlank isBar inWord true v := by
  induction c with
  | nil =>
      intro start _
      exact ⟨[], [], rfl, trivial, by simp⟩
  | cons b c ih =>
      intro start hfree
      obtain ⟨w, ws, hws, hw, hall⟩ := ih (isBlank b) hfree.2
      rw [List.splitOnP_cons_eq_if_modifyHead, hws]
      by_cases hb : isBlank b = true
      · rw [if_pos hb]
        refine ⟨[], w :: ws, rfl, trivial, ?_⟩
        intro v hv
        rcases List.mem_cons.mp hv with rfl | hmem
        · rwa [hb] at hw
        · exact hall v hmem
      · rw [if_neg hb]
        exact ⟨b :: w, ws, rfl, ⟨hfree.1, hw⟩, hall⟩

theorem noBar_of_barFree (w : List α) : ∀ start : Bool,
    barFree isBlank isBar true start w → ∀ c ∈ w, isBar c = false := by
  induction w with
  | nil => simp
  | cons b w ih =>
      intro start hfree c hc
      rcases List.mem_cons.mp hc with rfl | hmem
      · simpa using hfree.1
      · exact ih _ hfree.2 c hmem

/-- **Whatever the text is, the words of its commands are words.** -/
theorem isWord_of_mem {s c w : List α} (hc : c ∈ commands isBlank isBar inWord true s)
    (hw : w ∈ words isBlank c) : IsWord isBlank isBar inWord w := by
  obtain ⟨d, ds, hds, hd, hall⟩ := barFree_commands isBlank isBar inWord s true
  have hfree : barFree isBlank isBar inWord true c := by
    rw [hds] at hc
    rcases List.mem_cons.mp hc with rfl | hmem
    · exact hd
    · exact hall c hmem
  obtain ⟨v, vs, hvs, hv, hvall⟩ := barFree_splitOnP c true hfree
  rw [words, List.mem_filter] at hw
  have hnoBlank := noBlank_of_mem_splitOnP c w hw.1
  have hwfree : barFree isBlank isBar inWord true w := by
    have hmem := hw.1
    rw [hvs] at hmem
    rcases List.mem_cons.mp hmem with rfl | hmem
    · exact hv
    · exact hvall w hmem
  refine ⟨by simpa using hw.2, hnoBlank, ?_⟩
  intro b hb
  cases inWord with
  | true => exact noBar_of_barFree w true hwfree b hb
  | false =>
      cases w with
      | nil => simp at hb
      | cons e w =>
          have hbe : b = e := by simpa using hb
          simpa [hbe] using hwfree.1

end Words
