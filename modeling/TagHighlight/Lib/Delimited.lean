/-
Texts that are cut at a delimiter.

A function in the manner of `strsep` takes the text before the next delimiter off the front, and
the delimiter with it.  It is called until nothing is left, so an empty piece at the very end is
not noticed.  Which function it is does not matter: `Splits` says what is asked of it, and `Finds`
what is asked of one that looks for the delimiter.
-/
import Mathlib.Data.List.TakeWhile

namespace Delimited

variable {α : Type}

/-- The function takes off what is before the next delimiter, as long as anything is left. -/
structure Splits (sep : α → List α → Option (List α × List α)) : Prop where
  exhausted : ∀ d, sep d [] = none
  last : ∀ d s, s ≠ [] → d ∉ s → sep d s = some (s, [])
  next : ∀ d tok rest, d ∉ tok → sep d (tok ++ d :: rest) = some (tok, rest)

/-- The function finds the first index of an element, and gives -1 if there is none. -/
structure Finds (index : List α → α → Int) : Prop where
  found : ∀ s d rest, d ∉ s → index (s ++ d :: rest) d = s.length
  missing : ∀ s d, d ∉ s → index s d = -1

/-- A function that `Splits`. -/
def strsep [DecidableEq α] (d : α) (s : List α) : Option (List α × List α) :=
  if s = [] then none else some (s.takeWhile (· ≠ d), (s.dropWhile (· ≠ d)).drop 1)

/-- The pieces that at most `fuel` calls take off. -/
def pieces (sep : α → List α → Option (List α × List α)) (d : α) : (fuel : Nat) → List α →
    List (List α)
  | 0, _ => []
  | fuel + 1, s =>
      match sep d s with
      | none => []
      | some (tok, rest) => tok :: pieces sep d fuel rest

/-- All pieces; every call takes off an element at least. -/
def tokens (sep : α → List α → Option (List α × List α)) (d : α) (s : List α) : List (List α) :=
  pieces sep d (s.length + 1) s

/-- What is between the delimiters; nothing at the very end does not count. -/
def cut [DecidableEq α] (d : α) (s : List α) : List (List α) :=
  if (s.splitOn d).getLast? = some [] then (s.splitOn d).dropLast else s.splitOn d

theorem strsep_splits [DecidableEq α] : Splits (strsep (α := α)) where
  exhausted := by
    intro d
    exact if_pos rfl
  last := by
    intro d s hne hd
    have hall : ∀ a ∈ s, decide (a ≠ d) = true := by
      intro a ha
      exact decide_eq_true fun heq => hd (heq ▸ ha)
    have hrest : s.dropWhile (· ≠ d) = [] := List.dropWhile_eq_nil_iff.mpr hall
    rw [strsep, if_neg hne, hrest, List.takeWhile_eq_self_iff.mpr hall]
    rfl
  next := by
    intro d tok rest hd
    have hall : ∀ a ∈ tok, decide (a ≠ d) = true := by
      intro a ha
      exact decide_eq_true fun heq => hd (heq ▸ ha)
    rw [strsep, if_neg (by simp), List.takeWhile_append_of_pos hall,
      List.dropWhile_append_of_pos hall]
    simp

/-- A function that `Finds`. -/
def strchr [DecidableEq α] (s : List α) (d : α) : Int :=
  if d ∈ s then (s.takeWhile (· ≠ d)).length else -1

theorem strchr_finds [DecidableEq α] : Finds (strchr (α := α)) where
  found := by
    intro s d rest hd
    have hall : ∀ a ∈ s, decide (a ≠ d) = true := by
      intro a ha
      exact decide_eq_true fun heq => hd (heq ▸ ha)
    rw [strchr, if_pos (by simp), List.takeWhile_append_of_pos hall]
    simp
  missing := by
    intro s d hd
    exact if_neg hd

section Tokens

variable {sep : α → List α → Option (List α × List α)} {d : α} {s tok rest : List α}

theorem exists_cut_of_mem (h : d ∈ s) : ∃ tok rest, s = tok ++ d :: rest ∧ d ∉ tok := by
  induction s with
  | nil => exact absurd h List.not_mem_nil
  | cons a s ih =>
      by_cases hda : d = a
      · exact ⟨[], s, by rw [hda]; rfl, List.not_mem_nil⟩
      · obtain ⟨tok, rest, hs, htok⟩ := ih (List.mem_of_ne_of_mem hda h)
        refine ⟨a :: tok, rest, by rw [hs]; rfl, ?_⟩
        intro hmem
        exact htok (List.mem_of_ne_of_mem hda hmem)

/-- Something is taken off whenever there is anything. -/
theorem Splits.rest_lt (h : Splits sep) (hcut : sep d s = some (tok, rest)) :
    rest.length < s.length := by
  by_cases hs : s = []
  · rw [hs, h.exhausted] at hcut
    exact absurd hcut (by simp)
  · by_cases hd : d ∈ s
    · obtain ⟨tok', rest', rfl, htok⟩ := exists_cut_of_mem hd
      rw [h.next d tok' rest' htok] at hcut
      obtain ⟨-, rfl⟩ := Prod.mk.inj (Option.some.inj hcut)
      rw [List.length_append, List.length_cons]
      omega
    · rw [h.last d s hs hd] at hcut
      obtain ⟨-, rfl⟩ := Prod.mk.inj (Option.some.inj hcut)
      exact List.length_pos_iff.mpr hs

/-- Calls that are not needed find nothing. -/
theorem pieces_eq_tokens (h : Splits sep) {fuel : Nat} (hlt : s.length < fuel) :
    pieces sep d fuel s = tokens sep d s := by
  suffices hsame : ∀ fuel fuel' (s : List α), s.length < fuel → s.length < fuel' →
      pieces sep d fuel s = pieces sep d fuel' s from hsame _ _ s hlt (Nat.lt_succ_self _)
  intro fuel
  induction fuel with
  | zero =>
      intro fuel' s hs
      omega
  | succ fuel ih =>
      intro fuel' s hs hs'
      obtain ⟨k, rfl⟩ : ∃ k, fuel' = k + 1 := ⟨fuel' - 1, by omega⟩
      unfold pieces
      cases hcut : sep d s with
      | none => rfl
      | some p =>
          have hrest := h.rest_lt hcut
          show p.1 :: pieces sep d fuel p.2 = p.1 :: pieces sep d k p.2
          rw [ih k p.2 (by omega) (by omega)]

theorem tokens_nil (h : Splits sep) : tokens sep d [] = [] := by
  unfold tokens pieces
  rw [h.exhausted]

theorem tokens_last (h : Splits sep) (hne : s ≠ []) (hd : d ∉ s) : tokens sep d s = [s] := by
  have hcut := h.last d s hne hd
  unfold tokens pieces
  rw [hcut]
  show s :: pieces sep d s.length [] = [s]
  rw [pieces_eq_tokens h (List.length_pos_iff.mpr hne), tokens_nil h]

theorem tokens_next (h : Splits sep) (hd : d ∉ tok) :
    tokens sep d (tok ++ d :: rest) = tok :: tokens sep d rest := by
  have hcut := h.next d tok rest hd
  have hlt : rest.length < (tok ++ d :: rest).length := h.rest_lt hcut
  rw [tokens, pieces, hcut]
  show tok :: pieces sep d (tok ++ d :: rest).length rest = _
  rw [pieces_eq_tokens h hlt]

/-- **The pieces that are taken off are those between the delimiters.** -/
theorem tokens_eq_cut [DecidableEq α] (h : Splits sep) (s : List α) : tokens sep d s = cut d s := by
  induction hn : s.length using Nat.strongRecOn generalizing s with
  | ind n ih =>
      by_cases hd : d ∈ s
      · obtain ⟨tok, rest, rfl, htok⟩ := exists_cut_of_mem hd
        have hrest := ih rest.length (by rw [← hn]; simp; omega) rest rfl
        rw [tokens_next h htok, hrest, cut, cut, List.splitOn_append_cons_self_of_not_mem htok,
          List.getLast?_cons_of_ne_nil (List.splitOn_ne_nil d rest),
          List.dropLast_cons_of_ne_nil (List.splitOn_ne_nil d rest)]
        split <;> rfl
      · by_cases hs : s = []
        · subst hs
          rw [tokens_nil h, cut, List.splitOn_nil]
          rfl
        · rw [tokens_last h hs hd, cut, List.splitOn_eq_singleton hd, if_neg (by simpa using hs)]

/-- What a text begins with is taken off its first piece, unless it is the delimiter. -/
theorem splitOn_dropWhile [DecidableEq α] {p : α → Bool} (hp : p d = false) (s : List α) :
    (s.dropWhile p).splitOn d = (s.splitOn d).modifyHead (List.dropWhile p) := by
  induction s with
  | nil => rfl
  | cons a s ih =>
      rw [List.splitOn_cons_eq_if_modifyHead, List.dropWhile_cons]
      by_cases ha : p a = true
      · have hne : (a == d) = false := beq_eq_false_iff_ne.mpr fun heq => by simp [← heq, ha] at hp
        rw [if_pos ha, ih, hne, if_neg Bool.false_ne_true, List.modifyHead_modifyHead]
        refine congrArg (List.modifyHead · (s.splitOn d)) (funext fun piece => ?_)
        exact (List.dropWhile_cons_of_pos ha).symm
      · rw [if_neg ha, List.splitOn_cons_eq_if_modifyHead]
        split
        · rfl
        · rw [List.modifyHead_modifyHead]
          refine congrArg (List.modifyHead · (s.splitOn d)) (funext fun piece => ?_)
          exact (List.dropWhile_cons_of_neg ha).symm

/-- **Texts that each have a delimiter behind them are found again.** -/
theorem tokens_terminated (h : Splits sep) {toks : List (List α)} (hd : ∀ tok ∈ toks, d ∉ tok) :
    tokens sep d (toks.flatMap fun tok => tok ++ [d]) = toks := by
  induction toks with
  | nil => exact tokens_nil h
  | cons tok toks ih =>
      have hrest := ih fun t ht => hd t (List.mem_cons_of_mem _ ht)
      rw [List.flatMap_cons, List.append_assoc, List.singleton_append,
        tokens_next h (hd tok List.mem_cons_self), hrest]

/-- **So are texts with delimiters between them, if none is empty.** -/
theorem tokens_separated (h : Splits sep) {toks : List (List α)} (hne : tok ≠ [])
    (hd : d ∉ tok) (htoks : ∀ t ∈ toks, t ≠ [] ∧ d ∉ t) :
    tokens sep d (tok ++ toks.flatMap fun t => d :: t) = tok :: toks := by
  induction toks generalizing tok with
  | nil =>
      rw [List.flatMap_nil, List.append_nil]
      exact tokens_last h hne hd
  | cons t toks ih =>
      obtain ⟨htne, htd⟩ := htoks t List.mem_cons_self
      have hrest := ih htne htd fun u hu => htoks u (List.mem_cons_of_mem _ hu)
      rw [List.flatMap_cons, List.cons_append, tokens_next h hd, hrest]

/-- What comes behind a delimiter is cut on its own. -/
theorem tokens_append (h : Splits sep) (s rest : List α) :
    ∃ toks, tokens sep d (s ++ d :: rest) = toks ++ tokens sep d rest := by
  induction hn : s.length using Nat.strongRecOn generalizing s with
  | ind n ih =>
      by_cases hd : d ∈ s
      · obtain ⟨tok, s', rfl, htok⟩ := exists_cut_of_mem hd
        have hlt : s'.length < n := by
          rw [← hn, List.length_append, List.length_cons]
          omega
        obtain ⟨toks, htoks⟩ := ih s'.length hlt s' rfl
        refine ⟨tok :: toks, ?_⟩
        rw [List.append_assoc, List.cons_append, tokens_next h htok, htoks]
        rfl
      · exact ⟨[s], tokens_next h hd⟩

end Tokens

end Delimited
