/-
`handle_python` from one piece of a Python text to the next.

The function keeps count of quotes, not of literals, and that goes wrong in few situations: a
short literal with four of the other quotes in a row, an escaped quote in a long literal that two
more follow, and a literal that ends with an escaped quote if the next one begins right behind
it.  `CountsRight` excludes these.  Then the function is outside of a literal between any two
pieces of the text (`Ready`), and `runs_piece` takes it from one piece to the next.

A text of Python is a list of pieces here: words, characters, comments, and literals with their
letters.  The lexing gives such a list, so a run over the text is a run over the pieces, and the
variables between them need only be known up to what the next piece looks at.
-/
import TagHighlight.Proofs.Lang.StripPythonRun

namespace TagHighlight.StripPython

open Ascii Python
open Readers (isSpace)

/-! ### Between pieces

Between two pieces no string is open, but a count may be left over from a literal that ended with
an escaped quote.  `Ready` says what the variables are, with that count, and what was copied so
far.
-/

/-- Where the function is before `next`, if the byte before it is `p`. -/
structure Ready (before : Option Quote) (p : UInt8) (next kept : BString) (k : Quote) (cnt : Int)
    (c : Common) : Prop where
  nonneg : 0 ≤ cnt
  escape : c.escape = false
  /-- A count is left over from an empty literal, or one that an escaped quote ends. -/
  count : c.comment = false → cnt = 0 ∨ p = k.ch ∧
    (cnt = 1 ∧ before = some k ∨ cnt = 2 ∧ begins (· == k.ch) next = false)
  comment : c.comment = true →
    next = [] ∨ begins (· == newline) next = true ∨ [carriageReturn, newline] <+: next
  same : Matches kept c
  copied : c.comment = false ∨ next = [] → Copied kept c

/-! ### Bytes of code -/

/-- The byte has no meaning of its own. -/
def Plain (b : UInt8) : Prop := isQuote b = false ∧ b ≠ Ascii.hash ∧ b ≠ backslash ∧ b ≠ 0

section Plain

variable {k : Quote} {cnt o : Int} {c : Common} {p : UInt8} {kept t : BString}

theorem ne_of_isName {b x : UInt8} (h : isName b = true) (hx : isName x = false) : b ≠ x := by
  rintro rfl
  exact absurd h (ne_true_of_eq_false hx)

theorem plain_of_isName {b : UInt8} (h : isName b = true) : Plain b := by
  have hsingle : b ≠ singleQuote := ne_of_isName h (by decide)
  have hdouble : b ≠ doubleQuote := ne_of_isName h (by decide)
  refine ⟨?_, ne_of_isName h (by decide), ne_of_isName h (by decide), ne_of_isName h (by decide)⟩
  rw [isQuote, beq_false_of_ne hsingle, beq_false_of_ne hdouble]
  rfl

theorem lineEnd_of_isName {b : UInt8} (h : isName b = true) : isLineEnd b = false := by
  have hnewline : b ≠ newline := ne_of_isName h (by decide)
  have hreturn : b ≠ carriageReturn := ne_of_isName h (by decide)
  rw [isLineEnd, beq_false_of_ne hnewline, beq_false_of_ne hreturn]
  rfl

/-- It is copied, and ends all counts. -/
theorem runs_plain_byte {b : UInt8} (h : Matches kept c) (hcomment : c.comment = false)
    (hcnt : 0 ≤ cnt) (ho : 0 ≤ o) (hb : Plain b) :
    ∃ c', Runs p [b] (outer k cnt o c) (outer k 0 0 c') ∧ c'.comment = false ∧
      c'.escape = false ∧ Copied (kept ++ [b]) c' := by
  obtain ⟨hquote, hhash, hbackslash, hnul⟩ := hb
  obtain ⟨c', hrun, hcomment', hescape', hcopied⟩ := runs_byte (p := p) (k := k) h hcomment hnul
    hquote (Or.inr hhash) hcnt ho
  exact ⟨c', hrun, hcomment', hescape'.trans (escapes_ne hbackslash), hcopied⟩

theorem runs_plain (hcopied : Copied kept c) (hcomment : c.comment = false)
    (hescape : c.escape = false) (ht : ∀ b ∈ t, Plain b) :
    ∃ c', Runs p t (outer k 0 0 c) (outer k 0 0 c') ∧ c'.comment = false ∧ c'.escape = false ∧
      Copied (kept ++ t) c' := by
  induction t generalizing p c kept with
  | nil => exact ⟨c, Runs.nil p _, hcomment, hescape, by rwa [List.append_nil]⟩
  | cons b t ih =>
      obtain ⟨c₁, hfirst, hcomment₁, hescape₁, hcopied₁⟩ := runs_plain_byte (p := p) (k := k)
        hcopied.toMatches hcomment (Int.le_refl 0) (Int.le_refl 0) (ht b List.mem_cons_self)
      obtain ⟨c₂, hrest, hcomment₂, hescape₂, hcopied₂⟩ := ih (p := b) hcopied₁ hcomment₁ hescape₁
        (fun b hb => ht b (List.mem_cons_of_mem _ hb))
      refine ⟨c₂, hfirst.cons hrest, hcomment₂, hescape₂, ?_⟩
      rwa [List.append_assoc, List.singleton_append] at hcopied₂

theorem runs_word (hcopied : Copied kept c) (hcomment : c.comment = false)
    (hcnt : 0 ≤ cnt) (ho : 0 ≤ o) (hne : t ≠ [])
    (ht : ∀ b ∈ t, Plain b) :
    ∃ c', Runs p t (outer k cnt o c) (outer k 0 0 c') ∧ c'.comment = false ∧ c'.escape = false ∧
      Copied (kept ++ t) c' := by
  cases t with
  | nil => exact absurd rfl hne
  | cons b t =>
      obtain ⟨c₁, hfirst, hcomment₁, hescape₁, hcopied₁⟩ := runs_plain_byte (p := p) (k := k)
        hcopied.toMatches hcomment hcnt ho (ht b List.mem_cons_self)
      obtain ⟨c₂, hrest, hcomment₂, hescape₂, hcopied₂⟩ := runs_plain (p := b) (k := k) hcopied₁
        hcomment₁ hescape₁ (fun b hb => ht b (List.mem_cons_of_mem _ hb))
      refine ⟨c₂, hfirst.cons hrest, hcomment₂, hescape₂, ?_⟩
      rwa [List.append_assoc, List.singleton_append] at hcopied₂

end Plain

/-! ### Comments -/

section Comment

variable {k : Quote} {cnt o : Int} {c : Common} {p b : UInt8} {t : BString}

theorem runs_hash (hcomment : c.comment = false) (hescape : c.escape = false) :
    Runs p [Ascii.hash] (outer k cnt o c)
      (outer k cnt o { c with space := 0, comment := true }) := by
  refine Runs.single (by decide) (Nat.le_succ c.buf.length) ?_
  intro size _
  have hbegins : ¬(outer k cnt o c).comment = true ∧ ¬(outer k cnt o c).quote = true ∧
      ¬(outer k cnt o c).escape = true ∧ Ascii.hash = Ascii.hash := by
    refine ⟨?_, ?_, ?_, rfl⟩
    · show ¬c.comment = true
      rw [hcomment]
      exact Bool.false_ne_true
    · show ¬(seen _ _ _ _ _ _).quote = true
      rw [quote_seen]
      exact Bool.false_ne_true
    · show ¬c.escape = true
      rw [hescape]
      exact Bool.false_ne_true
  unfold round
  rw [if_pos hbegins]
  rfl

/-- A byte of a comment. -/
theorem runs_commented (hcomment : c.comment = true) (hb : b ≠ newline) (hnul : b ≠ 0) :
    Runs p [b] (outer k cnt o c) (outer k cnt o c) := by
  apply Runs.single hnul (Nat.le_succ _)
  intro size _
  have hgoes : (outer k cnt o c).comment = true ∧ b ≠ newline := ⟨hcomment, hb⟩
  unfold round
  rw [if_neg (fun h => h.1 hcomment), if_pos hgoes]

theorem runs_comment (hcomment : c.comment = true) (ht : ∀ b ∈ t, isLineEnd b = false ∧ b ≠ 0) :
    Runs p t (outer k cnt o c) (outer k cnt o c) := by
  induction t generalizing p with
  | nil => exact Runs.nil p _
  | cons b t ih =>
      obtain ⟨hend, hnul⟩ := ht b List.mem_cons_self
      have hb : b ≠ newline := by
        rintro rfl
        exact absurd hend (by decide)
      exact (runs_commented hcomment hb hnul).cons
        (ih fun b hb => ht b (List.mem_cons_of_mem _ hb))

end Comment

/-! ### Literals

Inside of a literal the quotes that could close it are escaped, or do not follow each other.  The
body is a list of items, a byte or a byte behind a backslash, and the induction is over these.
-/

section Literal

variable {q : Quote} {body : List Item} {c : Common} {p : UInt8}

theorem item_cases {i : Item} (h : i.ok = true) :
    (∃ b, i = .plain b ∧ b ≠ backslash ∧ b ≠ 0) ∨ (∃ b, i = .escaped [b] ∧ b ≠ 0) ∨
      i = .escaped [carriageReturn, newline] := by
  cases i with
  | plain b =>
      left
      simpa [Item.ok] using h
  | escaped s =>
      right
      simp only [Item.ok, Bool.or_eq_true, Bool.and_eq_true, beq_iff_eq, bne_iff_ne] at h
      rcases h with rfl | ⟨hlength, hne⟩
      · exact Or.inr rfl
      · obtain ⟨b, rfl⟩ := List.length_eq_one_iff.mp hlength
        refine Or.inl ⟨b, rfl, ?_⟩
        rintro rfl
        exact hne rfl

theorem text_ne_nil (i : Item) : i.text ≠ [] := by
  cases i <;> exact List.cons_ne_nil _ _

theorem bodyText_eq_nil : bodyText body = [] ↔ body = [] := by
  constructor
  · intro h
    cases body with
    | nil => rfl
    | cons i body =>
        rw [bodyText, List.flatMap_cons] at h
        exact absurd (List.append_eq_nil_iff.mp h).1 (text_ne_nil i)
  · rintro rfl
    rfl

theorem nul_not_mem_body (h : ∀ i ∈ body, i.ok = true) : 0 ∉ bodyText body := by
  intro hmem
  obtain ⟨i, hi, hzero⟩ := List.mem_flatMap.mp hmem
  rcases item_cases (h i hi) with ⟨b, rfl, -, hb⟩ | ⟨b, rfl, hb⟩ | rfl
  · exact hb (List.mem_singleton.mp hzero).symm
  · rcases List.mem_cons.mp hzero with hback | hrest
    · exact absurd hback (by decide)
    · exact hb (List.mem_singleton.mp hrest).symm
  · exact absurd hzero (by decide)

theorem inside_append {ch : UInt8} {e : Bool} {t u : BString} (ht : Inside ch e t)
    (hu : Inside ch (t.foldl escapes e) u) : Inside ch e (t ++ u) := by
  induction t generalizing e with
  | nil => exact hu
  | cons b t ih => exact ⟨ht.1, ih ht.2 hu⟩

/-- Of an item only what is escaped can be the quote, and the next byte is not escaped. -/
theorem inside_item {i : Item} (h : i.ok = true) (hne : i ≠ .plain q.ch) :
    Inside q.ch false i.text ∧ i.text.foldl escapes false = false := by
  have hback : backslash ≠ q.ch := (ch_facts q).2.2.1.symm
  rcases item_cases h with ⟨b, rfl, hb, -⟩ | ⟨b, rfl, -⟩ | rfl
  · refine ⟨⟨fun heq => absurd (heq ▸ rfl) hne, trivial⟩, ?_⟩
    exact escapes_ne hb
  · refine ⟨⟨fun heq => absurd heq hback, fun _ => rfl, trivial⟩, ?_⟩
    show escapes true b = false
    unfold escapes
    by_cases hb : b = backslash
    · rw [if_pos hb]
      rfl
    · rw [if_neg hb]
  · have hnewline : newline ≠ q.ch := by cases q <;> decide
    refine ⟨⟨fun heq => absurd heq hback, fun _ => rfl, ?_, trivial⟩, rfl⟩
    exact fun heq => absurd heq hnewline

theorem inside_body (h : ShortBody q body) :
    Inside q.ch false (bodyText body) ∧ (bodyText body).foldl escapes false = false := by
  induction body with
  | nil => exact ⟨trivial, rfl⟩
  | cons i body ih =>
      obtain ⟨hok, hne, -⟩ := h i List.mem_cons_self
      obtain ⟨hitem, hescape⟩ := inside_item hok hne
      obtain ⟨hrest, hescape'⟩ := ih fun j hj => h j (List.mem_cons_of_mem i hj)
      rw [bodyText, List.flatMap_cons]
      constructor
      · apply inside_append hitem
        rw [hescape]
        exact hrest
      · rw [List.foldl_append, hescape]
        exact hescape'

/-- The count behind a short literal that began with this count. -/
def countAfter (q : Quote) (n : Int) (body : List Item) : Int :=
  if body = [] then n + 1 else if (bodyText body).getLast? = some q.ch then 1 else 0

/-- From the quote that opens a short literal to the one that closes it. -/
theorem runs_short_literal {n : Int} (hcomment : c.comment = false) (hescape : c.escape = false)
    (hbuf : c.buf ≠ []) (hbody : ShortBody q body) (hn : 0 ≤ n) (hne : countAfter q n body ≠ 3)
    (hfour : ¬List.replicate 4 q.other.ch <:+: bodyText body) :
    Runs q.ch (bodyText body ++ [q.ch]) (inShort q n 0 c)
      (outer q (countAfter q n body) 0 { c with space := 0, escape := false }) := by
  obtain ⟨hinside, hfold⟩ := inside_body hbody
  have hstart : q.ch = q.other.ch ↔ 0 < trail q.other.ch [] :=
    iff_of_false (ch_ne_other q) (Nat.lt_irrefl 0)
  obtain ⟨space, hrun⟩ := runs_short [] q.ch n c hcomment hbuf
    (nul_not_mem_body fun i hi => (hbody i hi).1) (by rwa [hescape])
    (fun h => absurd h (ne_true_of_eq_false hescape)) hstart hfour hn
  rw [hescape, hfold] at hrun
  refine hrun.append ?_
  refine runs_ends (c := { c with space := space, escape := false }) hcomment rfl
    (Int.natCast_nonneg _) ?_ hne
  unfold countAfter
  by_cases hnil : body = []
  · rw [if_pos hnil, if_pos (bodyText_eq_nil.mpr hnil), bodyText_eq_nil.mpr hnil]
    exact (if_pos rfl).symm
  · have htext : bodyText body ≠ [] := fun h => hnil (bodyText_eq_nil.mp h)
    have hlast : (bodyText body).getLast? = some ((bodyText body).getLastD q.ch) := by
      rw [List.getLast?_eq_some_getLast htext, List.getLastD_eq_getLast?,
        List.getLast?_eq_some_getLast htext, Option.getD_some]
    rw [if_neg hnil, if_neg htext, hlast]
    by_cases hquote : (bodyText body).getLastD q.ch = q.ch
    · rw [if_pos hquote, if_pos (congrArg some hquote)]
      rfl
    · rw [if_neg hquote, if_neg (fun h => hquote (Option.some.inj h))]

/-- From the quotes that open a long literal to those that close it; one of them may be late. -/
theorem runs_long_literal {late : BString} (hcomment : c.comment = false) (hbuf : c.buf ≠ [])
    (hbody : ∀ i ∈ body, i.ok = true) (hlate : late = [] ∨ late = [q.ch])
    (hthree : ¬List.replicate 3 q.ch <:+: late ++ (bodyText body ++ List.replicate 2 q.ch)) :
    Runs p (late ++ (bodyText body ++ List.replicate 3 q.ch)) (inLong q 3 c)
      (outer q 0 0 { c with space := 0, escape := false }) := by
  have hnul : 0 ∉ late ++ (bodyText body ++ List.replicate 2 q.ch) := by
    have hch : (0 : UInt8) ≠ q.ch := (ch_facts q).1.symm
    intro hmem
    rcases List.mem_append.mp hmem with h | h
    · rcases hlate with rfl | rfl
      · exact absurd h List.not_mem_nil
      · exact hch (List.mem_singleton.mp h)
    rcases List.mem_append.mp h with h | h
    · exact nul_not_mem_body hbody h
    · exact hch (List.eq_of_mem_replicate h)
  obtain ⟨space, escape, hrun⟩ := runs_long [] p c hcomment hbuf hnul
    (fun h => absurd h (Nat.lt_irrefl 0)) hthree
  have hsplit : late ++ (bodyText body ++ List.replicate 2 q.ch) =
      late ++ bodyText body ++ [q.ch] ++ [q.ch] := by
    simp [List.replicate_succ]
  have htrail : trail q.ch (late ++ (bodyText body ++ List.replicate 2 q.ch)) = 2 := by
    have hlt : trail q.ch (late ++ (bodyText body ++ List.replicate 2 q.ch)) < 3 :=
      trail_lt (u := []) (by rwa [List.append_nil])
    rw [hsplit, trail_concat, if_pos rfl, trail_concat, if_pos rfl] at hlt ⊢
    omega
  rw [List.nil_append, htrail] at hrun
  have hlast : (late ++ (bodyText body ++ List.replicate 2 q.ch)).getLastD p = q.ch := by
    rw [hsplit, List.getLastD_concat]
  have hall := hrun.append
    (runs_complete (c := { c with space := space, escape := escape }) hcomment hlast)
  have htext : late ++ (bodyText body ++ List.replicate 3 q.ch) =
      late ++ (bodyText body ++ List.replicate 2 q.ch) ++ [q.ch] := by
    simp [List.replicate_succ]
  rw [htext]
  exact hall

end Literal

/-! ### Up to a quote -/

section ToQuote

variable {before : Option Quote} {k q : Quote} {cnt : Int} {c : Common} {p : UInt8}
  {kept w rest next : BString}

theorem isAlpha_of_lower {b : UInt8} (h : isAlpha (lower b) = true) : isAlpha b = true := by
  unfold lower at h
  by_cases hupper : (65 ≤ b && b ≤ 90) = true
  · unfold isAlpha
    rw [hupper, Bool.true_or]
  · rwa [if_neg hupper] at h

theorem isAlpha_of_isLetters (h : isLetters w = true) : ∀ b ∈ w, isAlpha b = true := by
  have hall : ∀ s ∈ Python.letters, ∀ b ∈ s, isAlpha b = true := by decide +kernel
  intro b hb
  exact isAlpha_of_lower (hall _ (List.contains_iff_mem.mp h) _ (List.mem_map_of_mem hb))

theorem isName_of_isLetters (h : w = [] ∨ isLetters w = true) : ∀ b ∈ w, isName b = true := by
  intro b hb
  rcases h with rfl | h
  · exact absurd hb List.not_mem_nil
  · unfold isName isAlnum
    rw [isAlpha_of_isLetters h b hb]
    rfl

/-- The function is at a quote and takes it for the first one, or for the second. -/
theorem runs_to_quote (h : Ready before p (w ++ q.ch :: rest) kept k cnt c)
    (hcomment : c.comment = false) (hw : w = [] ∨ isLetters w = true) :
    (∃ o c', 0 ≤ o ∧ c'.comment = false ∧ Copied (kept ++ w) c' ∧
      Runs p w (outer k cnt 0 c) (outer q 0 o c')) ∨
    (before = some q ∧ w = [] ∧ p = q.ch ∧ outer k cnt 0 c = outer q 1 0 c) := by
  have hkinds : k = q ∨ k = q.other := by cases k <;> cases q <;> decide
  have hcopied : Copied kept c := h.copied (Or.inl hcomment)
  by_cases hnil : w = []
  · subst hnil
    rw [List.append_nil]
    rcases hkinds with rfl | rfl
    · rcases h.count hcomment with rfl | ⟨hp, ⟨rfl, hbefore⟩ | ⟨-, hnext⟩⟩
      · exact Or.inl ⟨0, c, Int.le_refl 0, hcomment, hcopied, Runs.nil p _⟩
      · exact Or.inr ⟨hbefore, rfl, hp, rfl⟩
      · -- Two quotes have been counted only where no third one follows.
        exact absurd hnext (by simp [begins])
    · rw [outer_swap, other_other]
      exact Or.inl ⟨cnt, c, h.nonneg, hcomment, hcopied, Runs.nil p _⟩
  · obtain ⟨c', hrun, hcomment', -, hcopied'⟩ := runs_word (p := p) (k := k) hcopied hcomment
      h.nonneg (Int.le_refl 0) hnil
      (fun b hb => plain_of_isName (isName_of_isLetters hw b hb))
    have hsame : outer k 0 0 c' = outer q 0 0 c' := by
      rcases hkinds with rfl | rfl
      · rfl
      · rw [outer_swap, other_other]
    rw [hsame] at hrun
    exact Or.inl ⟨0, c', Int.le_refl 0, hcomment', hcopied', hrun⟩

end ToQuote

/-! ### A piece

There is one lemma for each sort of piece, and `CountsRight` is used where the count of quotes
decides: at the opening of a literal behind another one, and at the end of a long one.
-/

section Piece

variable {before : Option Quote} {k : Quote} {cnt : Int} {c : Common} {p : UInt8}
  {kept next : BString}

/-- Nothing has been counted. -/
theorem Ready.of_copied (hcomment : c.comment = false) (hescape : c.escape = false)
    (hcopied : Copied kept c) : Ready before p next kept k 0 c where
  nonneg := Int.le_refl 0
  escape := hescape
  count := fun _ => Or.inl rfl
  comment := fun h => absurd h (ne_true_of_eq_false hcomment)
  same := hcopied.toMatches
  copied := fun _ => hcopied

/-- Over the piece to where the function is ready for the next one. -/
def Passes (p : UInt8) (next kept : BString) (k : Quote) (cnt : Int) (c : Common)
    (piece : Piece) : Prop :=
  ∃ k' cnt' c', Runs p piece.text (outer k cnt 0 c) (outer k' cnt' 0 c') ∧
    Ready (escapedLast piece) (piece.text.getLastD p) next (kept ++ StripPython.kept piece)
      k' cnt' c' ∧
    (next = [] → c'.comment = piece.isComment)

theorem passes_word {w : BString} (h : Ready before p (w ++ next) kept k cnt c)
    (hcomment : c.comment = false) (hne : w ≠ []) (hw : ∀ b ∈ w, isName b = true) :
    Passes p next kept k cnt c (.word w) := by
  obtain ⟨c', hrun, hcomment', hescape', hcopied⟩ := runs_word (p := p) (k := k)
    (h.copied (Or.inl hcomment)) hcomment h.nonneg (Int.le_refl 0) hne
    (fun b hb => plain_of_isName (hw b hb))
  refine ⟨k, 0, c', hrun, Ready.of_copied hcomment' hescape' hcopied, fun _ => hcomment'⟩

theorem passes_char {b : UInt8} (h : Ready before p (b :: next) kept k cnt c)
    (hcomment : c.comment = false) (hb : Plain b) :
    Passes p next kept k cnt c (.char b) := by
  obtain ⟨c', hrun, hcomment', hescape', hcopied⟩ := runs_plain_byte (p := p) (k := k) h.same
    hcomment h.nonneg (Int.le_refl 0) hb
  exact ⟨k, 0, c', hrun, Ready.of_copied hcomment' hescape' hcopied, fun _ => hcomment'⟩

/-- The end of a line, of which a comment takes the carriage return. -/
theorem passes_lineEnd {b : UInt8} (h : Ready before p (b :: next) kept k cnt c)
    (hcomment : c.comment = true) : Passes p next kept k cnt c (.char b) := by
  rcases h.comment hcomment with hnil | hnewline | ⟨rest, hboth⟩
  · exact absurd hnil (List.cons_ne_nil b next)
  · have hb : b = newline := by simpa [begins] using hnewline
    subst hb
    obtain ⟨c', hrun, hcomment', hescape', hcopied⟩ := runs_newline (p := p) (k := k) h.same
      h.nonneg (Int.le_refl 0)
    refine ⟨k, 0, c', hrun, Ready.of_copied hcomment' hescape' hcopied, fun _ => hcomment'⟩
  · obtain ⟨rfl, rfl⟩ := List.cons.inj hboth
    have hmore : [newline] ++ rest ≠ [] := List.cons_ne_nil _ _
    refine ⟨k, cnt, c, runs_commented hcomment (by decide) (by decide), ?_, ?_⟩
    · exact {
        nonneg := h.nonneg
        escape := h.escape
        count := fun hnone => absurd hcomment (ne_true_of_eq_false hnone)
        comment := fun _ => Or.inr (Or.inl rfl)
        same := {
          ne_nil := h.same.ne_nil
          same := by
            rw [visible_append]
            show _ = _ ++ visible [carriageReturn]
            rw [visible_space rfl, List.append_nil, h.same.same]
          blank := h.same.blank }
        copied := by
          rintro (hnone | hend)
          · exact absurd hcomment (ne_true_of_eq_false hnone)
          · exact absurd hend hmore }
    · exact fun hend => absurd hend hmore

theorem passes_join {e : BString} (h : Ready before p (backslash :: e ++ next) kept k cnt c)
    (hcomment : c.comment = false)
    (he : e = [newline] ∨ e = [carriageReturn] ∨ e = [carriageReturn, newline]) :
    Passes p next kept k cnt c (.join e) := by
  have hplain : e ≠ [] ∧ ∀ b ∈ e, Plain b := by
    rcases he with rfl | rfl | rfl <;> unfold Plain <;> decide +kernel
  obtain ⟨c₁, hfirst, hcomment₁, -, hcopied₁⟩ := runs_byte (p := p) (k := k) (b := backslash)
    h.same hcomment (by decide) rfl (Or.inr (by decide)) h.nonneg (Int.le_refl 0)
  obtain ⟨c₂, hrest, hcomment₂, hescape₂, hcopied₂⟩ := runs_word (p := backslash) (k := k)
    hcopied₁ hcomment₁ (Int.le_refl 0) (Int.le_refl 0) hplain.1 hplain.2
  rw [List.append_assoc, List.singleton_append] at hcopied₂
  exact ⟨k, 0, c₂, hfirst.cons hrest, Ready.of_copied hcomment₂ hescape₂ hcopied₂,
    fun _ => hcomment₂⟩

theorem passes_comment {t : BString} (h : Ready before p (Ascii.hash :: t ++ next) kept k cnt c)
    (hcomment : c.comment = false) (ht : ∀ b ∈ t, isLineEnd b = false ∧ b ≠ 0)
    (hright : CountsRight before next (.comment t)) :
    Passes p next kept k cnt c (.comment t) := by
  have hcopied := h.copied (Or.inl hcomment)
  have hhash : Runs p [Ascii.hash] (outer k cnt 0 c)
      (outer k cnt 0 { c with space := 0, comment := true }) := runs_hash hcomment h.escape
  have hrun := hhash.cons (runs_comment rfl ht)
  refine ⟨k, cnt, _, hrun, ?_, fun _ => rfl⟩
  have hkept : kept ++ StripPython.kept (.comment t) = kept := List.append_nil kept
  rw [hkept]
  exact {
    nonneg := h.nonneg
    escape := h.escape
    count := fun hnone => absurd hnone (by exact Bool.noConfusion)
    comment := fun _ => hright
    same := hcopied.reset.toMatches
    copied := fun _ => hcopied.reset }

/-- Up to the quote that opens a short literal, and over it. -/
theorem runs_to_short {w : BString} {q : Quote} {body : List Item}
    (h : Ready before p ((Piece.short w q body).text ++ next) kept k cnt c)
    (hcomment : c.comment = false) (hletters : w = [] ∨ isLetters w = true)
    (hfirst : ¬(before = some q ∧ w = [] ∧ body = [])) :
    ∃ n c', (n = 1 ∨ n = 2 ∧ body ≠ []) ∧ c'.comment = false ∧ Copied (kept ++ w) c' ∧
      Runs p (w ++ [q.ch]) (outer k cnt 0 c)
        (inShort q n 0 { c' with space := 0, escape := false }) := by
  rw [Piece.text, List.append_assoc] at h
  rcases runs_to_quote h hcomment hletters with
    ⟨o, c', ho, hcomment', hcopied, hrun⟩ | ⟨hbefore, rfl, hp, hsame⟩
  · exact ⟨1, c', Or.inl rfl, hcomment', hcopied, hrun.append (runs_begins hcomment' ho)⟩
  · have hsome : body ≠ [] := fun hnil => hfirst ⟨hbefore, rfl, hnil⟩
    rw [hsame, List.append_nil]
    exact ⟨2, c, Or.inr ⟨rfl, hsome⟩, hcomment, h.copied (Or.inl hcomment),
      runs_begins_again hcomment hp⟩

theorem passes_short {w : BString} {q : Quote} {body : List Item}
    (h : Ready before p ((Piece.short w q body).text ++ next) kept k cnt c)
    (hcomment : c.comment = false) (hfits : (Piece.short w q body).Fits next)
    (hright : CountsRight before next (.short w q body)) :
    Passes p next kept k cnt c (.short w q body) := by
  obtain ⟨hletters, hbody, hempty⟩ := hfits
  obtain ⟨hfour, hfirst⟩ := hright
  obtain ⟨n, c₁, hn, hcomment₁, hcopied, hrun⟩ := runs_to_short h hcomment hletters hfirst
  have hafter : 0 ≤ countAfter q n body ∧ countAfter q n body ≠ 3 := by
    unfold countAfter
    rcases hn with rfl | ⟨rfl, hsome⟩
    · split_ifs <;> decide
    · rw [if_neg hsome]
      split_ifs <;> decide
  have hclosed := runs_short_literal (c := { c₁ with space := 0, escape := false }) hcomment₁ rfl
    hcopied.ne_nil hbody (by omega : 0 ≤ n) hafter.2 hfour
  have htext : (Piece.short w q body).text = w ++ [q.ch] ++ (bodyText body ++ [q.ch]) := by
    rw [Piece.text, List.append_assoc, List.singleton_append]
  have hlast : (Piece.short w q body).text.getLastD p = q.ch := by
    rw [htext, ← List.append_assoc, List.getLastD_concat]
  refine ⟨q, countAfter q n body, { c₁ with space := 0, escape := false }, ?_, ?_,
    fun _ => hcomment₁⟩
  · rw [htext]
    apply hrun.append
    rw [List.getLastD_concat]
    exact hclosed
  · exact {
      nonneg := hafter.1
      escape := rfl
      count := by
        intro _
        unfold countAfter
        by_cases hnil : body = []
        · have hone : n = 1 := hn.resolve_right fun h => h.2 hnil
          rw [if_pos hnil, hone]
          exact Or.inr ⟨hlast, Or.inr ⟨rfl, hempty hnil⟩⟩
        · rw [if_neg hnil]
          by_cases hquote : (bodyText body).getLast? = some q.ch
          · rw [if_pos hquote]
            exact Or.inr ⟨hlast, Or.inl ⟨rfl, if_pos hquote⟩⟩
          · rw [if_neg hquote]
            exact Or.inl rfl
      comment := fun hopen => absurd hopen (ne_true_of_eq_false hcomment₁)
      same := hcopied.reset.toMatches
      copied := fun _ => hcopied.reset }

/-- The first two quotes of a long literal look like an empty one. -/
theorem runs_opened {q : Quote} {body : List Item} {o : Int} (hcomment : c.comment = false)
    (hbuf : c.buf ≠ []) (ho : 0 ≤ o) (hbody : LongBody q body)
    (hthree : ¬List.replicate 3 q.ch <:+: bodyText body ++ List.replicate 2 q.ch) :
    Runs p (List.replicate 3 q.ch ++ (bodyText body ++ List.replicate 3 q.ch)) (outer q 0 o c)
      (outer q 0 0 { c with space := 0, escape := false }) := by
  have hfirst := runs_begins (p := p) (k := q) hcomment ho
  have hsecond : Runs q.ch [q.ch] (inShort q 1 0 { c with space := 0, escape := false })
      (outer q 2 0 { c with space := 0, escape := false }) :=
    runs_ends (c := { c with space := 0, escape := false }) (n := 2) hcomment rfl (Int.le_refl 0)
      (if_pos rfl).symm (by decide)
  have hthird := runs_three (p := q.ch) (k := q) (q := false)
    (c := { c with space := 0, escape := false }) hcomment rfl
  have hrest := runs_long_literal (p := q.ch) (c := { c with space := 0, escape := false })
    hcomment hbuf hbody.ok (Or.inl rfl) hthree
  exact hfirst.cons (hsecond.cons (hthird.cons hrest))

/-- The first two end the count that the literal before it has left over. -/
theorem runs_opened_again {q : Quote} {body : List Item} (hcomment : c.comment = false)
    (hbuf : c.buf ≠ []) (hp : p = q.ch) (hbody : LongBody q body)
    (hthree : ¬List.replicate 3 q.ch <:+: [q.ch] ++ (bodyText body ++ List.replicate 2 q.ch)) :
    Runs p (List.replicate 3 q.ch ++ (bodyText body ++ List.replicate 3 q.ch)) (outer q 1 0 c)
      (outer q 0 0 { c with space := 0, escape := false }) := by
  have hfirst := runs_begins_again hcomment hp
  have hsecond := runs_three (p := q.ch) (k := q) (q := true)
    (c := { c with space := 0, escape := false }) hcomment rfl
  have hrest := runs_long_literal (p := q.ch) (c := { c with space := 0, escape := false })
    hcomment hbuf hbody.ok (Or.inr rfl) hthree
  exact hfirst.cons (hsecond.cons hrest)

theorem passes_long {w : BString} {q : Quote} {body : List Item}
    (h : Ready before p ((Piece.long w q body).text ++ next) kept k cnt c)
    (hcomment : c.comment = false) (hfits : (Piece.long w q body).Fits next)
    (hright : CountsRight before next (.long w q body)) :
    Passes p next kept k cnt c (.long w q body) := by
  obtain ⟨hletters, hbody⟩ := hfits
  have htext : (Piece.long w q body).text =
      w ++ (List.replicate 3 q.ch ++ (bodyText body ++ List.replicate 3 q.ch)) :=
    List.append_assoc _ _ _
  obtain ⟨c₁, hcomment₁, hcopied, hrun⟩ : ∃ c₁, c₁.comment = false ∧ Copied (kept ++ w) c₁ ∧
      Runs p (Piece.long w q body).text (outer k cnt 0 c)
        (outer q 0 0 { c₁ with space := 0, escape := false }) := by
    rw [htext, List.append_assoc] at h
    rw [htext]
    rcases runs_to_quote h hcomment hletters with
      ⟨o, c₁, ho, hcomment₁, hcopied, hrun⟩ | ⟨hbefore, rfl, hp, hsame⟩
    · refine ⟨c₁, hcomment₁, hcopied, hrun.append ?_⟩
      apply runs_opened hcomment₁ hcopied.ne_nil ho hbody
      intro hin
      exact hright (hin.trans (List.suffix_append _ _).isInfix)
    · have hcopied := h.copied (Or.inl hcomment)
      refine ⟨c, hcomment, by rwa [List.append_nil], ?_⟩
      rw [hsame, List.nil_append]
      apply runs_opened_again hcomment hcopied.ne_nil hp hbody
      intro hin
      apply hright
      rwa [if_pos ⟨hbefore, rfl⟩]
  refine ⟨q, 0, { c₁ with space := 0, escape := false }, hrun,
    Ready.of_copied hcomment₁ rfl hcopied.reset, fun _ => hcomment₁⟩

theorem piece_ne_nil {piece : Piece} (hfits : piece.Fits next) : piece.text ≠ [] := by
  cases piece with
  | word w => exact hfits.1
  | char b => exact List.cons_ne_nil _ _
  | join e => exact List.cons_ne_nil _ _
  | comment t => exact List.cons_ne_nil _ _
  | short w q body => exact List.append_ne_nil_of_right_ne_nil _ (List.cons_ne_nil _ _)
  | long w q body =>
      apply List.append_ne_nil_of_left_ne_nil
      exact List.append_ne_nil_of_right_ne_nil _ (List.cons_ne_nil _ _)

/-- Only a byte of its own can be the end of a line. -/
theorem char_of_lineEnd {piece : Piece} (hfits : piece.Fits next)
    (hend : begins isLineEnd (piece.text ++ next) = true) : ∃ b, piece = .char b := by
  have hletter : ∀ {w : BString} {q : Quote} {rest : BString},
      (w = [] ∨ isLetters w = true) → begins isLineEnd (w ++ q.ch :: rest) = false := by
    intro w q rest hw
    cases w with
    | nil => cases q <;> rfl
    | cons b w => exact lineEnd_of_isName (isName_of_isLetters hw b List.mem_cons_self)
  cases piece with
  | char b => exact ⟨b, rfl⟩
  | word w =>
      obtain ⟨hne, hw, -⟩ := hfits
      cases w with
      | nil => exact absurd rfl hne
      | cons b w =>
          exact absurd ((lineEnd_of_isName (hw b List.mem_cons_self)).symm.trans hend)
            Bool.false_ne_true
  | join e => exact absurd hend Bool.false_ne_true
  | comment t => exact absurd hend Bool.false_ne_true
  | short w q body =>
      rw [Piece.text, List.append_assoc] at hend
      exact absurd ((hletter hfits.1).symm.trans hend) Bool.false_ne_true
  | long w q body =>
      simp only [Piece.text, List.append_assoc, List.replicate_succ, List.cons_append] at hend
      exact absurd ((hletter hfits.1).symm.trans hend) Bool.false_ne_true

/-- The function gets over any piece for which the counts come out right. -/
theorem runs_piece {piece : Piece} (h : Ready before p (piece.text ++ next) kept k cnt c)
    (hfits : piece.Fits next) (hright : CountsRight before next piece) :
    Passes p next kept k cnt c piece := by
  by_cases hcomment : c.comment = true
  · have hends : begins isLineEnd (piece.text ++ next) = true := by
      rcases h.comment hcomment with hnil | hnewline | ⟨rest, hboth⟩
      · exact absurd (List.append_eq_nil_iff.mp hnil).1 (piece_ne_nil hfits)
      · revert hnewline
        cases piece.text ++ next with
        | nil => exact id
        | cons b text =>
            intro hnewline
            have hb : b = newline := by simpa [begins] using hnewline
            rw [hb]
            rfl
      · rw [← hboth]
        rfl
    obtain ⟨b, rfl⟩ := char_of_lineEnd hfits hends
    exact passes_lineEnd h hcomment
  · have hnone : c.comment = false := Bool.eq_false_iff.mpr hcomment
    cases piece with
    | word w => exact passes_word h hnone hfits.1 hfits.2.1
    | char b =>
        obtain ⟨-, hquote, hhash, hbackslash, hnul⟩ := hfits
        exact passes_char h hnone ⟨hquote, hhash, hbackslash, hnul⟩
    | join e => exact passes_join h hnone hfits
    | comment t => exact passes_comment h hnone hfits.1 hright
    | short w q body => exact passes_short h hnone hfits hright
    | long w q body => exact passes_long h hnone hfits hright

/-! ### The whole text -/

/-- From one piece to the next, to the end of the text. -/
theorem runs_pieces {ps : List Piece} (hlexed : Lexed ps) (hstep : InStep before ps)
    (h : Ready before p (textOf ps) kept k cnt c) :
    ∃ k' cnt' c', Runs p (textOf ps) (outer k cnt 0 c) (outer k' cnt' 0 c') ∧ 0 ≤ cnt' ∧
      c'.escape = false ∧ Copied (kept ++ keptOf ps) c' ∧
      c'.comment = (ps.getLast?.map Piece.isComment).getD c.comment := by
  induction ps generalizing before p kept k cnt c with
  | nil =>
      have hkept : kept ++ keptOf [] = kept := List.append_nil kept
      refine ⟨k, cnt, c, Runs.nil p _, h.nonneg, h.escape, ?_, rfl⟩
      rw [hkept]
      exact h.copied (Or.inr rfl)
  | cons piece ps ih =>
      obtain ⟨hfits, hlexed⟩ := hlexed
      obtain ⟨hright, hstep⟩ := hstep
      obtain ⟨k₁, cnt₁, c₁, hfirst, hready, hends⟩ := runs_piece h hfits hright
      obtain ⟨k₂, cnt₂, c₂, hrest, hcnt, hescape, hcopied, hcomment⟩ := ih hlexed hstep hready
      refine ⟨k₂, cnt₂, c₂, hfirst.append hrest, hcnt, hescape, ?_, ?_⟩
      · rwa [List.append_assoc] at hcopied
      · cases ps with
        | nil => rw [hcomment]; exact hends rfl
        | cons piece' ps => rw [hcomment, List.getLast?_cons_cons, List.getLast?_cons]; rfl

end Piece

end TagHighlight.StripPython
