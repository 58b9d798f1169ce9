/-
What `handle_cstyle` keeps of C-like text.

As long as the variables `want` and `esc` say what the lexing of C says, a round of the loop
copies what lies outside of comments and literals: `Follows` is that for the bytes a round
uses up, and one such statement can be put after the other.  There is one place where the
variables get ahead.  At the end of a literal or a block comment the index is moved on by one
byte, which is copied without a look at it.  If that byte opens a literal or a comment it is
the first byte of the output that should not be there.

The lexing of C is written down by itself, byte by byte, and knows nothing of these variables.
What is asked is not only that the text is right, but that each byte of it was copied from its own
place; otherwise a byte too much here and one too few there could be taken for the right text.
-/
import TagHighlight.Lang.StripC

namespace TagHighlight.StripC

open Ascii CtagsScan

/-! ### Columns

A byte of the output is known by the column it was copied from.  So that two outputs are equal can
be said of their columns, and a byte that should not be there is found by its column, which comes
before those of all that follow.
-/

@[simp] theorem vis_append (xs ys : List (Nat × UInt8)) : vis (xs ++ ys) = vis xs ++ vis ys :=
  List.filter_append xs ys

@[simp] theorem copiedFrom_append (xs ys : List Piece) :
    copiedFrom (xs ++ ys) = copiedFrom xs ++ copiedFrom ys := List.filterMap_append

theorem copiedFrom_singleton (col : Nat) (b : UInt8) :
    copiedFrom [⟨some col, b⟩] = vis [(col, b)] := by
  unfold copiedFrom vis
  by_cases hb : isVisible b = true
  · simp [hb]
  · simp [hb]

/-- Lexing from a column on gives no column before it. -/
theorem col_le {mode : Mode} {col : Nat} {rest : BString} {p : Nat × UInt8}
    (h : p ∈ (lexLine mode col rest).1) : col ≤ p.1 := by
  induction rest generalizing mode col with
  | nil => exact absurd h List.not_mem_nil
  | cons b rest ih =>
    unfold lexLine at h
    dsimp only at h
    split at h
    · rcases List.mem_cons.mp h with rfl | h
      · exact Nat.le_refl _
      · exact Nat.le_of_succ_le (ih h)
    · exact Nat.le_of_succ_le (ih h)

/-- Where a literal or a comment opens, its first byte is not outside. -/
theorem col_lt_of_opens {col : Nat} {rest : BString} {p : Nat × UInt8} (hopens : opens rest = true)
    (h : p ∈ (lexLine .source col rest).1) : col < p.1 := by
  cases rest with
  | nil => exact absurd h List.not_mem_nil
  | cons b rest =>
    have hnext : Mode.source.next b rest.head? ≠ .source := by simpa [opens] using hopens
    unfold lexLine at h
    dsimp only at h
    rw [if_neg (fun hc => hnext hc.2)] at h
    exact col_le h

theorem lexLine_lineComment (col : Nat) (rest : BString) :
    lexLine .lineComment col rest = ([], .lineComment) := by
  induction rest generalizing col with
  | nil => rfl
  | cons b rest ih =>
    unfold lexLine
    simp only [Mode.next, ih]
    rfl

theorem touching_lineComment (rest : BString) : touching .lineComment rest = false := by
  induction rest with
  | nil => rfl
  | cons b rest ih =>
    unfold touching
    simp only [Mode.next, ih]
    rfl

/-! ### In agreement with the lexing

The lexing goes byte by byte, and a round of the loop may use up three.  `Follows` says of a
number of bytes where the lexing is behind them and which of them are outside, so the statements
for single bytes are put together to one for a round.
-/

/-- Using up `n` bytes leads from one mode to the other, and these are the bytes kept. -/
structure Follows (mode : Mode) (col : Nat) (rest : BString) (n : Nat) (pieces : List Piece)
    (mode' : Mode) : Prop where
  kept : vis (lexLine mode col rest).1 =
    copiedFrom pieces ++ vis (lexLine mode' (col + n) (rest.drop n)).1
  ends : (lexLine mode col rest).2 = (lexLine mode' (col + n) (rest.drop n)).2
  touching : touching mode rest = StripC.touching mode' (rest.drop n)

namespace Follows

variable {mode mode' mode'' : Mode} {col n m : Nat} {rest : BString} {pieces pieces' : List Piece}

theorem trans (h : Follows mode col rest n pieces mode')
    (h' : Follows mode' (col + n) (rest.drop n) m pieces' mode'') :
    Follows mode col rest (n + m) (pieces ++ pieces') mode'' where
  kept := by
    rw [h.kept, h'.kept, copiedFrom_append, List.append_assoc, List.drop_drop, Nat.add_assoc]
  ends := by rw [h.ends, h'.ends, List.drop_drop, Nat.add_assoc]
  touching := by rw [h.touching, h'.touching, List.drop_drop]

/-- At the end of the line there is nothing to use up. -/
theorem nil (mode : Mode) (col n : Nat) : Follows mode col [] n [] mode where
  kept := by rw [List.drop_nil]; rfl
  ends := by rw [List.drop_nil]; rfl
  touching := by rw [List.drop_nil]

/-- A byte outside. -/
theorem outside {b : UInt8} (hnext : Mode.source.next b rest.head? = .source) :
    Follows .source col (b :: rest) 1 [⟨some col, b⟩] .source where
  kept := by
    rw [copiedFrom_singleton, ← vis_append, lexLine]
    simp only [hnext, and_self, if_true]
    rfl
  ends := by
    rw [lexLine]
    simp only [hnext]
    rfl
  touching := by
    rw [StripC.touching]
    simp only [hnext]
    rfl

/-- A byte that opens something, or is inside. -/
theorem inside {b : UInt8} (hnext : mode.next b rest.head? = mode') (hne : mode' ≠ .source) :
    Follows mode col (b :: rest) 1 [] mode' where
  kept := by
    rw [lexLine]
    simp only [hnext, hne, and_false, if_false]
    rfl
  ends := by
    rw [lexLine]
    simp only [hnext]
    rfl
  touching := by
    have hfalse : (mode' == .source) = false := by simpa using hne
    rw [StripC.touching]
    simp only [hnext, hfalse, Bool.and_false, Bool.false_and, Bool.false_or]
    rfl

/-- A byte that closes something, with nothing opening after it. -/
theorem close {b : UInt8} (hmode : mode ≠ .source) (hnext : mode.next b rest.head? = .source)
    (hopens : opens rest = false) : Follows mode col (b :: rest) 1 [] .source where
  kept := by
    rw [lexLine]
    simp only [hmode, false_and, if_false, hnext]
    rfl
  ends := by
    rw [lexLine]
    simp only [hnext]
    rfl
  touching := by
    rw [StripC.touching]
    simp only [hnext, hopens, Bool.and_false, Bool.false_or]
    rfl

/-- What is put in without a column does not count. -/
theorem congr (h : Follows mode col rest n pieces mode')
    (hpieces : copiedFrom pieces = copiedFrom pieces') : Follows mode col rest n pieces' mode' where
  kept := by rw [h.kept, hpieces]
  ends := h.ends
  touching := h.touching

end Follows

/-! ### A round

The cases are those of the loop: what is wanted, and what the byte opens.  In each of them it is
shown that the variables agree with the lexing after the round again, and that what was copied is
what the lexing says is outside.
-/

/-- The variables say what the lexing does. -/
inductive Agrees : Want → Bool → Mode → Prop where
  | source (esc : Bool) : Agrees .nothing esc .source
  | comment (esc : Bool) : Agrees .star esc .comment
  | literal {q : UInt8} (hq : q = singleQuote ∨ q = doubleQuote) :
      Agrees (.quote q) false (.literal q)
  | escaped {q : UInt8} (hq : q = singleQuote ∨ q = doubleQuote) :
      Agrees (.quote q) true (.escaped q)

/-- `esc` after a round. -/
def escAfter (r : Round) (rest : BString) (esc : Bool) : Bool :=
  if byteAt rest r.skip = backslash then !esc else false

/-- A round goes on in agreement with the lexing. -/
def GoesOn (want : Want) (esc : Bool) (mode : Mode) (col : Nat) (rest : BString) : Prop :=
  ∃ r mode', round want esc rest = some r ∧ Agrees r.want (escAfter r rest esc) mode' ∧
    Follows mode col rest (r.skip + 1) (r.added ++ copied r rest col) mode'

/-- A round copies the byte that opens a literal or a comment. -/
def Spoils (want : Want) (esc : Bool) (mode : Mode) (col : Nat) (rest : BString) : Prop :=
  touching mode rest = true ∧ ∃ r p, round want esc rest = some r ∧
    copiedFrom (r.added ++ copied r rest col) = [p] ∧
    ∀ x ∈ (lexLine mode col rest).1, p.1 < x.1

section Round

variable {esc : Bool} {col : Nat} {c : UInt8} {cs : BString}

theorem byteAt_zero : byteAt (c :: cs) 0 = c := rfl

theorem byteAt_one : byteAt (c :: cs) 1 = cs.head?.getD 0 := by
  cases cs <;> rfl

/-- To look ahead by an index is to look at what follows. -/
theorem byteAt_one_eq {b : UInt8} (hb : b ≠ 0) : byteAt (c :: cs) 1 = b ↔ cs.head? = some b := by
  rw [byteAt_one]
  cases cs.head? with
  | none => simp [hb.symm]
  | some d => simp

theorem isBlank_iff {b : UInt8} : isBlank b = true ↔ b = space ∨ b = tab := by
  simp [isBlank]

/-- A blank opens and closes nothing. -/
theorem blank_ne (hc : isBlank c = true) : c ≠ singleQuote ∧ c ≠ doubleQuote ∧ c ≠ slash ∧
    c ≠ star ∧ c ≠ backslash := by
  rcases isBlank_iff.mp hc with rfl | rfl
  · decide
  · decide

theorem copied_nothing (skip : Nat) (added : List Piece) (hne : byteAt (c :: cs) skip ≠ 0) :
    copied ⟨.nothing, skip, added⟩ (c :: cs) col =
      [⟨some (col + skip), byteAt (c :: cs) skip⟩] := if_pos ⟨rfl, hne⟩

theorem copied_wanted {r : Round} (hwant : r.want ≠ .nothing) : copied r (c :: cs) col = [] :=
  if_neg fun hc => hwant hc.1

/-- Nothing is wanted, and nothing opens. -/
theorem goesOn_outside (hc : c ≠ 0) (hnext : Mode.source.next c cs.head? = .source) :
    GoesOn .nothing esc .source col (c :: cs) := by
  have hround : round .nothing esc (c :: cs) = some ⟨.nothing, 0, []⟩ := by
    unfold Mode.next at hnext
    dsimp only at hnext
    unfold round
    simp only [byteAt_zero, byteAt_one_eq (show star ≠ 0 by decide),
      byteAt_one_eq (show slash ≠ 0 by decide)]
    split at hnext
    · cases hnext
    rename_i hquote
    split at hnext
    · cases hnext
    rename_i hstar
    split at hnext
    · cases hnext
    rename_i hslash
    rw [if_neg hquote, if_neg hstar, if_neg hslash, ite_self]
  refine ⟨_, .source, hround, .source _, ?_⟩
  rw [List.nil_append, copied_nothing 0 [] hc]
  exact Follows.outside hnext

/-- Nothing is wanted, and a literal opens. -/
theorem goesOn_quote (hquote : c = singleQuote ∨ c = doubleQuote) :
    GoesOn .nothing esc .source col (c :: cs) := by
  have hne : ¬isBlank c = true ∧ c ≠ backslash := by
    rcases hquote with rfl | rfl
    · decide
    · decide
  have hround : round .nothing esc (c :: cs) = some ⟨.quote c, 0, []⟩ := by
    show (if isBlank c = true then _ else if c = singleQuote ∨ c = doubleQuote then _ else _) = _
    rw [if_neg hne.1, if_pos hquote]
    rfl
  have hnext : Mode.source.next c cs.head? = .literal c := if_pos hquote
  have hagrees : Agrees (.quote c) (escAfter ⟨.quote c, 0, []⟩ (c :: cs) esc) (.literal c) := by
    rw [escAfter, byteAt_zero, if_neg hne.2]
    exact .literal hquote
  refine ⟨_, .literal c, hround, hagrees, ?_⟩
  rw [List.nil_append, copied_wanted Want.noConfusion]
  exact Follows.inside hnext Mode.noConfusion

/-- Nothing is wanted, and a block comment opens. -/
theorem goesOn_opening : GoesOn .nothing esc .source col (slash :: star :: cs) := by
  have hround : round .nothing esc (slash :: star :: cs) = some ⟨.star, 1, [⟨none, space⟩]⟩ := rfl
  refine ⟨_, .comment, hround, .comment _, ?_⟩
  have hopening : Follows .source col (slash :: star :: cs) 1 [] .opening :=
    Follows.inside (show Mode.source.next slash (some star) = .opening by decide) Mode.noConfusion
  have hcomment : Follows .opening (col + 1) (star :: cs) 1 [] .comment :=
    Follows.inside rfl Mode.noConfusion
  exact (hopening.trans hcomment).congr rfl

/-- Nothing is wanted: every byte but one that opens a line comment. -/
theorem source_round (hc : c ≠ 0) (hcomment : ¬(c = slash ∧ cs.head? = some slash)) :
    GoesOn .nothing esc .source col (c :: cs) := by
  by_cases hquote : c = singleQuote ∨ c = doubleQuote
  · exact goesOn_quote hquote
  by_cases hstar : c = slash ∧ cs.head? = some star
  · obtain ⟨cs', rfl⟩ := List.head?_eq_some_iff.mp hstar.2
    rw [hstar.1]
    exact goesOn_opening
  · apply goesOn_outside hc
    unfold Mode.next
    dsimp only
    rw [if_neg hquote, if_neg hstar, if_neg hcomment]

/-- A line comment: the rest of the line is passed over. -/
theorem round_lineComment : round .nothing esc (slash :: slash :: cs) = none := rfl

/-! ### The end of a literal or of a block comment

The index is moved on to the byte behind the end, and this one is copied by the same round.  If it
is a byte of code, that is right.  If it opens a literal or a comment, the loop has missed that,
and takes what is inside for code.
-/

theorem byteAt_eq_head? (s : BString) (i : Nat) : byteAt s i = (s.drop i).head?.getD 0 := by
  rw [List.head?_drop, byteAt, List.getD_eq_getElem?_getD]

/-- What opens something can be seen. -/
theorem visible_of_opens {d : UInt8} {ds : BString} (h : opens (d :: ds) = true) :
    isVisible d = true := by
  by_cases hd : isVisible d = true
  · exact hd
  exfalso
  have hblank : d = space ∨ d = tab ∨ d = newline := by
    simp only [isVisible, isBlank, Bool.not_eq_true', Bool.or_eq_false_iff, not_and_or,
      Bool.not_eq_false, beq_iff_eq, or_assoc] at hd
    exact hd
  rcases hblank with rfl | rfl | rfl
  all_goals exact Bool.false_ne_true h

/--
The byte after the end is copied, which is right unless it opens something.  `n + 1` bytes
are those up to the end.
-/
theorem after_close {want : Want} {mode : Mode} {n : Nat} (hnul : 0 ∉ c :: cs)
    (hround : round want esc (c :: cs) = some ⟨.nothing, n + 1, []⟩)
    (hclose : opens ((c :: cs).drop (n + 1)) = false →
      Follows mode col (c :: cs) (n + 1) [] .source)
    (hlex : (lexLine mode col (c :: cs)).1 =
      (lexLine .source (col + (n + 1)) ((c :: cs).drop (n + 1))).1)
    (htouching : opens ((c :: cs).drop (n + 1)) = true → touching mode (c :: cs) = true) :
    GoesOn want esc mode col (c :: cs) ∨ Spoils want esc mode col (c :: cs) := by
  have hbyte := byteAt_eq_head? (c :: cs) (n + 1)
  have hnul' : 0 ∉ (c :: cs).drop (n + 1) := fun h => hnul (List.mem_of_mem_drop h)
  cases hrest : (c :: cs).drop (n + 1) with
  | nil =>
    -- The line ends here, and nothing is copied.
    rw [hrest] at hclose hbyte
    left
    refine ⟨_, .source, hround, .source _, ?_⟩
    have hcopied : copied ⟨.nothing, n + 1, []⟩ (c :: cs) col = [] :=
      if_neg fun hc => hc.2 hbyte
    have hend : Follows .source (col + (n + 1)) ((c :: cs).drop (n + 1)) 1 [] .source := by
      rw [hrest]
      exact Follows.nil .source _ 1
    rw [hcopied]
    exact (hclose rfl).trans hend
  | cons d ds =>
    have hd : d ≠ 0 := fun heq => hnul' (by rw [hrest, heq]; exact List.mem_cons_self)
    rw [hrest] at hclose hbyte hlex htouching
    have hbyte : byteAt (c :: cs) (n + 1) = d := hbyte
    have hcopied : copied ⟨.nothing, n + 1, []⟩ (c :: cs) col = [⟨some (col + (n + 1)), d⟩] := by
      rw [copied_nothing (n + 1) [] (hbyte ▸ hd), hbyte]
    cases hopens : opens (d :: ds) with
    | false =>
      left
      refine ⟨_, .source, hround, .source _, ?_⟩
      have hraw : Follows .source (col + (n + 1)) ((c :: cs).drop (n + 1)) 1
          [⟨some (col + (n + 1)), d⟩] .source := by
        rw [hrest]
        exact Follows.outside (by simpa [opens] using hopens)
      rw [hcopied]
      exact (hclose hopens).trans hraw
    | true =>
      right
      refine ⟨htouching hopens, _, (col + (n + 1), d), hround, ?_, ?_⟩
      · rw [hcopied, List.nil_append, copiedFrom_singleton, vis, List.filter_cons_of_pos]
        · rfl
        · exact visible_of_opens hopens
      · intro x hx
        rw [hlex] at hx
        exact col_lt_of_opens hopens hx

theorem round_star : round .star esc (c :: cs) =
    if c = star ∧ cs.head? = some slash then some ⟨.nothing, 2, []⟩ else some ⟨.star, 0, []⟩ := by
  have hround : round .star esc (c :: cs) = if isBlank c then some ⟨.star, 0, []⟩
      else if c = star ∧ byteAt (c :: cs) 1 = slash then some ⟨.nothing, 2, []⟩
      else some ⟨.star, 0, []⟩ := rfl
  simp only [hround, byteAt_one_eq (show slash ≠ 0 by decide)]
  split
  · rename_i hblank
    rw [if_neg (fun h => (blank_ne hblank).2.2.2.1 h.1)]
  · rfl

theorem round_quote {q : UInt8} (hq : ¬isBlank q = true) : round (.quote q) esc (c :: cs) =
    if c = q ∧ ¬esc then some ⟨.nothing, 1, []⟩ else some ⟨.quote q, 0, []⟩ := by
  have hround : round (.quote q) esc (c :: cs) = if isBlank c then some ⟨.quote q, 0, []⟩
      else if c = q ∧ ¬esc then some ⟨.nothing, 1, []⟩ else some ⟨.quote q, 0, []⟩ := rfl
  rw [hround]
  split
  · rename_i hblank
    rw [if_neg]
    rintro ⟨rfl, -⟩
    exact hq hblank
  · rfl

/-- In a block comment. -/
theorem comment_round (hnul : 0 ∉ c :: cs) :
    GoesOn .star esc .comment col (c :: cs) ∨ Spoils .star esc .comment col (c :: cs) := by
  by_cases hend : c = star ∧ cs.head? = some slash
  · obtain ⟨cs', rfl⟩ := List.head?_eq_some_iff.mp hend.2
    obtain rfl := hend.1
    have hclosing : Follows .comment col (star :: slash :: cs') 1 [] .closing :=
      Follows.inside (show Mode.comment.next star (some slash) = .closing by decide) Mode.noConfusion
    refine after_close (n := 1) hnul rfl ?_ rfl ?_
    · intro hopens
      exact hclosing.trans (Follows.close Mode.noConfusion rfl hopens)
    · intro hopens
      rw [hclosing.touching]
      show (opens cs' || _) = true
      rw [show opens cs' = true from hopens, Bool.true_or]
  · left
    have hround : round .star esc (c :: cs) = some ⟨.star, 0, []⟩ := by
      rw [round_star, if_neg hend]
    refine ⟨_, .comment, hround, .comment _, ?_⟩
    rw [List.nil_append, copied_wanted Want.noConfusion]
    exact Follows.inside (if_neg hend) Mode.noConfusion

/-- In a literal. -/
theorem literal_round {q : UInt8} (hq : q = singleQuote ∨ q = doubleQuote) (hnul : 0 ∉ c :: cs) :
    GoesOn (.quote q) false (.literal q) col (c :: cs) ∨
      Spoils (.quote q) false (.literal q) col (c :: cs) := by
  have hqne : q ≠ backslash ∧ ¬isBlank q = true := by
    rcases hq with rfl | rfl
    · decide
    · decide
  by_cases hend : c = q
  · subst hend
    have hnext : (Mode.literal c).next c cs.head? = .source :=
      (if_neg hqne.1).trans (if_pos rfl)
    have hround : round (.quote c) false (c :: cs) = some ⟨.nothing, 1, []⟩ := by
      rw [round_quote hqne.2, if_pos ⟨rfl, Bool.false_ne_true⟩]
    refine after_close (n := 0) hnul hround ?_ ?_ ?_
    · intro hopens
      exact Follows.close Mode.noConfusion hnext hopens
    · rw [lexLine]
      simp only [hnext]
      rfl
    · intro hopens
      rw [touching]
      simp only [hnext, show opens cs = true from hopens]
      rfl
  left
  have hround : round (.quote q) false (c :: cs) = some ⟨.quote q, 0, []⟩ := by
    rw [round_quote hqne.2, if_neg (fun h => hend h.1)]
  by_cases hback : c = backslash
  · have hagrees : Agrees (.quote q) (escAfter ⟨.quote q, 0, []⟩ (c :: cs) false) (.escaped q) := by
      rw [escAfter, byteAt_zero, if_pos hback]
      exact .escaped hq
    refine ⟨_, .escaped q, hround, hagrees, ?_⟩
    rw [List.nil_append, copied_wanted Want.noConfusion]
    exact Follows.inside (if_pos hback) Mode.noConfusion
  · have hagrees : Agrees (.quote q) (escAfter ⟨.quote q, 0, []⟩ (c :: cs) false) (.literal q) := by
      rw [escAfter, byteAt_zero, if_neg hback]
      exact .literal hq
    refine ⟨_, .literal q, hround, hagrees, ?_⟩
    rw [List.nil_append, copied_wanted Want.noConfusion]
    exact Follows.inside ((if_neg hback).trans (if_neg hend)) Mode.noConfusion

/-- After a backslash in a literal. -/
theorem escaped_round {q : UInt8} (hq : q = singleQuote ∨ q = doubleQuote) :
    GoesOn (.quote q) true (.escaped q) col (c :: cs) := by
  have hblank : ¬isBlank q = true := by
    rcases hq with rfl | rfl
    · decide
    · decide
  have hround : round (.quote q) true (c :: cs) = some ⟨.quote q, 0, []⟩ := by
    rw [round_quote hblank, if_neg (fun h => h.2 rfl)]
  have hagrees : Agrees (.quote q) (escAfter ⟨.quote q, 0, []⟩ (c :: cs) true) (.literal q) := by
    rw [escAfter, Bool.not_true, ite_self]
    exact .literal hq
  refine ⟨_, .literal q, hround, hagrees, ?_⟩
  rw [List.nil_append, copied_wanted Want.noConfusion]
  exact Follows.inside rfl Mode.noConfusion

end Round

/-! ### A line

By induction over the bytes of the line.  Either all rounds are in agreement to the end of the
line, or there is a first one that is not, and its byte is in the output and should not be.
-/

section Line

variable {line rest : BString} {want : Want} {esc : Bool} {mode : Mode}

/-- Every round, where the variables agree with the lexing. -/
theorem round_cases (col : Nat) {c : UInt8} {cs : BString} (h : Agrees want esc mode) (hnul : 0 ∉ c :: cs) :
    GoesOn want esc mode col (c :: cs) ∨ Spoils want esc mode col (c :: cs) ∨
      mode = .source ∧ want = .nothing ∧ c = slash ∧ cs.head? = some slash := by
  have hc : c ≠ 0 := fun heq => hnul (heq ▸ List.mem_cons_self)
  cases h with
  | source =>
    by_cases hcomment : c = slash ∧ cs.head? = some slash
    · exact Or.inr (Or.inr ⟨rfl, rfl, hcomment⟩)
    · exact Or.inl (source_round hc hcomment)
  | comment => exact (comment_round hnul).imp_right Or.inl
  | literal hq => exact (literal_round hq hnul).imp_right Or.inl
  | escaped hq => exact Or.inl (escaped_round hq)

theorem scan_nil (line : BString) (n col : Nat) (want : Want) (esc : Bool) :
    scan line n [] col want esc = (want, []) := by
  cases n <;> rfl

theorem scan_round {n col : Nat} {r : Round} {c : UInt8} {cs : BString}
    (h : round want esc (c :: cs) = some r) :
    let next := scan line n ((c :: cs).drop (r.skip + 1)) (col + (r.skip + 1)) r.want
      (escAfter r (c :: cs) esc)
    scan line (n + 1) (c :: cs) col want esc =
      (next.1, r.added ++ copied r (c :: cs) col ++ next.2) := by
  rw [scan]
  simp only [h]
  rfl

theorem scan_none {n col : Nat} {c : UInt8} {cs : BString} (h : round want esc (c :: cs) = none) :
    scan line (n + 1) (c :: cs) col want esc = (afterLineComment line, []) := by
  rw [scan]
  simp only [h]

theorem afterLineComment_eq (hlast : line.getLast? ≠ some backslash) :
    afterLineComment line = .nothing := by
  refine if_neg fun h => hlast ?_
  have hbyte := h.1
  rw [byteAt, List.getD_eq_getElem?_getD, ← List.getLast?_eq_getElem?] at hbyte
  cases hlast' : line.getLast? with
  | none =>
    rw [hlast'] at hbyte
    exact absurd hbyte (by decide)
  | some b =>
    rw [hlast', Option.getD_some] at hbyte
    rw [hbyte]

/-- No backslash is left over at the end of a line that does not end in one. -/
theorem escAfter_end {r : Round} (hback : rest.getLast? ≠ some backslash)
    (hend : rest.drop (r.skip + 1) = []) : escAfter r rest esc = false := by
  refine if_neg fun hbyte => hback ?_
  rw [byteAt_eq_head?] at hbyte
  cases hrest : rest.drop r.skip with
  | nil =>
    rw [hrest] at hbyte
    exact absurd hbyte (by decide)
  | cons b bs =>
    rw [hrest] at hbyte
    have hbyte : b = backslash := hbyte
    have hone : bs = [] := by
      rw [← List.drop_drop, hrest] at hend
      exact hend
    have hlast : (rest.drop r.skip).getLast? = some b := by
      rw [hrest, hone]
      rfl
    rw [List.getLast?_drop] at hlast
    split at hlast
    · cases hlast
    · rw [hlast, hbyte]

theorem last_drop_ne {b : UInt8} (h : rest.getLast? ≠ some b) (n : Nat) :
    (rest.drop n).getLast? ≠ some b := by
  rw [List.getLast?_drop]
  split
  · exact fun hc => nomatch hc
  · exact h

theorem endLine_of_agrees (h : Agrees want esc mode) : mode.endLine = mode := by
  cases h <;> rfl

/-- At the end of the line. -/
theorem scan_exact_nil (n col : Nat) (h : Agrees want esc mode) (hesc : esc = false) :
    copiedFrom (scan line n [] col want esc).2 = vis (lexLine mode col []).1 ∧
      Agrees (scan line n [] col want esc).1 false (lexLine mode col []).2.endLine := by
  rw [scan_nil]
  refine ⟨rfl, ?_⟩
  show Agrees want false mode.endLine
  rw [endLine_of_agrees h, ← hesc]
  exact h

/-- **What the loop copies of a line**, and what it carries on to the next one. -/
theorem scan_exact (n col : Nat) (hn : rest.length ≤ n) (hlast : line.getLast? ≠ some backslash)
    (h : Agrees want esc mode) (hnul : 0 ∉ rest) (hback : rest.getLast? ≠ some backslash)
    (hesc : rest = [] → esc = false) :
    (touching mode rest = false →
      copiedFrom (scan line n rest col want esc).2 = vis (lexLine mode col rest).1 ∧
        Agrees (scan line n rest col want esc).1 false (lexLine mode col rest).2.endLine) ∧
    (touching mode rest = true →
      copiedFrom (scan line n rest col want esc).2 ≠ vis (lexLine mode col rest).1) := by
  induction n generalizing rest col want esc mode with
  | zero =>
    obtain rfl : rest = [] := List.length_eq_zero_iff.mp (Nat.le_zero.mp hn)
    exact ⟨fun _ => scan_exact_nil 0 col h (hesc rfl), fun htouch => absurd htouch Bool.false_ne_true⟩
  | succ n ih =>
  cases rest with
  | nil =>
    exact ⟨fun _ => scan_exact_nil (n + 1) col h (hesc rfl),
      fun htouch => absurd htouch Bool.false_ne_true⟩
  | cons c cs =>
    rcases round_cases col h hnul with hgo | hspoil | hcomment
    · obtain ⟨r, mode', hround, hagrees, hfollows⟩ := hgo
      have hshort : ((c :: cs).drop (r.skip + 1)).length ≤ n := by
        rw [List.length_cons] at hn
        rw [List.length_drop, List.length_cons]
        omega
      obtain ⟨hexact, hspoilt⟩ := ih (col + (r.skip + 1)) hshort hagrees
        (fun hmem => hnul (List.mem_of_mem_drop hmem)) (last_drop_ne hback _) (escAfter_end hback)
      rw [scan_round hround, hfollows.touching, hfollows.kept, hfollows.ends]
      simp only [copiedFrom_append]
      constructor
      · intro htouch
        obtain ⟨hkept, hends⟩ := hexact htouch
        exact ⟨by rw [hkept], hends⟩
      · intro htouch heq
        exact hspoilt htouch (List.append_cancel_left heq)
    · -- The byte copied is before all that should be.
      obtain ⟨htouch, r, p, hround, hcopied, hbefore⟩ := hspoil
      refine ⟨fun hfalse => absurd (htouch.symm.trans hfalse) (by decide), fun _ heq => ?_⟩
      rw [scan_round hround, copiedFrom_append, hcopied] at heq
      have hmem : p ∈ vis (lexLine mode col (c :: cs)).1 := by
        rw [← heq]
        exact List.mem_cons_self
      exact Nat.lt_irrefl _ (hbefore p (List.mem_of_mem_filter hmem))
    · obtain ⟨rfl, rfl, rfl, hnext⟩ := hcomment
      obtain ⟨cs', rfl⟩ := List.head?_eq_some_iff.mp hnext
      have hline : Mode.source.next slash (some slash) = .lineComment := by decide
      have hfollows : Follows .source col (slash :: slash :: cs') 1 [] .lineComment :=
        Follows.inside hline Mode.noConfusion
      rw [hfollows.touching, hfollows.kept, hfollows.ends, touching_lineComment,
        lexLine_lineComment, scan_none round_lineComment, afterLineComment_eq hlast]
      exact ⟨fun _ => ⟨rfl, .source _⟩, fun htouch => absurd htouch Bool.false_ne_true⟩

end Line

/-! ### All lines

What is carried from one line to the next is `want`, and whether a part is skipped.  If a line is
exact then both are what the lexing carries on, so the next line begins in agreement; and the
first line that is not exact settles it for all.
-/

theorem Follows.refl (mode : Mode) (col : Nat) (rest : BString) :
    Follows mode col rest 0 [] mode where
  kept := rfl
  ends := rfl
  touching := rfl

/-- Blanks can be passed over. -/
theorem follows_blanks {mode : Mode} (hmode : mode = .source ∨ mode = .comment) (col : Nat)
    (line : BString) : Follows mode col line (line.takeWhile isBlank).length [] mode := by
  induction line generalizing col with
  | nil => exact Follows.nil mode col 0
  | cons b line ih =>
    by_cases hb : isBlank b = true
    · have hbyte : Follows mode col (b :: line) 1 [] mode := by
        obtain ⟨hsingle, hdouble, hslash, hstar, -⟩ := blank_ne hb
        rcases hmode with rfl | rfl
        · have hnext : Mode.source.next b line.head? = .source := by
            simp [Mode.next, hsingle, hdouble, hslash]
          refine (Follows.outside hnext).congr ?_
          rw [copiedFrom_singleton]
          simp [vis, isVisible, hb, copiedFrom]
        · exact Follows.inside (if_neg fun h => hstar h.1) Mode.noConfusion
      rw [List.takeWhile_cons_of_pos hb, List.length_cons, Nat.add_comm]
      exact hbyte.trans (ih (col + 1))
    · rw [List.takeWhile_cons_of_neg hb]
      exact Follows.refl mode col (b :: line)

theorem drop_takeWhile_length (p : UInt8 → Bool) (l : BString) :
    l.drop (l.takeWhile p).length = l.dropWhile p := by
  have h := List.takeWhile_append_dropWhile (p := p) (l := l)
  have hdrop := congrArg (List.drop (l.takeWhile p).length) h
  rw [List.drop_left] at hdrop
  exact hdrop.symm

/-- The test for `#if 0` in terms of the line. -/
theorem isIfZero_of_directive {line : BString} {i : Nat} (hi : i = (line.takeWhile isBlank).length)
    (hhash : byteAt line i = hash) (hif : (bt "if 0").isPrefixOf (directive line i) = true) :
    isIfZero line = true := by
  have hrest := drop_takeWhile_length isBlank line
  rw [← hi] at hrest
  rw [byteAt_eq_head?, hrest] at hhash
  rw [directive, ← List.drop_drop, hrest] at hif
  unfold isIfZero
  cases hline : line.dropWhile isBlank with
  | nil =>
    rw [hline] at hhash
    exact absurd hhash (by decide)
  | cons b rest =>
    rw [hline] at hhash hif
    have hb : b = hash := hhash
    have hif : (bt "if 0").isPrefixOf (rest.dropWhile isBlank) = true := hif
    simp only [hb, hif, beq_self_eq_true, Bool.and_self]

section Lines

variable {s : State} {mode : Mode} {line : BString} {lines : List BString}

/-- A line that is not skipped goes through the loop. -/
theorem handleLine_scan (h : Agrees s.want false mode) (hif : mode = .source → isIfZero line = false) :
    let i := (line.takeWhile isBlank).length
    handleLine s line = ({ s with want := (scan line line.length (line.drop i) i s.want false).1 },
      (scan line line.length (line.drop i) i s.want false).2) := by
  have hzero : s.want ≠ .ifZero := by
    intro heq
    rw [heq] at h
    cases h
  have hnot : ¬(s.want = .nothing ∧ byteAt line (line.takeWhile isBlank).length = hash ∧
      (bt "if 0").isPrefixOf (directive line (line.takeWhile isBlank).length) = true) := by
    rintro ⟨hwant, hhash, hfront⟩
    rw [hwant] at h
    cases h
    have htrue := isIfZero_of_directive rfl hhash hfront
    rw [hif rfl] at htrue
    cases htrue
  unfold handleLine
  dsimp only
  rw [if_neg hzero, if_neg hnot]

/-- What is copied of a line, and in what state it leaves the loop over lines. -/
theorem handleLine_exact (h : Agrees s.want false mode) (hmode : mode = .source ∨ mode = .comment)
    (hnul : 0 ∉ line) (hlast : line.getLast? ≠ some backslash)
    (hif : mode = .source → isIfZero line = false) :
    (touching mode line = false →
      copiedFrom (handleLine s line).2 = vis (lexLine mode 0 line).1 ∧
        Agrees (handleLine s line).1.want false (lexLine mode 0 line).2.endLine) ∧
    (touching mode line = true →
      copiedFrom (handleLine s line).2 ≠ vis (lexLine mode 0 line).1) := by
  obtain ⟨hkept, hends, htouching⟩ := follows_blanks hmode 0 line
  rw [Nat.zero_add] at hkept hends
  rw [handleLine_scan h hif, htouching, hends,
    show vis (lexLine mode 0 line).1 = vis (lexLine mode _ _).1 from hkept]
  exact scan_exact _ _ (by rw [List.length_drop]; omega) hlast h
    (fun hmem => hnul (List.mem_of_mem_drop hmem)) (last_drop_ne hlast _)
    (fun _ => rfl)

/-- The lines one after the other: they are all exact, or the first one that is not is touched. -/
theorem handleLines_exact_iff (h : Agrees s.want false mode)
    (hmode : mode = .source ∨ mode = .comment) (hplain : Plain mode lines) :
    (handleLines s lines).map copiedFrom = (lexLines mode lines).map vis ↔
      anyTouching mode lines = false := by
  induction lines generalizing s mode with
  | nil => exact iff_of_true rfl rfl
  | cons line lines ih =>
    obtain ⟨hnul, hlast, hif, hmode', hrest⟩ := hplain
    obtain ⟨hexact, hspoilt⟩ := handleLine_exact h hmode hnul hlast hif
    unfold handleLines lexLines anyTouching
    simp only [List.map_cons, List.cons.injEq, Bool.or_eq_false_iff]
    cases htouch : touching mode line with
    | false =>
      obtain ⟨hkept, hagrees⟩ := hexact htouch
      simp only [hkept, true_and]
      exact ih hagrees hmode' hrest
    | true => exact iff_of_false (fun heq => hspoilt htouch heq.1) (fun hc => Bool.noConfusion hc.1)

end Lines

/-! ### The text

Besides what is copied there are only blanks in the output, which are not looked at.  So that the
output is right is that its other bytes are, one line behind the other.
-/

/-- Whatever is put in without being copied is a blank. -/
def OnlyBlanks (repl : List Piece) : Prop := ∀ p ∈ repl, p.col = none → isVisible p.byte = false

theorem onlyBlanks_nil : OnlyBlanks [] := fun _ hp => absurd hp List.not_mem_nil

theorem OnlyBlanks.append {xs ys : List Piece} (hxs : OnlyBlanks xs) (hys : OnlyBlanks ys) :
    OnlyBlanks (xs ++ ys) := by
  intro p hp
  rcases List.mem_append.mp hp with hp | hp
  · exact hxs p hp
  · exact hys p hp

theorem onlyBlanks_added {want : Want} {esc : Bool} {rest : BString} {r : Round}
    (h : round want esc rest = some r) : OnlyBlanks r.added := by
  have hspace : OnlyBlanks [⟨none, space⟩] := by
    intro p hp _
    rw [List.mem_singleton.mp hp]
    decide
  unfold round at h
  dsimp only at h
  repeat' split at h
  all_goals cases h
  all_goals first
    | exact onlyBlanks_nil
    | exact hspace

theorem onlyBlanks_copied (r : Round) (rest : BString) (col : Nat) :
    OnlyBlanks (copied r rest col) := by
  intro p hp hcol
  unfold copied at hp
  split at hp
  · rw [List.mem_singleton.mp hp] at hcol
    cases hcol
  · exact absurd hp List.not_mem_nil

theorem onlyBlanks_scan (line : BString) (n : Nat) (rest : BString) (col : Nat) (want : Want)
    (esc : Bool) : OnlyBlanks (scan line n rest col want esc).2 := by
  induction n generalizing rest col want esc with
  | zero => exact onlyBlanks_nil
  | succ n ih =>
  cases rest with
  | nil => exact onlyBlanks_nil
  | cons c cs =>
    cases hround : round want esc (c :: cs) with
    | none =>
      rw [scan_none hround]
      exact onlyBlanks_nil
    | some r =>
      rw [scan_round hround]
      exact ((onlyBlanks_added hround).append (onlyBlanks_copied _ _ _)).append (ih _ _ _ _)

theorem onlyBlanks_handleLine (s : State) (line : BString) : OnlyBlanks (handleLine s line).2 := by
  unfold handleLine
  dsimp only
  split
  · split <;> exact onlyBlanks_nil
  · split
    · exact onlyBlanks_nil
    · exact onlyBlanks_scan _ _ _ _ _ _

/-- The visible part of a line's output is what was copied. -/
theorem visible_bytes {repl : List Piece} (h : OnlyBlanks repl) :
    visible (repl.map Piece.byte) = (copiedFrom repl).map Prod.snd := by
  induction repl with
  | nil => rfl
  | cons p repl ih =>
    have hrest := ih fun q hq => h q (List.mem_cons_of_mem _ hq)
    unfold visible copiedFrom at hrest ⊢
    obtain ⟨col, b⟩ := p
    rw [List.map_cons, List.filter_cons, List.filterMap_cons, hrest]
    cases col with
    | none =>
      have hb : isVisible b = false := h ⟨none, b⟩ List.mem_cons_self rfl
      simp [hb]
    | some col =>
      by_cases hb : isVisible b = true
      · simp [hb]
      · simp [hb]

theorem visible_append (xs ys : BString) : visible (xs ++ ys) = visible xs ++ visible ys :=
  List.filter_append xs ys

theorem visible_joinLines {repls : List (List Piece)} (h : ∀ repl ∈ repls, OnlyBlanks repl) :
    visible (joinLines repls) = (repls.map copiedFrom).flatten.map Prod.snd := by
  induction repls with
  | nil => rfl
  | cons repl repls ih =>
    have hrest := ih fun r hr => h r (List.mem_cons_of_mem _ hr)
    have hhead := visible_bytes (h repl List.mem_cons_self)
    rw [List.map_cons, List.flatten_cons, List.map_append, ← hrest, ← hhead]
    unfold joinLines
    by_cases hempty : repl = []
    · subst hempty
      rfl
    · rw [List.filter_cons_of_pos (by simpa using hempty), List.flatMap_cons, visible_append,
        visible_append, show visible [newline] = [] from rfl, List.append_nil]

theorem visible_outside (lines : List BString) :
    visible (outside lines) = ((lexLines .source lines).map vis).flatten.map Prod.snd := by
  unfold visible outside vis
  rw [List.filter_map, ← List.filter_flatten]
  rfl

theorem onlyBlanks_handleLines (s : State) (lines : List BString) :
    ∀ repl ∈ handleLines s lines, OnlyBlanks repl := by
  induction lines generalizing s with
  | nil => exact fun _ hrepl => absurd hrepl List.not_mem_nil
  | cons line lines ih =>
    intro repl hrepl
    unfold handleLines at hrepl
    rcases List.mem_cons.mp hrepl with rfl | hrepl
    · exact onlyBlanks_handleLine s line
    · exact ih _ repl hrepl

/--
**`handle_cstyle` is exact just where no literal and no comment starts right after the end of
a literal or of a block comment.**
-/
theorem handleCstyle_exact_iff {lines : List BString} (h : Plain .source lines) :
    Exact lines ↔ anyTouching .source lines = false := by
  have hlines := handleLines_exact_iff (s := { want := .nothing, ifcount := 0 }) (.source false)
    (Or.inl rfl) h
  constructor
  · intro hexact
    exact hlines.mp hexact.bytes
  · intro htouch
    have hbytes := hlines.mpr htouch
    refine ⟨?_, hbytes⟩
    rw [handleCstyle, visible_joinLines (onlyBlanks_handleLines _ lines), hbytes, visible_outside]

/-! ### A comment after a comment, and a literal after a literal -/

/-- `x = "a" /* b */ 'c'; // d`. -/
def apart : List BString := [bt "x = \"a\" /* b */ 'c'; // d"]

theorem handleCstyle_exact_apart : Exact apart := by
  have hplain : Plain .source apart := ⟨by decide, by decide, by decide, by decide, trivial⟩
  exact (handleCstyle_exact_iff hplain).mpr (by decide)

/-- `x="a""b";`. -/
def adjacent : List BString := [bt "x=\"a\"\"b\";"]

/-- The second literal is taken for source, and the source after it for a literal. -/
theorem adjacent_inexact : Plain .source adjacent ∧ visible (handleCstyle adjacent) = bt "x=\"b" ∧
    visible (outside adjacent) = bt "x=;" ∧ ¬Exact adjacent := by
  have hcode : visible (handleCstyle adjacent) = bt "x=\"b" := by decide
  have hsource : visible (outside adjacent) = bt "x=;" := by decide
  refine ⟨⟨by decide, by decide, by decide, by decide, trivial⟩, hcode, hsource, ?_⟩
  intro h
  have heq := h.text
  rw [hcode, hsource] at heq
  exact absurd heq (by decide)

end TagHighlight.StripC
