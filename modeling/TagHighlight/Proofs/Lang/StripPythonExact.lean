/-
What `handle_python` leaves of a Python text.

Where the counts come out right it copies what stands outside of comments and literals, and the
letters before a quote too, which it does not know.  The byte that it cuts off at the end is the
NUL, but it has not copied the NUL if the text ends in a comment.

Two faults can make up for each other: if the text ends in a comment behind a word, the last byte
of the word is cut off, and if that was a letter too much, the text is right again.  For texts
that have both, nothing is said; for all others the condition is exact.
-/
import TagHighlight.Proofs.Lang.StripPythonPieces

namespace TagHighlight.StripPython

open Ascii Python
open Readers (isSpace)

/-! ### Before the first piece

At the beginning there is a blank in the new buffer that does not come from the text.  It is white
space, so it does not matter for what is visible; but the byte before the first one is not there
to be read, and for this the first round needs a lemma of its own.
-/

/-- The first byte is read as if there were one before it. -/
theorem readChar_start (prev : Option UInt8) (p b : UInt8) :
    readChar prev b State.start = readChar (some p) b State.start := by
  have hquotes := readChar_quote prev []
  have hquotes' := readChar_quote (some p) []
  by_cases hdouble : b = doubleQuote
  · rw [hdouble]
    exact hquotes.1.trans hquotes'.1.symm
  by_cases hsingle : b = singleQuote
  · rw [hsingle]
    exact hquotes.2.trans hquotes'.2.symm
  unfold readChar
  rw [if_neg hdouble, if_neg hdouble, if_neg hsingle, if_neg hsingle]

theorem loop_start (size : Nat) (prev : Option UInt8) (p : UInt8) (t : BString) :
    loop size prev t State.start = loop size (some p) t State.start := by
  have hround : ∀ b, round size prev b State.start = round size (some p) b State.start := by
    intro b
    unfold round
    rw [readChar_start prev p b]
  cases t with
  | nil => exact hround 0
  | cons b t => rw [loop, loop, hround b]

/-- The variables that have nothing to do with quotes, before the loop. -/
def Common.start : Common := { space := 0, buf := [Ascii.space], escape := false, comment := false }

theorem start_eq : State.start = outer .single 0 0 Common.start := rfl

theorem ready_start (next : BString) : Ready none 0 next [] .single 0 Common.start := by
  apply Ready.of_copied rfl rfl
  exact {
    ne_nil := List.cons_ne_nil _ _
    same := rfl
    blank := fun h => absurd rfl h
    last := Or.inr ⟨rfl, rfl⟩ }

/-! ### Behind the last piece

The NUL is read like any other byte, and copied unless the text ends in a comment.  In the end one
byte is cut off, which is the NUL; after a comment it is the last byte that was copied.
-/

section Last

variable {k : Quote} {cnt : Int} {c : Common} {p : UInt8} {size : Nat}

/-- In a comment the NUL is not copied. -/
theorem round_last_comment (hcomment : c.comment = true) :
    round size (some p) 0 (outer k cnt 0 c) = .ok (outer k cnt 0 c) := by
  have hgoes : (outer k cnt 0 c).comment = true ∧ (0 : UInt8) ≠ newline := ⟨hcomment, by decide⟩
  unfold round
  rw [if_neg (fun h => h.1 hcomment), if_pos hgoes]

/-- Elsewhere it is. -/
theorem round_last (hcomment : c.comment = false) (hcnt : 0 ≤ cnt) (hroom : c.buf.length < size) :
    round size (some p) 0 (outer k cnt 0 c) =
      .ok (outer k 0 0 ⟨0, c.buf ++ [0], escapes c.escape 0, false⟩) := by
  have hread : readChar (some p) 0 (outer k cnt 0 c) =
      .ok (seen k .noDocstring (quoteAt k false cnt) (quoteAt k.other false 0) false
        { c with space := 0, comment := false }) := by
    have hsame : { c with space := 0, comment := false } = { c with space := 0 } := by
      rw [← hcomment]
    rw [hsame]
    rfl
  have hnone : c.comment = true → (0 : UInt8) = newline := fun h =>
    absurd h (ne_true_of_eq_false hcomment)
  exact round_copied hroom rfl hnone (Or.inr (by decide)) hcnt (Int.le_refl 0) hread

end Last

theorem nul_not_mem_text {piece : Piece} {next : BString} (hfits : piece.Fits next) :
    0 ∉ piece.text := by
  have hword : ∀ {w : BString}, (∀ b ∈ w, isName b = true) → 0 ∉ w :=
    fun hw hmem => absurd (hw 0 hmem) (by decide)
  have hch : ∀ q : Quote, (0 : UInt8) ≠ q.ch := fun q => (ch_facts q).1.symm
  cases piece with
  | word w => exact hword hfits.2.1
  | char b =>
      obtain ⟨-, -, -, -, hnul⟩ := hfits
      exact fun hmem => hnul (List.mem_singleton.mp hmem).symm
  | join e => rcases hfits with rfl | rfl | rfl <;> decide
  | comment t =>
      intro hmem
      rcases List.mem_cons.mp hmem with hhash | hmem
      · exact absurd hhash (by decide)
      · exact (hfits.1 0 hmem).2 rfl
  | short w q body =>
      obtain ⟨hletters, hbody, -⟩ := hfits
      simp [Piece.text, hword (isName_of_isLetters hletters), hch q,
        nul_not_mem_body fun i hi => (hbody i hi).1]
  | long w q body =>
      obtain ⟨hletters, hbody⟩ := hfits
      simp [Piece.text, hword (isName_of_isLetters hletters), hch q, nul_not_mem_body hbody.ok]

theorem nul_not_mem_textOf {ps : List Piece} (hlexed : Lexed ps) : 0 ∉ textOf ps := by
  induction ps with
  | nil => exact List.not_mem_nil
  | cons piece ps ih =>
      intro hmem
      rcases List.mem_append.mp hmem with hpiece | hrest
      · exact nul_not_mem_text hlexed.1 hpiece
      · exact ih hlexed.2 hrest

/-- The last byte that the loop has copied is cut off. -/
theorem handlePython_of_loop {vimBuf : BString} {s : State} (hin : InBounds vimBuf)
    (hloop : loop (vimBuf.length + 2) none vimBuf State.start = .ok s) :
    handlePython vimBuf = .ok s.buf.dropLast := by
  obtain ⟨text, htext⟩ := hin
  unfold handlePython at htext ⊢
  by_cases hnil : vimBuf.headD 0 = 0
  · rw [if_pos hnil] at htext
    cases htext
  · rw [if_neg hnil] at htext ⊢
    dsimp only at htext ⊢
    rw [hloop, Fault.ok_bind, put] at htext ⊢
    by_cases hroom : s.buf.length < vimBuf.length + 2
    · rw [if_pos hroom, Fault.ok_bind, List.dropLast_eq_take]
      show Except.ok (List.take ((s.buf ++ [0]).length - 2) (s.buf ++ [0])) = _
      rw [List.length_append, List.length_singleton, List.take_append_of_le_length (by omega)]
      rfl
    · rw [if_neg hroom] at htext
      cases htext

/-- What is copied is what can be kept, and the NUL where the text does not end in a comment. -/
theorem handlePython_eq {ps : List Piece} (hlexed : Lexed ps) (hstep : InStep none ps)
    (hin : InBounds (textOf ps)) :
    ∃ c, Copied (keptOf ps) c ∧
      handlePython (textOf ps) = .ok (if endsInComment ps then c.buf.dropLast else c.buf) := by
  obtain ⟨k, cnt, c, ⟨hlen, hloop⟩, hcnt, -, hcopied, hcomment⟩ :=
    runs_pieces hlexed hstep (ready_start (textOf ps))
  have hends : c.comment = endsInComment ps := by
    rw [hcomment, endsInComment]
    cases ps.getLast? <;> rfl
  have hroom : ([Ascii.space] : BString).length + (textOf ps).length ≤ (textOf ps).length + 2 := by
    rw [List.length_singleton]
    omega
  have hwhole := hloop ((textOf ps).length + 2) [] hroom
  rw [List.append_nil, loop, ← start_eq, ← loop_start _ none] at hwhole
  change c.buf.length ≤ 1 + (textOf ps).length at hlen
  refine ⟨c, hcopied, ?_⟩
  by_cases hopen : c.comment = true
  · rw [round_last_comment hopen] at hwhole
    rw [handlePython_of_loop hin hwhole, ← hends, if_pos hopen]
    rfl
  · rw [round_last (Bool.eq_false_iff.mpr hopen) hcnt (by omega)] at hwhole
    rw [handlePython_of_loop hin hwhole, ← hends, if_neg hopen]
    show Except.ok (c.buf ++ [0]).dropLast = _
    rw [List.dropLast_concat]

/-! ### What is visible of it

Of each piece the visible bytes that were copied are its code, and of a literal the letters in
front of it.  So the new text is right if no literal has letters and nothing visible was cut off;
and both are conditions on the pieces.
-/

theorem visible_of_plain {w : BString} (h : ∀ b ∈ w, isSpace b = false ∧ isQuote b = false) :
    visible w = w := by
  apply List.filter_eq_self.mpr
  intro b hb
  rw [(h b hb).1, (h b hb).2]
  rfl

/-- A letter is no white space. -/
theorem space_of_isAlpha {b : UInt8} (h : isAlpha b = true) : isSpace b = false := by
  unfold isSpace isAlpha at *
  grind

theorem visible_letters {w : BString} (h : w = [] ∨ isLetters w = true) : visible w = w := by
  apply visible_of_plain
  intro b hb
  rcases h with rfl | hletters
  · exact absurd hb List.not_mem_nil
  · exact ⟨space_of_isAlpha (isAlpha_of_isLetters hletters b hb),
      (plain_of_isName (isName_of_isLetters (Or.inr hletters) b hb)).1⟩

/-- Outside of literals there are no quotes. -/
theorem quote_kept {piece : Piece} {next : BString} (hfits : piece.Fits next) :
    ∀ b ∈ kept piece, isQuote b = false := by
  have hword : ∀ {w : BString}, (∀ b ∈ w, isName b = true) → ∀ b ∈ w, isQuote b = false :=
    fun hw b hb => (plain_of_isName (hw b hb)).1
  cases piece with
  | word w => exact hword hfits.2.1
  | char c =>
      intro b hb
      rw [List.mem_singleton.mp hb]
      exact hfits.2.1
  | join e => rcases hfits with rfl | rfl | rfl <;> decide +kernel
  | comment t => exact fun b hb => absurd hb List.not_mem_nil
  | short w q body => exact hword (isName_of_isLetters hfits.1)
  | long w q body => exact hword (isName_of_isLetters hfits.1)

theorem quote_keptOf {ps : List Piece} (hlexed : Lexed ps) :
    ∀ b ∈ keptOf ps, isQuote b = false := by
  induction ps with
  | nil => exact fun b hb => absurd hb List.not_mem_nil
  | cons piece ps ih =>
      intro b hb
      rcases List.mem_append.mp hb with hpiece | hrest
      · exact quote_kept hlexed.1 b hpiece
      · exact ih hlexed.2 b hrest

/-- What is kept too much are the letters of literals. -/
theorem length_visible_kept {piece : Piece} {next : BString} (hfits : piece.Fits next) :
    (visible (kept piece)).length =
      (visible piece.outside).length + piece.lettersOf.length := by
  cases piece with
  | word w => rfl
  | char b => rfl
  | join e => rfl
  | comment t => rfl
  | short w q body =>
      show (visible w).length = 0 + w.length
      rw [visible_letters hfits.1, Nat.zero_add]
  | long w q body =>
      show (visible w).length = 0 + w.length
      rw [visible_letters hfits.1, Nat.zero_add]

theorem length_visible_keptOf {ps : List Piece} (hlexed : Lexed ps) :
    (visible (keptOf ps)).length =
      (visible (outsideOf ps)).length + (ps.flatMap Piece.lettersOf).length := by
  induction ps with
  | nil => rfl
  | cons piece ps ih =>
      have hfirst := length_visible_kept hlexed.1
      have hrest := ih hlexed.2
      show (visible (kept piece ++ keptOf ps)).length =
        (visible (piece.outside ++ outsideOf ps)).length +
          (piece.lettersOf ++ ps.flatMap Piece.lettersOf).length
      rw [visible_append, visible_append, List.length_append, List.length_append,
        List.length_append]
      omega

theorem keptOf_eq_outsideOf {ps : List Piece} (h : NoLetters ps) : keptOf ps = outsideOf ps := by
  apply List.flatMap_congr
  intro piece hpiece
  have hnone := h piece hpiece
  cases piece with
  | short w q body => exact hnone
  | long w q body => exact hnone
  | _ => rfl

/-- White space can be cut off. -/
theorem visible_dropLast {s : BString} (hne : s ≠ []) (hlast : s.getLast?.all isSpace = true) :
    visible s.dropLast = visible s := by
  obtain ⟨b, hb⟩ : ∃ b, s.getLast? = some b := ⟨_, List.getLast?_eq_some_getLast hne⟩
  have hspace : isSpace b = true := by
    rw [hb] at hlast
    exact hlast
  conv_rhs => rw [← List.dropLast_append_getLast? b hb]
  rw [visible_append, visible_space hspace, List.append_nil]

/-- Nothing else can. -/
theorem length_visible_dropLast {s : BString} {b : UInt8} (hb : s.getLast? = some b)
    (hspace : isSpace b = false) (hquote : isQuote b = false) :
    (visible s).length = (visible s.dropLast).length + 1 := by
  have hone : visible [b] = [b] := visible_of_plain (by simp [hspace, hquote])
  conv_lhs => rw [← List.dropLast_append_getLast? b hb]
  rw [visible_append, hone, List.length_append, List.length_singleton]

/-- What is visible of the new text, except behind a comment that ends the old one. -/
theorem visible_handlePython {ps : List Piece} (hlexed : Lexed ps) (hstep : InStep none ps)
    (hin : InBounds (textOf ps)) :
    ∃ text, handlePython (textOf ps) = .ok text ∧
      (EndsWell ps → visible text = visible (keptOf ps)) ∧
      (¬EndsWell ps → (visible (keptOf ps)).length = (visible text).length + 1) := by
  obtain ⟨c, hcopied, htext⟩ := handlePython_eq hlexed hstep hin
  by_cases hends : endsInComment ps = true
  · rw [if_pos hends] at htext
    refine ⟨_, htext, ?_, ?_⟩
    · intro hwell
      have hblank : c.buf.getLast?.all isSpace = true := by
        rcases hcopied.last with hsame | ⟨hblank, -⟩
        · rw [hsame]
          exact hwell hends
        · exact hblank
      rw [visible_dropLast hcopied.ne_nil hblank, hcopied.same]
    · intro hbad
      have hlast : ¬(keptOf ps).getLast?.all isSpace = true := fun h => hbad fun _ => h
      obtain ⟨b, hb, hspace⟩ : ∃ b, (keptOf ps).getLast? = some b ∧ isSpace b = false := by
        cases hkept : (keptOf ps).getLast? with
        | none => exact absurd (by rw [hkept]; rfl) hlast
        | some b =>
            rw [hkept] at hlast
            exact ⟨b, rfl, Bool.eq_false_iff.mpr hlast⟩
      have hsame : c.buf.getLast? = some b :=
        (hcopied.last.resolve_right fun h => hlast h.2).trans hb
      rw [← hcopied.same]
      exact length_visible_dropLast hsame hspace
        (quote_keptOf hlexed b (List.mem_of_getLast? hb))
  · rw [if_neg hends] at htext
    exact ⟨_, htext, fun _ => hcopied.same, fun hbad => absurd (fun h => absurd h hends) hbad⟩

/-- Where nothing is left out, the function runs out of its buffer. -/
theorem leavesOut_of_exact {ps : List Piece} (hlexed : Lexed ps) (h : Exact ps) :
    LeavesOut (textOf ps) := by
  obtain ⟨text, htext, -⟩ := h
  have hne : textOf ps ≠ [] := by
    intro hnil
    rw [hnil] at htext
    cases htext
  exact leavesOut_of_inBounds hne (nul_not_mem_textOf hlexed) ⟨text, htext⟩

/--
**As long as the counts come out right, `handle_python` leaves what stands outside of comments
and literals exactly if** it leaves out a byte at all, the text does not end in a comment behind
something visible, and no literal begins with letters.  (If the text both ends so and has one
such letter, what is cut off can be what was too much.)
-/
theorem exact_iff {ps : List Piece} (hlexed : Lexed ps) (hstep : InStep none ps)
    (hone : EndsWell ps ∨ NoLetters ps) :
    Exact ps ↔ LeavesOut (textOf ps) ∧ EndsWell ps ∧ NoLetters ps := by
  constructor
  · intro h
    refine ⟨leavesOut_of_exact hlexed h, ?_⟩
    obtain ⟨text, htext, hvisible⟩ := h
    obtain ⟨text', htext', hwell, hbad⟩ := visible_handlePython hlexed hstep ⟨text, htext⟩
    obtain rfl : text = text' := Except.ok.inj (htext.symm.trans htext')
    by_cases hends : EndsWell ps
    · refine ⟨hends, ?_⟩
      have hlength := length_visible_keptOf hlexed
      rw [← hwell hends, hvisible] at hlength
      have hnone : ps.flatMap Piece.lettersOf = [] := List.length_eq_zero_iff.mp (by omega)
      exact List.flatMap_eq_nil_iff.mp hnone
    · have hnone := hone.resolve_left hends
      have hlength := hbad hends
      rw [keptOf_eq_outsideOf hnone, ← hvisible] at hlength
      omega
  · rintro ⟨hleaves, hends, hnone⟩
    have hne : textOf ps ≠ [] := by
      obtain ⟨pre, b, post, heq, -⟩ := hleaves
      rw [heq]
      exact List.append_ne_nil_of_right_ne_nil _ (List.cons_ne_nil _ _)
    obtain ⟨text, htext, hwell, -⟩ := visible_handlePython hlexed hstep
      (inBounds_of_leavesOut hne (nul_not_mem_textOf hlexed) hleaves)
    exact ⟨text, htext, by rw [hwell hends, keptOf_eq_outsideOf hnone]⟩

/-- `x = 'it\'s' # one`, and the end of the line. -/
theorem exact_iff_escaped : Exact [.word (bt "x"), .char 32, .char 61, .char 32,
    .short [] .single [.plain 105, .plain 116, .escaped [singleQuote], .plain 115], .char 32,
    .comment (bt " one"), .char newline] :=
  (exact_iff (by decide +kernel) (by decide +kernel) (by decide +kernel)).mpr
    ⟨⟨bt "x = ", singleQuote, bt "it\\'s' # one\n", by decide +kernel, Or.inr (Or.inl rfl)⟩,
      by decide +kernel, by decide +kernel⟩

/-- Four quotes between two of the other kind: what comes behind the third one is lost. -/
def fourQuotes : List Piece :=
  [.word (bt "x"), .char 32, .char 61, .char 32,
    .short [] .single (List.replicate 4 (.plain doubleQuote)), .char newline, .word (bt "y"),
    .char 32, .char 61, .char 32, .word (bt "1"), .char newline]

theorem fourQuotes_lost : Lexed fourQuotes ∧ ¬Exact fourQuotes ∧ ¬∀ ps, Lexed ps → Exact ps := by
  have hlexed : Lexed fourQuotes := by decide +kernel
  have htext : handlePython (textOf fourQuotes) = .ok (bt " x =") := by rfl
  have hlost : ¬Exact fourQuotes := by
    rintro ⟨text, hsame, hvisible⟩
    obtain rfl : bt " x =" = text := Except.ok.inj (htext.symm.trans hsame)
    revert hvisible
    decide +kernel
  exact ⟨hlexed, hlost, fun hall => hlost (hall _ hlexed)⟩

end TagHighlight.StripPython
