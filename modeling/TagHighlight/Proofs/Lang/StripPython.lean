/-
Where `handle_python` stays inside its buffers.

A round writes one byte at most, and there is a round for each byte of the text and one for
the NUL.  With the space before them and the NUL after them that makes `slen + 3` bytes, one
more than there is room for: the function is in bounds exactly if it leaves something out.

As long as it does not, its variables are determined by the text read so far: `calm` is that
state, and `LeftOut` says which byte ends it.  The reads backwards are never a problem.  The
new buffer starts with a space, and before the first byte of the text is read no quote has
been counted.
-/
import TagHighlight.Lang.StripPython

namespace TagHighlight.StripPython

open Ascii

/-! ### A round, whatever the state

A round reads the byte, and perhaps the ones before it in either buffer, and writes one at most.
The reads are inside as soon as there is a byte before; so whatever the variables are, a loop that
has room for all that is left goes through.
-/

section Round

variable {s : State} {p b : UInt8}

theorem checkDocstring_ok (p : UInt8) (s : State) (aa bb : PyQuote) :
    ∃ c, checkDocstring (some p) s aa bb = .ok c := by
  unfold checkDocstring before
  simp only [Except.map]
  split
  · split
    · rw [Fault.ok_bind]
      split <;> exact ⟨_, rfl⟩
    · rw [Fault.ok_bind]
      repeat' split
      all_goals exact ⟨_, rfl⟩
  · split
    · rw [Fault.ok_bind]
      repeat' split
      all_goals exact ⟨_, rfl⟩
    · rw [Fault.ok_bind]
      repeat' split
      all_goals exact ⟨_, rfl⟩

/-- Reading a byte does not fail after the first one, and writes nothing. -/
theorem readChar_ok (hbuf : s.buf ≠ []) :
    ∃ s', readChar (some p) b s = .ok s' ∧ s'.buf = s.buf := by
  have hlast : before s.buf.getLast? = .ok (s.buf.getLast hbuf) := by
    rw [List.getLast?_eq_some_getLast hbuf, before]
  unfold readChar
  split
  · rw [hlast]
    exact ⟨_, rfl, rfl⟩
  split
  · split
    · obtain ⟨c, hc⟩ := checkDocstring_ok p s s.double s.single
      rw [hc]
      exact ⟨_, rfl, rfl⟩
    · exact ⟨_, rfl, rfl⟩
  split
  · split
    · obtain ⟨c, hc⟩ := checkDocstring_ok p s s.single s.double
      rw [hc]
      exact ⟨_, rfl, rfl⟩
    · exact ⟨_, rfl, rfl⟩
  split
  · rw [hlast, Fault.ok_bind]
    split <;> exact ⟨_, rfl, rfl⟩
  · exact ⟨_, rfl, rfl⟩

@[simp] theorem resetCounts_buf (b : UInt8) (s : State) : (resetCounts b s).buf = s.buf := by
  unfold resetCounts
  split <;> rfl

/-- A byte is written or not. -/
theorem copyChar_ok {size : Nat} (hroom : s.buf.length < size) :
    ∃ s', copyChar size b s = .ok s' ∧ (s'.buf = s.buf ∨ s'.buf = s.buf ++ [b]) := by
  unfold copyChar put
  split
  · exact ⟨_, rfl, Or.inl rfl⟩
  split
  · exact ⟨_, rfl, Or.inr rfl⟩
  · exact ⟨_, rfl, Or.inl rfl⟩

theorem round_ok {size : Nat} (hbuf : s.buf ≠ []) (hroom : s.buf.length < size) :
    ∃ s', round size (some p) b s = .ok s' ∧ s'.buf ≠ [] ∧ s'.buf.length ≤ s.buf.length + 1 := by
  unfold round
  split
  · exact ⟨_, rfl, hbuf, Nat.le_succ _⟩
  split
  · exact ⟨_, rfl, hbuf, Nat.le_succ _⟩
  obtain ⟨s₁, hread, hbuf₁⟩ := readChar_ok (p := p) (b := b) hbuf
  have hroom₁ : (resetCounts b s₁).buf.length < size := by rwa [resetCounts_buf, hbuf₁]
  obtain ⟨s₂, hcopy, hbuf₂⟩ := copyChar_ok (b := b) hroom₁
  rw [hread, Fault.ok_bind, hcopy, Fault.ok_bind]
  rw [resetCounts_buf, hbuf₁] at hbuf₂
  refine ⟨_, rfl, ?_⟩
  rcases hbuf₂ with hsame | hmore
  · exact ⟨hsame ▸ hbuf, by rw [hsame]; exact Nat.le_succ _⟩
  · exact ⟨by rw [hmore]; exact List.append_ne_nil_of_right_ne_nil _ (List.cons_ne_nil _ _),
      Nat.le_of_eq (by rw [hmore, List.length_append, List.length_singleton])⟩

/-- From the second byte on the loop stays in bounds while there is room for all the rest. -/
theorem loop_ok {size : Nat} {rest : BString} (hbuf : s.buf ≠ [])
    (hroom : s.buf.length + rest.length < size) :
    ∃ s', loop size (some p) rest s = .ok s' ∧
      s'.buf.length ≤ s.buf.length + rest.length + 1 := by
  induction rest generalizing s p with
  | nil =>
    obtain ⟨s', hround, -, hlen⟩ := round_ok (p := p) (b := 0) hbuf hroom
    exact ⟨s', hround, hlen⟩
  | cons b rest ih =>
    rw [List.length_cons] at hroom
    obtain ⟨s₁, hround, hbuf₁, hlen₁⟩ := round_ok (p := p) (b := b) hbuf
      (show s.buf.length < size by omega)
    simp only [loop, hround, Fault.ok_bind, List.length_cons]
    split
    · exact ⟨s₁, rfl, by omega⟩
    · obtain ⟨s', hloop, hlen⟩ := ih (p := b) hbuf₁ (by omega)
      exact ⟨s', hloop, by omega⟩

end Round

/-! ### As long as nothing is left out

While everything is copied, no quote has been seen and no comment has begun, so the variables are
those of the text alone: whether the last byte was a backslash, and how many blanks end it.  The
next byte is then copied, or is the first one that is not, and which of the two it is can be read
off the text.
-/

/-- The byte after `pre` is escaped. -/
def escapedAfter (pre : BString) : Bool :=
  pre.foldl (fun escape b => b == backslash && !escape) false

/-- `space` after `pre`. -/
def spaceAfter (pre : BString) : UInt16 :=
  if pre.getLast?.any isBlank then 1 else 0

/-- The variables when everything up to here was copied. -/
def calm (pre : BString) : State :=
  { State.start with
      space := spaceAfter pre
      buf := space :: pre
      escape := escapedAfter pre }

/-- The byte that is not copied, if all of `pre` was. -/
def LeftOut (pre : BString) (b : UInt8) : Prop :=
  b = doubleQuote ∨ b = singleQuote ∨ (b = hash ∧ escapedAfter pre = false) ∨
    (b = newline ∧ pre.getLast? = some newline) ∨
    (isBlank b = true ∧ pre.getLast?.any (fun p => isBlank p || p == newline) = true)

section Calm

variable {pre : BString} {b : UInt8} {size : Nat}

theorem last_calm (pre : BString) :
    before (calm pre).buf.getLast? = .ok (pre.getLast?.getD space) := by
  show before (space :: pre).getLast? = _
  rw [List.getLast?_cons, before]

theorem spaceAfter_concat (pre : BString) (b : UInt8) :
    spaceAfter (pre ++ [b]) = if isBlank b then 1 else 0 := by
  rw [spaceAfter, List.getLast?_concat, Option.any_some]

theorem calm_concat (pre : BString) (b : UInt8) : calm (pre ++ [b]) =
    { calm pre with
        space := if isBlank b then 1 else 0
        buf := (calm pre).buf ++ [b]
        escape := b == backslash && !escapedAfter pre } := by
  simp only [calm, spaceAfter_concat, escapedAfter, List.foldl_append, List.foldl_cons,
    List.foldl_nil, List.cons_append]

/-- The last byte that was written, where the next one is a blank that is copied. -/
theorem last_of_blank (h : ¬LeftOut pre b) (hb : isBlank b = true) :
    spaceAfter pre = 0 ∧ pre.getLast?.getD space ≠ newline := by
  have hany : ¬pre.getLast?.any (fun p => isBlank p || p == newline) = true := by
    intro hany
    exact h (Or.inr (Or.inr (Or.inr (Or.inr ⟨hb, hany⟩))))
  unfold spaceAfter
  cases hlast : pre.getLast? with
  | none => exact ⟨rfl, by decide⟩
  | some p =>
    rw [hlast, Option.any_some, Bool.or_eq_true, not_or] at hany
    refine ⟨?_, ?_⟩
    · rw [Option.any_some, if_neg hany.1]
    · rw [Option.getD_some]
      simpa using hany.2

theorem readChar_calm (prev : Option UInt8) (h : ¬LeftOut pre b) : readChar prev b (calm pre) =
    .ok { calm pre with space := if isBlank b then 1 else 0 } := by
  unfold readChar
  split
  · rename_i hb
    have hlast : pre.getLast?.getD space ≠ newline := by
      cases hpre : pre.getLast? with
      | none => decide
      | some p =>
        intro hp
        refine h (Or.inr (Or.inr (Or.inr (Or.inl ⟨hb, ?_⟩))))
        rw [hpre, ← hp, Option.getD_some]
    subst hb
    rw [last_calm, Fault.ok_bind, beq_false_of_ne hlast]
    rfl
  split
  · rename_i hb
    exact absurd (Or.inl hb) h
  split
  · rename_i hb
    exact absurd (Or.inr (Or.inl hb)) h
  split
  · rename_i hb
    obtain ⟨hspace, hlast⟩ := last_of_blank h hb
    rw [last_calm, Fault.ok_bind, if_neg hlast, show (calm pre).space = 0 from hspace]
    rfl
  · rfl

/-- No quote has been counted, so that there is nothing to reset. -/
theorem resetCounts_calm (b : UInt8) (pre : BString) (n : UInt16) :
    resetCounts b { calm pre with space := n } = { calm pre with space := n } := rfl

theorem copyChar_calm {n : UInt16} (hn : n < 2) (hroom : pre.length + 1 < size) :
    copyChar size b { calm pre with space := n } =
      .ok { calm pre with space := n, buf := (calm pre).buf ++ [b] } := by
  have hquote : (¬State.quote { calm pre with space := n } ∧ n < 2) := ⟨Bool.false_ne_true, hn⟩
  unfold copyChar put
  rw [if_neg (show ¬(calm pre).skip = true from Bool.false_ne_true), if_pos hquote]
  exact if_pos hroom

/-- A byte that does not start a comment is read and copied. -/
theorem round_calm (prev : Option UInt8) (h : ¬(b = hash ∧ escapedAfter pre = false)) :
    round size prev b (calm pre) = (do
      let s ← readChar prev b (calm pre)
      let s ← copyChar size b (resetCounts b s)
      .ok { s with escape := if b = backslash then !s.escape else false }) := by
  have hhash : ¬(¬(calm pre).comment ∧ ¬(calm pre).quote ∧ ¬(calm pre).escape ∧ b = hash) := by
    rintro ⟨-, -, hescape, hb⟩
    exact h ⟨hb, Bool.eq_false_iff.mpr hescape⟩
  have hcomment : ¬((calm pre).comment ∧ b ≠ newline) := fun hc => Bool.false_ne_true hc.1
  unfold round
  rw [if_neg hhash, if_neg hcomment]

/-- A byte that is not left out is copied. -/
theorem calm_round (prev : Option UInt8) (h : ¬LeftOut pre b) (hroom : pre.length + 1 < size) :
    round size prev b (calm pre) = .ok (calm (pre ++ [b])) := by
  have hspace : (if isBlank b = true then 1 else 0 : UInt16) < 2 := by split <;> decide
  rw [round_calm prev (fun hb => h (Or.inr (Or.inr (Or.inl hb)))), readChar_calm prev h,
    Fault.ok_bind, resetCounts_calm, copyChar_calm hspace hroom, Fault.ok_bind, calm_concat]
  by_cases hb : b = backslash
  · simp [hb, calm]
  · simp [hb, calm]

/-- The first quote of either kind opens a string, or so it seems. -/
theorem checkDocstring_calm (prev : Option UInt8) (pre : BString) (aa bb : PyQuote)
    (haa : aa.q = false ∧ aa.cnt = 0) (hbb : bb.q = false) :
    checkDocstring prev (calm pre) aa bb =
      .ok ⟨.noDocstring, { aa with q := true, cnt := 1 }, bb, false⟩ := by
  unfold checkDocstring
  rw [if_neg (show ¬(calm pre).inDocstring ≠ .noDocstring from not_not_intro rfl)]
  simp [haa, hbb, calm, State.start]

theorem readChar_quote (prev : Option UInt8) (pre : BString) :
    readChar prev doubleQuote (calm pre) = .ok { calm pre with
      double := { q := true, cnt := 1, ch := doubleQuote, val := .doubleDocstring }, space := 0 } ∧
    readChar prev singleQuote (calm pre) = .ok { calm pre with
      single := { q := true, cnt := 1, ch := singleQuote, val := .singleDocstring }, space := 0 } := by
  constructor
  · unfold readChar
    rw [checkDocstring_calm prev pre _ _ ⟨rfl, rfl⟩ rfl]
    rfl
  · unfold readChar
    rw [checkDocstring_calm prev pre _ _ ⟨rfl, rfl⟩ rfl]
    rfl

/-- After a newline blanks are skipped, after a blank they are counted. -/
theorem readChar_blank (prev : Option UInt8) (hb : isBlank b = true)
    (hlast : pre.getLast?.any (fun p => isBlank p || p == newline) = true) :
    readChar prev b (calm pre) = .ok { calm pre with skip := true } ∨
      readChar prev b (calm pre) = .ok { calm pre with space := 2 } := by
  have hne : b ≠ newline ∧ b ≠ doubleQuote ∧ b ≠ singleQuote := by
    refine ⟨?_, ?_, ?_⟩ <;> rintro rfl <;> exact absurd hb (by decide)
  cases hpre : pre.getLast? with
  | none =>
    rw [hpre] at hlast
    exact absurd hlast Bool.false_ne_true
  | some p =>
    rw [hpre, Option.any_some, Bool.or_eq_true] at hlast
    unfold readChar
    rw [if_neg hne.1, if_neg hne.2.1, if_neg hne.2.2, if_pos hb, last_calm, hpre, Fault.ok_bind,
      Option.getD_some]
    by_cases hnewline : p = newline
    · left
      rw [if_pos hnewline]
    · right
      have hblank : isBlank p = true := hlast.resolve_right (by simpa using hnewline)
      have hspace : (calm pre).space = 1 := by
        show spaceAfter pre = 1
        rw [spaceAfter, hpre, Option.any_some, if_pos hblank]
      rw [if_neg hnewline, hspace]
      rfl

/-- A byte that is left out is not. -/
theorem leftOut_round (size : Nat) (prev : Option UInt8) (h : LeftOut pre b) :
    ∃ s', round size prev b (calm pre) = .ok s' ∧ s'.buf = space :: pre := by
  rcases h with rfl | rfl | ⟨rfl, hescape⟩ | ⟨rfl, hlast⟩ | ⟨hblank, hlast⟩
  · rw [round_calm prev (fun hb => absurd hb.1 (by decide)), (readChar_quote prev pre).1]
    exact ⟨_, rfl, rfl⟩
  · rw [round_calm prev (fun hb => absurd hb.1 (by decide)), (readChar_quote prev pre).2]
    exact ⟨_, rfl, rfl⟩
  · unfold round
    rw [if_pos ⟨Bool.false_ne_true, Bool.false_ne_true, Bool.eq_false_iff.mp hescape, rfl⟩]
    exact ⟨_, rfl, rfl⟩
  · have hread : readChar prev newline (calm pre) =
        .ok { calm pre with skip := true, space := 0 } := by
      unfold readChar
      rw [last_calm, hlast]
      rfl
    rw [round_calm prev (fun hb => absurd hb.1 (by decide)), hread]
    exact ⟨_, rfl, rfl⟩
  · have hne : b ≠ hash := by
      rintro rfl
      exact absurd hblank (by decide)
    rw [round_calm prev (fun hb => hne hb.1)]
    rcases readChar_blank prev hblank hlast with hread | hread
    · rw [hread]
      exact ⟨_, rfl, rfl⟩
    · rw [hread]
      exact ⟨_, rfl, rfl⟩

end Calm

/-! ### The whole loop

A blank, the bytes of the text and two NULs are one byte more than there is room for.  So if a
byte is left out, all the rest has room, whatever becomes of it; and if none is, the last write is
behind the buffer.
-/

section Loop

variable {size : Nat} {pre rest : BString}

/-- Nothing is left out of `rest`, and all of it is copied, the NUL included. -/
theorem loop_calm (prev : Option UInt8)
    (h : ∀ xs b ys, rest = xs ++ b :: ys → ¬LeftOut (pre ++ xs) b) (hnul : 0 ∉ rest)
    (hroom : pre.length + rest.length + 1 < size) :
    loop size prev rest (calm pre) = .ok (calm (pre ++ rest ++ [0])) := by
  induction rest generalizing pre prev with
  | nil =>
    have hzero : ¬LeftOut pre 0 := by
      rintro (hc | hc | ⟨hc, -⟩ | ⟨hc, -⟩ | ⟨hc, -⟩)
      all_goals exact absurd hc (by decide)
    rw [loop, calm_round prev hzero hroom, List.append_nil]
  | cons b rest ih =>
    rw [List.length_cons] at hroom
    have hb : ¬LeftOut pre b := by
      have hfirst := h [] b rest rfl
      rwa [List.append_nil] at hfirst
    have hrest : ∀ xs c ys, rest = xs ++ c :: ys → ¬LeftOut (pre ++ [b] ++ xs) c := by
      intro xs c ys heq
      have hlater := h (b :: xs) c ys (by rw [heq, List.cons_append])
      rwa [List.append_assoc, List.singleton_append]
    have hne : b ≠ 0 := fun heq => hnul (heq ▸ List.mem_cons_self)
    rw [loop, calm_round prev hb (by omega), Fault.ok_bind, if_neg hne,
      ih (some b) hrest (fun hmem => hnul (List.mem_cons_of_mem _ hmem))
        (by rw [List.length_append, List.length_singleton]; omega)]
    rw [List.append_assoc pre [b] rest, List.singleton_append]

/-- Something is left out of `rest`, and there is room for what is not. -/
theorem loop_leftOut (pre : BString) (prev : Option UInt8)
    (h : ∃ xs b ys, rest = xs ++ b :: ys ∧ LeftOut (pre ++ xs) b)
    (hroom : pre.length + rest.length + 1 < size) :
    ∃ s', loop size prev rest (calm pre) = .ok s' ∧
      s'.buf.length ≤ pre.length + rest.length + 1 := by
  induction rest generalizing pre prev with
  | nil =>
    obtain ⟨xs, b, ys, heq, -⟩ := h
    exact absurd heq.symm (List.append_ne_nil_of_right_ne_nil _ (List.cons_ne_nil _ _))
  | cons c rest ih =>
    rw [List.length_cons] at hroom ⊢
    by_cases hc : LeftOut pre c
    · -- From here on the other rounds can write as many bytes as they like.
      obtain ⟨s₁, hround, hbuf⟩ := leftOut_round size prev hc
      have hlen : s₁.buf.length = pre.length + 1 := by rw [hbuf, List.length_cons]
      simp only [loop, hround, Fault.ok_bind]
      split
      · exact ⟨s₁, rfl, by omega⟩
      · obtain ⟨s', hloop, hlen'⟩ := loop_ok (p := c)
          (show s₁.buf ≠ [] by rw [hbuf]; exact List.cons_ne_nil _ _)
          (show s₁.buf.length + rest.length < size by omega)
        exact ⟨s', hloop, by omega⟩
    · rw [loop, calm_round prev hc (by omega), Fault.ok_bind]
      split
      · exact ⟨_, rfl, by simp [calm]⟩
      · obtain ⟨xs, b, ys, heq, hb⟩ := h
        have hlater : ∃ xs b ys, rest = xs ++ b :: ys ∧ LeftOut (pre ++ [c] ++ xs) b := by
          cases xs with
          | nil =>
            rw [List.nil_append, List.cons.injEq] at heq
            rw [List.append_nil, ← heq.1] at hb
            exact absurd hb hc
          | cons x xs =>
            rw [List.cons_append, List.cons.injEq] at heq
            refine ⟨xs, b, ys, heq.2, ?_⟩
            rwa [List.append_assoc, List.singleton_append, heq.1]
        obtain ⟨s', hloop, hlen⟩ := ih (pre ++ [c]) (some c) hlater
          (by rw [List.length_append, List.length_singleton]; omega)
        rw [List.length_append, List.length_singleton] at hlen
        exact ⟨s', hloop, by omega⟩

end Loop

/-- Every access of `handle_python` is inside its buffer. -/
def InBounds (vimBuf : BString) : Prop := ∃ text, handlePython vimBuf = .ok text

/-- Some byte is not copied. -/
def LeavesOut (vimBuf : BString) : Prop :=
  ∃ pre b post, vimBuf = pre ++ b :: post ∧ LeftOut pre b

theorem headD_ne_zero {vimBuf : BString} (hne : vimBuf ≠ []) (hnul : 0 ∉ vimBuf) :
    vimBuf.headD 0 ≠ 0 := by
  cases vimBuf with
  | nil => exact absurd rfl hne
  | cons b rest => exact fun heq => hnul (heq ▸ List.mem_cons_self)

theorem inBounds_of_leavesOut {vimBuf : BString} (hne : vimBuf ≠ []) (hnul : 0 ∉ vimBuf)
    (h : LeavesOut vimBuf) : InBounds vimBuf := by
  have hroom : ([] : BString).length + vimBuf.length + 1 < vimBuf.length + 2 := by simp
  unfold InBounds handlePython
  rw [if_neg (headD_ne_zero hne hnul)]
  show ∃ text, (loop _ none vimBuf (calm []) >>= _) = .ok text
  obtain ⟨s', hloop, hlen⟩ := loop_leftOut [] none h hroom
  rw [hloop, Fault.ok_bind, put, if_pos (by simp at hlen; omega)]
  exact ⟨_, rfl⟩

theorem leavesOut_of_inBounds {vimBuf : BString} (hne : vimBuf ≠ []) (hnul : 0 ∉ vimBuf)
    (h : InBounds vimBuf) : LeavesOut vimBuf := by
  have hroom : ([] : BString).length + vimBuf.length + 1 < vimBuf.length + 2 := by simp
  by_contra hnone
  have hall : ∀ xs b ys, vimBuf = xs ++ b :: ys → ¬LeftOut ([] ++ xs) b :=
    fun xs b ys heq hb => hnone ⟨xs, b, ys, heq, hb⟩
  obtain ⟨text, htext⟩ := h
  unfold handlePython at htext
  rw [if_neg (headD_ne_zero hne hnul)] at htext
  change (loop _ none vimBuf (calm []) >>= _) = .ok text at htext
  rw [loop_calm none hall hnul hroom, Fault.ok_bind, put, if_neg (by simp [calm])] at htext
  cases htext

/--
**`handle_python` stays in bounds exactly if it leaves out a byte**: a quote, a `#` that is
not escaped, a newline or a blank after a newline, or a blank after a blank.  Otherwise the
NUL at the end is written one byte past the buffer.
-/
theorem handlePython_inBounds_iff {vimBuf : BString} (hne : vimBuf ≠ []) (hnul : 0 ∉ vimBuf) :
    InBounds vimBuf ↔ ∃ pre b post, vimBuf = pre ++ b :: post ∧ LeftOut pre b :=
  ⟨leavesOut_of_inBounds hne hnul, inBounds_of_leavesOut hne hnul⟩

/-- `s = 'x'`: the quotes leave room. -/
theorem handlePython_inBounds_string : InBounds (bt "s = 'x'\n") :=
  (handlePython_inBounds_iff (by decide) (by decide)).mpr
    ⟨bt "s = ", singleQuote, bt "x'\n", by decide, Or.inr (Or.inl rfl)⟩

/-- A line with nothing but `a`: five bytes are written, and there is room for four. -/
theorem oneName_overflows : handlePython (bt "a\n") = .error .undefined ∧ ¬InBounds (bt "a\n") := by
  have herror : handlePython (bt "a\n") = .error .undefined := by rfl
  refine ⟨herror, ?_⟩
  rintro ⟨text, htext⟩
  rw [herror] at htext
  cases htext

end TagHighlight.StripPython
