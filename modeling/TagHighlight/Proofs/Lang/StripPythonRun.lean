/-
Runs of `handle_python` over a literal, and over text outside of literals.

Between two pieces of a text no string is open.  Inside of a string the function counts: the
quotes that began the string, and those of the other kind that follow each other.  `state` has
all of it, and there is a lemma for a byte in each situation.  A run over many bytes is put
together from these with `Runs`.

The lemmas are about bytes that follow one another and need not know where the text they are from
begins or ends.  That a run over many of them has room is a condition on their number, which is
settled once, for the whole text.
-/
import TagHighlight.Proofs.Lang.StripPython
import Mathlib.Data.List.TakeWhile

namespace TagHighlight.StripPython

open Ascii Python
open Readers (isSpace)

/-! ### Runs -/

/-- From one state over these bytes to another, if there is room for all of them. -/
def Runs (p : UInt8) (t : BString) (s s' : State) : Prop :=
  s'.buf.length ≤ s.buf.length + t.length ∧
    ∀ size rest, s.buf.length + t.length ≤ size →
      loop size (some p) (t ++ rest) s = loop size (some (t.getLastD p)) rest s'

theorem getLastD_append (t u : BString) (p : UInt8) :
    (t ++ u).getLastD p = u.getLastD (t.getLastD p) := by
  induction t generalizing p with
  | nil => rfl
  | cons b t ih => rw [List.cons_append, List.getLastD_cons, List.getLastD_cons, ih]

theorem Runs.nil (p : UInt8) (s : State) : Runs p [] s s := by
  refine ⟨Nat.le_refl _, ?_⟩
  intro size rest _
  rfl

theorem Runs.append {p : UInt8} {t u : BString} {s s' s'' : State} (ht : Runs p t s s')
    (hu : Runs (t.getLastD p) u s' s'') : Runs p (t ++ u) s s'' := by
  obtain ⟨hlen, hloop⟩ := ht
  obtain ⟨hlen', hloop'⟩ := hu
  refine ⟨?_, ?_⟩
  · rw [List.length_append]
    omega
  · intro size rest hroom
    rw [List.length_append] at hroom
    rw [List.append_assoc, hloop size (u ++ rest) (by omega), hloop' size rest (by omega),
      getLastD_append]

/-- One round. -/
theorem Runs.single {p b : UInt8} {s s' : State} (hb : b ≠ 0)
    (hlen : s'.buf.length ≤ s.buf.length + 1)
    (hround : ∀ size, s.buf.length < size → round size (some p) b s = .ok s') :
    Runs p [b] s s' := by
  refine ⟨hlen, ?_⟩
  intro size rest hroom
  rw [List.singleton_append, loop, hround size hroom, Fault.ok_bind, if_neg hb]
  rfl

theorem Runs.cons {p b : UInt8} {t : BString} {s s' s'' : State} (hb : Runs p [b] s s')
    (ht : Runs b t s' s'') : Runs p (b :: t) s s'' := hb.append ht

/-! ### States

The two kinds of quotes are treated alike, with variables of their own for each.  So a state is
given for one of them, and what holds for it holds for the other one with the two exchanged.
-/

def valOf : Quote → Docstring
  | .single => .singleDocstring
  | .double => .doubleDocstring

def quoteAt (k : Quote) (q : Bool) (cnt : Int) : PyQuote :=
  { q := q, cnt := cnt, ch := k.ch, val := valOf k }

/-- The variables that have nothing to do with quotes. -/
structure Common where
  space : UInt16
  buf : BString
  escape : Bool
  comment : Bool

/-- The variables, with those of one kind of quote before those of the other. -/
def seen (k : Quote) (doc : Docstring) (aa bb : PyQuote) (skip : Bool) (c : Common) : State where
  inDocstring := doc
  single := match k with
    | .single => aa
    | .double => bb
  double := match k with
    | .single => bb
    | .double => aa
  space := c.space
  buf := c.buf
  escape := c.escape
  comment := c.comment
  skip := skip

/-- Outside of literals. -/
def outer (k : Quote) (cnt other : Int) (c : Common) : State :=
  seen k .noDocstring (quoteAt k false cnt) (quoteAt k.other false other) false c

/-- In a literal with single quotes. -/
def inShort (k : Quote) (cnt other : Int) (c : Common) : State :=
  seen k .noDocstring (quoteAt k true cnt) (quoteAt k.other false other) false c

/-- In a literal with triple quotes. -/
def inLong (k : Quote) (cnt : Int) (c : Common) : State :=
  seen k (valOf k) (quoteAt k false cnt) (quoteAt k.other false 0) false c

theorem other_other (k : Quote) : k.other.other = k := by cases k <;> rfl

theorem ch_ne_other (k : Quote) : k.ch ≠ k.other.ch := by cases k <;> decide

theorem seen_swap (k : Quote) (doc : Docstring) (aa bb : PyQuote) (skip : Bool) (c : Common) :
    seen k doc aa bb skip c = seen k.other doc bb aa skip c := by cases k <;> rfl

theorem outer_swap (k : Quote) (cnt other : Int) (c : Common) :
    outer k cnt other c = outer k.other other cnt c := by
  unfold outer
  rw [seen_swap, other_other]

/-- The next byte is escaped. -/
def escapes (escape : Bool) (b : UInt8) : Bool := if b = backslash then !escape else false

/-! ### Parts of a round -/

section Parts

variable {k : Quote} {doc : Docstring} {aa bb : PyQuote} {skip : Bool} {c : Common} {p b : UInt8}

theorem readChar_ch {r : Checked} (hdoc : doc ≠ valOf k.other)
    (hcheck : checkDocstring (some p) (seen k doc aa bb skip c) aa bb = .ok r) :
    readChar (some p) k.ch (seen k doc aa bb skip c) =
      .ok (seen k r.inDocstring r.aa r.bb r.skip { c with space := 0 }) := by
  cases k with
  | single =>
      have hlooked : (seen .single doc aa bb skip c).inDocstring ≠ .doubleDocstring := hdoc
      have hsame : checkDocstring (some p) (seen .single doc aa bb skip c)
          (seen .single doc aa bb skip c).single (seen .single doc aa bb skip c).double = .ok r :=
        hcheck
      show readChar (some p) singleQuote _ = _
      unfold readChar
      rw [if_neg (by decide), if_neg (by decide), if_pos rfl, if_pos hlooked, hsame]
      rfl
  | double =>
      have hlooked : (seen .double doc aa bb skip c).inDocstring ≠ .singleDocstring := hdoc
      have hsame : checkDocstring (some p) (seen .double doc aa bb skip c)
          (seen .double doc aa bb skip c).double (seen .double doc aa bb skip c).single = .ok r :=
        hcheck
      show readChar (some p) doubleQuote _ = _
      unfold readChar
      rw [if_neg (by decide), if_pos rfl, if_pos hlooked, hsame]
      rfl

/-- The other quote is not looked at in a long string. -/
theorem readChar_other_ch :
    readChar (some p) k.other.ch (seen k (valOf k) aa bb skip c) =
      .ok (seen k (valOf k) aa bb skip { c with space := 0 }) := by
  cases k <;> rfl

theorem last_seen (hbuf : c.buf ≠ []) :
    before (seen k doc aa bb skip c).buf.getLast? = .ok (c.buf.getLast hbuf) := by
  show before c.buf.getLast? = _
  rw [List.getLast?_eq_some_getLast hbuf, before]

theorem readChar_newline (hbuf : c.buf ≠ []) :
    readChar (some p) newline (seen k doc aa bb false c) =
      .ok (seen k doc aa bb (c.buf.getLast hbuf == newline)
        { c with space := 0, comment := false }) := by
  unfold readChar
  rw [if_pos rfl, last_seen hbuf]
  rfl

/-- Another byte that is no quote: blanks are counted, except at the beginning of a line. -/
theorem readChar_byte (hbuf : c.buf ≠ []) (hnewline : b ≠ newline) (hplain : isQuote b = false) :
    readChar (some p) b (seen k doc aa bb false c) =
      .ok (seen k doc aa bb (isBlank b && c.buf.getLast hbuf == newline)
        { c with
            space :=
              if isBlank b = true then
                if c.buf.getLast hbuf = newline then c.space else c.space + 1
              else 0 }) := by
  obtain ⟨hsingle, hdouble⟩ := Bool.or_eq_false_iff.mp hplain
  unfold readChar
  rw [if_neg hnewline, if_neg (by simpa using hdouble), if_neg (by simpa using hsingle),
    last_seen hbuf, Fault.ok_bind]
  by_cases hblank : isBlank b = true
  · rw [if_pos hblank, if_pos hblank, hblank, Bool.true_and]
    by_cases hnew : c.buf.getLast hbuf = newline
    · rw [if_pos hnew, if_pos hnew, hnew]
      rfl
    · rw [if_neg hnew, if_neg hnew, beq_false_of_ne hnew]
      rfl
  · rw [if_neg hblank, if_neg hblank, Bool.eq_false_iff.mpr hblank]
    rfl

/-- No byte but a quote has to do with quotes. -/
theorem readChar_plain (hb : isQuote b = false) (hbuf : c.buf ≠ []) (hcomment : c.comment = false) :
    ∃ skip' space, readChar (some p) b (seen k doc aa bb false c) =
      .ok (seen k doc aa bb skip' { c with space := space }) := by
  by_cases hnewline : b = newline
  · rw [hnewline, readChar_newline hbuf, ← hcomment]
    exact ⟨_, _, rfl⟩
  · exact ⟨_, _, readChar_byte hbuf hnewline hb⟩

/-- A count that is not gone on with starts again. -/
def restart (b : UInt8) (q : PyQuote) : PyQuote :=
  if q.cnt > 0 ∧ b ≠ q.ch then { q with cnt := 0 } else q

/-- Three quotes have to follow each other. -/
def refill (b : UInt8) (q : PyQuote) : PyQuote :=
  if q.cnt < 3 ∧ b ≠ q.ch then { q with cnt := 3 } else q

theorem resetCounts_outer : resetCounts b (seen k .noDocstring aa bb skip c) =
    seen k .noDocstring (restart b aa) (restart b bb) skip c := by cases k <;> rfl

theorem resetCounts_long : resetCounts b (seen k (valOf k) aa bb skip c) =
    seen k (valOf k) (refill b aa) { bb with cnt := 0 } skip c := by cases k <;> rfl

theorem quote_seen : (seen k doc aa bb skip c).quote = (aa.q || bb.q || doc != .noDocstring) := by
  cases k with
  | single => rfl
  | double =>
      show (bb.q || aa.q || _) = _
      rw [Bool.or_comm bb.q]
      rfl

/-- Quoted bytes are not copied. -/
theorem copyChar_quoted (h : (aa.q || bb.q || doc != .noDocstring) = true) (size : Nat) :
    copyChar size b (seen k doc aa bb skip c) = .ok (seen k doc aa bb false c) := by
  unfold copyChar
  cases skip with
  | true => rfl
  | false =>
      rw [if_neg (show ¬(seen k doc aa bb false c).skip = true from Bool.false_ne_true), if_neg]
      rw [quote_seen, h]
      exact fun hcopied => hcopied.1 rfl

/-- Nor is a byte that is skipped. -/
theorem copyChar_skip (size : Nat) :
    copyChar size b (seen k doc aa bb true c) = .ok (seen k doc aa bb false c) := rfl

/-- A round that does not begin or go on with a comment. -/
theorem round_eq {s s₁ s₂ : State} {size : Nat} (hcomment : s.comment = true → b = newline)
    (hhash : s.quote = true ∨ s.escape = true ∨ b ≠ hash) (hread : readChar (some p) b s = .ok s₁)
    (hcopy : copyChar size b (resetCounts b s₁) = .ok s₂) :
    round size (some p) b s = .ok { s₂ with escape := escapes s₂.escape b } := by
  have hbegins : ¬(¬s.comment ∧ ¬s.quote ∧ ¬s.escape ∧ b = hash) := by
    rintro ⟨-, hquote, hescape, hb⟩
    rcases hhash with h | h | h
    · exact hquote h
    · exact hescape h
    · exact h hb
  have hgoes : ¬(s.comment ∧ b ≠ newline) := fun h => h.2 (hcomment h.1)
  unfold round
  rw [if_neg hbegins, if_neg hgoes, hread, Fault.ok_bind, hcopy]
  rfl

end Parts

/-! ### Counting quotes

Outside of a long string the count goes up with each quote that follows another one, and at three
a long string begins.  Inside of one it goes down from three, and at zero the string ends.
-/

section Counts

variable {s : State} {aa bb : PyQuote} {p : UInt8}

/-- The count with the quote that is read, outside of long strings. -/
def counted (p : UInt8) (aa bb : PyQuote) : Int :=
  if aa.cnt = 0 ∧ ¬(aa.q ∨ bb.q) then aa.cnt + 1 else if p = aa.ch then aa.cnt + 1 else aa.cnt

theorem counted_ok (p : UInt8) (aa bb : PyQuote) :
    (if aa.cnt = 0 ∧ ¬(aa.q ∨ bb.q) then .ok (aa.cnt + 1)
      else (before (some p)).map fun p => if p = aa.ch then aa.cnt + 1 else aa.cnt :
        Except Fault Int) = .ok (counted p aa bb) := by
  unfold counted
  by_cases h : aa.cnt = 0 ∧ ¬(aa.q ∨ bb.q)
  · rw [if_pos h, if_pos h]
  · rw [if_neg h, if_neg h]
    rfl

theorem check_three (hdoc : s.inDocstring = .noDocstring) (hcnt : counted p aa bb = 3) :
    checkDocstring (some p) s aa bb =
      .ok ⟨aa.val, { aa with cnt := 3, q := false }, { bb with q := false }, true⟩ := by
  unfold checkDocstring
  rw [if_neg (not_not_intro hdoc), counted_ok, Fault.ok_bind, hcnt]
  rfl

theorem check_inside (hdoc : s.inDocstring = .noDocstring) (hcnt : counted p aa bb ≠ 3)
    (hbb : bb.q = true) : checkDocstring (some p) s aa bb =
      .ok ⟨.noDocstring, { aa with cnt := counted p aa bb }, bb, s.skip⟩ := by
  unfold checkDocstring
  rw [if_neg (not_not_intro hdoc), counted_ok, Fault.ok_bind]
  dsimp only
  rw [if_neg hcnt, if_neg (fun h => h.1 hbb)]

/-- A quote begins a literal, or ends it, or is escaped. -/
theorem check_free {k : Quote} {q : Bool} {cnt n : Int} (hdoc : s.inDocstring = .noDocstring)
    (hcnt : counted p (quoteAt k q cnt) bb = n) (hne : n ≠ 3) (hbb : bb.q = false)
    (hcomment : s.comment = false) :
    checkDocstring (some p) s (quoteAt k q cnt) bb =
      .ok ⟨.noDocstring, quoteAt k (!q || s.escape) n, bb, s.skip || (q && !s.escape)⟩ := by
  have hfree : ¬bb.q = true ∧ ¬s.comment = true := by
    rw [hbb, hcomment]
    decide
  unfold checkDocstring
  rw [if_neg (not_not_intro hdoc), counted_ok, Fault.ok_bind, hcnt]
  dsimp only
  rw [if_neg hne, if_pos hfree]
  cases q with
  | false =>
      rw [Bool.false_and, Bool.or_false]
      rfl
  | true =>
      cases s.escape with
      | false =>
          rw [Bool.not_false, Bool.and_true, Bool.or_true]
          rfl
      | true =>
          rw [Bool.not_true, Bool.and_false, Bool.or_false]
          rfl

/-- The count of the quotes that are still missing at the end of a long string. -/
def missing (p : UInt8) (aa : PyQuote) : Int :=
  if aa.cnt = 3 then aa.cnt - 1 else if p = aa.ch then aa.cnt - 1 else 3

theorem missing_ok (p : UInt8) (aa : PyQuote) :
    (if aa.cnt = 3 then .ok (aa.cnt - 1)
      else (before (some p)).map fun p => if p = aa.ch then aa.cnt - 1 else 3 :
        Except Fault Int) = .ok (missing p aa) := by
  unfold missing
  by_cases h : aa.cnt = 3
  · rw [if_pos h, if_pos h]
  · rw [if_neg h, if_neg h]
    rfl

theorem check_missing (hdoc : s.inDocstring ≠ .noDocstring) (hcnt : missing p aa ≠ 0) :
    checkDocstring (some p) s aa bb =
      .ok ⟨aa.val, { aa with cnt := missing p aa }, bb, s.skip⟩ := by
  unfold checkDocstring
  rw [if_pos hdoc, missing_ok, Fault.ok_bind, if_pos hcnt]

theorem check_complete (hdoc : s.inDocstring ≠ .noDocstring) (hcnt : missing p aa = 0) :
    checkDocstring (some p) s aa bb = .ok ⟨.noDocstring, { aa with cnt := 0 }, bb, true⟩ := by
  unfold checkDocstring
  rw [if_pos hdoc, missing_ok, Fault.ok_bind, if_neg (not_not_intro hcnt), hcnt]

end Counts

/-! ### Rounds

These are the lemmas for a byte in each situation.  The last byte that was read is kept with the
state, since whether a quote goes on with a count depends on it.
-/

section Rounds

variable {k : Quote} {cnt o : Int} {c : Common} {p b : UInt8}

theorem ch_facts (k : Quote) : k.ch ≠ 0 ∧ k.ch ≠ hash ∧ k.ch ≠ backslash ∧ isQuote k.ch = true := by
  cases k <;> decide

theorem noDocstring_ne (k : Quote) : Docstring.noDocstring ≠ valOf k := by cases k <;> decide

theorem valOf_ne_other (k : Quote) : valOf k ≠ valOf k.other := by cases k <;> decide

theorem escapes_ne {escape : Bool} (hb : b ≠ backslash) : escapes escape b = false := if_neg hb

theorem eq_of_escapes {escape : Bool} (h : escapes escape b = true) : b = backslash := by
  by_contra hb
  exact absurd h (ne_true_of_eq_false (escapes_ne hb))

theorem escapes_ch (escape : Bool) (k : Quote) : escapes escape k.ch = false :=
  escapes_ne (ch_facts k).2.2.1

theorem restart_ch (q : Bool) : restart k.ch (quoteAt k q cnt) = quoteAt k q cnt :=
  if_neg fun h => h.2 rfl

theorem restart_ne (hb : b ≠ k.ch) (hcnt : 0 ≤ cnt) (q : Bool) :
    restart b (quoteAt k q cnt) = quoteAt k q 0 := by
  unfold restart
  by_cases hpos : 0 < cnt
  · rw [if_pos ⟨hpos, hb⟩]
    rfl
  · have hzero : cnt = 0 := by omega
    rw [if_neg (fun h => hpos h.1), hzero]

theorem refill_ch (q : Bool) : refill k.ch (quoteAt k q cnt) = quoteAt k q cnt :=
  if_neg fun h => h.2 rfl

theorem refill_ne (hb : b ≠ k.ch) (hcnt : cnt ≤ 3) (q : Bool) :
    refill b (quoteAt k q cnt) = quoteAt k q 3 := by
  unfold refill
  by_cases hless : cnt < 3
  · rw [if_pos ⟨hless, hb⟩]
    rfl
  · have hthree : cnt = 3 := by omega
    rw [if_neg (fun h => hless h.1), hthree]

/-- A round that copies nothing. -/
theorem Runs.quiet {doc doc' : Docstring} {aa bb aa₁ bb₁ aa' bb' : PyQuote} {skip : Bool}
    {c' : Common} (hb : b ≠ 0) (hcomment : c.comment = false)
    (hhash : (aa.q || bb.q || doc != .noDocstring) = true ∨ b ≠ hash)
    (hread : readChar (some p) b (seen k doc aa bb false c) = .ok (seen k doc' aa₁ bb₁ skip c'))
    (hreset : resetCounts b (seen k doc' aa₁ bb₁ skip c') = seen k doc' aa' bb' skip c')
    (hcopy : skip = true ∨ (aa'.q || bb'.q || doc' != .noDocstring) = true)
    (hbuf : c'.buf = c.buf) :
    Runs p [b] (seen k doc aa bb false c)
      (seen k doc' aa' bb' false { c' with escape := escapes c'.escape b }) := by
  have hhash' : (seen k doc aa bb false c).quote = true ∨
      (seen k doc aa bb false c).escape = true ∨ b ≠ hash := by
    rw [quote_seen]
    rcases hhash with hquote | hne
    · exact Or.inl hquote
    · exact Or.inr (Or.inr hne)
  have hcopied : ∀ size, copyChar size b (resetCounts b (seen k doc' aa₁ bb₁ skip c')) =
      .ok (seen k doc' aa' bb' false c') := by
    intro size
    rw [hreset]
    rcases hcopy with hskip | hquote
    · rw [hskip]
      exact copyChar_skip size
    · exact copyChar_quoted hquote size
  apply Runs.single hb
  · show c'.buf.length ≤ c.buf.length + 1
    rw [hbuf]
    exact Nat.le_succ _
  · intro size _
    have hnone : (seen k doc aa bb false c).comment = true → b = newline := fun h =>
      absurd h (ne_true_of_eq_false hcomment)
    exact round_eq hnone hhash' hread (hcopied size)

/-- A round for a quote. -/
theorem Runs.ch {doc : Docstring} {aa bb aa' bb' : PyQuote} {r : Checked}
    (hcomment : c.comment = false) (hdoc : doc ≠ valOf k.other)
    (hcheck : checkDocstring (some p) (seen k doc aa bb false c) aa bb = .ok r)
    (hreset : ∀ c', resetCounts k.ch (seen k r.inDocstring r.aa r.bb r.skip c') =
      seen k r.inDocstring aa' bb' r.skip c')
    (hcopy : r.skip = true ∨ (aa'.q || bb'.q || r.inDocstring != .noDocstring) = true) :
    Runs p [k.ch] (seen k doc aa bb false c)
      (seen k r.inDocstring aa' bb' false { c with space := 0, escape := false }) := by
  have hrun := Runs.quiet (ch_facts k).1 hcomment (Or.inr (ch_facts k).2.1)
    (readChar_ch hdoc hcheck) (hreset _) hcopy rfl
  rw [escapes_ch] at hrun
  exact hrun

theorem counted_first : counted p (quoteAt k false 0) (quoteAt k.other false o) = 1 := by
  simp [counted, quoteAt]

section Counted

variable {k' : Quote} {q q' : Bool} (h : cnt ≠ 0 ∨ q = true ∨ q' = true)

include h

theorem counted_next (hp : p = k.ch) :
    counted p (quoteAt k q cnt) (quoteAt k' q' o) = cnt + 1 := by
  have hnot : ¬(cnt = 0 ∧ ¬(q = true ∨ q' = true)) := fun hfirst =>
    h.elim (fun hne => hne hfirst.1) hfirst.2
  unfold counted quoteAt
  rw [if_neg hnot, if_pos hp]

theorem counted_apart (hp : p ≠ k.ch) :
    counted p (quoteAt k q cnt) (quoteAt k' q' o) = cnt := by
  have hnot : ¬(cnt = 0 ∧ ¬(q = true ∨ q' = true)) := fun hfirst =>
    h.elim (fun hne => hne hfirst.1) hfirst.2
  unfold counted quoteAt
  rw [if_neg hnot, if_neg hp]

end Counted

/-- A quote outside of triple quotes, where no literal of the other kind is open. -/
theorem runs_free {q : Bool} {n : Int} (hcomment : c.comment = false) (ho : 0 ≤ o)
    (hcnt : counted p (quoteAt k q cnt) (quoteAt k.other false o) = n) (hne : n ≠ 3) :
    Runs p [k.ch] (seen k .noDocstring (quoteAt k q cnt) (quoteAt k.other false o) false c)
      (seen k .noDocstring (quoteAt k (!q || c.escape) n) (quoteAt k.other false 0) false
        { c with space := 0, escape := false }) := by
  have hcheck := check_free
    (s := seen k .noDocstring (quoteAt k q cnt) (quoteAt k.other false o) false c)
    rfl hcnt hne rfl hcomment
  refine Runs.ch hcomment (noDocstring_ne _) hcheck (fun c' => ?_) ?_
  · rw [resetCounts_outer, restart_ch, restart_ne (ch_ne_other k) ho]
    rfl
  · show (false || (q && !c.escape)) = true ∨ ((!q || c.escape) || false || false) = true
    cases q <;> cases c.escape <;> decide

/-- The first quote. -/
theorem runs_begins (hcomment : c.comment = false) (ho : 0 ≤ o) :
    Runs p [k.ch] (outer k 0 o c) (inShort k 1 0 { c with space := 0, escape := false }) :=
  runs_free hcomment ho counted_first (by decide)

/-- One right behind a literal that an escaped quote ends. -/
theorem runs_begins_again (hcomment : c.comment = false) (hp : p = k.ch) :
    Runs p [k.ch] (outer k 1 0 c) (inShort k 2 0 { c with space := 0, escape := false }) :=
  runs_free hcomment (Int.le_refl 0) (counted_next (Or.inl (by decide)) hp) (by decide)

/-- The quote that closes a short literal. -/
theorem runs_ends (hcomment : c.comment = false) (hescape : c.escape = false)
    (ho : 0 ≤ o) {n : Int} (hn : n = if p = k.ch then cnt + 1 else cnt) (hne : n ≠ 3) :
    Runs p [k.ch] (inShort k cnt o c) (outer k n 0 { c with space := 0, escape := false }) := by
  have hcnt : counted p (quoteAt k true cnt) (quoteAt k.other false o) = n := by
    rw [hn]
    by_cases hp : p = k.ch
    · rw [if_pos hp, counted_next (Or.inr (Or.inl rfl)) hp]
    · rw [if_neg hp, counted_apart (Or.inr (Or.inl rfl)) hp]
  have hrun := runs_free hcomment ho hcnt hne
  rw [hescape] at hrun
  exact hrun

/-- A quote that is escaped. -/
theorem runs_escaped (hcomment : c.comment = false) (hescape : c.escape = true) (hp : p ≠ k.ch)
    (ho : 0 ≤ o) :
    Runs p [k.ch] (inShort k 0 o c) (inShort k 0 0 { c with space := 0, escape := false }) := by
  have hcnt : counted p (quoteAt k true 0) (quoteAt k.other false o) = 0 :=
    counted_apart (Or.inr (Or.inl rfl)) hp
  have hrun := runs_free hcomment ho hcnt (by decide)
  rw [hescape] at hrun
  exact hrun

/-- The third quote, whether the literal before it is closed or not. -/
theorem runs_three {q : Bool} (hcomment : c.comment = false) (hp : p = k.ch) :
    Runs p [k.ch] (seen k .noDocstring (quoteAt k q 2) (quoteAt k.other false 0) false c)
      (inLong k 3 { c with space := 0, escape := false }) := by
  have hcnt : counted p (quoteAt k q 2) (quoteAt k.other false 0) = 3 :=
    counted_next (Or.inl (by decide)) hp
  have hcheck := check_three
    (s := seen k .noDocstring (quoteAt k q 2) (quoteAt k.other false 0) false c) rfl hcnt
  refine Runs.ch hcomment (noDocstring_ne _) hcheck (fun c' => ?_) (Or.inl rfl)
  show resetCounts k.ch (seen k (valOf k) (quoteAt k false 3) (quoteAt k.other false 0) true c') = _
  rw [resetCounts_long, refill_ch]
  rfl

/-- A quote of the other kind, in a short literal. -/
theorem runs_inside (hcomment : c.comment = false) (hcnt : 0 ≤ cnt) {n : Int}
    (hn : n = if p = k.other.ch then o + 1 else o) (hne : n ≠ 3) :
    Runs p [k.other.ch] (inShort k cnt o c)
      (inShort k 0 n { c with space := 0, escape := false }) := by
  have hcounted : counted p (quoteAt k.other false o) (quoteAt k true cnt) = n := by
    rw [hn]
    by_cases hp : p = k.other.ch
    · rw [if_pos hp, counted_next (Or.inr (Or.inr rfl)) hp]
    · rw [if_neg hp, counted_apart (Or.inr (Or.inr rfl)) hp]
  have hcheck := check_inside
    (s := seen k.other .noDocstring (quoteAt k.other false o) (quoteAt k true cnt) false c) rfl
    (by rw [hcounted]; exact hne) rfl
  rw [hcounted] at hcheck
  have hreset : ∀ c', resetCounts k.other.ch
      (seen k.other .noDocstring (quoteAt k.other false n) (quoteAt k true cnt) false c') =
        seen k.other .noDocstring (quoteAt k.other false n) (quoteAt k true 0) false c' := by
    intro c'
    rw [resetCounts_outer, restart_ch, restart_ne (ch_ne_other k).symm hcnt]
  have hrun := Runs.ch hcomment (noDocstring_ne _) hcheck hreset (Or.inr rfl)
  rw [seen_swap k.other, seen_swap k.other, other_other] at hrun
  exact hrun

theorem ne_ch_of_plain (hb : isQuote b = false) (k : Quote) : b ≠ k.ch := by
  rintro rfl
  rw [(ch_facts k).2.2.2] at hb
  exact Bool.false_ne_true hb.symm

/-- A byte that is no quote, in a short literal. -/
theorem runs_plain_short (hcomment : c.comment = false) (hbuf : c.buf ≠ [])
    (hb : isQuote b = false) (hnul : b ≠ 0) (hcnt : 0 ≤ cnt) (ho : 0 ≤ o) :
    ∃ space, Runs p [b] (inShort k cnt o c)
      (inShort k 0 0 { c with space := space, escape := escapes c.escape b }) := by
  obtain ⟨skip, space, hread⟩ : ∃ skip space, readChar (some p) b (inShort k cnt o c) =
      .ok (seen k .noDocstring (quoteAt k true cnt) (quoteAt k.other false o) skip
        { c with space := space }) := readChar_plain hb hbuf hcomment
  refine ⟨space, Runs.quiet hnul hcomment (Or.inl rfl) hread ?_ (Or.inr rfl) rfl⟩
  rw [resetCounts_outer, restart_ne (ne_ch_of_plain hb k) hcnt,
    restart_ne (ne_ch_of_plain hb k.other) ho]

theorem quoted_long (k : Quote) (aa bb : PyQuote) :
    (aa.q || bb.q || valOf k != .noDocstring) = true := by
  cases k <;> exact Bool.or_true _

/-- A byte that is no quote, in a long literal. -/
theorem runs_plain_long (hcomment : c.comment = false) (hbuf : c.buf ≠ [])
    (hb : isQuote b = false) (hnul : b ≠ 0) (hcnt : cnt ≤ 3) :
    ∃ space, Runs p [b] (inLong k cnt c)
      (inLong k 3 { c with space := space, escape := escapes c.escape b }) := by
  obtain ⟨skip, space, hread⟩ : ∃ skip space, readChar (some p) b (inLong k cnt c) =
      .ok (seen k (valOf k) (quoteAt k false cnt) (quoteAt k.other false 0) skip
        { c with space := space }) := readChar_plain hb hbuf hcomment
  refine ⟨space, Runs.quiet hnul hcomment (Or.inl (quoted_long k _ _)) hread ?_
    (Or.inr (quoted_long k _ _)) rfl⟩
  rw [resetCounts_long, refill_ne (ne_ch_of_plain hb k) hcnt]
  rfl

/-- A quote of the other kind, in a long literal. -/
theorem runs_other_long (hcomment : c.comment = false) (hcnt : cnt ≤ 3) :
    Runs p [k.other.ch] (inLong k cnt c) (inLong k 3 { c with space := 0, escape := false }) := by
  have hreset : ∀ c', resetCounts k.other.ch
      (seen k (valOf k) (quoteAt k false cnt) (quoteAt k.other false 0) false c') =
        seen k (valOf k) (quoteAt k false 3) (quoteAt k.other false 0) false c' := by
    intro c'
    rw [resetCounts_long, refill_ne (ch_ne_other k).symm hcnt]
    rfl
  have hrun := Runs.quiet (ch_facts k.other).1 hcomment (Or.inl (quoted_long k _ _))
    (readChar_other_ch (p := p)) (hreset _) (Or.inr (quoted_long k _ _)) rfl
  rw [escapes_ch] at hrun
  exact hrun

/-- A quote of a long literal that does not close it. -/
theorem runs_missing (hcomment : c.comment = false) {n : Int}
    (hn : n = if cnt = 3 then cnt - 1 else if p = k.ch then cnt - 1 else 3) (hne : n ≠ 0) :
    Runs p [k.ch] (inLong k cnt c) (inLong k n { c with space := 0, escape := false }) := by
  have hmissing : missing p (quoteAt k false cnt) = n := hn.symm
  have hcheck : checkDocstring (some p) (inLong k cnt c) (quoteAt k false cnt)
      (quoteAt k.other false 0) =
        .ok ⟨valOf k, quoteAt k false (missing p (quoteAt k false cnt)), quoteAt k.other false 0,
          false⟩ := check_missing (noDocstring_ne k).symm (by rw [hmissing]; exact hne)
  rw [hmissing] at hcheck
  refine Runs.ch hcomment (valOf_ne_other k) hcheck (fun c' => ?_) (Or.inr (quoted_long k _ _))
  show resetCounts k.ch
    (seen k (valOf k) (quoteAt k false n) (quoteAt k.other false 0) false c') = _
  rw [resetCounts_long, refill_ch]
  rfl

/-- The last of the three that do. -/
theorem runs_complete (hcomment : c.comment = false) (hp : p = k.ch) :
    Runs p [k.ch] (inLong k 1 c) (outer k 0 0 { c with space := 0, escape := false }) := by
  have hmissing : missing p (quoteAt k false 1) = 0 := by
    show (if (1 : Int) = 3 then (1 : Int) - 1 else if p = k.ch then (1 : Int) - 1 else 3) = 0
    rw [if_neg (by decide), if_pos hp]
    rfl
  have hcheck : checkDocstring (some p) (inLong k 1 c) (quoteAt k false 1)
      (quoteAt k.other false 0) =
        .ok ⟨.noDocstring, quoteAt k false 0, quoteAt k.other false 0, true⟩ :=
    check_complete (noDocstring_ne k).symm hmissing
  refine Runs.ch hcomment (valOf_ne_other k) hcheck (fun c' => ?_) (Or.inl rfl)
  show resetCounts k.ch
    (seen k .noDocstring (quoteAt k false 0) (quoteAt k.other false 0) true c') = _
  rw [resetCounts_outer, restart_ch, restart_ne (ch_ne_other k) (Int.le_refl 0)]

end Rounds

/-! ### Literals

What is counted inside of a literal is how many quotes the part that was read ends with.  The
literal is not left as long as there are never enough of them in a row, which the lexing of Python
and `CountsRight` see to.
-/

/-- How many of these bytes the text ends with. -/
def trail (q : UInt8) (t : BString) : Nat := (t.reverse.takeWhile (· = q)).length

section Trail

variable {q b : UInt8} {t u : BString} {n : Nat}

theorem trail_concat (q b : UInt8) (t : BString) :
    trail q (t ++ [b]) = if b = q then trail q t + 1 else 0 := by
  unfold trail
  rw [List.reverse_append, List.reverse_singleton, List.singleton_append]
  by_cases hb : b = q
  · rw [if_pos hb, List.takeWhile_cons_of_pos (by simpa using hb), List.length_cons]
  · rw [if_neg hb, List.takeWhile_cons_of_neg (by simpa using hb), List.length_nil]

theorem trail_pos (q b : UInt8) (t : BString) : b = q ↔ 0 < trail q (t ++ [b]) := by
  rw [trail_concat]
  by_cases hb : b = q
  · rw [if_pos hb]
    exact iff_of_true hb (Nat.succ_pos _)
  · rw [if_neg hb]
    exact iff_of_false hb (Nat.lt_irrefl 0)

theorem replicate_trail (q : UInt8) (t : BString) : List.replicate (trail q t) q <:+ t := by
  have hall : t.reverse.takeWhile (· = q) = List.replicate (trail q t) q := by
    refine List.eq_replicate_of_mem ?_
    intro b hb
    simpa using List.mem_takeWhile_imp hb
  rw [← List.reverse_prefix, List.reverse_replicate, ← hall]
  exact List.takeWhile_prefix _

theorem trail_lt (h : ¬List.replicate n q <:+: t ++ u) : trail q t < n := by
  by_contra hle
  apply h
  have hsuffix : List.replicate n q <:+ List.replicate (trail q t) q := by
    refine ⟨List.replicate (trail q t - n) q, ?_⟩
    rw [List.replicate_append_replicate]
    congr 1
    omega
  exact (hsuffix.trans (replicate_trail q t)).isInfix.trans (List.infix_append' [] t u)

end Trail

/-- Each quote is escaped. -/
def Inside (q : UInt8) : (escape : Bool) → BString → Prop
  | _, [] => True
  | escape, b :: t => (b = q → escape = true) ∧ Inside q (escapes escape b) t

theorem quote_cases (k : Quote) (b : UInt8) :
    b = k.ch ∨ b = k.other.ch ∨ isQuote b = false := by
  cases k <;> simp [Quote.ch, Quote.other, isQuote] <;> grind

/-- A byte between single quotes; the quotes of the other kind are counted, but for the first. -/
theorem runs_short_byte {k : Quote} {pre t : BString} {p b : UInt8} {cnt : Int} {c : Common}
    (hcomment : c.comment = false) (hbuf : c.buf ≠ []) (hnul : b ≠ 0)
    (hquote : b = k.ch → c.escape = true ∧ p = backslash ∧ cnt = 0)
    (hp : p = k.other.ch ↔ 0 < trail k.other.ch pre)
    (hfour : ¬List.replicate 4 k.other.ch <:+: pre ++ b :: t) (hcnt : 0 ≤ cnt) :
    ∃ space, Runs p [b] (inShort k cnt ((trail k.other.ch pre - 1 : Nat) : Int) c)
      (inShort k 0 ((trail k.other.ch (pre ++ [b]) - 1 : Nat) : Int)
        { c with space := space, escape := escapes c.escape b }) := by
  have hlt : trail k.other.ch (pre ++ [b]) < 4 :=
    trail_lt (u := t) (by rwa [List.append_assoc, List.singleton_append])
  rw [trail_concat] at hlt ⊢
  rcases quote_cases k b with rfl | rfl | hplain
  · obtain ⟨hescape, rfl, rfl⟩ := hquote rfl
    rw [if_neg (ch_ne_other k), escapes_ch]
    exact ⟨0, runs_escaped hcomment hescape (ch_facts k).2.2.1.symm (Int.natCast_nonneg _)⟩
  · rw [if_pos rfl] at hlt ⊢
    rw [escapes_ch]
    refine ⟨0, runs_inside hcomment hcnt ?_ (by omega)⟩
    by_cases hother : p = k.other.ch
    · have hpos := hp.mp hother
      rw [if_pos hother]
      omega
    · have hzero : ¬0 < trail k.other.ch pre := fun h => hother (hp.mpr h)
      rw [if_neg hother]
      omega
  · rw [if_neg (ne_ch_of_plain hplain k.other)]
    exact runs_plain_short hcomment hbuf hplain hnul hcnt (Int.natCast_nonneg _)

/-- Over what stands between single quotes. -/
theorem runs_short {k : Quote} {t : BString} : ∀ (pre : BString) (p : UInt8) (cnt : Int)
    (c : Common), c.comment = false → c.buf ≠ [] → 0 ∉ t → Inside k.ch c.escape t →
      (c.escape = true → p = backslash ∧ cnt = 0) →
      (p = k.other.ch ↔ 0 < trail k.other.ch pre) →
      ¬List.replicate 4 k.other.ch <:+: pre ++ t → 0 ≤ cnt →
      ∃ space, Runs p t (inShort k cnt ((trail k.other.ch pre - 1 : Nat) : Int) c)
        (inShort k (if t = [] then cnt else 0) ((trail k.other.ch (pre ++ t) - 1 : Nat) : Int)
          { c with space := space, escape := t.foldl escapes c.escape }) := by
  induction t with
  | nil =>
      intro pre p cnt c _ _ _ _ _ _ _ _
      rw [List.append_nil]
      exact ⟨c.space, Runs.nil p _⟩
  | cons b t ih =>
      intro pre p cnt c hcomment hbuf hnul hinside hescape hp hfour hcnt
      obtain ⟨hquote, hinside⟩ := hinside
      obtain ⟨space, hfirst⟩ := runs_short_byte hcomment hbuf (List.ne_of_not_mem_cons hnul).symm
        (fun hb => ⟨hquote hb, hescape (hquote hb)⟩) hp hfour hcnt
      obtain ⟨space', hrest⟩ := ih (pre ++ [b]) b 0
        { c with space := space, escape := escapes c.escape b } hcomment hbuf
        (fun h => hnul (List.mem_cons_of_mem _ h)) hinside (fun h => ⟨eq_of_escapes h, rfl⟩)
        (trail_pos _ b pre) (by rwa [List.append_assoc, List.singleton_append]) (Int.le_refl 0)
      refine ⟨space', ?_⟩
      rw [ite_self, List.append_assoc, List.singleton_append] at hrest
      rw [if_neg (List.cons_ne_nil b t), List.foldl_cons]
      exact hfirst.cons hrest

/-- A byte between triple quotes, where the quotes of the literal are counted down. -/
theorem runs_long_byte {k : Quote} {pre t : BString} {p b : UInt8} {c : Common}
    (hcomment : c.comment = false) (hbuf : c.buf ≠ []) (hnul : b ≠ 0)
    (hp : 0 < trail k.ch pre → p = k.ch) (hthree : ¬List.replicate 3 k.ch <:+: pre ++ b :: t) :
    ∃ space escape, Runs p [b] (inLong k (3 - (trail k.ch pre : Int)) c)
      (inLong k (3 - (trail k.ch (pre ++ [b]) : Int))
        { c with space := space, escape := escape }) := by
  have hlt : trail k.ch (pre ++ [b]) < 3 :=
    trail_lt (u := t) (by rwa [List.append_assoc, List.singleton_append])
  rw [trail_concat] at hlt ⊢
  rcases quote_cases k b with rfl | rfl | hplain
  · rw [if_pos rfl] at hlt ⊢
    refine ⟨0, false, runs_missing hcomment ?_ (by omega)⟩
    by_cases hzero : trail k.ch pre = 0
    · rw [hzero]
      rfl
    · rw [if_neg (by omega), if_pos (hp (Nat.pos_of_ne_zero hzero))]
      omega
  · rw [if_neg (ch_ne_other k).symm]
    exact ⟨0, false, runs_other_long hcomment (by omega)⟩
  · have hle : 3 - (trail k.ch pre : Int) ≤ 3 := by omega
    obtain ⟨space, hrun⟩ := runs_plain_long (k := k) (p := p) hcomment hbuf hplain hnul hle
    rw [if_neg (ne_ch_of_plain hplain k)]
    exact ⟨space, _, hrun⟩

/-- Over what stands between triple quotes, and the first of those that close it. -/
theorem runs_long {k : Quote} {t : BString} : ∀ (pre : BString) (p : UInt8) (c : Common),
    c.comment = false → c.buf ≠ [] → 0 ∉ t → (0 < trail k.ch pre → p = k.ch) →
      ¬List.replicate 3 k.ch <:+: pre ++ t →
      ∃ space escape, Runs p t (inLong k (3 - (trail k.ch pre : Int)) c)
        (inLong k (3 - (trail k.ch (pre ++ t) : Int))
          { c with space := space, escape := escape }) := by
  induction t with
  | nil =>
      intro pre p c _ _ _ _ _
      rw [List.append_nil]
      exact ⟨c.space, c.escape, Runs.nil p _⟩
  | cons b t ih =>
      intro pre p c hcomment hbuf hnul hp hthree
      obtain ⟨space, escape, hfirst⟩ := runs_long_byte hcomment hbuf
        (List.ne_of_not_mem_cons hnul).symm hp hthree
      obtain ⟨space', escape', hrest⟩ := ih (pre ++ [b]) b
        { c with space := space, escape := escape } hcomment hbuf
        (fun h => hnul (List.mem_cons_of_mem _ h)) (trail_pos _ b pre).mpr
        (by rwa [List.append_assoc, List.singleton_append])
      rw [List.append_assoc, List.singleton_append] at hrest
      exact ⟨space', escape', hfirst.cons hrest⟩

/-! ### Outside of literals

Code is copied, but for a blank behind another one and for blanks at the beginning of a line.  So
what is visible has all been copied, and of white space there is some left wherever there was any.
-/

/-- All that is visible has been copied. -/
structure Matches (kept : BString) (c : Common) : Prop where
  ne_nil : c.buf ≠ []
  same : visible c.buf = visible kept
  blank : c.space ≠ 0 → c.buf.getLast?.all isSpace = true

/-- And so has the last byte, unless it is white space behind white space. -/
structure Copied (kept : BString) (c : Common) : Prop extends Matches kept c where
  last : c.buf.getLast? = kept.getLast? ∨
    c.buf.getLast?.all isSpace = true ∧ kept.getLast?.all isSpace = true

section Copied

variable {kept : BString} {c : Common} {b : UInt8} {space : UInt16} {escape comment : Bool}

theorem visible_append (s t : BString) : visible (s ++ t) = visible s ++ visible t :=
  List.filter_append _ _

theorem visible_space (hb : isSpace b = true) : visible [b] = [] := by
  unfold visible
  rw [List.filter_cons_of_neg (by rw [hb]; exact Bool.false_ne_true), List.filter_nil]

theorem Matches.write (h : Matches kept c) (hspace : space ≠ 0 → isSpace b = true) :
    Copied (kept ++ [b]) ⟨space, c.buf ++ [b], escape, comment⟩ where
  ne_nil := List.append_ne_nil_of_right_ne_nil _ (List.cons_ne_nil _ _)
  same := by rw [visible_append, visible_append, h.same]
  last := by
    left
    rw [List.getLast?_concat, List.getLast?_concat]
  blank := by
    intro hne
    rw [List.getLast?_concat]
    exact hspace hne

/-- White space behind white space can be left out. -/
theorem Matches.leave (h : Matches kept c) (hb : isSpace b = true)
    (hlast : c.buf.getLast?.all isSpace = true) :
    Copied (kept ++ [b]) ⟨space, c.buf, escape, comment⟩ where
  ne_nil := h.ne_nil
  same := by rw [visible_append, visible_space hb, List.append_nil, h.same]
  last := by
    right
    refine ⟨hlast, ?_⟩
    rw [List.getLast?_concat]
    exact hb
  blank := fun _ => hlast

theorem Copied.reset (h : Copied kept c) : Copied kept ⟨0, c.buf, escape, comment⟩ where
  ne_nil := h.ne_nil
  same := h.same
  last := h.last
  blank := fun hne => absurd rfl hne

end Copied

section Outer

variable {k : Quote} {cnt o : Int} {c : Common} {p b : UInt8} {kept : BString}

/-- A byte that is no quote is copied if it is not skipped, and not the second blank in a row. -/
theorem round_copied {skip : Bool} {space : UInt16} {comment : Bool} {size : Nat}
    (hroom : c.buf.length < size) (hplain : isQuote b = false)
    (hcomment : c.comment = true → b = newline) (hhash : c.escape = true ∨ b ≠ Ascii.hash)
    (hcnt : 0 ≤ cnt) (ho : 0 ≤ o)
    (hread : readChar (some p) b (outer k cnt o c) =
      .ok (seen k .noDocstring (quoteAt k false cnt) (quoteAt k.other false o) skip
        { c with space := space, comment := comment })) :
    round size (some p) b (outer k cnt o c) = .ok (outer k 0 0
      ⟨space, if skip = false ∧ space < 2 then c.buf ++ [b] else c.buf, escapes c.escape b,
        comment⟩) := by
  have hreset : resetCounts b (seen k .noDocstring (quoteAt k false cnt)
      (quoteAt k.other false o) skip { c with space := space, comment := comment }) =
        seen k .noDocstring (quoteAt k false 0) (quoteAt k.other false 0) skip
          { c with space := space, comment := comment } := by
    rw [resetCounts_outer, restart_ne (ne_ch_of_plain hplain k) hcnt,
      restart_ne (ne_ch_of_plain hplain k.other) ho]
  have hcopy : copyChar size b (resetCounts b
      (seen k .noDocstring (quoteAt k false cnt) (quoteAt k.other false o) skip
        { c with space := space, comment := comment })) =
      .ok (outer k 0 0 ⟨space, if skip = false ∧ space < 2 then c.buf ++ [b] else c.buf,
        c.escape, comment⟩) := by
    rw [hreset]
    cases skip with
    | true =>
        rw [if_neg (fun h => Bool.false_ne_true h.1.symm)]
        exact copyChar_skip size
    | false =>
        unfold copyChar
        rw [if_neg (by exact Bool.false_ne_true), quote_seen]
        by_cases hspace : space < 2
        · rw [if_pos ⟨by exact Bool.false_ne_true, hspace⟩, if_pos ⟨rfl, hspace⟩]
          exact if_pos hroom
        · rw [if_neg (fun h => hspace h.2), if_neg (fun h => hspace h.2)]
          rfl
  exact round_eq hcomment (Or.inr hhash) hread hcopy

theorem runs_copied {skip : Bool} {space : UInt16} {comment : Bool} (hnul : b ≠ 0)
    (hplain : isQuote b = false) (hcomment : c.comment = true → b = newline)
    (hhash : c.escape = true ∨ b ≠ Ascii.hash) (hcnt : 0 ≤ cnt) (ho : 0 ≤ o)
    (hread : readChar (some p) b (outer k cnt o c) =
      .ok (seen k .noDocstring (quoteAt k false cnt) (quoteAt k.other false o) skip
        { c with space := space, comment := comment })) :
    Runs p [b] (outer k cnt o c) (outer k 0 0
      ⟨space, if skip = false ∧ space < 2 then c.buf ++ [b] else c.buf, escapes c.escape b,
        comment⟩) := by
  apply Runs.single hnul
  · show (if skip = false ∧ space < 2 then c.buf ++ [b] else c.buf).length ≤ c.buf.length + 1
    by_cases h : skip = false ∧ space < 2
    · rw [if_pos h, List.length_append, List.length_singleton]
    · rw [if_neg h]
      exact Nat.le_succ _
  · intro size hroom
    exact round_copied hroom hplain hcomment hhash hcnt ho hread

theorem isSpace_of_isBlank (hb : isBlank b = true) : isSpace b = true := by
  rcases Bool.or_eq_true _ _ ▸ hb with h | h
  · rw [eq_of_beq h]
    rfl
  · rw [eq_of_beq h]
    rfl

/-- A newline; it ends a comment. -/
theorem runs_newline (h : Matches kept c) (hcnt : 0 ≤ cnt) (ho : 0 ≤ o) :
    ∃ c', Runs p [newline] (outer k cnt o c) (outer k 0 0 c') ∧ c'.comment = false ∧
      c'.escape = false ∧ Copied (kept ++ [newline]) c' := by
  have hescape : escapes c.escape newline = false := escapes_ne (by decide)
  refine ⟨_, runs_copied (by decide) rfl (fun _ => rfl) (Or.inr (by decide)) hcnt ho
    (readChar_newline h.ne_nil), rfl, hescape, ?_⟩
  by_cases hnew : c.buf.getLast h.ne_nil = newline
  · rw [beq_iff_eq.mpr hnew, if_neg (fun hc => Bool.false_ne_true hc.1.symm)]
    apply h.leave rfl
    rw [List.getLast?_eq_some_getLast h.ne_nil, hnew]
    rfl
  · rw [if_pos ⟨by simpa using hnew, by decide⟩]
    exact h.write fun _ => rfl

/-- Any other byte that is no quote and does not begin a comment. -/
theorem runs_byte (h : Matches kept c) (hcomment : c.comment = false) (hnul : b ≠ 0)
    (hplain : isQuote b = false) (hhash : c.escape = true ∨ b ≠ hash) (hcnt : 0 ≤ cnt)
    (ho : 0 ≤ o) :
    ∃ c', Runs p [b] (outer k cnt o c) (outer k 0 0 c') ∧ c'.comment = false ∧
      c'.escape = escapes c.escape b ∧ Copied (kept ++ [b]) c' := by
  by_cases hnewline : b = newline
  · subst hnewline
    obtain ⟨c', hrun, hcomment', hescape', hcopied⟩ := runs_newline (p := p) (k := k) h hcnt ho
    exact ⟨c', hrun, hcomment', by rw [hescape', escapes_ne (by decide)], hcopied⟩
  have hnone : c.comment = true → b = newline := fun hc =>
    absurd hc (ne_true_of_eq_false hcomment)
  refine ⟨_, runs_copied hnul hplain hnone hhash hcnt ho
    (readChar_byte h.ne_nil hnewline hplain), hcomment, rfl, ?_⟩
  by_cases hblank : isBlank b = true
  · have hspace := isSpace_of_isBlank hblank
    rw [if_pos hblank, hblank, Bool.true_and]
    by_cases hnew : c.buf.getLast h.ne_nil = newline
    · rw [if_pos hnew, beq_iff_eq.mpr hnew, if_neg (fun hc => Bool.false_ne_true hc.1.symm)]
      apply h.leave hspace
      rw [List.getLast?_eq_some_getLast h.ne_nil, hnew]
      rfl
    · rw [if_neg hnew, beq_false_of_ne hnew]
      by_cases hfirst : c.space + 1 < 2
      · rw [if_pos ⟨rfl, hfirst⟩]
        exact h.write fun _ => hspace
      · rw [if_neg (fun hc => hfirst hc.2)]
        apply h.leave hspace
        apply h.blank
        rintro hzero
        rw [hzero] at hfirst
        exact hfirst (by decide)
  · rw [if_neg hblank, Bool.eq_false_iff.mpr hblank, if_pos ⟨rfl, by decide⟩]
    exact h.write fun hne => absurd rfl hne

end Outer

end TagHighlight.StripPython
