/-
No access of `handle_cstyle` is outside of its arrays.

The index `i` is moved on in the middle of a round, but only over bytes that have been looked
at and are not the NUL, or over the quote at `i` itself; so it gets behind the end of the line
by one at most, and there nothing is read any more.  A round writes one byte at most, however
far it moves on.  That is all that is needed for `repl`, and it also gives that the index by
index version computes the same as `handleLine`.

Nothing is assumed of the lines, nor of what is carried into the first of them.  So the bounds
hold in the middle of a comment, of a literal and of a part that is skipped, and for lines that no
text of C would have.
-/
import TagHighlight.Lang.StripCBounds
import TagHighlight.Proofs.Lang.StripC

namespace TagHighlight.StripC

open Ascii CtagsScan Fault

variable {line : BString} {i : Nat}

/-! ### Reading

The NUL at the end of the line stops everything: it is no blank, begins no directive, and is none
of the bytes that are looked for.  So what reads ahead does not get behind it.
-/

theorem lineAt_le {j : Nat} (h : j ≤ line.length) : lineAt line j = .ok (byteAt line j) := if_pos h

theorem lineEnd_le {k : Nat} (h : k ≤ line.length) :
    lineEnd line k = .ok (byteAt line (line.length - k)) := by
  rw [lineEnd, if_pos h, lineAt_le (Nat.sub_le _ _)]

theorem byteAt_drop (line : BString) (i k : Nat) : byteAt (line.drop i) k = byteAt line (i + k) := by
  simp only [byteAt, List.getD_eq_getElem?_getD, List.getElem?_drop]

/-- A byte that is not NUL is before the end of the line. -/
theorem lt_of_byteAt {j : Nat} (h : byteAt line j ≠ 0) : j < line.length := by
  by_contra hge
  refine h ?_
  rw [byteAt, List.getD_eq_getElem?_getD, List.getElem?_eq_none (Nat.not_lt.mp hge)]
  rfl

/-- What is in front of `i`, if there is something. -/
theorem drop_cons {c : UInt8} {rest : BString} (h : line.drop i = c :: rest) :
    i < line.length ∧ byteAt line i = c ∧ line.drop (i + 1) = rest := by
  refine ⟨?_, ?_, ?_⟩
  · by_contra hge
    rw [List.drop_eq_nil_of_le (Nat.not_lt.mp hge)] at h
    cases h
  · have := byteAt_drop line i 0
    rw [h] at this
    exact this.symm
  · rw [← List.drop_drop, h]
    rfl

theorem skipBlanks_eq (h : i ≤ line.length) :
    skipBlanks line i = if isBlank (byteAt line i) then skipBlanks line (i + 1) else .ok i := by
  rw [skipBlanks]
  split
  · rename_i e he
    rw [lineAt_le h] at he
    cases he
  · rename_i c hc
    rw [lineAt_le h] at hc
    cases hc
    rfl

/-- The blanks end at the NUL, if not before. -/
theorem skipBlanks_spec : ∀ (rest : BString) {i : Nat}, line.drop i = rest → i ≤ line.length →
    skipBlanks line i = .ok (i + (rest.takeWhile isBlank).length) := by
  intro rest
  induction rest with
  | nil =>
      intro i hrest hi
      have hnul : byteAt line i = 0 := by
        by_contra hne
        have := lt_of_byteAt hne
        have := List.drop_eq_nil_iff.mp hrest
        omega
      rw [skipBlanks_eq hi, hnul]
      rfl
  | cons c rest ih =>
      intro i hrest hi
      obtain ⟨hlt, hc, hdrop⟩ := drop_cons hrest
      rw [skipBlanks_eq hi, hc]
      by_cases hblank : isBlank c = true
      · rw [if_pos hblank, List.takeWhile_cons_of_pos hblank, ih hdrop hlt, List.length_cons]
        congr 1
        omega
      · rw [if_neg hblank, List.takeWhile_cons_of_neg hblank]
        rfl

theorem drop_takeWhile (p : UInt8 → Bool) (s : BString) :
    s.drop (s.takeWhile p).length = s.dropWhile p := by
  induction s with
  | nil => rfl
  | cons b s ih =>
      by_cases hb : p b = true
      · rw [List.takeWhile_cons_of_pos hb, List.dropWhile_cons_of_pos hb, List.length_cons,
          List.drop_succ_cons, ih]
      · rw [List.takeWhile_cons_of_neg hb, List.dropWhile_cons_of_neg hb]
        rfl

/-- A text without NULs is compared no further than to the end of the line. -/
theorem startsAt_spec : ∀ {lit : BString} {j : Nat}, 0 ∉ lit → j ≤ line.length →
    startsAt line j lit = .ok (lit.isPrefixOf (line.drop j)) := by
  intro lit
  induction lit with
  | nil => intro j _ _; rfl
  | cons b lit ih =>
      intro j hnul hj
      simp only [List.mem_cons, not_or] at hnul
      have hbyte := byteAt_drop line j 0
      rw [startsAt, lineAt_le hj, Fault.ok_bind]
      cases hrest : line.drop j with
      | nil =>
          rw [hrest] at hbyte
          have hnul' : byteAt line j = 0 := hbyte.symm
          rw [hnul', if_neg hnul.1]
          rfl
      | cons c rest =>
          obtain ⟨hlt, hc, hdrop⟩ := drop_cons hrest
          rw [hc, List.isPrefixOf]
          by_cases hcb : c = b
          · rw [if_pos hcb, ih hnul.2 hlt, hdrop, hcb, beq_self_eq_true, Bool.true_and]
          · rw [if_neg hcb, beq_eq_false_iff_ne.mpr fun h => hcb h.symm]
            rfl

/-- The blanks after a `#` lead to the directive. -/
theorem skip_hash (hi : i < line.length) :
    ∃ tmp, skipBlanks line (i + 1) = .ok tmp ∧ tmp ≤ line.length ∧
      line.drop tmp = directive line i := by
  refine ⟨_, skipBlanks_spec _ rfl hi, ?_, ?_⟩
  · have := (List.takeWhile_sublist isBlank (l := line.drop (i + 1))).length_le
    rw [List.length_drop] at this
    omega
  · rw [← List.drop_drop, drop_takeWhile]
    rfl

theorem countIf_spec (ifcount : Int) (hi : i < line.length) :
    countIf line i ifcount = .ok (if (bt "if").isPrefixOf (directive line i) then ifcount + 1
      else if (bt "endif").isPrefixOf (directive line i) then ifcount - 1 else ifcount) := by
  obtain ⟨tmp, hskip, hle, hdrop⟩ := skip_hash hi
  rw [countIf, hskip, Fault.ok_bind, startsAt_spec (by decide) hle, Fault.ok_bind,
    startsAt_spec (by decide) hle, hdrop]
  by_cases hif : (bt "if").isPrefixOf (directive line i) = true
  · rw [if_pos hif, if_pos hif]
  · rw [if_neg hif, if_neg hif, Fault.ok_bind]
    by_cases hendif : (bt "endif").isPrefixOf (directive line i) = true
    · rw [if_pos hendif, if_pos hendif]
    · rw [if_neg hendif, if_neg hendif]

theorem opensIfZero_spec (hi : i ≤ line.length) :
    opensIfZero line i =
      .ok (decide (byteAt line i = hash) && (bt "if 0").isPrefixOf (directive line i)) := by
  rw [opensIfZero, lineAt_le hi, Fault.ok_bind]
  by_cases hhash : byteAt line i = hash
  · have hlt : i < line.length := lt_of_byteAt (by rw [hhash]; decide)
    obtain ⟨tmp, hskip, hle, hdrop⟩ := skip_hash hlt
    rw [if_pos hhash, hskip, Fault.ok_bind, startsAt_spec (by decide) hle, hdrop,
      decide_eq_true hhash, Bool.true_and]
  · rw [if_neg hhash, decide_eq_false hhash, Bool.false_and]

/-! ### A round

The version with indices is compared with `round`, branch by branch.  Where a branch moves the
index on it has just read the byte that it moves over, and this was not the NUL.
-/

/-- The variables after `pieces` have been written. -/
def Locals.moved (s : Locals) (i : Nat) (want : Want) (esc : Bool) (pieces : List Piece) : Locals :=
  { i := i
    want := want
    esc := esc
    empty := s.empty && pieces.isEmpty
    repl := { s.repl with bytes := s.repl.bytes ++ pieces.map Piece.byte } }

theorem moved_nil (s : Locals) : s.moved s.i s.want s.esc [] = s := by
  simp [Locals.moved]

theorem moved_moved (s : Locals) (i i' : Nat) (want want' : Want) (esc esc' : Bool)
    (pieces pieces' : List Piece) : (s.moved i want esc pieces).moved i' want' esc' pieces' =
      s.moved i' want' esc' (pieces ++ pieces') := by
  cases pieces with
  | nil => simp [Locals.moved]
  | cons p pieces => simp [Locals.moved]

/-- The variables after the branches of a round. -/
def Locals.after (s : Locals) (r : Round) : Locals := s.moved (s.i + r.skip) r.want s.esc r.added

theorem put_ok {repl : Repl} (b : UInt8) (h : repl.bytes.length < repl.size) :
    repl.put b = .ok { repl with bytes := repl.bytes ++ [b] } := by
  rw [Repl.put, Repl.write, if_pos h]
  rfl

/-- With room for a byte in `repl`, the branches do what a round does. -/
theorem branch_spec {s : Locals} (hlt : s.i < line.length)
    (hroom : s.repl.bytes.length < s.repl.size) :
    branch line s = .ok ((round s.want s.esc (line.drop s.i)).map s.after) := by
  obtain ⟨i, want, esc, empty, repl⟩ := s
  dsimp only at hlt hroom
  have h0 : byteAt (line.drop i) 0 = byteAt line i := byteAt_drop line i 0
  have h1 : byteAt (line.drop i) 1 = byteAt line (i + 1) := byteAt_drop line i 1
  have hsame : Locals.after ⟨i, want, esc, empty, repl⟩ ⟨want, 0, []⟩ = ⟨i, want, esc, empty, repl⟩ :=
    moved_nil _
  unfold branch round
  simp only [lineAt_le (Nat.le_of_lt hlt), lineAt_le (show i + 1 ≤ line.length from hlt), Fault.ok_bind,
    h0, h1]
  by_cases hblank : isBlank (byteAt line i) = true
  · rw [if_pos hblank, if_pos hblank]
    simp [hsame]
  rw [if_neg hblank, if_neg hblank]
  cases want with
  | newline => rfl
  | ifZero => simp [hsame]
  | star =>
      dsimp only
      by_cases hstar : byteAt line i = star
      · rw [if_pos hstar]
        by_cases hslash : byteAt line (i + 1) = slash
        · rw [if_pos hslash, if_pos ⟨hstar, hslash⟩]
          simp [Locals.after, Locals.moved]
        · rw [if_neg hslash, if_neg fun h => hslash h.2]
          simp [hsame]
      · rw [if_neg hstar, if_neg fun h => hstar h.1]
        simp [hsame]
  | quote q =>
      dsimp only
      by_cases hq : byteAt line i = q
      · rw [if_pos hq]
        by_cases hesc : ¬esc = true
        · rw [if_pos hesc, if_pos ⟨hq, hesc⟩]
          simp [Locals.after, Locals.moved]
        · rw [if_neg hesc, if_neg fun h => hesc h.2]
          simp [hsame]
      · rw [if_neg hq, if_neg fun h => hq h.1]
        simp [hsame]
  | nothing =>
      dsimp only
      by_cases hsingle : byteAt line i = singleQuote
      · rw [if_pos hsingle, if_pos (Or.inl hsingle), hsingle]
        simp [Locals.after, Locals.moved]
      by_cases hdouble : byteAt line i = doubleQuote
      · rw [if_neg hsingle, if_pos hdouble, if_pos (Or.inr hdouble), hdouble]
        simp [Locals.after, Locals.moved]
      rw [if_neg hsingle, if_neg hdouble, if_neg (not_or.mpr ⟨hsingle, hdouble⟩)]
      by_cases hslash : byteAt line i = slash
      · rw [if_pos hslash]
        by_cases hstar : byteAt line (i + 1) = star
        · rw [if_pos hstar, if_pos ⟨hslash, hstar⟩, put_ok space hroom]
          simp [Locals.after, Locals.moved]
        · have hopen : ¬(byteAt line i = slash ∧ byteAt line (i + 1) = Ascii.star) :=
            fun h => hstar h.2
          rw [if_neg hstar, if_neg hopen]
          by_cases hslash' : byteAt line (i + 1) = slash
          · rw [if_pos hslash', if_pos ⟨hslash, hslash'⟩]
            rfl
          · rw [if_neg hslash', if_neg fun h => hslash' h.2]
            simp [hsame]
      · rw [if_neg hslash, if_neg fun h => hslash h.1, if_neg fun h => hslash h.1]
        simp [hsame]

/--
How far a round moves on, which is not behind the NUL, and what it writes, which is one byte
at most: where a comment opens nothing is copied.
-/
theorem round_bounds {want : Want} {esc : Bool} {r : Round} (hlt : i < line.length)
    (h : round want esc (line.drop i) = some r) :
    i + r.skip ≤ line.length ∧ r.added.length + (copied r (line.drop i) i).length ≤ 1 := by
  have h1 : byteAt (line.drop i) 1 = byteAt line (i + 1) := byteAt_drop line i 1
  have hcopied : ∀ r : Round, (copied r (line.drop i) i).length ≤ 1 := by
    intro r
    unfold copied
    split
    · exact Nat.le_refl 1
    · exact Nat.zero_le 1
  have hone : ∀ want, 0 + (copied ⟨want, 0, []⟩ (line.drop i) i).length ≤ 1 := fun want => by
    rw [Nat.zero_add]
    exact hcopied _
  unfold round at h
  simp only [h1] at h
  split at h
  · cases h
    exact ⟨Nat.le_of_lt hlt, hone _⟩
  cases want with
  | newline => cases h
  | ifZero =>
      cases h
      exact ⟨Nat.le_of_lt hlt, hone _⟩
  | star =>
      dsimp only at h
      split at h
      · rename_i hclose
        cases h
        have hne : byteAt line (i + 1) ≠ 0 := by
          rw [hclose.2]
          decide
        have := lt_of_byteAt hne
        exact ⟨this, by simpa using hcopied _⟩
      · cases h
        exact ⟨Nat.le_of_lt hlt, hone _⟩
  | quote q =>
      dsimp only at h
      split at h
      · cases h
        exact ⟨hlt, by simpa using hcopied _⟩
      · cases h
        exact ⟨Nat.le_of_lt hlt, hone _⟩
  | nothing =>
      dsimp only at h
      split at h
      · cases h
        exact ⟨Nat.le_of_lt hlt, hone _⟩
      split at h
      · cases h
        refine ⟨hlt, ?_⟩
        rw [copied, if_neg (fun hc => Want.noConfusion hc.1)]
        exact Nat.le_refl 1
      split at h
      · cases h
      · cases h
        exact ⟨Nat.le_of_lt hlt, hone _⟩

/-- The end of a round: the byte at `i` is copied if nothing is wanted. -/
theorem round_end {s : Locals} {r : Round} (hle : s.i + r.skip ≤ line.length)
    (hroom : s.repl.bytes.length + r.added.length < s.repl.size) :
    (do escAt line (← copyAt line (s.after r))) = .ok (s.moved (s.i + r.skip) r.want
      (escAfter r (line.drop s.i) s.esc) (r.added ++ copied r (line.drop s.i) s.i)) := by
  have hbyte : byteAt (line.drop s.i) r.skip = byteAt line (s.i + r.skip) := byteAt_drop _ _ _
  have hread : lineAt line (s.after r).i = .ok (byteAt line (s.i + r.skip)) := lineAt_le hle
  have hcopy : copyAt line (s.after r) =
      .ok ((s.after r).moved (s.i + r.skip) r.want s.esc (copied r (line.drop s.i) s.i)) := by
    unfold copyAt copied
    rw [hread, Fault.ok_bind, hbyte]
    by_cases hwant : r.want = .nothing
    · rw [if_pos (show (s.after r).want = .nothing from hwant)]
      by_cases hnul : byteAt line (s.i + r.skip) = 0
      · rw [if_neg (not_not_intro hnul), if_neg fun h => h.2 hnul]
        exact congrArg _ (moved_nil (s.after r)).symm
      · have hput : (s.after r).repl.bytes.length < (s.after r).repl.size := by
          simpa [Locals.after, Locals.moved] using hroom
        rw [if_pos hnul, if_pos ⟨hwant, hnul⟩, put_ok _ hput]
        simp [Locals.after, Locals.moved]
    · rw [if_neg (show ¬(s.after r).want = .nothing from hwant), if_neg fun h => hwant h.1]
      exact congrArg _ (moved_nil (s.after r)).symm
  rw [hcopy, Fault.ok_bind, escAt, Locals.after, moved_moved]
  have hread' : lineAt line (s.moved (s.i + r.skip) r.want s.esc
      (r.added ++ copied r (line.drop s.i) s.i)).i = .ok (byteAt line (s.i + r.skip)) := hread
  rw [hread', Fault.ok_bind, escAfter, hbyte]
  rfl

theorem lineCommentAt_spec (h : 0 < line.length) :
    lineCommentAt line = .ok (afterLineComment line) := by
  unfold lineCommentAt afterLineComment
  rw [lineEnd_le h, Fault.ok_bind]
  dsimp only
  by_cases hlast : byteAt line (line.length - 1) = backslash
  · rw [if_pos hlast]
    by_cases hlong : line.length > 3
    · rw [if_pos hlong, lineEnd_le (by omega), Fault.ok_bind]
      by_cases hbefore : byteAt line (line.length - 2) ≠ backslash
      · rw [if_pos hbefore, if_pos ⟨hlast, hlong, hbefore⟩]
      · rw [if_neg hbefore, if_neg fun h => hbefore h.2.2]
    · rw [if_neg hlong, if_neg fun h => hlong h.2.1]
  · rw [if_neg hlast, if_neg fun h => hlast h.1]

/--
The loop does what `scan` does.  A round leaves `x` at `i` or before it, and also before the
end of the line if `i` is behind it.
-/
theorem loopAt_spec : ∀ {n : Nat} {s : Locals}, s.repl.size = line.length + 2 →
    s.repl.bytes.length ≤ s.i → s.repl.bytes.length ≤ line.length → line.length ≤ s.i + n →
    ∃ i esc, loopAt line n s = .ok (s.moved i (scan line n (line.drop s.i) s.i s.want s.esc).1 esc
        (scan line n (line.drop s.i) s.i s.want s.esc).2) ∧
      s.repl.bytes.length + (scan line n (line.drop s.i) s.i s.want s.esc).2.length ≤
        line.length := by
  intro n
  induction n with
  | zero =>
      intro s hsize hi hlen hn
      refine ⟨s.i, s.esc, ?_, hlen⟩
      rw [loopAt, if_neg (by omega)]
      exact congrArg _ (moved_nil s).symm
  | succ n ih =>
      intro s hsize hi hlen hn
      rw [loopAt]
      cases hrest : line.drop s.i with
      | nil =>
          have hend := List.drop_eq_nil_iff.mp hrest
          rw [scan_nil, if_neg (by omega)]
          exact ⟨s.i, s.esc, congrArg _ (moved_nil s).symm, hlen⟩
      | cons c cs =>
          obtain ⟨hlt, -, -⟩ := drop_cons hrest
          rw [if_pos hlt, branch_spec hlt (by omega), Fault.ok_bind, hrest]
          cases hround : round s.want s.esc (c :: cs) with
          | none =>
              rw [scan_none hround]
              refine ⟨s.i, s.esc, ?_, hlen⟩
              simp only [Option.map_none]
              rw [lineCommentAt_spec (by omega)]
              simp [Locals.moved]
          | some r =>
              obtain ⟨hskip, hone⟩ := round_bounds hlt (hrest ▸ hround)
              have hstep := round_end hskip
                (show s.repl.bytes.length + r.added.length < s.repl.size by omega)
              have hscan : scan line (n + 1) (c :: cs) s.i s.want s.esc = _ := scan_round hround
              have hdrop : (c :: cs).drop (r.skip + 1) = line.drop (s.i + r.skip + 1) := by
                rw [← hrest, List.drop_drop, Nat.add_assoc]
              rw [hdrop, ← Nat.add_assoc] at hscan
              rw [hrest] at hstep hone
              -- What the next round starts with.
              have hx : (s.repl.bytes ++
                  (r.added ++ copied r (c :: cs) s.i).map Piece.byte).length ≤ s.i + 1 := by
                simp only [List.length_append, List.length_map]
                omega
              obtain ⟨i, esc, hrun, hlen'⟩ := ih
                (s := s.moved (s.i + r.skip + 1) r.want (escAfter r (c :: cs) s.esc)
                  (r.added ++ copied r (c :: cs) s.i)) hsize
                (Nat.le_trans hx (by show _ ≤ s.i + r.skip + 1; omega)) (Nat.le_trans hx hlt)
                (by show _ ≤ s.i + r.skip + 1 + n; omega)
              rw [hscan]
              refine ⟨i, esc, ?_, ?_⟩
              · simp only [Option.map_some]
                rw [← bind_assoc, hstep, Fault.ok_bind]
                exact hrun.trans (congrArg _ (moved_moved _ _ _ _ _ _ _ _ _))
              · refine Nat.le_trans (Nat.le_of_eq ?_) hlen'
                simp only [Locals.moved, List.length_append, List.length_map]
                exact (Nat.add_assoc _ _ _).symm

/-! ### A line

`repl` has room for each byte of the line, for a newline and for a NUL.  A round that moves on by
one or more writes one byte at most, so what was written is never ahead of what was read, and at
the end of the line there is room for the other two.
-/

/-- What is appended to the list for a line. -/
def textOf (pieces : List Piece) : Option BString :=
  if pieces = [] then none else some (pieces.map Piece.byte ++ [newline])

/-- The newline and the NUL behind the text are within `repl`. -/
theorem nextLine_spec {s : Locals} (pieces : List Piece) (i : Nat) (want : Want) (esc : Bool)
    (hempty : s.empty = true) (hbytes : s.repl.bytes = [])
    (hroom : pieces.length + 1 < s.repl.size) :
    nextLine (s.moved i want esc pieces) = .ok (textOf pieces) := by
  unfold nextLine textOf
  cases pieces with
  | nil => rw [if_pos (by simp [Locals.moved, hempty]), if_pos rfl]
  | cons p ps =>
      have hput : (s.moved i want esc (p :: ps)).repl.bytes.length <
          (s.moved i want esc (p :: ps)).repl.size := by
        simp only [Locals.moved, hbytes, List.nil_append, List.length_map]
        omega
      rw [if_neg (by simp [Locals.moved]), if_neg (List.cons_ne_nil p ps), put_ok newline hput,
        Fault.ok_bind, Repl.write, if_pos]
      · simp [Locals.moved, hbytes]
      · simp only [Locals.moved, hbytes, List.nil_append, List.length_append, List.length_map,
          List.length_singleton]
        exact hroom

/-- Handling a line gives what `handleLine` gives, whatever is carried into it. -/
theorem handleLineAt_spec (s : State) (line : BString) :
    handleLineAt s line = .ok ((handleLine s line).1, textOf (handleLine s line).2) := by
  have hblanks : skipBlanks line 0 = .ok (line.takeWhile isBlank).length := by
    rw [skipBlanks_spec line List.drop_zero (Nat.zero_le _), Nat.zero_add]
  have hi : (line.takeWhile isBlank).length ≤ line.length :=
    (List.takeWhile_sublist isBlank).length_le
  unfold handleLineAt handleLine
  rw [hblanks, Fault.ok_bind, lineAt_le hi, Fault.ok_bind]
  dsimp only
  set i := (line.takeWhile isBlank).length with hidef
  by_cases hzero : s.want = .ifZero
  · rw [if_pos hzero, if_pos hzero]
    by_cases hhash : byteAt line i = hash
    · have hlt : i < line.length := lt_of_byteAt (by rw [hhash]; decide)
      rw [if_pos hhash, if_pos hhash, countIf_spec _ hlt]
      rfl
    · rw [if_neg hhash, if_neg hhash]
      rfl
  rw [if_neg hzero, if_neg hzero]
  have hcond : (if s.want = .nothing then opensIfZero line i else .ok false) =
      .ok (decide (s.want = .nothing ∧ byteAt line i = hash ∧
        (bt "if 0").isPrefixOf (directive line i) = true)) := by
    by_cases hwant : s.want = .nothing
    · rw [if_pos hwant, opensIfZero_spec hi]
      simp only [hwant, true_and, Bool.decide_and, Bool.decide_eq_true]
    · rw [if_neg hwant, decide_eq_false fun h => hwant h.1]
  rw [hcond, Fault.ok_bind]
  by_cases hopens : s.want = .nothing ∧ byteAt line i = Ascii.hash ∧
      (bt "if 0").isPrefixOf (directive line i) = true
  · rw [if_pos hopens, if_pos (decide_eq_true hopens)]
    rfl
  · rw [if_neg hopens, if_neg (by simpa using hopens)]
    obtain ⟨i', esc, hrun, hlen⟩ := loopAt_spec (n := line.length)
      (s := { i := i, want := s.want, esc := false, empty := true, repl := ⟨line.length + 2, []⟩ })
      rfl (Nat.zero_le _) (Nat.zero_le _) (Nat.le_add_left _ _)
    rw [List.length_nil, Nat.zero_add] at hlen
    rw [hrun, Fault.ok_bind, nextLine_spec _ i' _ esc rfl rfl (by show _ < line.length + 2; omega)]
    rfl

/--
**Every access is inside.**  Whatever is carried into the first of a number of lines, handling
them reads and writes nothing outside of a line and of its `repl`, and gives what
`handleLines` gives.
-/
theorem handleLinesAt_eq (s : State) (lines : List BString) :
    handleLinesAt s lines = .ok ((handleLines s lines).map textOf) := by
  induction lines generalizing s with
  | nil => rfl
  | cons line lines ih =>
      rw [handleLinesAt, handleLineAt_spec, Fault.ok_bind]
      dsimp only
      rw [ih, Fault.ok_bind]
      rfl

end TagHighlight.StripC
