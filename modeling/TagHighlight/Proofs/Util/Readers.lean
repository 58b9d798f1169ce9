/-
When the two readers end, and what they have read then.

`stream_read` asks for what is missing, so what it delivers is right, and it ends unless the
stream does so before.  `read_pipe` asks for the whole length each time.  The bytes that it
takes from the stream in all are at least as many as it has wanted, and more of them with each
call that fails; so if it returns, and has left the others alone, no call has failed, and every
call has taken what had arrived.

A stream says for each call how much of what is there it gives out, or that the call fails.  So
what the readers do is said for all ways in which the bytes can arrive, and for the exact ones in
which they arrive as they should.
-/
import TagHighlight.Util.Readers

namespace TagHighlight.Readers

/-! ### `stream_read`

Each call asks for what is missing and gets a part of it, so no byte is taken that belongs to
others.  A call that does not fail brings a byte at least, as long as there are any, so the loop
ends unless it waits for bytes that are not there.
-/

theorem streamRead_done {nbytes : Nat} {dest : BString} (h : ¬dest.length < nbytes)
    (rounds : Nat) (src : InputStream) :
    streamRead nbytes (rounds + 1) dest src = some (.ok (dest, src)) := by
  rw [streamRead, if_neg h]

theorem streamRead_fail {nbytes : Nat} {dest : BString} {src : InputStream}
    (h : dest.length < nbytes) (hcall : src.chunk src.calls = none) (rounds : Nat) :
    streamRead nbytes (rounds + 1) dest src = some (.error (.errx 1 "read() error")) := by
  rw [streamRead, if_pos h, InputStream.read_none hcall]

theorem streamRead_round {nbytes : Nat} {dest : BString} {src : InputStream} {k : Nat}
    (h : dest.length < nbytes) (hcall : src.chunk src.calls = some k) (rounds : Nat) :
    streamRead nbytes (rounds + 1) dest src =
      streamRead nbytes rounds
        (dest ++ src.rest.take (min (nbytes - dest.length) (k + 1)))
        (src.after (min (nbytes - dest.length) (k + 1))) := by
  rw [streamRead, if_pos h, InputStream.read_some hcall]

/-- What the ways are for in which a round can go. -/
theorem streamRead_induction {nbytes : Nat}
    {motive : Nat → BString → InputStream → Option (Except Fault (BString × InputStream)) → Prop}
    (unfinished : ∀ dest src, motive 0 dest src none)
    (done : ∀ rounds dest src, nbytes ≤ dest.length →
      motive (rounds + 1) dest src (some (.ok (dest, src))))
    (fail : ∀ rounds dest src, src.chunk src.calls = none →
      motive (rounds + 1) dest src (some (.error (.errx 1 "read() error"))))
    (round : ∀ rounds dest src k t out, dest.length < nbytes → src.chunk src.calls = some k →
      t = min (nbytes - dest.length) (k + 1) →
      motive rounds (dest ++ src.rest.take t) (src.after t) out →
        motive (rounds + 1) dest src out)
    (rounds : Nat) (dest : BString) (src : InputStream) :
    motive rounds dest src (streamRead nbytes rounds dest src) := by
  induction rounds generalizing dest src with
  | zero => exact unfinished dest src
  | succ rounds ih =>
      by_cases hlt : dest.length < nbytes
      · cases hcall : src.chunk src.calls with
        | none =>
            rw [streamRead_fail hlt hcall]
            exact fail rounds dest src hcall
        | some k =>
            rw [streamRead_round hlt hcall]
            exact round rounds dest src k _ _ hlt hcall rfl (ih _ _)
      · rw [streamRead_done hlt]
        exact done rounds dest src (Nat.not_lt.mp hlt)

/-- Of the bytes that are missing, `t` first and then the others. -/
theorem take_append_take_drop (rest : BString) {t missing : Nat} (h : t ≤ missing) :
    rest.take t ++ (rest.drop t).take (missing - t) = rest.take missing := by
  rw [← List.take_add, Nat.add_sub_cancel' h]

/-- What it returns, it has read. -/
theorem streamRead_ok (nbytes rounds : Nat) (dest : BString) (src : InputStream) :
    ∀ dest' src', dest.length ≤ nbytes →
      streamRead nbytes rounds dest src = some (.ok (dest', src')) →
        nbytes - dest.length ≤ src.rest.length ∧
          dest' = dest ++ src.rest.take (nbytes - dest.length) ∧
          src'.rest = src.rest.drop (nbytes - dest.length) := by
  refine streamRead_induction (motive := fun _ dest src out => ∀ dest' src',
    dest.length ≤ nbytes → out = some (.ok (dest', src')) →
      nbytes - dest.length ≤ src.rest.length ∧
        dest' = dest ++ src.rest.take (nbytes - dest.length) ∧
        src'.rest = src.rest.drop (nbytes - dest.length)) ?_ ?_ ?_ ?_ rounds dest src
  · intro dest src dest' src' _ hrun
    cases hrun
  · intro rounds dest src hge dest' src' _ hrun
    injection hrun with hrun
    injection hrun with hrun
    injection hrun with hdest hsrc
    rw [Nat.sub_eq_zero_of_le hge]
    exact ⟨Nat.zero_le _, by simp [hdest], by rw [← hsrc]; rfl⟩
  · intro rounds dest src _ dest' src' _ hrun
    cases hrun
  · intro rounds dest src k t out hlt _ ht ih dest' src' _ hrun
    have hle : t ≤ nbytes - dest.length := by
      rw [ht]
      exact Nat.min_le_left _ _
    have hlen : (src.rest.take t).length = min t src.rest.length := List.length_take
    obtain ⟨henough, hdest, hsrc⟩ := ih dest' src' (by rw [List.length_append]; omega) hrun
    rw [List.length_append, InputStream.after_rest] at henough hdest hsrc
    rw [List.length_drop] at henough
    -- The stream has not ended within these bytes, or more would be missing now.
    have htaken : (src.rest.take t).length = t := by omega
    rw [htaken, Nat.sub_add_eq] at henough hdest hsrc
    rw [List.append_assoc, take_append_take_drop src.rest hle] at hdest
    rw [List.drop_drop, Nat.add_sub_cancel' hle] at hsrc
    exact ⟨by omega, hdest, hsrc⟩

/-- The only error is that of a call. -/
theorem streamRead_error (nbytes rounds : Nat) (dest : BString) (src : InputStream) :
    ∀ e, streamRead nbytes rounds dest src = some (.error e) →
      e = .errx 1 "read() error" ∧ src.Fails := by
  refine streamRead_induction (motive := fun _ _ src out => ∀ e, out = some (.error e) →
    e = .errx 1 "read() error" ∧ src.Fails) ?_ ?_ ?_ ?_ rounds dest src
  · intro dest src e hrun
    cases hrun
  · intro rounds dest src _ e hrun
    cases hrun
  · intro rounds dest src hcall e hrun
    injection hrun with hrun
    injection hrun with hrun
    exact ⟨hrun.symm, src.calls, Nat.le_refl _, hcall⟩
  · intro rounds dest src k t out _ _ _ ih e hrun
    obtain ⟨he, hfails⟩ := ih e hrun
    exact ⟨he, hfails.of_after⟩

/-- A call takes a byte at least, as long as there are enough. -/
theorem streamRead_ends_of_le (nbytes rounds : Nat) (dest : BString) (src : InputStream) :
    nbytes - dest.length ≤ src.rest.length → nbytes - dest.length < rounds →
      streamRead nbytes rounds dest src ≠ none := by
  refine streamRead_induction (motive := fun rounds dest src out =>
    nbytes - dest.length ≤ src.rest.length → nbytes - dest.length < rounds → out ≠ none)
    ?_ ?_ ?_ ?_ rounds dest src
  · intro dest src _ hrounds
    exact absurd hrounds (Nat.not_lt_zero _)
  · intro rounds dest src _ _ _
    exact Option.some_ne_none _
  · intro rounds dest src _ _ _
    exact Option.some_ne_none _
  · intro rounds dest src k t out hlt _ ht ih henough hrounds
    apply ih
    · rw [List.length_append, List.length_take, InputStream.after_rest, List.length_drop]
      omega
    · rw [List.length_append, List.length_take]
      omega

/-- A call that fails is reached, or it has ended before. -/
theorem streamRead_ends_of_fails (nbytes rounds : Nat) (dest : BString) (src : InputStream) :
    ∀ i, src.calls ≤ i → src.chunk i = none → i - src.calls < rounds →
      streamRead nbytes rounds dest src ≠ none := by
  refine streamRead_induction (motive := fun rounds _ src out => ∀ i, src.calls ≤ i →
    src.chunk i = none → i - src.calls < rounds → out ≠ none) ?_ ?_ ?_ ?_ rounds dest src
  · intro dest src i _ _ hrounds
    exact absurd hrounds (Nat.not_lt_zero _)
  · intro rounds dest src _ i _ _ _
    exact Option.some_ne_none _
  · intro rounds dest src _ i _ _ _
    exact Option.some_ne_none _
  · intro rounds dest src k t out _ hcall _ ih i hle hnone hrounds
    have hne : i ≠ src.calls := by
      rintro rfl
      rw [hnone] at hcall
      cases hcall
    apply ih i _ hnone
    · rw [InputStream.after_calls]
      omega
    · rw [InputStream.after_calls]
      omega

/--
**`stream_read` ends in time and with the bytes exactly when the stream has them, or a call
fails.**
-/
theorem streamRead_delivers (src : InputStream) (nbytes : Nat) :
    Delivers (fun rounds => streamRead nbytes rounds [] src) nbytes src.rest ↔
      nbytes ≤ src.rest.length ∨ src.Fails := by
  constructor
  · rintro ⟨rounds, out, hrun, hout⟩
    rcases hout with ⟨code, msg, rfl⟩ | ⟨hle, -⟩
    · exact .inr (streamRead_error _ rounds _ _ _ hrun).2
    · exact .inl hle
  · intro h
    obtain ⟨rounds, hends⟩ : ∃ rounds, streamRead nbytes rounds [] src ≠ none := by
      rcases h with hle | ⟨i, hle, hnone⟩
      · exact ⟨nbytes + 1, streamRead_ends_of_le _ _ _ _ hle (Nat.lt_succ_self _)⟩
      · exact ⟨i - src.calls + 1, streamRead_ends_of_fails _ _ _ _ _ hle hnone (Nat.lt_succ_self _)⟩
    obtain ⟨out, hrun⟩ := Option.ne_none_iff_exists'.mp hends
    refine ⟨rounds, out, hrun, ?_⟩
    cases out with
    | error e =>
        obtain ⟨he, -⟩ := streamRead_error _ rounds _ _ _ hrun
        exact .inl ⟨1, "read() error", by rw [he]⟩
    | ok out =>
        obtain ⟨hle, hdest, hsrc⟩ := streamRead_ok _ rounds _ _ _ _ (Nat.zero_le _) hrun
        exact .inr ⟨hle, out.2, by rw [show src.rest.take nbytes = out.1 from hdest.symm], hsrc⟩

/-! ### `read_pipe`: a round

A round writes what it has read to the place at `slen`, whatever room there is behind.  A call
that fails counts as minus one byte, and so moves `slen` back.
-/

theorem bodyRound_fail {n slen : Nat} {fd : InputStream} (hslen : slen ≤ capacity n)
    (hcall : fd.chunk fd.calls = none) (data : BString) :
    bodyRound n data slen fd = .ok (data, (slen + (2 ^ 32 - 1)) % 2 ^ 32, fd.after 0) := by
  rw [bodyRound, if_neg (Nat.not_lt.mpr hslen), InputStream.read_none hcall]

theorem bodyRound_some {n slen k : Nat} {fd : InputStream} (hslen : slen ≤ capacity n)
    (hcall : fd.chunk fd.calls = some k) (data : BString) :
    bodyRound n data slen fd =
      if capacity n < slen + (fd.rest.take (min n (k + 1))).length then .error .undefined
      else
        .ok (data.take slen ++ fd.rest.take (min n (k + 1)) ++
            data.drop (slen + (fd.rest.take (min n (k + 1))).length),
          (slen + (fd.rest.take (min n (k + 1))).length) % 2 ^ 32, fd.after (min n (k + 1))) := by
  rw [bodyRound, if_neg (Nat.not_lt.mpr hslen), InputStream.read_some hcall]

/-- The loop stops with undefined behaviour, if with a fault. -/
theorem readBody_error {n : Nat} (rounds : Nat) : ∀ {data : BString} {slen : Nat} {fd : InputStream}
    {e : Fault}, readBody n rounds data slen fd = some (.error e) → e = .undefined := by
  induction rounds with
  | zero =>
      intro data slen fd e hrun
      cases hrun
  | succ rounds ih =>
      intro data slen fd e hrun
      rw [readBody] at hrun
      cases hround : bodyRound n data slen fd with
      | error e' =>
          rw [hround] at hrun
          injection hrun with hrun
          injection hrun with hrun
          rw [← hrun]
          unfold bodyRound at hround
          repeat' split at hround
          all_goals cases hround
          all_goals rfl
      | ok out =>
          obtain ⟨data', slen', fd'⟩ := out
          rw [hround] at hrun
          simp only at hrun
          split at hrun
          · injection hrun with hrun
            unfold terminate at hrun
            split at hrun
            · cases hrun
            · injection hrun with hrun
              exact hrun.symm
          · exact ih hrun

/-! ### `read_pipe`: what it takes

The loop ends when `slen` is the length that was wanted, and returns that many bytes.  It may have
overwritten some of them with others, or read some that belong to the next message; either shows
in the number of bytes that were taken from the stream, and that is what is counted here.
-/

section Body

variable {n : Nat} (hn : n + 1 < 2 ^ 32)

include hn

theorem capacity_eq : capacity n = n + 1 := Nat.mod_eq_of_lt hn

theorem readBody_past_end {data ret : BString} {slen : Nat} {fd fd' : InputStream}
    (hslen : n + 1 < slen) (rounds : Nat) :
    readBody n rounds data slen fd ≠ some (.ok (ret, fd')) := by
  intro hrun
  cases rounds with
  | zero => cases hrun
  | succ rounds =>
      rw [readBody, bodyRound, capacity_eq hn, if_pos hslen] at hrun
      cases hrun

omit hn in
/-- After a round: the string is complete, or the loop goes on and returns it. -/
def Continues (n rounds : Nat) (data : BString) (slen : Nat) (fd : InputStream) (ret : BString)
    (fd' : InputStream) : Prop :=
  slen = n ∧ ret = data.take n ∧ fd' = fd ∨
    slen ≠ n ∧ readBody n rounds data slen fd = some (.ok (ret, fd'))

omit hn in
/-- The bytes after those that are written to the place at `slen`. -/
def overwritten (data : BString) (slen : Nat) (bytes : BString) : BString :=
  data.take slen ++ bytes ++ data.drop (slen + bytes.length)

omit hn in
theorem length_overwritten {data : BString} {slen : Nat} (bytes : BString)
    (h : slen ≤ data.length) :
    (overwritten data slen bytes).length = max data.length (slen + bytes.length) := by
  unfold overwritten
  simp only [List.length_append, List.length_take, List.length_drop]
  omega

omit hn in
theorem overwritten_nil (data : BString) (slen : Nat) : overwritten data slen [] = data := by
  simp [overwritten]

/-- What a round has done in a run that returns. -/
theorem readBody_inv {rounds : Nat} {data ret : BString} {slen : Nat} {fd fd' : InputStream}
    (hrun : readBody n (rounds + 1) data slen fd = some (.ok (ret, fd'))) :
    (fd.chunk fd.calls = none ∧ 0 < slen ∧
      Continues n rounds data (slen - 1) (fd.after 0) ret fd') ∨
    (fd.chunk fd.calls = none ∧ slen = 0 ∧ 0 < n ∧
      Continues n rounds data (n + 1) (fd.after 0) ret fd') ∨
    ∃ k, fd.chunk fd.calls = some k ∧
      slen + (fd.rest.take (min n (k + 1))).length ≤ n + 1 ∧
      Continues n rounds (overwritten data slen (fd.rest.take (min n (k + 1))))
        (slen + (fd.rest.take (min n (k + 1))).length) (fd.after (min n (k + 1))) ret fd' := by
  have hcap := capacity_eq hn
  have hslen : slen ≤ capacity n := by
    by_contra hgt
    rw [hcap, Nat.not_le] at hgt
    exact readBody_past_end hn hgt _ hrun
  -- What the round leaves behind is handed on, or makes the string.
  have hnext : ∀ {data' : BString} {slen' : Nat} {fd₁ : InputStream},
      bodyRound n data slen fd = .ok (data', slen', fd₁) →
        Continues n rounds data' slen' fd₁ ret fd' := by
    intro data' slen' fd₁ hround
    rw [readBody, hround] at hrun
    simp only at hrun
    split at hrun
    next heq =>
      injection hrun with hrun
      unfold terminate at hrun
      split at hrun
      · injection hrun with hrun
        injection hrun with hret hfd
        exact .inl ⟨heq, by rw [← hret, heq], hfd.symm⟩
      · cases hrun
    next hne => exact .inr ⟨hne, hrun⟩
  cases hcall : fd.chunk fd.calls with
  | none =>
      have hcont := hnext (bodyRound_fail hslen hcall data)
      rcases Nat.eq_zero_or_pos slen with hzero | hpos
      · -- Before the first byte, `slen` becomes the largest number of 32 bits.
        have hmod : (slen + (2 ^ 32 - 1)) % 2 ^ 32 = 2 ^ 32 - 1 := by omega
        rw [hmod] at hcont
        have hedge : 2 ^ 32 - 1 = n + 1 := by
          rcases hcont with ⟨heq, -⟩ | ⟨-, hrest⟩
          · omega
          · by_contra hne
            have hgt : n + 1 < 2 ^ 32 - 1 := by omega
            exact readBody_past_end hn hgt rounds hrest
        rw [hedge] at hcont
        exact .inr (.inl ⟨rfl, hzero, by omega, hcont⟩)
      · have hmod : (slen + (2 ^ 32 - 1)) % 2 ^ 32 = slen - 1 := by omega
        rw [hmod] at hcont
        exact .inl ⟨rfl, hpos, hcont⟩
  | some k =>
      have hround := bodyRound_some hslen hcall data
      rw [hcap] at hround
      have hfits : ¬n + 1 < slen + (fd.rest.take (min n (k + 1))).length := by
        intro hgt
        rw [if_pos hgt] at hround
        rw [readBody, hround] at hrun
        cases hrun
      rw [if_neg hfits] at hround
      have hcont := hnext hround
      rw [Nat.mod_eq_of_lt (by omega)] at hcont
      exact .inr (.inr ⟨k, rfl, Nat.not_lt.mp hfits, hcont⟩)

/-- With `slen` past the bytes that were wanted, none can be written any more. -/
theorem readBody_full (rounds : Nat) : ∀ {data ret : BString} {fd fd' : InputStream},
    readBody n rounds data (n + 1) fd = some (.ok (ret, fd')) →
      ret.length ≤ data.length ∧ fd'.rest.length ≤ fd.rest.length := by
  induction rounds with
  | zero =>
      intro data ret fd fd' hrun
      cases hrun
  | succ rounds ih =>
      intro data ret fd fd' hrun
      rcases readBody_inv hn hrun with ⟨-, -, hcont⟩ | ⟨-, hzero, -⟩ | ⟨k, -, hfits, hcont⟩
      · rcases hcont with ⟨-, rfl, rfl⟩ | ⟨hne, -⟩
        · rw [List.length_take]
          exact ⟨Nat.min_le_right _ _, by simp⟩
        · exact absurd (Nat.add_sub_cancel n 1) hne
      · omega
      · have hnil : fd.rest.take (min n (k + 1)) = [] := by
          rw [← List.length_eq_zero_iff]
          omega
        rw [hnil, overwritten_nil] at hcont
        rcases hcont with ⟨heq, -⟩ | ⟨-, hrest⟩
        · exact absurd heq (by simp)
        · have hnext := ih hrest
          rw [InputStream.after_rest, List.length_drop] at hnext
          omega

/--
If the loop returns a string of this length, then it has taken the bytes that were missing, and
more if a call has failed before, so that `slen` is behind the bytes there are.
-/
theorem readBody_takes (rounds : Nat) : ∀ {data ret : BString} {slen : Nat} {fd fd' : InputStream},
    slen ≤ data.length → (n = 0 ∨ data.length ≠ n) → n ≤ ret.length →
    readBody n rounds data slen fd = some (.ok (ret, fd')) →
      fd'.rest.length + n ≤ fd.rest.length + data.length ∧
        (slen < data.length → fd'.rest.length + n < fd.rest.length + data.length) := by
  induction rounds with
  | zero =>
      intro data ret slen fd fd' _ _ _ hrun
      cases hrun
  | succ rounds ih =>
      intro data ret slen fd fd' hslen hdata hret hrun
      rcases readBody_inv hn hrun with ⟨-, hpos, hcont⟩ | ⟨-, hzero, hnpos, hcont⟩ |
        ⟨k, -, hfits, hcont⟩
      · rcases hcont with ⟨heq, -, rfl⟩ | ⟨-, hrest⟩
        · rw [InputStream.after_rest, List.drop_zero]
          omega
        · have hnext := (ih (by omega) hdata hret hrest).2 (by omega)
          rw [InputStream.after_rest, List.drop_zero] at hnext
          exact ⟨Nat.le_of_lt hnext, fun _ => hnext⟩
      · rcases hcont with ⟨heq, -⟩ | ⟨-, hrest⟩
        · exact absurd heq (by simp)
        · have hfull := readBody_full hn rounds hrest
          rw [InputStream.after_rest, List.drop_zero] at hfull
          omega
      · have hlen := length_overwritten (fd.rest.take (min n (k + 1))) hslen
        have hle : (fd.rest.take (min n (k + 1))).length ≤ fd.rest.length := by
          rw [List.length_take]
          exact Nat.min_le_right _ _
        have hdrop := fd.length_after (min n (k + 1))
        rcases hcont with ⟨heq, -, rfl⟩ | ⟨hne, hrest⟩
        · omega
        · have hnext := ih (by omega) (by omega) hret hrest
          omega

/-- The room for the NUL is not used: this would be one byte too many. -/
theorem readBody_length_le (rounds : Nat) {data ret : BString} {fd fd' : InputStream}
    (hle : data.length ≤ n + 1)
    (hrun : readBody n rounds data data.length fd = some (.ok (ret, fd')))
    (heq : fd'.rest.length + n = fd.rest.length + data.length) : data.length ≤ n := by
  by_contra hgt
  have hfull : data.length = n + 1 := by omega
  rw [hfull] at hrun
  have hleft := (readBody_full hn rounds hrun).2
  omega

/-- A loop that has taken no more than it wanted has not met a call that fails. -/
theorem readBody_arrives (rounds : Nat) : ∀ (data : BString) {ret : BString} {fd fd' : InputStream},
    data.length ≤ n → (n = 0 ∨ data.length ≠ n) → n ≤ ret.length →
    readBody n rounds data data.length fd = some (.ok (ret, fd')) →
    fd'.rest.length + n = fd.rest.length + data.length →
      ∃ m, (∀ i ≤ m, fd.chunk (fd.calls + i) ≠ none) ∧
        (m = 0 ∨ fd.arrived m < n - data.length) ∧ n - data.length ≤ fd.arrived (m + 1) ∧
        (data.length = 0 ∧ m = 0 ∨ fd.arrived (m + 1) = n - data.length ∨
          fd.rest.length = n - data.length) := by
  induction rounds with
  | zero =>
      intro data ret fd fd' _ _ _ hrun _
      cases hrun
  | succ rounds ih =>
      intro data ret fd fd' hle hdata hret hrun heq
      rcases readBody_inv hn hrun with ⟨-, hpos, hcont⟩ | ⟨-, hzero, hnpos, hcont⟩ |
        ⟨k, hcall, hfits, hcont⟩
      · rcases hcont with ⟨hlast, -⟩ | ⟨-, hrest⟩
        · omega
        · have hmore := (readBody_takes hn rounds (by omega) hdata hret hrest).2 (by omega)
          rw [InputStream.after_rest, List.drop_zero] at hmore
          omega
      · rcases hcont with ⟨hlast, -⟩ | ⟨-, hrest⟩
        · exact absurd hlast (by simp)
        · have hfull := readBody_full hn rounds hrest
          omega
      · have hone : fd.arrived 1 = k + 1 := InputStream.arrived_succ hcall 0 0
        have hlen := length_overwritten (fd.rest.take (min n (k + 1))) (Nat.le_refl data.length)
        have htake : (fd.rest.take (min n (k + 1))).length =
            min (min n (k + 1)) fd.rest.length := List.length_take
        have hdrop := fd.length_after (min n (k + 1))
        have hfirst : fd.chunk (fd.calls + 0) ≠ none := by
          rw [Nat.add_zero, hcall]
          exact Option.some_ne_none k
        rcases hcont with ⟨hlast, -, -⟩ | ⟨hne, hrest⟩
        · refine ⟨0, ?_, .inl rfl, ?_, ?_⟩
          · intro i hi
            rw [Nat.le_zero.mp hi]
            exact hfirst
          · rw [Nat.zero_add, hone]
            omega
          · rw [Nat.zero_add, hone]
            omega
        · have hslen : data.length + (fd.rest.take (min n (k + 1))).length =
              (overwritten data data.length (fd.rest.take (min n (k + 1)))).length := by
            omega
          rw [hslen] at hrest
          have htakes := readBody_takes hn rounds (Nat.le_refl _) (by omega) hret hrest
          have hroom := readBody_length_le hn rounds (by omega) hrest (by omega)
          have hall : (fd.rest.take (min n (k + 1))).length = k + 1 := by omega
          obtain ⟨m, hcalls, hbefore, henough, hexact⟩ :=
            ih _ hroom (by omega) hret hrest (by omega)
          refine ⟨m + 1, ?_, .inr ?_, ?_, .inr ?_⟩
          · intro i hi
            cases i with
            | zero => exact hfirst
            | succ i =>
                have hi' := hcalls i (Nat.le_of_succ_le_succ hi)
                rwa [InputStream.after_chunk, InputStream.after_calls, Nat.add_assoc,
                  Nat.add_comm 1] at hi'
          · rw [InputStream.arrived_succ hcall (min n (k + 1))]
            rcases hbefore with rfl | hbefore
            · rw [InputStream.arrived_zero]
              omega
            · omega
          · rw [InputStream.arrived_succ hcall (min n (k + 1))]
            omega
          · rw [InputStream.arrived_succ hcall (min n (k + 1))]
            rcases hexact with ⟨hnone, -⟩ | hexact | hexact
            · omega
            · exact .inl (by omega)
            · exact .inr (by omega)

theorem readBody_round (data : BString) {fd : InputStream} {k : Nat}
    (hcall : fd.chunk fd.calls = some k)
    (hfits : data.length + (fd.rest.take (min n (k + 1))).length ≤ n) (rounds : Nat) :
    readBody n (rounds + 1) data data.length fd =
      if data.length + (fd.rest.take (min n (k + 1))).length = n then
        some (.ok (data ++ fd.rest.take (min n (k + 1)), fd.after (min n (k + 1))))
      else
        readBody n rounds (data ++ fd.rest.take (min n (k + 1)))
          (data ++ fd.rest.take (min n (k + 1))).length (fd.after (min n (k + 1))) := by
  have hcap := capacity_eq hn
  have hround := bodyRound_some (by omega : data.length ≤ capacity n) hcall data
  rw [if_neg (by omega), Nat.mod_eq_of_lt (by omega), List.take_length,
    List.drop_eq_nil_of_le (by omega), List.append_nil] at hround
  rw [readBody, hround, List.length_append]
  simp only
  split
  next heq =>
    have hterm : terminate n (data ++ fd.rest.take (min n (k + 1))) n
        (fd.after (min n (k + 1))) =
          .ok (data ++ fd.rest.take (min n (k + 1)), fd.after (min n (k + 1))) := by
      rw [terminate, if_pos (by omega), List.take_of_length_le]
      rw [List.length_append]
      omega
    rw [heq, hterm]
  next => rfl

/-- The bytes that arrive as they should are returned. -/
theorem readBody_of_arrives (m : Nat) : ∀ (data : BString) {fd : InputStream},
    data.length ≤ n → n - data.length ≤ fd.rest.length →
    (∀ i ≤ m, fd.chunk (fd.calls + i) ≠ none) →
    (m = 0 ∨ fd.arrived m < n - data.length) → n - data.length ≤ fd.arrived (m + 1) →
    (data.length = 0 ∧ m = 0 ∨ fd.arrived (m + 1) = n - data.length ∨
      fd.rest.length = n - data.length) →
      ∃ fd', readBody n (m + 1) data data.length fd =
          some (.ok (data ++ fd.rest.take (n - data.length), fd')) ∧
        fd'.rest = fd.rest.drop (n - data.length) := by
  induction m with
  | zero =>
      intro data fd hle henough hcalls _ harrived hexact
      obtain ⟨k, hcall⟩ := Option.ne_none_iff_exists'.mp (hcalls 0 (Nat.le_refl 0))
      rw [Nat.add_zero] at hcall
      rw [Nat.zero_add, show fd.arrived 1 = k + 1 from InputStream.arrived_succ hcall 0 0] at *
      -- The call takes just the bytes that are missing.
      have htake : fd.rest.take (min n (k + 1)) = fd.rest.take (n - data.length) ∧
          fd.rest.drop (min n (k + 1)) = fd.rest.drop (n - data.length) := by
        rcases Nat.lt_or_ge (n - data.length) (min n (k + 1)) with hlt | hge
        · have hall : fd.rest.length = n - data.length := by omega
          rw [List.take_of_length_le (by omega), List.take_of_length_le (by omega),
            List.drop_eq_nil_of_le (by omega), List.drop_eq_nil_of_le (by omega)]
          exact ⟨rfl, rfl⟩
        · rw [show min n (k + 1) = n - data.length by omega]
          exact ⟨rfl, rfl⟩
      have hlen : (fd.rest.take (n - data.length)).length = n - data.length := by
        rw [List.length_take]
        omega
      refine ⟨fd.after (min n (k + 1)), ?_, htake.2⟩
      rw [readBody_round hn data hcall (by rw [htake.1, hlen]; omega), htake.1, hlen,
        if_pos (by omega)]
  | succ m ih =>
      intro data fd hle henough hcalls hbefore harrived hexact
      obtain ⟨k, hcall⟩ := Option.ne_none_iff_exists'.mp (hcalls 0 (Nat.zero_le _))
      rw [Nat.add_zero] at hcall
      rw [InputStream.arrived_succ hcall (min n (k + 1))] at hbefore harrived hexact
      have hmin : min n (k + 1) = k + 1 := by omega
      have hlen : (fd.rest.take (k + 1)).length = k + 1 := by
        rw [List.length_take]
        omega
      have happ : (data ++ fd.rest.take (k + 1)).length = data.length + (k + 1) := by
        rw [List.length_append, hlen]
      rw [hmin] at hbefore harrived hexact
      have hround := readBody_round hn data hcall (by rw [hmin, hlen]; omega) (m + 1)
      rw [hmin, hlen, if_neg (by omega)] at hround
      obtain ⟨fd', hrun, hrest⟩ := @ih (data ++ fd.rest.take (k + 1)) (fd.after (k + 1))
        (by omega) (by rw [InputStream.after_rest, List.length_drop]; omega)
        (fun i hi => by
          have hi' := hcalls (i + 1) (Nat.succ_le_succ hi)
          rwa [InputStream.after_chunk, InputStream.after_calls, Nat.add_assoc, Nat.add_comm 1])
        (by omega) (by omega) (by
          rw [InputStream.after_rest, List.length_drop]
          rcases hexact with ⟨-, hzero⟩ | hexact | hexact
          · exact absurd hzero (Nat.succ_ne_zero m)
          · exact .inr (.inl (by omega))
          · exact .inr (.inr (by omega)))
      have hmissing : n - (data ++ fd.rest.take (k + 1)).length =
          (n - data.length) - (k + 1) := by omega
      rw [hmissing, InputStream.after_rest] at hrun hrest
      refine ⟨fd', ?_, ?_⟩
      · rw [hround, hrun, List.append_assoc, take_append_take_drop fd.rest (by omega)]
      · rw [hrest, List.drop_drop, Nat.add_sub_cancel' (by omega)]

end Body

/-- The length of a buffer of no bytes: there is no place for the NUL. -/
theorem readBody_no_room {n : Nat} (hn : capacity n = 0) (rounds : Nat) : ∀ {data : BString}
    {slen : Nat} {fd : InputStream} {out : BString × InputStream},
    readBody n rounds data slen fd ≠ some (.ok out) := by
  induction rounds with
  | zero =>
      intro data slen fd out hrun
      cases hrun
  | succ rounds ih =>
      intro data slen fd out hrun
      rw [readBody] at hrun
      split at hrun
      · cases hrun
      · split at hrun
        · rw [terminate, hn, if_neg (Nat.not_lt_zero _)] at hrun
          cases hrun
        · exact ih hrun

/-! ### `read_pipe`

If what it returns is right, then it has taken just the bytes that it returns.  By the count, no
call has failed before, none has brought more than was missing, and so the bytes have arrived as
`ArrivesWhole` has it.
-/

theorem readPipe_of_header {ndebug : Bool} {fd : InputStream} (h : HeaderComes ndebug fd)
    (rounds : Nat) :
    readPipe ndebug rounds fd =
      readBody (num2readOf (fd.rest.take 10)) rounds [] 0 (fd.after 10) := by
  obtain ⟨⟨k, hcall, hk⟩, hlen, haccepted⟩ := h
  have hbuf : (fd.rest.take 10).length = 10 := by
    rw [List.length_take]
    omega
  rw [readPipe, InputStream.read_some hcall, Nat.min_eq_left hk]
  simp only
  rw [if_neg (by omega), if_neg]
  rintro ⟨hdebug, hused⟩
  rcases haccepted with hndebug | hten
  · rw [hdebug] at hndebug
    cases hndebug
  · exact hused hten

theorem readPipe_of_not_header {ndebug : Bool} {fd : InputStream} (h : ¬HeaderComes ndebug fd)
    (rounds : Nat) :
    ∃ msg, readPipe ndebug rounds fd = some (.error (.errx 1 msg)) := by
  unfold readPipe
  cases hcall : fd.chunk fd.calls with
  | none =>
      rw [InputStream.read_none hcall]
      exact ⟨_, rfl⟩
  | some k =>
      rw [InputStream.read_some hcall]
      simp only
      split
      next => exact ⟨_, rfl⟩
      next hlen =>
        rw [Decidable.not_not, List.length_take] at hlen
        have hmin : min 10 (k + 1) = 10 := by omega
        rw [hmin]
        split
        next => exact ⟨_, rfl⟩
        next haccepted =>
          exfalso
          apply h
          refine ⟨⟨k, hcall, by omega⟩, by omega, ?_⟩
          cases hndebug : ndebug with
          | true => exact .inl rfl
          | false =>
              right
              by_contra hused
              exact haccepted ⟨hndebug, hused⟩

/-- The loop ends in time and with the bytes exactly when they arrive as they should. -/
theorem readBody_delivers {n : Nat} (hn : n < 2 ^ 32) (fd : InputStream) :
    Delivers (fun rounds => readBody n rounds [] 0 fd) n fd.rest ↔
      n + 1 < 2 ^ 32 ∧ ArrivesWhole fd n := by
  constructor
  · rintro ⟨rounds, out, hrun, hout⟩
    rcases hout with ⟨code, msg, rfl⟩ | ⟨hle, fd', rfl, hrest⟩
    · cases readBody_error rounds hrun
    · have hroom : n + 1 < 2 ^ 32 := by
        by_contra hfull
        have hcap : capacity n = 0 := by
          unfold capacity
          omega
        exact readBody_no_room hcap rounds hrun
      refine ⟨hroom, hle, ?_⟩
      have hlen : fd'.rest.length = fd.rest.length - n := by rw [hrest, List.length_drop]
      have hret : n ≤ (fd.rest.take n).length := by
        rw [List.length_take]
        omega
      have hempty : n = 0 ∨ ([] : BString).length ≠ n := by
        rw [List.length_nil]
        omega
      obtain ⟨m, hcalls, hbefore, henough, hexact⟩ :=
        readBody_arrives hroom rounds [] (Nat.zero_le n) hempty hret hrun
          (by rw [List.length_nil]; omega)
      exact ⟨m, hcalls, hbefore, henough, hexact.imp_left And.right⟩
  · rintro ⟨hroom, hle, m, hcalls, hbefore, henough, hexact⟩
    obtain ⟨fd', hrun, hrest⟩ := readBody_of_arrives hroom m [] (Nat.zero_le n) hle hcalls hbefore
      henough (hexact.imp_left fun h => ⟨rfl, h⟩)
    exact ⟨m + 1, _, hrun, .inr ⟨hle, fd', rfl, hrest⟩⟩

/--
**`stream_read` and `read_pipe` end in time with just the bytes they are to read, or stop with
an error: the one exactly when the stream has the bytes or a call fails, the other exactly when
the bytes, if their number has come, arrive whole and have room.**
-/
theorem readers_deliver_iff (src : InputStream) (nbytes : Nat) (ndebug : Bool) :
    (Delivers (fun rounds => streamRead nbytes rounds [] src) nbytes src.rest ↔
        nbytes ≤ src.rest.length ∨ src.Fails) ∧
      (Delivers (fun rounds => readPipe ndebug rounds src) (num2readOf (src.rest.take 10))
          (src.rest.drop 10) ↔
        (HeaderComes ndebug src → num2readOf (src.rest.take 10) + 1 < 2 ^ 32 ∧
          ArrivesWhole (src.after 10) (num2readOf (src.rest.take 10)))) := by
  refine ⟨streamRead_delivers src nbytes, ?_⟩
  by_cases hheader : HeaderComes ndebug src
  · rw [funext (readPipe_of_header hheader)]
    rw [imp_iff_right hheader]
    exact readBody_delivers (Nat.mod_lt _ (by decide)) (src.after 10)
  · constructor
    · intro _ h
      exact absurd h hheader
    · intro _
      obtain ⟨msg, hrun⟩ := readPipe_of_not_header hheader 0
      exact ⟨0, _, hrun, .inl ⟨1, msg, rfl⟩⟩

/-- A message that arrives in two pieces, with the first bytes of another behind it. -/
def twoPieces : InputStream where
  rest := bt "0000000005helloX0"
  chunk i := if i = 1 then some 2 else some 99
  calls := 0

/-- The second call asks for the whole length again, and more than the buffer holds arrives. -/
theorem readPipe_two_pieces :
    readPipe false 2 twoPieces = some (.error .undefined) ∧
      ¬ ∀ (src : InputStream) (nbytes : Nat) (ndebug : Bool),
        Delivers (fun rounds => streamRead nbytes rounds [] src) nbytes src.rest ∧
          Delivers (fun rounds => readPipe ndebug rounds src) (num2readOf (src.rest.take 10))
            (src.rest.drop 10) := by
  refine ⟨rfl, ?_⟩
  intro h
  -- The end of the stream is met by no call that fails.
  have hends := (streamRead_delivers { rest := [], chunk := fun _ => some 0, calls := 0 } 1).mp
    (h _ 1 false).1
  rcases hends with hle | ⟨i, -, hnone⟩
  · exact absurd hle (by decide)
  · cases hnone

end TagHighlight.Readers
