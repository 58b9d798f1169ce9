/-
The identifier tokenizer.

A text is read in four ways: it is empty, or begins with a character that cannot begin a token
and is skipped, or begins with a token and the character after it, or is a token.  Everything
here goes by this division, whichever characters tokens have.  In the last case alone the pointer
that the length is computed from is null.

What subtracting from a null pointer gives is a parameter.  The tokens are to be right whatever it
is, so the one place where it comes in decides: a text is cut as it should be just if no token
ends it.
-/
import Mathlib.Data.List.TakeWhile
import TagHighlight.Lang.Tok
import TagHighlight.Lib.Words

namespace TagHighlight.Tok

open Ascii

/-! ### Characters

A token is a run of characters that begins with one that may begin it.  For C these are what
identifiers are made of.  Most of what follows is about any two sets of characters, those that may
begin a token and those that may go on with one.
-/

theorem cFunc_true_eq (b : UInt8) : cFunc b true = (isWord b && !isDigit b) := by
  simp only [cFunc, isWord, isAlnum, isAlpha, isDigit, underscore, if_true]
  rw [Bool.eq_iff_iff]
  simp only [Bool.or_eq_true, Bool.and_eq_true, Bool.not_eq_true', Bool.and_eq_false_iff,
    beq_iff_eq, decide_eq_true_eq, decide_eq_false_iff_not, UInt8.le_iff_toNat_le,
    ← UInt8.toNat_inj, UInt8.reduceToNat]
  omega

/-- A first character that an identifier may have, and word characters after it. -/
def IsIdentifier : BString → Prop
  | [] => False
  | b :: bs => cFunc b true = true ∧ ∀ c ∈ bs, isWord c = true

/-- A first character that a token may have, and others after it. -/
def IsToken (check : CmpF) : BString → Prop
  | [] => False
  | b :: bs => check b true = true ∧ ∀ c ∈ bs, check c false = true

theorem IsToken.ne_nil {check : CmpF} {w : BString} (h : IsToken check w) : w ≠ [] := by
  intro hw
  rw [hw] at h
  exact h

theorem isToken_cFunc {w : BString} : IsToken cFunc w ↔ IsIdentifier w := by
  cases w with
  | nil => exact Iff.rfl
  | cons b bs => exact Iff.rfl

/-- What the four ways of reading a text are for. -/
theorem token_induction (check : CmpF) {motive : BString → Prop} (nil : motive [])
    (skip : ∀ b text, check b true = false → motive text → motive (b :: text))
    (word : ∀ w b text, IsToken check w → check b false = false → motive text →
      motive (w ++ b :: text))
    (last : ∀ w, IsToken check w → motive w) (text : BString) : motive text := by
  suffices h : ∀ n (text : BString), text.length ≤ n → motive text from h _ text (Nat.le_refl _)
  intro n
  induction n with
  | zero =>
      intro text hn
      rw [List.length_eq_zero_iff.mp (Nat.le_zero.mp hn)]
      exact nil
  | succ n ih =>
      intro text hn
      cases text with
      | nil => exact nil
      | cons b bs =>
          by_cases hb : check b true = true
          · have hword : ∀ c ∈ bs.takeWhile (check · false), check c false = true :=
              fun c hc => List.all_eq_true.mp List.all_takeWhile c hc
            have happ : bs.takeWhile (check · false) ++ bs.dropWhile (check · false) = bs :=
              List.takeWhile_append_dropWhile
            cases hrest : bs.dropWhile (check · false) with
            | nil =>
                rw [hrest, List.append_nil] at happ
                rw [happ] at hword
                exact last _ ⟨hb, hword⟩
            | cons d text =>
                have hd : check d false = false := by
                  have := List.head?_dropWhile_not (check · false) bs
                  rw [hrest] at this
                  simpa using this
                rw [hrest] at happ
                have hlen := congrArg List.length happ
                rw [← happ]
                apply word (b :: bs.takeWhile (check · false)) d text ⟨hb, hword⟩ hd
                apply ih
                simp only [List.length_append, List.length_cons] at hlen hn
                omega
          · apply skip b bs (by simpa using hb)
            exact ih bs (by simpa using hn)

theorem scan_induction {motive : BString → Prop} (nil : motive [])
    (skip : ∀ b text, cFunc b true = false → motive text → motive (b :: text))
    (word : ∀ w b text, IsIdentifier w → isWord b = false → motive text →
      motive (w ++ b :: text))
    (last : ∀ w, IsIdentifier w → motive w) (text : BString) : motive text :=
  token_induction cFunc nil skip (fun w b text hw => word w b text (isToken_cFunc.mp hw))
    (fun w hw => last w (isToken_cFunc.mp hw)) text

/-! ### The runs of a text

`runs` is said with a split of the whole text, and the loop goes from left to right.  So it is
computed along the four ways in which a text begins.
-/

section Runs

variable {check : CmpF} {w : BString}

theorem runs_skip {b : UInt8} (hb : check b true = false) (text : BString) :
    runs check (b :: text) = runs check text := by
  obtain ⟨run, rest, hruns⟩ :=
    List.exists_cons_of_ne_nil (List.splitOnP_ne_nil (fun b => !check b false) text)
  unfold runs
  rw [List.splitOnP_cons_eq_if_modifyHead, hruns]
  by_cases hword : check b false = true
  · simp [hword, hb]
  · simp [hword]

theorem dropWhile_token (h : IsToken check w) : w.dropWhile (fun b => !check b true) = w := by
  cases w with
  | nil => rfl
  | cons b bs =>
      rw [List.dropWhile_cons, h.1]
      rfl

theorem IsToken.rest (hcheck : ∀ b, check b true = true → check b false = true)
    (h : IsToken check w) : ∀ c ∈ w, check c false = true := by
  cases w with
  | nil => exact h.elim
  | cons b bs =>
      intro c hc
      rcases List.mem_cons.mp hc with rfl | hmem
      · exact hcheck c h.1
      · exact h.2 c hmem

variable (hcheck : ∀ b, check b true = true → check b false = true)

include hcheck

theorem runs_token (h : IsToken check w) {b : UInt8} (hb : check b false = false)
    (text : BString) : runs check (w ++ b :: text) = w :: runs check text := by
  unfold runs
  rw [List.splitOnP_append_cons_of_forall_mem (by simpa using h.rest hcheck) b (by simp [hb])]
  simp [dropWhile_token h, h.ne_nil]

theorem runs_last (h : IsToken check w) : runs check w = [w] := by
  unfold runs
  rw [List.splitOnP_eq_singleton (by simpa using h.rest hcheck)]
  simp [dropWhile_token h, h.ne_nil]

theorem mem_runs (text : BString) :
    ∀ v ∈ runs check text, IsToken check v ∧ v.length ≤ text.length := by
  induction text using token_induction check with
  | nil => simp [runs]
  | skip b text hb ih =>
      intro v hv
      rw [runs_skip hb] at hv
      exact ⟨(ih v hv).1, Nat.le_succ_of_le (ih v hv).2⟩
  | word w b text hw hb ih =>
      intro v hv
      rw [runs_token hcheck hw hb] at hv
      rw [List.length_append, List.length_cons]
      rcases List.mem_cons.mp hv with rfl | hmem
      · exact ⟨hw, by omega⟩
      · have hlen := (ih v hmem).2
        exact ⟨(ih v hmem).1, by omega⟩
  | last w hw =>
      intro v hv
      rw [runs_last hcheck hw, List.mem_singleton] at hv
      rw [hv]
      exact ⟨hw, Nat.le_refl _⟩

omit hcheck

theorem endsIn_skip {b : UInt8} (hb : check b true = false) (text : BString) :
    endsIn check (b :: text) = endsIn check text := by
  unfold endsIn
  rw [List.reverse_cons, List.takeWhile_append]
  split
  next hall =>
    have hrest : text.reverse.takeWhile (check · false) = text.reverse :=
      (List.takeWhile_prefix _).eq_of_length hall
    rw [hrest, List.any_append]
    by_cases hword : check b false = true
    · simp [hword, hb]
    · simp [hword]
  next => rfl

theorem endsIn_token (w : BString) {b : UInt8} (hb : check b false = false) (text : BString) :
    endsIn check (w ++ b :: text) = endsIn check text := by
  unfold endsIn
  rw [List.reverse_append, List.reverse_cons, List.append_assoc, List.takeWhile_append]
  split
  next hall =>
    have hrest : text.reverse.takeWhile (check · false) = text.reverse :=
      (List.takeWhile_prefix _).eq_of_length hall
    simp [hrest, hb]
  next => rfl

include hcheck in
theorem endsIn_last (h : IsToken check w) : endsIn check w = true := by
  unfold endsIn
  have hall : w.reverse.takeWhile (check · false) = w.reverse := by
    rw [List.takeWhile_eq_self_iff]
    exact fun b hb => h.rest hcheck b (List.mem_reverse.mp hb)
  rw [hall, List.any_reverse, List.any_eq_true]
  cases w with
  | nil => exact h.elim
  | cons b bs => exact ⟨b, List.mem_cons_self, h.1⟩

end Runs

/-! ### The identifiers of a text

For C, what cannot begin an identifier and can be in it is a digit.  So an identifier is a run of
word characters less the digits in front, which is how a reader would say it.
-/

theorem cFunc_rest {b : UInt8} (h : cFunc b true = true) : cFunc b false = true := by
  rw [cFunc_true_eq, Bool.and_eq_true] at h
  exact h.1

/-- On word characters alone, a digit is what cannot begin an identifier. -/
theorem isDigit_eq {b : UInt8} (h : isWord b = true) : isDigit b = !cFunc b true := by
  rw [cFunc_true_eq, h, Bool.true_and, Bool.not_not]

theorem dropWhile_isDigit {run : BString} (h : ∀ b ∈ run, isWord b = true) :
    run.dropWhile isDigit = run.dropWhile fun b => !cFunc b true := by
  induction run with
  | nil => rfl
  | cons b bs ih =>
      rw [List.dropWhile_cons, List.dropWhile_cons, isDigit_eq (h b List.mem_cons_self),
        ih fun c hc => h c (List.mem_cons_of_mem _ hc)]

theorem identifiers_eq (text : BString) : identifiers text = runs cFunc text := by
  have hmap : (text.splitOnP fun b => !isWord b).map (·.dropWhile isDigit) =
      (text.splitOnP fun b => !isWord b).map (·.dropWhile fun b => !cFunc b true) := by
    refine List.map_congr_left fun run hrun => dropWhile_isDigit fun b hb => ?_
    simpa using Words.noBlank_of_mem_splitOnP text run hrun b hb
  exact congrArg (List.filter (· ≠ [])) hmap

theorem identifiers_skip {b : UInt8} (hb : cFunc b true = false) (text : BString) :
    identifiers (b :: text) = identifiers text := by
  rw [identifiers_eq, identifiers_eq, runs_skip hb]

theorem IsIdentifier.ne_nil {w : BString} (h : IsIdentifier w) : w ≠ [] :=
  (isToken_cFunc.mpr h).ne_nil

theorem identifiers_word {w : BString} (h : IsIdentifier w) {b : UInt8} (hb : isWord b = false)
    (text : BString) : identifiers (w ++ b :: text) = w :: identifiers text := by
  rw [identifiers_eq, identifiers_eq,
    runs_token (fun _ => cFunc_rest) (isToken_cFunc.mpr h) hb]

theorem length_le_of_mem_identifiers (text : BString) :
    ∀ w ∈ identifiers text, w.length ≤ text.length := by
  intro w hw
  rw [identifiers_eq] at hw
  exact (mem_runs (fun _ => cFunc_rest) text w hw).2

theorem endsInIdentifier_eq (text : BString) : endsInIdentifier text = endsIn cFunc text := by
  have hword : ∀ b ∈ text.reverse.takeWhile isWord, isWord b = true :=
    fun b hb => List.all_eq_true.mp List.all_takeWhile b hb
  have hany : ∀ run : BString, (∀ b ∈ run, isWord b = true) →
      run.any (fun b => !isDigit b) = run.any (cFunc · true) := by
    intro run hrun
    induction run with
    | nil => rfl
    | cons b bs ih =>
        rw [List.any_cons, List.any_cons, isDigit_eq (hrun b List.mem_cons_self), Bool.not_not,
          ih fun c hc => hrun c (List.mem_cons_of_mem _ hc)]
  exact hany _ hword

theorem endsInIdentifier_skip {b : UInt8} (hb : cFunc b true = false) (text : BString) :
    endsInIdentifier (b :: text) = endsInIdentifier text := by
  rw [endsInIdentifier_eq, endsInIdentifier_eq, endsIn_skip hb]

theorem endsInIdentifier_word (w : BString) {b : UInt8} (hb : isWord b = false)
    (text : BString) : endsInIdentifier (w ++ b :: text) = endsInIdentifier text := by
  rw [endsInIdentifier_eq, endsInIdentifier_eq, endsIn_token w hb]

theorem endsInIdentifier_last {w : BString} (h : IsIdentifier w) : endsInIdentifier w = true := by
  rw [endsInIdentifier_eq]
  exact endsIn_last (fun _ => cFunc_rest) (isToken_cFunc.mpr h)

/-! ### One token

`strsep_f` goes as far as characters are accepted and writes a NUL over the one that is not.  What
was in front of that place stays as it was, and so does what is behind it.
-/

theorem accepted_rest {check : CmpF} {w : BString} (h : ∀ c ∈ w, check c false = true) {b : UInt8}
    (hb : check b false = false) (s : List UInt8) :
    accepted check false (w ++ b :: s) = w.length := by
  induction w with
  | nil => exact if_neg (ne_true_of_eq_false hb)
  | cons c cs ih =>
      rw [List.cons_append, accepted, if_pos (h c List.mem_cons_self),
        ih fun d hd => h d (List.mem_cons_of_mem _ hd), List.length_cons]

theorem accepted_token {check : CmpF} {w : BString} (h : IsToken check w) {b : UInt8}
    (hb : check b false = false) (s : List UInt8) :
    accepted check true (w ++ b :: s) = w.length := by
  cases w with
  | nil => exact h.elim
  | cons c cs => rw [List.cons_append, accepted, if_pos h.1, accepted_rest h.2 hb, List.length_cons]

theorem accepted_isIdentifier {w : BString} (h : IsIdentifier w) {b : UInt8}
    (hb : isWord b = false) (s : List UInt8) : accepted cFunc true (w ++ b :: s) = w.length :=
  accepted_token (isToken_cFunc.mpr h) hb s

theorem accepted_skip {check : CmpF} {b : UInt8} (hb : check b true = false) (s : List UInt8) :
    accepted check true (b :: s) = 0 := by
  rw [accepted, hb]
  rfl

/-- The cursor at the end of `done`. -/
def Cursor.after (done rest : BString) : Cursor :=
  { buf := done ++ rest, stringp := some done.length }

/-- The characters of a token end with the first that is not accepted. -/
theorem strsepF_after {check : CmpF} (done w : BString) {b : UInt8} {s : BString}
    (hacc : accepted check true (w ++ b :: s) = w.length) :
    strsepF check (Cursor.after done (w ++ b :: s)) =
      if b = 0 then some (done.length, { buf := done ++ (w ++ b :: s), stringp := none })
      else some (done.length, Cursor.after (done ++ w ++ [0]) s) := by
  have hbyte : (done ++ (w ++ b :: s)).getD (done.length + w.length) 0 = b := by
    simp [List.getD_eq_getElem?_getD]
  have hset : (done ++ (w ++ b :: s)).set (done.length + w.length) 0 =
      done ++ w ++ [0] ++ s := by
    simp [List.set_append_right]
  simp only [strsepF, Cursor.after, List.drop_left, hacc, Cursor.byteAt, hbyte, hset]
  simp [Nat.add_assoc]

/-! ### The loop

Each round makes one token, or skips one character.  A token that is made is in a part of the
buffer that no later round writes to, so in the end it still has its bytes.
-/

section Loop

variable (nullDiff : Nat → Nat)

/-- A round for a token that some character ends. -/
theorem tokenizeLoop_succ (fuel : Nat) (done w : BString) {b : UInt8} {s : BString}
    (hacc : accepted cFunc true (w ++ b :: s) = w.length) (hw : 0 ∉ w) (hb : b ≠ 0) :
    tokenizeLoop nullDiff cFunc (fuel + 1) (Cursor.after done (w ++ b :: s)) =
      let rest := tokenizeLoop nullDiff cFunc fuel (Cursor.after (done ++ w ++ [0]) s)
      if w = [] then rest
      else ({ data := done.length, slen := w.length } :: rest.1, rest.2) := by
  simp only [tokenizeLoop, strsepF_after done w hacc, if_neg hb]
  have hbyte : (Cursor.after (done ++ w ++ [0]) s).byteAt done.length = 0 ↔ w = [] := by
    cases w with
    | nil => simp [Cursor.byteAt, Cursor.after, List.getD_eq_getElem?_getD]
    | cons c cs =>
        have hc : c ≠ 0 := fun h => hw (by simp [h])
        simp [Cursor.byteAt, Cursor.after, List.getD_eq_getElem?_getD, hc]
  have hslen : refblk done.length (pointerDiff nullDiff
      (Cursor.after (done ++ w ++ [0]) s).stringp done.length) =
        { data := done.length, slen := w.length } := by
    simp [refblk, pointerDiff, Cursor.after]
  simp only [hbyte, hslen]

/-- A round for a character that cannot begin an identifier. -/
theorem tokenizeLoop_skip (fuel : Nat) (done : BString) {b : UInt8} (hb : cFunc b true = false)
    (hne : b ≠ 0) (s : List UInt8) :
    tokenizeLoop nullDiff cFunc (fuel + 1) (Cursor.after done (b :: s)) =
      tokenizeLoop nullDiff cFunc fuel (Cursor.after (done ++ [0]) s) := by
  have hloop := tokenizeLoop_succ nullDiff fuel done [] (accepted_skip hb s)
    List.not_mem_nil hne
  rw [List.nil_append, List.append_nil] at hloop
  exact hloop

/-- A round for an identifier and the character after it. -/
theorem tokenizeLoop_word (fuel : Nat) (done : BString) {w : BString} (hw : IsIdentifier w)
    {b : UInt8} (hb : isWord b = false) (hnul : 0 ∉ w) (hne : b ≠ 0) (s : List UInt8) :
    tokenizeLoop nullDiff cFunc (fuel + 1) (Cursor.after done (w ++ b :: s)) =
      let rest := tokenizeLoop nullDiff cFunc fuel (Cursor.after (done ++ w ++ [0]) s)
      ({ data := done.length, slen := w.length } :: rest.1, rest.2) := by
  rw [tokenizeLoop_succ nullDiff fuel done w (accepted_isIdentifier hw hb s) hnul hne]
  exact if_neg hw.ne_nil

/-- The rounds for the token that the end of the text ends. -/
theorem tokenizeLoop_end (fuel : Nat) (done w : BString)
    (hacc : accepted cFunc true (w ++ [0]) = w.length) (hw : 0 ∉ w) :
    tokenizeLoop nullDiff cFunc (fuel + 2) (Cursor.after done (w ++ [0])) =
      (if w = [] then [] else [refblk done.length (nullDiff done.length)],
        done ++ (w ++ [0])) := by
  have hbyte : (done ++ (w ++ [0])).getD done.length 0 = 0 ↔ w = [] := by
    cases w with
    | nil => simp [List.getD_eq_getElem?_getD]
    | cons c cs =>
        have hc : c ≠ 0 := fun h => hw (by simp [h])
        simp [List.getD_eq_getElem?_getD, hc]
  simp only [tokenizeLoop, strsepF_after done w hacc, if_true, Cursor.byteAt, hbyte]
  simp only [strsepF, pointerDiff]
  split <;> rfl

theorem bytes_of_prefix {done w buf : BString} (h : done ++ w <+: buf) :
    Ref.bytes buf { data := done.length, slen := w.length } = w := by
  obtain ⟨rest, rfl⟩ := h
  simp [Ref.bytes]

/-- The strings the loop makes refer to the identifiers, and what it has passed stays. -/
theorem tokenizeLoop_identifiers (text : BString) : ∀ (fuel : Nat) (done : BString),
    0 ∉ text → text.length + 2 ≤ fuel → endsInIdentifier text = false →
    let out := tokenizeLoop nullDiff cFunc fuel (Cursor.after done (text ++ [0]))
    done <+: out.2 ∧ AreIdentifiers text out := by
  induction text using scan_induction with
  | nil =>
      intro fuel done _ hfuel _
      obtain ⟨fuel, rfl⟩ := Nat.exists_eq_add_of_le hfuel
      rw [Nat.add_comm, show ([] : BString).length + 2 = 2 from rfl,
        tokenizeLoop_end nullDiff fuel done [] rfl List.not_mem_nil]
      exact ⟨List.prefix_append _ _, rfl⟩
  | skip b text hb ih =>
      intro fuel done hnul hfuel hends
      rw [List.mem_cons, not_or] at hnul
      rw [endsInIdentifier_skip hb] at hends
      obtain _ | fuel := fuel
      · simp at hfuel
      · have hrest := ih fuel (done ++ [0]) hnul.2 (by simpa using hfuel) hends
        rw [List.cons_append, tokenizeLoop_skip nullDiff fuel done hb (Ne.symm hnul.1)]
        refine ⟨(List.prefix_append done [0]).trans hrest.1, ?_⟩
        unfold AreIdentifiers
        rw [identifiers_skip hb]
        exact hrest.2
  | word w b text hw hb ih =>
      intro fuel done hnul hfuel hends
      rw [List.mem_append, List.mem_cons, not_or, not_or] at hnul
      rw [endsInIdentifier_word w hb] at hends
      obtain _ | fuel := fuel
      · simp at hfuel
      · simp only [List.length_append, List.length_cons] at hfuel
        have hrest := ih fuel (done ++ w ++ [0]) hnul.2.2 (by omega) hends
        rw [List.append_assoc, List.cons_append,
          tokenizeLoop_word nullDiff fuel done hw hb hnul.1 (Ne.symm hnul.2.1)]
        have hprefix := (List.prefix_append (done ++ w) _).trans hrest.1
        refine ⟨(List.prefix_append _ _).trans hprefix, ?_⟩
        unfold AreIdentifiers
        rw [identifiers_word hw hb, List.map_cons, List.map_cons, bytes_of_prefix hprefix,
          hrest.2]
  | last w hw =>
      intro fuel done _ _ hends
      rw [endsInIdentifier_last hw] at hends
      cases hends

/-- The length of an identifier at the end is computed from a null pointer. -/
theorem tokenizeLoop_ends (text : BString) : ∀ (fuel : Nat) (done : BString),
    0 ∉ text → text.length + 2 ≤ fuel → endsInIdentifier text = true →
    ∃ start, refblk start (nullDiff start) ∈
      (tokenizeLoop nullDiff cFunc fuel (Cursor.after done (text ++ [0]))).1 := by
  induction text using scan_induction with
  | nil =>
      intro fuel done _ _ hends
      cases hends
  | skip b text hb ih =>
      intro fuel done hnul hfuel hends
      rw [List.mem_cons, not_or] at hnul
      rw [endsInIdentifier_skip hb] at hends
      obtain _ | fuel := fuel
      · simp at hfuel
      · rw [List.cons_append, tokenizeLoop_skip nullDiff fuel done hb (Ne.symm hnul.1)]
        exact ih fuel _ hnul.2 (by simpa using hfuel) hends
  | word w b text hw hb ih =>
      intro fuel done hnul hfuel hends
      rw [List.mem_append, List.mem_cons, not_or, not_or] at hnul
      rw [endsInIdentifier_word w hb] at hends
      obtain _ | fuel := fuel
      · simp at hfuel
      · simp only [List.length_append, List.length_cons] at hfuel
        obtain ⟨start, hstart⟩ := ih fuel (done ++ w ++ [0]) hnul.2.2 (by omega) hends
        rw [List.append_assoc, List.cons_append,
          tokenizeLoop_word nullDiff fuel done hw hb hnul.1 (Ne.symm hnul.2.1)]
        exact ⟨start, List.mem_cons_of_mem _ hstart⟩
  | last w hw =>
      intro fuel done hnul hfuel _
      obtain ⟨fuel, rfl⟩ := Nat.exists_eq_add_of_le hfuel
      rw [show w.length + 2 + fuel = (w.length + fuel) + 2 by omega,
        tokenizeLoop_end nullDiff _ done w (accepted_isIdentifier hw (by decide) []) hnul]
      exact ⟨done.length, by simp [hw.ne_nil]⟩

end Loop

/-! ### The whole buffer

Where the text ends in a token, its length is computed from a null pointer, and there is always a
value of the parameter that makes the token longer than the text.  Where it does not, the
parameter is never looked at.
-/

theorem AreIdentifiers.slen_le {text : BString} {out : List Ref × BString}
    (h : AreIdentifiers text out) {r : Ref} (hr : r ∈ out.1) : r.slen ≤ text.length := by
  have hpair : (r.bytes out.2, r.slen) ∈ out.1.map fun r => (r.bytes out.2, r.slen) :=
    List.mem_map.mpr ⟨r, hr, rfl⟩
  rw [h] at hpair
  obtain ⟨w, hw, hwpair⟩ := List.mem_map.mp hpair
  rw [← show w.length = r.slen from congrArg Prod.snd hwpair]
  exact length_le_of_mem_identifiers text w hw

/--
**The tokens of a text are its identifiers, each with its bytes and its length, whatever
subtracting from a null pointer gives, exactly when no identifier ends the text.**
-/
theorem doTokenize_identifiers_iff (text : BString) (hnul : 0 ∉ text) :
    (∀ nullDiff, AreIdentifiers text (doTokenize nullDiff cFunc text)) ↔
      endsInIdentifier text = false := by
  constructor
  · intro hall
    by_contra hends
    rw [Bool.not_eq_false] at hends
    -- A difference that makes the string longer than the text.
    obtain ⟨start, hmem⟩ := tokenizeLoop_ends (fun _ => text.length + 2) text
      (text.length + 2) [] hnul (Nat.le_refl _) hends
    have hle := (hall fun _ => text.length + 2).slen_le hmem
    exact Nat.not_succ_le_self _ hle
  · intro hends nullDiff
    exact (tokenizeLoop_identifiers nullDiff text _ [] hnul (Nat.le_refl _) hends).2

theorem doTokenize_identifiers_semicolon :
    endsInIdentifier (bt "int x2;") = false ∧
      ∀ nullDiff, AreIdentifiers (bt "int x2;") (doTokenize nullDiff cFunc (bt "int x2;")) :=
  ⟨by decide, (doTokenize_identifiers_iff (bt "int x2;") (by decide)).mpr (by decide)⟩

/-- The name that ends the buffer has the length that the null pointer gives. -/
theorem doTokenize_end_of_buffer :
    identifiers (bt "int x") = [bt "int", bt "x"] ∧
      doTokenize (fun _ => 40) cFunc (bt "int x") =
        ([{ data := 0, slen := 3 }, { data := 4, slen := 39 }],
          bt "int" ++ [0] ++ bt "x" ++ [0]) ∧
      ¬ ∀ text : BString, 0 ∉ text → ∀ nullDiff,
        AreIdentifiers text (doTokenize nullDiff cFunc text) := by
  refine ⟨by decide, by decide, ?_⟩
  intro h
  have hx := h (bt "int x") (by decide) fun _ => 40
  revert hx
  unfold AreIdentifiers
  decide

end TagHighlight.Tok
