/-
The tokens of a text of Vim.

It is read in the same four ways as any other text.  A name with a colon is put into the list
again: the length is that of the rest from the colon, with the NUL, but the string begins where
the name does.  For a scope of one letter this is the name once more, else it is cut off.

A name at the end of the text has its length from a null pointer, as any token has, and if there
is a colon in it, so has the second string.  So here, too, the strings are right whatever comes of
that just if no name ends the text.
-/
import TagHighlight.Proofs.Lang.Tok

namespace TagHighlight.Tok

open Ascii

/-! ### Names

No name begins with a colon, so what is before the first colon is a letter at least.  The second
string is longer than the rest by one, for its NUL is counted, and begins with the name; so it is
the whole name if the scope is one letter.
-/

theorem vimFunc_false {b : UInt8} (h : vimFunc b true = true) : vimFunc b false = true := by
  simp only [vimFunc, if_true, Bool.or_eq_true] at h
  simp only [vimFunc, Bool.false_eq_true, if_false, Bool.or_eq_true, isAlnum]
  tauto

/-- No name begins with a colon. -/
theorem scope_pos {w : BString} (h : IsToken vimFunc w) : 0 < (scope w).length := by
  cases w with
  | nil => exact h.elim
  | cons b bs =>
      have hb : b ≠ colon := by
        rintro rfl
        exact absurd h.1 (by decide)
      rw [scope, List.takeWhile_cons, if_pos (decide_eq_true hb)]
      exact Nat.succ_pos _

theorem scope_le (w : BString) : (scope w).length ≤ w.length :=
  (List.takeWhile_prefix _).length_le

/-- The second string is a beginning of the name. -/
theorem length_again {w v : BString} (h : IsToken vimFunc w) (hv : v ∈ again w) :
    v <+: w ∧ v.length = w.length + 1 - (scope w).length := by
  unfold again at hv
  split at hv
  · rw [List.mem_singleton.mp hv]
    refine ⟨List.take_prefix _ _, ?_⟩
    have hpos := scope_pos h
    rw [List.length_take]
    omega
  · exact absurd hv List.not_mem_nil

/-- It is the whole name just if the scope is one letter. -/
theorem again_eq_iff {w : BString} (h : IsToken vimFunc w) (hcolon : colon ∈ w) :
    again w = [w] ↔ (scope w).length = 1 := by
  have hpos := scope_pos h
  have hle := scope_le w
  rw [again, if_pos hcolon, List.cons.injEq, and_iff_left rfl]
  constructor
  · intro htake
    have hlength := congrArg List.length htake
    rw [List.length_take] at hlength
    omega
  · exact fun hone => List.take_of_length_le (by omega)

/-! ### The loop -/

/-- What a name is in the list. -/
def refsOf (start : Nat) (name : BString) : List Ref :=
  (name :: again name).map fun w => { data := start, slen := w.length }

theorem refsAt_after (nullDiff : Nat → Nat) (done s : BString) {w : BString}
    (h : IsToken vimFunc w) (hw : 0 ∉ w) :
    refsAt nullDiff (Cursor.after (done ++ w ++ [0]) s) done.length = refsOf done.length w := by
  have hstr : ((done ++ w ++ [0] ++ s).drop done.length).takeWhile (· ≠ 0) = w := by
    have hall : ∀ b ∈ w, decide (b ≠ 0) = true := fun b hb =>
      decide_eq_true fun heq => hw (heq ▸ hb)
    rw [List.append_assoc, List.append_assoc, List.drop_left, List.takeWhile_append_of_pos hall]
    simp
  have hfirst : refblk done.length (pointerDiff nullDiff
      (Cursor.after (done ++ w ++ [0]) s).stringp done.length) =
        { data := done.length, slen := w.length } := by
    simp [refblk, pointerDiff, Cursor.after]
  have hpos := scope_pos h
  have hle := scope_le w
  rw [refsAt, hfirst, Cursor.strchr]
  simp only [Cursor.after, hstr]
  unfold refsOf again
  by_cases hcolon : colon ∈ w
  · rw [if_pos hcolon, if_pos hcolon]
    have hslen : pointerDiff nullDiff (some (done ++ w ++ [0]).length)
        (done.length + (w.takeWhile (· ≠ colon)).length) = w.length + 1 - (scope w).length := by
      simp only [pointerDiff, List.length_append, List.length_singleton, scope]
      omega
    have htake : (w.take (w.length + 1 - (scope w).length)).length =
        w.length + 1 - (scope w).length := by
      rw [List.length_take]
      omega
    simp only [hslen]
    rw [if_neg (by omega), List.map_cons, List.map_singleton, htake]
  · rw [if_neg hcolon, if_neg hcolon]
    rfl

section Loop

variable (nullDiff : Nat → Nat)

theorem byteAt_eq_zero {done w rest : BString} (hw : 0 ∉ w) {stringp : Option Nat} :
    (Cursor.mk (done ++ (w ++ 0 :: rest)) stringp).byteAt done.length = 0 ↔ w = [] := by
  cases w with
  | nil => simp [Cursor.byteAt, List.getD_eq_getElem?_getD]
  | cons c cs =>
      have hc : c ≠ 0 := fun h => hw (by simp [h])
      simp [Cursor.byteAt, List.getD_eq_getElem?_getD, hc]

theorem tokenizeVimLoop_succ (fuel : Nat) (done w : BString) {b : UInt8} {s : BString}
    (hacc : accepted vimFunc true (w ++ b :: s) = w.length) (hw : 0 ∉ w) (hb : b ≠ 0) :
    tokenizeVimLoop nullDiff vimFunc (fuel + 1) (Cursor.after done (w ++ b :: s)) =
      let cur := Cursor.after (done ++ w ++ [0]) s
      let rest := tokenizeVimLoop nullDiff vimFunc fuel cur
      if w = [] then rest else (refsAt nullDiff cur done.length ++ rest.1, rest.2) := by
  have hbyte : (Cursor.after (done ++ w ++ [0]) s).byteAt done.length = 0 ↔ w = [] := by
    rw [Cursor.after, List.append_assoc, List.append_assoc]
    exact byteAt_eq_zero hw
  simp only [tokenizeVimLoop, strsepF_after done w hacc, if_neg hb, hbyte]

/-- A round for a character that cannot begin a name. -/
theorem tokenizeVimLoop_skip (fuel : Nat) (done : BString) {b : UInt8}
    (hb : vimFunc b true = false) (hne : b ≠ 0) (s : List UInt8) :
    tokenizeVimLoop nullDiff vimFunc (fuel + 1) (Cursor.after done (b :: s)) =
      tokenizeVimLoop nullDiff vimFunc fuel (Cursor.after (done ++ [0]) s) := by
  have hloop := tokenizeVimLoop_succ nullDiff fuel done [] (accepted_skip hb s)
    List.not_mem_nil hne
  rw [List.nil_append, List.append_nil] at hloop
  exact hloop

/-- A round for a name and the character after it. -/
theorem tokenizeVimLoop_name (fuel : Nat) (done : BString) {w : BString}
    (hw : IsToken vimFunc w) {b : UInt8} (hb : vimFunc b false = false) (hnul : 0 ∉ w)
    (hne : b ≠ 0) (s : List UInt8) :
    tokenizeVimLoop nullDiff vimFunc (fuel + 1) (Cursor.after done (w ++ b :: s)) =
      let rest := tokenizeVimLoop nullDiff vimFunc fuel (Cursor.after (done ++ w ++ [0]) s)
      (refsOf done.length w ++ rest.1, rest.2) := by
  rw [tokenizeVimLoop_succ nullDiff fuel done w (accepted_token hw hb s) hnul hne]
  simp only [if_neg hw.ne_nil, refsAt_after nullDiff done s hw hnul]

/-- The rounds for the token that the end of the text ends. -/
theorem tokenizeVimLoop_end (fuel : Nat) (done w : BString)
    (hacc : accepted vimFunc true (w ++ [0]) = w.length) (hw : 0 ∉ w) :
    tokenizeVimLoop nullDiff vimFunc (fuel + 2) (Cursor.after done (w ++ [0])) =
      (if w = [] then []
        else refsAt nullDiff { buf := done ++ (w ++ [0]), stringp := none } done.length,
        done ++ (w ++ [0])) := by
  have hbyte : (Cursor.mk (done ++ (w ++ [0])) none).byteAt done.length = 0 ↔ w = [] :=
    byteAt_eq_zero hw
  simp only [tokenizeVimLoop, strsepF_after done w hacc, if_true, hbyte]
  simp only [strsepF, List.append_nil]
  split <;> rfl

/-- The strings of a name are its bytes, as long as these are left. -/
theorem bytes_refsOf {done w buf : BString} (hw : IsToken vimFunc w) (h : done ++ w <+: buf) :
    (refsOf done.length w).map (fun r => (r.bytes buf, r.slen)) =
      (w :: again w).map fun v => (v, v.length) := by
  unfold refsOf
  rw [List.map_map]
  refine List.map_congr_left fun v hv => ?_
  have hstart : v <+: w := by
    rcases List.mem_cons.mp hv with rfl | hmem
    · exact List.prefix_rfl
    · exact (length_again hw hmem).1
  have hpassed := ((List.prefix_append_right_inj done).mpr hstart).trans h
  exact congrArg (·, v.length) <| bytes_of_prefix hpassed

/-- The strings the loop makes refer to the names, and what it has passed stays. -/
theorem tokenizeVimLoop_names (text : BString) : ∀ (fuel : Nat) (done : BString),
    0 ∉ text → text.length + 2 ≤ fuel → endsIn vimFunc text = false →
    let out := tokenizeVimLoop nullDiff vimFunc fuel (Cursor.after done (text ++ [0]))
    done <+: out.2 ∧ AreNames text out := by
  induction text using token_induction vimFunc with
  | nil =>
      intro fuel done _ hfuel _
      obtain ⟨fuel, rfl⟩ := Nat.exists_eq_add_of_le hfuel
      rw [Nat.add_comm, show ([] : BString).length + 2 = 2 from rfl,
        tokenizeVimLoop_end nullDiff fuel done [] rfl List.not_mem_nil]
      exact ⟨List.prefix_append _ _, rfl⟩
  | skip b text hb ih =>
      intro fuel done hnul hfuel hends
      rw [List.mem_cons, not_or] at hnul
      rw [endsIn_skip hb] at hends
      obtain _ | fuel := fuel
      · simp at hfuel
      · have hrest := ih fuel (done ++ [0]) hnul.2 (by simpa using hfuel) hends
        rw [List.cons_append, tokenizeVimLoop_skip nullDiff fuel done hb (Ne.symm hnul.1)]
        refine ⟨(List.prefix_append done [0]).trans hrest.1, ?_⟩
        unfold AreNames
        rw [runs_skip hb]
        exact hrest.2
  | word w b text hw hb ih =>
      intro fuel done hnul hfuel hends
      rw [List.mem_append, List.mem_cons, not_or, not_or] at hnul
      rw [endsIn_token w hb] at hends
      obtain _ | fuel := fuel
      · simp at hfuel
      · simp only [List.length_append, List.length_cons] at hfuel
        have hrest := ih fuel (done ++ w ++ [0]) hnul.2.2 (by omega) hends
        rw [List.append_assoc, List.cons_append,
          tokenizeVimLoop_name nullDiff fuel done hw hb hnul.1 (Ne.symm hnul.2.1)]
        have hpassed := (List.prefix_append (done ++ w) _).trans hrest.1
        refine ⟨(List.prefix_append _ _).trans hpassed, ?_⟩
        unfold AreNames
        rw [runs_token (fun _ => vimFunc_false) hw hb, List.map_append, bytes_refsOf hw hpassed,
          hrest.2, List.flatMap_cons]
  | last w hw =>
      intro fuel done _ _ hends
      rw [endsIn_last (fun _ => vimFunc_false) hw] at hends
      cases hends

/-- The length of a name at the end is computed from a null pointer. -/
theorem tokenizeVimLoop_ends (text : BString) : ∀ (fuel : Nat) (done : BString),
    0 ∉ text → text.length + 2 ≤ fuel → endsIn vimFunc text = true →
    ∃ start, refblk start (nullDiff start) ∈
      (tokenizeVimLoop nullDiff vimFunc fuel (Cursor.after done (text ++ [0]))).1 := by
  induction text using token_induction vimFunc with
  | nil =>
      intro fuel done _ _ hends
      cases hends
  | skip b text hb ih =>
      intro fuel done hnul hfuel hends
      rw [List.mem_cons, not_or] at hnul
      rw [endsIn_skip hb] at hends
      obtain _ | fuel := fuel
      · simp at hfuel
      · rw [List.cons_append, tokenizeVimLoop_skip nullDiff fuel done hb (Ne.symm hnul.1)]
        exact ih fuel _ hnul.2 (by simpa using hfuel) hends
  | word w b text hw hb ih =>
      intro fuel done hnul hfuel hends
      rw [List.mem_append, List.mem_cons, not_or, not_or] at hnul
      rw [endsIn_token w hb] at hends
      obtain _ | fuel := fuel
      · simp at hfuel
      · simp only [List.length_append, List.length_cons] at hfuel
        obtain ⟨start, hstart⟩ := ih fuel (done ++ w ++ [0]) hnul.2.2 (by omega) hends
        rw [List.append_assoc, List.cons_append,
          tokenizeVimLoop_name nullDiff fuel done hw hb hnul.1 (Ne.symm hnul.2.1)]
        exact ⟨start, List.mem_append_right _ hstart⟩
  | last w hw =>
      intro fuel done hnul hfuel _
      obtain ⟨fuel, rfl⟩ := Nat.exists_eq_add_of_le hfuel
      rw [show w.length + 2 + fuel = (w.length + fuel) + 2 by omega,
        tokenizeVimLoop_end nullDiff _ done w (accepted_token hw (by decide) []) hnul,
        if_neg hw.ne_nil]
      exact ⟨done.length, List.mem_cons_self⟩

end Loop

/-! ### The whole buffer -/

theorem AreNames.slen_le {text : BString} {out : List Ref × BString} (h : AreNames text out)
    {r : Ref} (hr : r ∈ out.1) : r.slen ≤ text.length := by
  have hpair : (r.bytes out.2, r.slen) ∈ out.1.map fun r => (r.bytes out.2, r.slen) :=
    List.mem_map.mpr ⟨r, hr, rfl⟩
  rw [h] at hpair
  obtain ⟨w, hw, hmem⟩ := List.mem_flatMap.mp hpair
  obtain ⟨v, hv, hvpair⟩ := List.mem_map.mp hmem
  obtain ⟨htoken, hlen⟩ := mem_runs (fun _ => vimFunc_false) text w hw
  rw [← show v.length = r.slen from congrArg Prod.snd hvpair]
  rcases List.mem_cons.mp hv with rfl | hagain
  · exact hlen
  · exact Nat.le_trans (length_again htoken hagain).1.length_le hlen

/--
**The tokens of a text of Vim are its names, and each name with a colon is followed by a beginning
of itself, which is the whole name just if its scope is one letter; this is so, whatever
subtracting from a null pointer gives, exactly when no name ends the text.**
-/
theorem tokenizeVim_names_iff (text : BString) (hnul : 0 ∉ text) :
    ((∀ nullDiff, AreNames text (tokenizeVim nullDiff vimFunc text)) ↔
      endsIn vimFunc text = false) ∧
      ∀ name ∈ runs vimFunc text, colon ∈ name →
        ∃ start, again name = [start] ∧ start <+: name ∧
          start.length = name.length + 1 - (scope name).length ∧
          (start = name ↔ (scope name).length = 1) := by
  refine ⟨⟨fun hall => ?_, fun hends nullDiff => ?_⟩, fun name hname hcolon => ?_⟩
  · by_contra hends
    rw [Bool.not_eq_false] at hends
    -- A difference that makes the string longer than the text.
    obtain ⟨start, hmem⟩ := tokenizeVimLoop_ends (fun _ => text.length + 2) text
      (text.length + 2) [] hnul (Nat.le_refl _) hends
    exact Nat.not_succ_le_self _ ((hall fun _ => text.length + 2).slen_le hmem)
  · exact (tokenizeVimLoop_names nullDiff text _ [] hnul (Nat.le_refl _) hends).2
  · have htoken := (mem_runs (fun _ => vimFunc_false) text name hname).1
    have hagain : again name = [name.take (name.length + 1 - (scope name).length)] :=
      if_pos hcolon
    have hmem : name.take (name.length + 1 - (scope name).length) ∈ again name := by
      rw [hagain]
      exact List.mem_singleton_self _
    obtain ⟨hstart, hlength⟩ := length_again htoken hmem
    refine ⟨_, hagain, hstart, hlength, ?_⟩
    rw [← again_eq_iff htoken hcolon, hagain, List.cons.injEq, and_iff_left rfl]

/-- A name with a scope of one letter, and one of a script that is loaded on demand. -/
def twoScopes : BString := bt "let s:x = ab:cd()"

theorem tokenizeVim_names_iff_twoScopes :
    ((∀ nullDiff, AreNames twoScopes (tokenizeVim nullDiff vimFunc twoScopes)) ↔
      endsIn vimFunc twoScopes = false) ∧
      ∀ name ∈ runs vimFunc twoScopes, colon ∈ name →
        ∃ start, again name = [start] ∧ start <+: name ∧
          start.length = name.length + 1 - (scope name).length ∧
          (start = name ↔ (scope name).length = 1) :=
  tokenizeVim_names_iff twoScopes (by decide)

/-- The second name is cut off, where its own part would be `cd`. -/
example : (runs vimFunc twoScopes).flatMap (fun name => name :: again name) =
    [bt "let", bt "s:x", bt "s:x", bt "ab:cd", bt "ab:c"] := by decide

end TagHighlight.Tok
