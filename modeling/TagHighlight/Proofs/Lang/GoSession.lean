/-
One question at a time, and one answer.

The call that has `lang_mtx` and the helper take turns: while the one writes, nothing comes from
the other, and what is in the pipes is what one of them has written of its message and the other
has not read.  So a read for the whole length cannot get more than the message, and the next call
finds both pipes empty.

`Phase` says where the two are: between two questions both pipes are empty and the helper waits,
and during one the bytes in the pipes are what `Talk` says.  What each call does is then a lemma
of its own, for the turn of the helper and for that of the call.  The mutexes are apart from this;
`Locks` says that whoever has one says so, and that is enough to know that at most one call talks,
and at most one hands its request over.

The texts are kept account of in `Books`.  A text that was joined is being asked about or was
answered, and one that was answered with names is being parsed, is about to be handed over, or was
handed over.  Since `total` is taken before `lang_mtx` is given back, no call can come between,
and the requests have the order of the texts.
-/
import TagHighlight.Proofs.Lang.GoMarks
import TagHighlight.Proofs.Util.Readers

namespace TagHighlight.Golang

open Ascii Atomic Bytes

/-! ### The length of an answer

The helper writes the length of its answer as ten decimal digits, and `strtoull` reads them.  The
zeros in front change nothing, and the string ends behind the digits, so the number that is read
is the length that was written, for every length that fits 32 bits.
-/

theorem length_decimal {n : Nat} (h : n < 2 ^ 32) : (decimal n).length ≤ 10 := by
  rw [decimal, List.length_map]
  exact (Nat.length_toDigits_le_iff (by decide) (by decide)).mpr (Nat.lt_trans h (by decide))

theorem length_lenstr {n : Nat} (h : n < 2 ^ 32) : (lenstr n).length = 10 := by
  have hlen := length_decimal h
  rw [lenstr, List.length_append, List.length_replicate]
  omega

theorem isDigit_of_mem_lenstr {n : Nat} {b : UInt8} (hb : b ∈ lenstr n) : isDigit b = true := by
  rcases List.mem_append.mp hb with hzero | hdigit
  · rw [List.eq_of_mem_replicate hzero]
    rfl
  · exact isDigit_of_mem_decimal hdigit

theorem foldl_zeros (k : Nat) :
    (List.replicate k (48 : UInt8)).foldl (fun n d => 10 * n + (d.toNat - 48)) 0 = 0 := by
  induction k with
  | zero => rfl
  | succ k ih =>
      rw [List.replicate_succ, List.foldl_cons]
      exact ih

theorem value_lenstr (n : Nat) :
    (lenstr n).foldl (fun n d => 10 * n + (d.toNat - 48)) 0 = n := by
  rw [lenstr, List.foldl_append, foldl_zeros, value_decimal]

/-- A digit is no blank and no sign. -/
theorem digit_first {b : UInt8} (h : isDigit b = true) :
    Readers.isSpace b = false ∧ [b] ≠ bt "+" ∧ [b] ≠ bt "-" := by
  refine ⟨isSpace_of_isDigit h, ?_, ?_⟩
  all_goals
    intro heq
    rw [(List.cons.inj heq).1] at h
    exact absurd h (by decide)

/-- The ten digits are read as the number that they are. -/
theorem strtoull_lenstr {n : Nat} (h : n < 2 ^ 32) : Readers.strtoull (lenstr n) = (n, 10) := by
  have hlen := length_lenstr h
  have hall : (lenstr n).takeWhile isDigit = lenstr n :=
    List.takeWhile_eq_self_iff.mpr fun b hb => isDigit_of_mem_lenstr hb
  obtain ⟨b, rest, hcons⟩ : ∃ b rest, lenstr n = b :: rest := by
    cases hs : lenstr n with
    | nil => rw [hs] at hlen; cases hlen
    | cons b rest => exact ⟨b, rest, rfl⟩
  obtain ⟨hspace, hplus, hminus⟩ := digit_first (isDigit_of_mem_lenstr (n := n) (b := b)
    (hcons ▸ List.mem_cons_self))
  have hspaces : ((lenstr n).takeWhile Readers.isSpace).length = 0 := by
    rw [hcons, List.takeWhile_cons_of_neg (by simp [hspace])]
    rfl
  have hsign : (lenstr n).take 1 = [b] := by rw [hcons]; rfl
  have hne : lenstr n ≠ [] := by rw [hcons]; exact List.cons_ne_nil _ _
  unfold Readers.strtoull
  simp only [hspaces, List.drop_zero, hsign, hplus, hminus, or_self, if_false, Nat.add_zero, hall,
    hne, value_lenstr, hlen, Nat.zero_add]

theorem num2readOf_lenstr {n : Nat} (h : n < 2 ^ 32) : Readers.num2readOf (lenstr n) = n := by
  rw [Readers.num2readOf, strtoull_lenstr h]
  exact Nat.mod_eq_of_lt h

/-! ### What one has written and the other not read

The bytes in a pipe are always the beginning of what the reader has still to read, and the rest of
it is what the writer has still to write.  So there is never more in a pipe than the message that
is under way, and a `read` that asks for more cannot get any.
-/

/-- A text is answered with records for its names. -/
def Answer (names : BString → List Record → Prop) (text output : BString) : Prop :=
  ∃ records, names text records ∧ (∀ r ∈ records, r.Legible) ∧
    output = records.flatMap Record.format ∧ output.length + 1 < 2 ^ 32

theorem Answer.lt {names : BString → List Record → Prop} {text output : BString}
    (h : Answer names text output) : output.length + 1 < 2 ^ 32 := by
  obtain ⟨records, -, -, -, hlt⟩ := h
  exact hlt

/-- The bytes of a question. -/
def question (text : BString) : BString := leBytes 8 text.length ++ text

/-- What the call has still to write of its question. -/
inductive Asks (text : BString) : HighlightCall → BString → Prop where
  | sending {rest : BString} (hne : rest ≠ []) : Asks text (.sending text rest) rest
  | header : Asks text (.header text) []

/-- What the helper has read of a question. -/
inductive Listens (text : BString) : Helper → BString → Prop where
  | header {got : BString} (hle : got.length ≤ 8) : Listens text (.header got) got
  | message {got : BString} (hle : got.length ≤ text.length) :
      Listens text (.message text.length got) (leBytes 8 text.length ++ got)

/-- What the helper has still to write of its answer. -/
inductive Leaves : Helper → BString → Prop where
  | writing {rest : BString} (hne : rest ≠ []) : Leaves (.writing rest) rest
  | done : Leaves (.header []) []

variable {names : BString → List Record → Prop}

/-- A call and the helper in turn, with what is in the pipes from the one and from the other. -/
inductive Talk (names : BString → List Record → Prop) (text : BString) :
    HighlightCall → Helper → BString → BString → Prop where
  | asking {c : HighlightCall} {helper : Helper} {got rest pipe : BString} (hasks : Asks text c rest)
      (hlistens : Listens text helper got) (hall : got ++ pipe ++ rest = question text)
      (hshort : text.length < 2 ^ 32) : Talk names text c helper pipe []
  | updating : Talk names text (.header text) (.updating text) [] []
  | answering {output : BString} (hanswer : Answer names text output) :
      Talk names text (.header text) (.answering output) [] []
  | header {output rest pipe : BString} {helper : Helper} (hanswer : Answer names text output)
      (hleaves : Leaves helper rest) (hall : pipe ++ rest = output) :
      Talk names text (.header text) helper [] (lenstr output.length ++ pipe)
  | body {output rest pipe data : BString} {helper : Helper} (hanswer : Answer names text output)
      (hleaves : Leaves helper rest) (hall : data ++ pipe ++ rest = output) :
      Talk names text (.body text output.length data data.length) helper [] pipe

/-- The call has `lang_mtx` and does not talk. -/
inductive Silent (names : BString → List Record → Prop) : HighlightCall → Prop where
  | joining : Silent names .joining
  | received {text output : BString} (hanswer : Answer names text output) :
      Silent names (.received text output)
  | parsed (text : BString) (calls : MpackArgArray) : Silent names (.parsed text calls)

/-- The helper, the pipes, and the call that has `lang_mtx`, if one has. -/
inductive Phase (names : BString → List Record → Prop) :
    Option HighlightCall → Helper → BString → BString → Prop where
  | free : Phase names none (.header []) [] []
  | silent {c : HighlightCall} (hc : Silent names c) : Phase names (some c) (.header []) [] []
  | talk {text pipe back : BString} {c : HighlightCall} {helper : Helper}
      (htalk : Talk names text c helper pipe back) : Phase names (some c) helper pipe back

/-! ### The helper's turn

The helper reads eight bytes, then as many as these say, and only then writes.  Pieces of a
question may come one at a time; until all of it is there the helper is where it was but for what
it has kept.
-/

theorem question_ne_nil (text : BString) : question text ≠ [] := by
  intro h
  have hlen := congrArg List.length h
  rw [question, List.length_append, leBytes_length] at hlen
  simp at hlen

/-- Whoever has the first eight bytes of a question has the length. -/
theorem length_of_eight {text got more : BString} (hgot : got.length = 8)
    (hall : got ++ more = question text) : got = leBytes 8 text.length ∧ more = text :=
  List.append_inj hall (by rw [hgot, leBytes_length])

theorem ofLE_length {text : BString} (h : text.length < 2 ^ 32) :
    ofLE (leBytes 8 text.length) = text.length := by
  rw [ofLE_leBytes]
  exact Nat.mod_eq_of_lt (Nat.lt_trans h (by decide))

/-- A helper that waits for its first byte stays where it is. -/
theorem helperNext_waiting {s : GoState} (hhelper : s.helper = .header []) (hpipe : s.toHelper = []) :
    s.helperNext = none := by
  rw [GoState.helperNext, hhelper]
  simp [hpipe]

/-- A helper that has answered waits, or is about to write. -/
theorem helperNext_leaves {s : GoState} {rest : BString} (h : Leaves s.helper rest)
    (hpipe : s.toHelper = []) : s.helperNext = none := by
  cases hhelper : s.helper with
  | header got =>
      rw [hhelper] at h
      cases h with
      | done => exact helperNext_waiting hhelper hpipe
  | writing rest' => rw [GoState.helperNext, hhelper]
  | message inlen got => rw [hhelper] at h; cases h
  | updating buf => rw [hhelper] at h; cases h
  | answering output => rw [hhelper] at h; cases h

variable {s s' : GoState} {lang : Option HighlightCall} {text : BString} {c : HighlightCall}

/-- The helper has gone on, and nothing else has happened. -/
def HelperMoved (names : BString → List Record → Prop) (lang : Option HighlightCall)
    (s s' : GoState) : Prop :=
  ∃ helper pipe back, s' = { s with helper, toHelper := pipe, fromHelper := back } ∧
    Phase names lang helper pipe back

/-- A piece of the question is read. -/
theorem read_piece {got pipe rest whole : BString} (k : Nat) (hall : got ++ pipe ++ rest = whole) :
    got ++ pipe.take k ++ pipe.drop k ++ rest = whole := by
  rw [List.append_assoc got, List.take_append_drop, hall]

theorem helperNext_asking {got rest : BString} (hasks : Asks text c rest)
    (hlistens : Listens text s.helper got) (hall : got ++ s.toHelper ++ rest = question text)
    (hshort : text.length < 2 ^ 32) (hback : s.fromHelper = []) (hs : s.helperNext = some s') :
    HelperMoved names (some c) s s' := by
  rw [GoState.helperNext] at hs
  cases hhelper : s.helper with
  | header got' =>
      rw [hhelper] at hlistens hs
      cases hlistens with
      | header hle =>
          dsimp only at hs
          split at hs
          · rename_i height
            obtain ⟨hgot, hmore⟩ := length_of_eight height (List.append_assoc .. ▸ hall)
            rw [hgot, ofLE_length hshort, if_pos (Nat.lt_trans hshort (by decide))] at hs
            obtain rfl := Option.some.inj hs
            rw [hback]
            refine ⟨_, _, _, rfl, .talk (.asking hasks (.message (Nat.zero_le _)) ?_ hshort)⟩
            rw [List.append_nil, ← hgot]
            exact hall
          · split at hs
            · cases hs
            · obtain rfl := Option.some.inj hs
              rw [hback]
              refine ⟨_, _, _, rfl, .talk (.asking hasks (.header ?_) (read_piece _ hall) hshort)⟩
              rw [List.length_append, List.length_take]
              omega
  | message inlen got' =>
      rw [hhelper] at hlistens hs
      cases hlistens with
      | message hle =>
          have htext : got' ++ s.toHelper ++ rest = text := by
            rw [List.append_assoc, List.append_assoc, question] at hall
            rw [List.append_assoc]
            exact List.append_cancel_left hall
          dsimp only at hs
          split at hs
          · rename_i hfull
            have hlen := congrArg List.length htext
            rw [List.length_append, List.length_append] at hlen
            have hpipe : s.toHelper = [] := List.length_eq_zero_iff.mp (by omega)
            have hrest : rest = [] := List.length_eq_zero_iff.mp (by omega)
            obtain rfl : got' = text := by
              rw [hpipe, hrest, List.append_nil, List.append_nil] at htext
              exact htext
            obtain rfl := Option.some.inj hs
            subst hrest
            rw [hback, hpipe]
            cases hasks with
            | sending hne => exact absurd rfl hne
            | header => exact ⟨_, _, _, rfl, .talk .updating⟩
          · split at hs
            · cases hs
            · obtain rfl := Option.some.inj hs
              rw [hback]
              refine ⟨_, _, _, rfl, .talk (.asking hasks (.message ?_) ?_ hshort)⟩
              · rw [List.length_append, List.length_take]
                omega
              · rw [← List.append_assoc]
                exact read_piece _ hall
  | updating buf => rw [hhelper] at hlistens; cases hlistens
  | answering output => rw [hhelper] at hlistens; cases hlistens
  | writing rest' => rw [hhelper] at hlistens; cases hlistens

/-- The helper reads on, or writes the length of its answer. -/
theorem Phase.helperNext (h : Phase names lang s.helper s.toHelper s.fromHelper)
    (hs : s.helperNext = some s') : HelperMoved names lang s s' := by
  generalize hhelper : s.helper = helper at h
  generalize hpipe : s.toHelper = pipe at h
  generalize hback : s.fromHelper = back at h
  cases h with
  | free => exact absurd hs (by rw [helperNext_waiting hhelper hpipe]; exact nofun)
  | silent hc => exact absurd hs (by rw [helperNext_waiting hhelper hpipe]; exact nofun)
  | talk htalk =>
      cases htalk with
      | asking hasks hlistens hall hshort =>
          rw [← hhelper] at hlistens
          rw [← hpipe] at hall
          exact helperNext_asking hasks hlistens hall hshort hback hs
      | updating =>
          rw [GoState.helperNext, hhelper] at hs
          cases hs
      | @answering output hanswer =>
          rw [GoState.helperNext, hhelper] at hs
          dsimp only at hs
          rw [if_neg (not_not_intro (length_lenstr (Nat.lt_of_succ_lt hanswer.lt)))] at hs
          obtain rfl := Option.some.inj hs
          refine ⟨_, _, _, rfl, ?_⟩
          rw [hpipe, hback, List.nil_append, ← List.append_nil (lenstr output.length)]
          refine .talk (.header hanswer ?_ (List.nil_append output))
          by_cases hnil : output = []
          · rw [if_pos hnil, hnil]
            exact .done
          · rw [if_neg hnil]
            exact .writing hnil
      | header hanswer hleaves hall =>
          rw [← hhelper] at hleaves
          exact absurd hs (by rw [helperNext_leaves hleaves hpipe]; exact nofun)
      | body hanswer hleaves hall =>
          rw [← hhelper] at hleaves
          exact absurd hs (by rw [helperNext_leaves hleaves hpipe]; exact nofun)

/-- What is found is an answer to the text that was read. -/
theorem Phase.update {output : BString} (h : Phase names lang s.helper s.toHelper s.fromHelper)
    (hfair : GoFair names s (.update output)) (hs : s.update output = some s') :
    HelperMoved names lang s s' := by
  cases hhelper : s.helper with
  | updating buf =>
      rw [GoState.update, hhelper] at hs
      obtain rfl := Option.some.inj hs
      have hanswer : Answer names buf output := hfair buf hhelper
      rw [hhelper] at h
      generalize hpipe : s.toHelper = pipe at h
      generalize hback : s.fromHelper = back at h
      cases h with
      | talk htalk =>
          cases htalk with
          | asking hasks hlistens => cases hlistens
          | updating =>
              exact ⟨_, _, _, rfl, .talk (.answering hanswer)⟩
          | header hanswer' hleaves => cases hleaves
          | body hanswer' hleaves => cases hleaves
  | header got => rw [GoState.update, hhelper] at hs; cases hs
  | message inlen got => rw [GoState.update, hhelper] at hs; cases hs
  | answering output' => rw [GoState.update, hhelper] at hs; cases hs
  | writing rest => rw [GoState.update, hhelper] at hs; cases hs

/-- What is left after a piece was written. -/
theorem Leaves.drop (rest : BString) (k : Nat) :
    Leaves (if rest.drop k = [] then .header [] else .writing (rest.drop k)) (rest.drop k) := by
  by_cases hnil : rest.drop k = []
  · rw [if_pos hnil, hnil]
    exact .done
  · rw [if_neg hnil]
    exact .writing hnil

/-- A piece of the answer is written. -/
theorem Phase.helperWrite {k : Nat} (h : Phase names lang s.helper s.toHelper s.fromHelper)
    (hs : s.helperWrite k = some s') : HelperMoved names lang s s' := by
  cases hhelper : s.helper with
  | writing rest =>
      rw [GoState.helperWrite, hhelper] at hs
      obtain rfl := Option.some.inj hs
      rw [hhelper] at h
      generalize hpipe : s.toHelper = pipe at h
      generalize hback : s.fromHelper = back at h
      cases h with
      | talk htalk =>
          cases htalk with
          | asking hasks hlistens => cases hlistens
          | @header output rest' back' _ hanswer hleaves hall =>
              cases hleaves with
              | writing hne =>
                  refine ⟨_, _, _, rfl, ?_⟩
                  rw [List.append_assoc]
                  refine .talk (.header hanswer (Leaves.drop rest (k + 1)) ?_)
                  rw [List.append_assoc, List.take_append_drop, hall]
          | @body output rest' back' data _ hanswer hleaves hall =>
              cases hleaves with
              | writing hne =>
                  refine ⟨_, _, _, rfl, .talk (.body hanswer (Leaves.drop rest (k + 1)) ?_)⟩
                  rw [List.append_assoc, List.append_assoc, List.take_append_drop,
                    ← List.append_assoc, hall]
  | header got => rw [GoState.helperWrite, hhelper] at hs; cases hs
  | message inlen got => rw [GoState.helperWrite, hhelper] at hs; cases hs
  | answering output => rw [GoState.helperWrite, hhelper] at hs; cases hs
  | updating buf => rw [GoState.helperWrite, hhelper] at hs; cases hs

/-! ### The call's turn

The call has written its question and reads.  The ten digits are there as a whole, because the
helper writes them at once and the pipe was empty.  Of the records it reads whatever there is, and
the round in which the last byte is read is the last one.
-/

/-- All of the pipe is taken, if it is not more than what is asked for. -/
theorem read_pipeEnd (pipe : BString) (count : Nat) :
    (pipeEnd pipe).read count =
      (some (pipe.take (min count (pipe.length + 1))),
        (pipeEnd pipe).after (min count (pipe.length + 1))) :=
  InputStream.read_some rfl count

/-- The ten digits are read, and what is behind them stays. -/
theorem readHeader_lenstr {ndebug : Bool} {t n : Nat} {back : BString} (hn : n < 2 ^ 32)
    (hback : s.fromHelper = lenstr n ++ back) :
    s.readHeader ndebug t text =
      { s with fromHelper := back }.setCall t (.body text n [] 0) := by
  have hlen := length_lenstr hn
  have hmin : min 10 (s.fromHelper.length + 1) = 10 := by
    rw [hback, List.length_append]
    omega
  have htake : s.fromHelper.take 10 = lenstr n := by rw [hback, ← hlen, List.take_left]
  have hdrop : ((pipeEnd s.fromHelper).after 10).rest = back := by
    rw [InputStream.after_rest, pipeEnd, hback, ← hlen, List.drop_left]
  rw [GoState.readHeader, read_pipeEnd, hmin, htake]
  simp only [hlen, ne_eq, not_true_eq_false, if_false, strtoull_lenstr hn, and_false,
    num2readOf_lenstr hn, hdrop]

/-- A round of the loop takes all that was written. -/
theorem bodyRound_all {n : Nat} {data pipe : BString} (hn : n + 1 < 2 ^ 32)
    (hroom : data.length + pipe.length ≤ n) :
    Readers.bodyRound n data data.length (pipeEnd pipe) =
      .ok (data ++ pipe, (data ++ pipe).length,
        (pipeEnd pipe).after (min n (pipe.length + 1))) := by
  have hcap := Readers.capacity_eq hn
  have htake : (pipeEnd pipe).rest.take (min n (pipe.length + 1)) = pipe :=
    List.take_of_length_le (show pipe.length ≤ _ by omega)
  rw [Readers.bodyRound_some (by omega) rfl, show (pipeEnd pipe).rest.take _ = pipe from htake,
    if_neg (by omega), List.take_length, List.drop_eq_nil_of_le (Nat.le_add_right _ _),
    List.append_nil, Nat.mod_eq_of_lt (by omega), List.length_append]

/-- A round of `read_pipe` on what was written of the answer. -/
theorem readBody_all {t n : Nat} {data : BString} (hn : n + 1 < 2 ^ 32)
    (hroom : data.length + s.fromHelper.length ≤ n) :
    s.readBody t text n data data.length =
      if (data ++ s.fromHelper).length = n then
        { s with fromHelper := [] }.answered t text (data ++ s.fromHelper)
      else
        { s with fromHelper := [] }.setCall t
          (.body text n (data ++ s.fromHelper) (data ++ s.fromHelper).length) := by
  have hrest : ((pipeEnd s.fromHelper).after (min n (s.fromHelper.length + 1))).rest = [] :=
    List.drop_eq_nil_of_le (show s.fromHelper.length ≤ _ by omega)
  rw [GoState.readBody, bodyRound_all hn hroom]
  simp only [hrest]
  by_cases hfull : (data ++ s.fromHelper).length = n
  · have hcap := Readers.capacity_eq hn
    rw [if_pos hfull, if_pos hfull, Readers.terminate, if_pos (by omega)]
    simp only [List.take_length]
  · rw [if_neg hfull, if_neg hfull]

variable {helper : Helper} {pipe back : BString}

/-- A piece of the question is written. -/
theorem Talk.write {text' rest : BString} (h : Talk names text (.sending text' rest) helper pipe back)
    (k : Nat) : text' = text ∧
      Talk names text
        (if rest.drop (k + 1) = [] then .header text else .sending text (rest.drop (k + 1))) helper
        (pipe ++ rest.take (k + 1)) back := by
  cases h with
  | asking hasks hlistens hall hshort =>
      cases hasks with
      | sending hne =>
          refine ⟨rfl, ?_⟩
          have hrest : Asks text
              (if rest.drop (k + 1) = [] then .header text else .sending text (rest.drop (k + 1)))
              (rest.drop (k + 1)) := by
            by_cases hnil : rest.drop (k + 1) = []
            · rw [if_pos hnil, hnil]
              exact .header
            · rw [if_neg hnil]
              exact .sending hnil
          refine .asking hrest hlistens ?_ hshort
          rw [← List.append_assoc, List.append_assoc, List.take_append_drop, hall]

/-- The digits are there, all of them. -/
theorem Talk.readHeader {text' : BString} (h : Talk names text (.header text') helper pipe back)
    (hne : back ≠ []) : text' = text ∧ pipe = [] ∧ ∃ output back', Answer names text output ∧
      back = lenstr output.length ++ back' ∧
      Talk names text (.body text output.length [] 0) helper [] back' := by
  cases h with
  | asking hasks hlistens hall hshort => exact absurd rfl hne
  | updating => exact absurd rfl hne
  | answering hanswer => exact absurd rfl hne
  | header hanswer hleaves hall =>
      rw [← List.nil_append (_ ++ _), ← List.append_assoc] at hall
      exact ⟨rfl, rfl, _, _, hanswer, rfl, .body hanswer hleaves hall⟩

/-- What is there is not too much, and if it is all then the helper waits again. -/
theorem Talk.readBody {text' data : BString} {n slen : Nat}
    (h : Talk names text (.body text' n data slen) helper pipe back) :
    text' = text ∧ pipe = [] ∧ slen = data.length ∧ ∃ output, Answer names text output ∧
      n = output.length ∧ data.length + back.length ≤ n ∧
      Talk names text (.body text n (data ++ back) (data ++ back).length) helper [] [] ∧
      ((data ++ back).length = n → data ++ back = output ∧ helper = .header []) := by
  cases h with
  | asking hasks => cases hasks
  | @body output rest back data helper hanswer hleaves hall =>
      have hlen := congrArg List.length hall
      rw [List.length_append, List.length_append] at hlen
      refine ⟨rfl, rfl, rfl, output, hanswer, rfl, by omega, ?_, fun hfull => ?_⟩
      · refine .body hanswer hleaves ?_
        rw [List.append_nil, hall]
      · rw [List.length_append] at hfull
        obtain rfl : rest = [] := List.length_eq_zero_iff.mp (by omega)
        rw [List.append_nil] at hall
        refine ⟨hall, ?_⟩
        cases hleaves with
        | writing hne => exact absurd rfl hne
        | done => rfl

/-! ### Who has which mutex

A mutex is a number that says which call has it, and a place of the call that says the same.
`Moves` is a step of one call with what becomes of both mutexes, so that there is one lemma for
all places where a mutex is taken, kept or given back.
-/

/-- The mutex belongs to the one call that says so. -/
def Owned (f : HighlightCall → Bool) (calls : Nat → HighlightCall) (owner : Option Nat) : Prop :=
  ∀ t, f (calls t) = true ↔ owner = some t

/-- The owner after a call has gone on. -/
def ownerAfter (f : HighlightCall → Bool) (calls : Nat → HighlightCall) (owner : Option Nat)
    (t : Nat) (c : HighlightCall) : Option Nat :=
  if f c then some t else if f (calls t) then none else owner

section Owner

variable {f : HighlightCall → Bool} {calls : Nat → HighlightCall} {owner : Option Nat} {t : Nat}

/-- A call that goes on keeps the mutex, gives it back, or takes it when it is free. -/
theorem Owned.after (h : Owned f calls owner)
    (hfree : f c = true → f (calls t) = true ∨ owner = none) :
    Owned f (Function.update calls t c) (ownerAfter f calls owner t c) := by
  intro u
  unfold ownerAfter
  by_cases hu : u = t
  · subst hu
    rw [Function.update_self]
    by_cases hc : f c = true
    · simp [hc]
    · simp only [hc, if_false, false_iff, Bool.false_eq_true]
      split
      · exact nofun
      · rename_i hold
        exact fun howner => hold ((h u).mpr howner)
  · rw [Function.update_of_ne hu, h u]
    by_cases hc : f c = true
    · rw [if_pos hc]
      rcases hfree hc with hold | hnone
      · rw [(h t).mp hold]
      · rw [hnone]
        simp [Ne.symm hu]
    · rw [if_neg hc]
      split
      · rename_i hold
        rw [(h t).mp hold]
        simp [Ne.symm hu]
      · rfl

/-- The call that has the mutex then. -/
theorem Owned.call_after (h : Owned f calls owner) :
    (ownerAfter f calls owner t c).map (Function.update calls t c) =
      if f c then some c else if f (calls t) then none else owner.map calls := by
  unfold ownerAfter
  split
  · simp
  · split
    · rfl
    · rename_i hold
      cases howner : owner with
      | none => rfl
      | some u =>
          have hu : u ≠ t := by
            rintro rfl
            exact hold ((h u).mpr howner)
          simp [hu]

end Owner

namespace GoState

/-- The call that has `lang_mtx`. -/
def langCall (s : GoState) : Option HighlightCall := s.langMtx.map s.calls

/-- The call that has `total`. -/
def totalCall (s : GoState) : Option HighlightCall := s.total.map s.calls

/-- Each mutex has the owner that its call says. -/
structure Locks (s : GoState) : Prop where
  lang : Owned HighlightCall.hasLang s.calls s.langMtx
  total : Owned HighlightCall.hasTotal s.calls s.total

/-- A call goes on to this place, with its mutexes. -/
structure Moves (s s' : GoState) (t : Nat) (c : HighlightCall) : Prop where
  calls : s'.calls = Function.update s.calls t c
  langMtx : s'.langMtx = ownerAfter HighlightCall.hasLang s.calls s.langMtx t c
  total : s'.total = ownerAfter HighlightCall.hasTotal s.calls s.total t c
  langFree : c.hasLang = true → (s.calls t).hasLang = true ∨ s.langMtx = none
  totalFree : c.hasTotal = true → (s.calls t).hasTotal = true ∨ s.total = none

variable {t : Nat}

theorem Moves.locks (h : s.Moves s' t c) (hlocks : s.Locks) : s'.Locks where
  lang := by
    rw [h.calls, h.langMtx]
    exact hlocks.lang.after h.langFree
  total := by
    rw [h.calls, h.total]
    exact hlocks.total.after h.totalFree

theorem Moves.lang_eq (h : s.Moves s' t c) (hlocks : s.Locks) :
    s'.langCall = if c.hasLang then some c else if (s.calls t).hasLang then none else s.langCall := by
  rw [langCall, h.calls, h.langMtx]
  exact hlocks.lang.call_after

theorem Moves.total_eq (h : s.Moves s' t c) (hlocks : s.Locks) :
    s'.totalCall =
      if c.hasTotal then some c else if (s.calls t).hasTotal then none else s.totalCall := by
  rw [totalCall, h.calls, h.total]
  exact hlocks.total.call_after

/-- The call that says it has `lang_mtx` is the one. -/
theorem Locks.lang_eq (h : s.Locks) (ht : (s.calls t).hasLang = true) :
    s.langCall = some (s.calls t) := by
  rw [langCall, (h.lang t).mp ht]
  rfl

theorem Locks.total_eq (h : s.Locks) (ht : (s.calls t).hasTotal = true) :
    s.totalCall = some (s.calls t) := by
  rw [totalCall, (h.total t).mp ht]
  rfl

/-- A call with the same mutexes as before. -/
theorem moves_setCall (hcalls : s'.calls = s.calls) (hlangMtx : s'.langMtx = s.langMtx)
    (htotal : s'.total = s.total) (hlocks : s.Locks) (hlang : c.hasLang = (s.calls t).hasLang)
    (hkeeps : c.hasTotal = (s.calls t).hasTotal) : s.Moves (s'.setCall t c) t c where
  calls := by rw [setCall, hcalls]
  langMtx := by
    rw [ownerAfter, hlang]
    show s'.langMtx = _
    rw [hlangMtx]
    split
    · rename_i hold
      exact (hlocks.lang t).mp hold
    · rfl
  total := by
    rw [ownerAfter, hkeeps]
    show s'.total = _
    rw [htotal]
    split
    · rename_i hold
      exact (hlocks.total t).mp hold
    · rfl
  langFree hc := .inl (hlang ▸ hc)
  totalFree hc := .inl (hkeeps ▸ hc)

end GoState

/-! ### What has become of the texts

The lists of texts only grow, at their ends.  `Books` says how far each of them is behind the one
before it, and the difference is what the calls have in hand.  So a step that answers nothing and
hands nothing over has nothing to show for it, if the calls keep the texts that they have.
-/

/-- The text that is being asked about. -/
def asking : Option HighlightCall → List BString
  | some (.sending text _) | some (.header text) | some (.body text _ _ _) => [text]
  | _ => []

/-- The text whose answer is not parsed. -/
def unparsed : Option HighlightCall → List BString
  | some (.received text _) => [text]
  | _ => []

/-- The request that is not handed over yet. -/
def unhanded : Option HighlightCall → List (BString × MpackArgArray)
  | some (.parsed text calls) | some (.calling text calls) => [(text, calls)]
  | _ => []

/-- The texts whose answer has something in it. -/
def namedTexts (exchanges : List (BString × BString)) : List BString :=
  (exchanges.filter fun e => e.2 ≠ []).map Prod.fst

section Books

variable {lib : Library} {num : Int32} {ft : Filetype}

/-- The requests are for the names of their texts, and only the first comes with a new `hl_id`. -/
structure Painted (lib : Library) (num : Int32) (ft : Filetype)
    (names : BString → List Record → Prop) (hlId : Int32)
    (requests : List (BString × MpackArgArray)) : Prop where
  fresh : hlId = 0 ↔ requests = []
  paints : ∀ i text calls, requests[i]? = some (text, calls) → ∃ records, names text records ∧
    Paints lib num hlId ft (i ≠ 0) records calls

/-- What was joined is being asked about or was answered, and what was answered with names is
being parsed, is about to be handed, or was handed. -/
structure Books (lib : Library) (num : Int32) (ft : Filetype)
    (names : BString → List Record → Prop) (s : GoState) (lang total : Option HighlightCall) :
    Prop where
  asked : s.snapshots = s.exchanges.map Prod.fst ++ asking lang
  marked : namedTexts s.exchanges =
    (s.handed ++ unhanded total ++ unhanded lang).map Prod.fst ++ unparsed lang
  painted : Painted lib num ft names s.bdata.hlId (s.handed ++ unhanded total ++ unhanded lang)
  num_eq : s.bdata.num = num
  ft_eq : s.bdata.ft = ft

/-- One more request. -/
theorem Painted.add {hlId hlId' : Int32} {requests : List (BString × MpackArgArray)}
    {calls : MpackArgArray} {records : List Record}
    (h : Painted lib num ft names hlId requests) (hne : hlId' ≠ 0)
    (hkept : hlId ≠ 0 → hlId' = hlId) (hnames : names text records)
    (hpaints : Paints lib num hlId' ft (hlId ≠ 0) records calls) :
    Painted lib num ft names hlId' (requests ++ [(text, calls)]) where
  fresh := iff_of_false hne (List.append_ne_nil_of_right_ne_nil _ (List.cons_ne_nil _ _))
  paints := by
    intro i text' calls' hi
    rcases Nat.lt_or_ge i requests.length with hlt | hge
    · rw [List.getElem?_append_left hlt] at hi
      have hsome : hlId ≠ 0 := by
        intro hzero
        rw [h.fresh.mp hzero] at hlt
        exact Nat.not_lt_zero _ hlt
      rw [hkept hsome]
      exact h.paints i text' calls' hi
    · rw [List.getElem?_append_right hge] at hi
      have hlast : i = requests.length := by
        have hbound := (List.getElem?_eq_some_iff.mp hi).1
        rw [List.length_singleton] at hbound
        omega
      subst hlast
      rw [Nat.sub_self] at hi
      obtain ⟨rfl, rfl⟩ := Prod.mk.inj (Option.some.inj hi)
      refine ⟨records, hnames, ?_⟩
      have hagain : decide (requests.length ≠ 0) = decide (hlId ≠ 0) := by
        refine decide_eq_decide.mpr (not_congr ?_)
        rw [List.length_eq_zero_iff, h.fresh]
      rw [hagain]
      exact hpaints

variable {lang' total total' : Option HighlightCall}

/-- Going on without an answer or a request changes nothing. -/
theorem Books.move (h : Books lib num ft names s lang total) (hsnapshots : s'.snapshots = s.snapshots)
    (hexchanges : s'.exchanges = s.exchanges) (hhanded : s'.handed = s.handed) (hbdata : s'.bdata = s.bdata)
    (hasking : asking lang' = asking lang) (hunparsed : unparsed lang' = unparsed lang)
    (hunhanded : unhanded total' ++ unhanded lang' = unhanded total ++ unhanded lang) :
    Books lib num ft names s' lang' total' where
  asked := by rw [hsnapshots, hexchanges, hasking, h.asked]
  marked := by
    rw [hexchanges, hhanded, hunparsed, List.append_assoc, hunhanded, ← List.append_assoc, h.marked]
  painted := by
    rw [hbdata, hhanded, List.append_assoc, hunhanded, ← List.append_assoc]
    exact h.painted
  num_eq := by rw [hbdata, h.num_eq]
  ft_eq := by rw [hbdata, h.ft_eq]

/-- The answer to the text that was being asked about. -/
theorem Books.answer {lang : HighlightCall} {output : BString}
    (h : Books lib num ft names s (some lang) total) (hasking : asking (some lang) = [text])
    (hsnapshots : s'.snapshots = s.snapshots)
    (hexchanges : s'.exchanges = s.exchanges ++ [(text, output)]) (hhanded : s'.handed = s.handed)
    (hbdata : s'.bdata = s.bdata) (hdone : asking lang' = []) (hunhanded : unhanded lang' = [])
    (hunparsed : unparsed lang' = if output = [] then [] else [text]) :
    Books lib num ft names s' lang' total := by
  have hnone : unparsed (some lang) = [] ∧ unhanded (some lang) = [] := by
    cases lang <;> first | exact ⟨rfl, rfl⟩ | cases hasking
  have hmarked := h.marked
  have hpainted := h.painted
  rw [hnone.1, hnone.2, List.append_nil, List.append_nil] at hmarked
  rw [hnone.2, List.append_nil] at hpainted
  refine ⟨?_, ?_, ?_, by rw [hbdata, h.num_eq], by rw [hbdata, h.ft_eq]⟩
  · rw [hsnapshots, hexchanges, hdone, List.append_nil, List.map_append, h.asked, hasking]
    rfl
  · rw [hexchanges, hhanded, hunhanded, List.append_nil, hunparsed, ← hmarked]
    by_cases hnil : output = [] <;> simp [namedTexts, hnil]
  · rw [hbdata, hhanded, hunhanded, List.append_nil]
    exact hpainted

/-! ### Every step

The invariant is the conjunction of what was said of the pipes, of the mutexes and of the texts.
There is a lemma for each kind of step, and they differ in what they have to show: most of them
move bytes and leave mutexes and texts alone, and a few move a mutex or a text while the pipes are
empty.
-/

/-- What holds in every state. -/
structure Inv (lib : Library) (num : Int32) (ft : Filetype) (names : BString → List Record → Prop)
    (s : GoState) : Prop where
  unharmed : s.failed = none
  locks : s.Locks
  short : s.text.length < 2 ^ 32
  phase : Phase names s.langCall s.helper s.toHelper s.fromHelper
  books : Books lib num ft names s s.langCall s.totalCall

variable {t : Nat} {ndebug : Bool}

/-- Between two questions nothing is in the pipes. -/
theorem Phase.waits (h : Phase names (some c) helper pipe back) (hc : asking (some c) = []) :
    Silent names c ∧ helper = .header [] ∧ pipe = [] ∧ back = [] := by
  cases h with
  | silent hsilent => exact ⟨hsilent, rfl, rfl, rfl⟩
  | talk htalk =>
      cases htalk with
      | asking hasks => cases hasks <;> cases hc
      | updating => cases hc
      | answering => cases hc
      | header => cases hc
      | body => cases hc

/-- A call that has a question under way talks to the helper about it. -/
theorem Phase.talks (h : Phase names (some c) helper pipe back) (hc : asking (some c) ≠ []) :
    ∃ text, Talk names text c helper pipe back := by
  cases h with
  | silent hsilent => cases hsilent <;> exact absurd rfl hc
  | talk htalk => exact ⟨_, htalk⟩

/-- A call without a mutex goes on without one. -/
theorem Inv.quiet (h : Inv lib num ft names s) {n : Nat} (hold : (s.calls t).hasLang = false)
    (hold' : (s.calls t).hasTotal = false) (hc : c.hasLang = false) (hc' : c.hasTotal = false) :
    Inv lib num ft names ({ s with numWorkers := n }.setCall t c) := by
  have hmoves : s.Moves ({ s with numWorkers := n }.setCall t c) t c :=
    GoState.moves_setCall rfl rfl rfl h.locks (hc.trans hold.symm) (hc'.trans hold'.symm)
  have hlang := hmoves.lang_eq h.locks
  have htotal := hmoves.total_eq h.locks
  simp only [hc, hold, Bool.false_eq_true, if_false] at hlang
  simp only [hc', hold', Bool.false_eq_true, if_false] at htotal
  refine ⟨h.unharmed, hmoves.locks h.locks, h.short, hlang ▸ h.phase, ?_⟩
  rw [hlang, htotal]
  exact h.books.move rfl rfl rfl rfl rfl rfl rfl

/-- A call that has `lang_mtx` goes on with it. -/
theorem Inv.goOn (h : Inv lib num ft names s) (hcalls : s'.calls = s.calls)
    (hlangMtx : s'.langMtx = s.langMtx) (htotal : s'.total = s.total)
    (hold : (s.calls t).hasLang = true) (hc : c.hasLang = true)
    (hold' : (s.calls t).hasTotal = false) (hc' : c.hasTotal = false) (hfailed : s'.failed = none)
    (hshort : s'.text.length < 2 ^ 32)
    (hphase : Phase names (some c) s'.helper s'.toHelper s'.fromHelper)
    (hbooks : Books lib num ft names s' (some c) s.totalCall) :
    Inv lib num ft names (s'.setCall t c) := by
  have hmoves : s.Moves (s'.setCall t c) t c :=
    GoState.moves_setCall hcalls hlangMtx htotal h.locks (hc.trans hold.symm) (hc'.trans hold'.symm)
  have hlang := hmoves.lang_eq h.locks
  have htotalCall := hmoves.total_eq h.locks
  simp only [hc, if_true] at hlang
  simp only [hc', hold', Bool.false_eq_true, if_false] at htotalCall
  refine ⟨hfailed, hmoves.locks h.locks, hshort, ?_, ?_⟩
  · rw [hlang]
    exact hphase
  · rw [hlang, htotalCall]
    exact hbooks.move rfl rfl rfl rfl rfl rfl rfl

/-- A call gives `lang_mtx` back when nothing is under way. -/
theorem Inv.giveBack (h : Inv lib num ft names s) (hcalls : s'.calls = s.calls)
    (htotal : s'.total = s.total) (hold : (s.calls t).hasLang = true)
    (hold' : (s.calls t).hasTotal = false) (hfailed : s'.failed = none)
    (hshort : s'.text.length < 2 ^ 32) (hphase : Phase names none s'.helper s'.toHelper s'.fromHelper)
    (hbooks : Books lib num ft names s' none s.totalCall) :
    Inv lib num ft names (s'.leave.setCall t .idle) := by
  have hmoves : s.Moves (s'.leave.setCall t .idle) t .idle := by
    refine ⟨?_, ?_, ?_, nofun, nofun⟩
    · rw [← hcalls]
      rfl
    · rw [ownerAfter, hold]
      rfl
    · rw [ownerAfter, hold', ← htotal]
      rfl
  have hlang := hmoves.lang_eq h.locks
  have htotalCall := hmoves.total_eq h.locks
  have hidle : HighlightCall.idle.hasLang = false ∧ HighlightCall.idle.hasTotal = false := ⟨rfl, rfl⟩
  simp only [hidle, hold, Bool.false_eq_true, if_false, if_true] at hlang
  simp only [hidle, hold', Bool.false_eq_true, if_false] at htotalCall
  refine ⟨hfailed, hmoves.locks h.locks, hshort, ?_, ?_⟩
  · rw [hlang]
    exact hphase
  · rw [hlang, htotalCall]
    exact hbooks.move rfl rfl rfl rfl rfl rfl rfl

theorem Inv.join (h : Inv lib num ft names s) (hcall : s.calls t = .joining) :
    Inv lib num ft names (s.join t) := by
  have hold : (s.calls t).hasLang = true ∧ (s.calls t).hasTotal = false := by
    rw [hcall]
    exact ⟨rfl, rfl⟩
  have hlang : s.langCall = some .joining := hcall ▸ h.locks.lang_eq hold.1
  have hphase := h.phase
  have hbooks := h.books
  rw [hlang] at hphase hbooks
  obtain ⟨-, hhelper, hpipe, hback⟩ := hphase.waits rfl
  unfold GoState.join
  by_cases htext : s.text = []
  · rw [if_pos htext]
    refine h.giveBack rfl rfl hold.1 hold.2 h.unharmed h.short ?_
      (hbooks.move rfl rfl rfl rfl rfl rfl rfl)
    rw [hhelper, hpipe, hback]
    exact .free
  · rw [if_neg htext]
    refine h.goOn rfl rfl rfl hold.1 rfl hold.2 rfl h.unharmed h.short ?_ ?_
    · rw [hhelper, hpipe, hback]
      refine .talk (.asking (.sending (question_ne_nil s.text)) (.header (Nat.zero_le _)) rfl h.short)
    · refine ⟨?_, hbooks.marked, hbooks.painted, hbooks.num_eq, hbooks.ft_eq⟩
      have hasked : s.snapshots = s.exchanges.map Prod.fst :=
        hbooks.asked.trans (List.append_nil _)
      show s.snapshots ++ [s.text] = s.exchanges.map Prod.fst ++ [s.text]
      rw [hasked]

theorem Inv.readHeader {text' : BString} (h : Inv lib num ft names s)
    (hcall : s.calls t = .header text') (hne : s.fromHelper ≠ []) :
    Inv lib num ft names (s.readHeader ndebug t text') := by
  have hold : (s.calls t).hasLang = true ∧ (s.calls t).hasTotal = false := by
    rw [hcall]
    exact ⟨rfl, rfl⟩
  have hlang : s.langCall = some (.header text') := hcall ▸ h.locks.lang_eq hold.1
  have hphase := h.phase
  have hbooks := h.books
  rw [hlang] at hphase hbooks
  obtain ⟨text, htalk⟩ := hphase.talks (List.cons_ne_nil _ _)
  obtain ⟨rfl, hpipe, output, back', hanswer, hback, htalk'⟩ := htalk.readHeader hne
  rw [readHeader_lenstr (Nat.lt_of_succ_lt hanswer.lt) hback]
  refine h.goOn rfl rfl rfl hold.1 rfl hold.2 rfl h.unharmed h.short ?_
    (hbooks.move rfl rfl rfl rfl rfl rfl rfl)
  show Phase names _ s.helper s.toHelper back'
  rw [hpipe]
  exact .talk htalk'

/-- The last byte of an answer has been read. -/
theorem Inv.answered {output : BString} (h : Inv lib num ft names s)
    (hold : (s.calls t).hasLang = true) (hold' : (s.calls t).hasTotal = false)
    (hlang : s.langCall = some c) (hasking : asking (some c) = [text]) (hanswer : Answer names text output)
    (hhelper : s.helper = .header []) (hpipe : s.toHelper = []) :
    Inv lib num ft names ({ s with fromHelper := [] }.answered t text output) := by
  have hbooks := h.books
  rw [hlang] at hbooks
  unfold GoState.answered
  by_cases hnil : output = []
  · subst hnil
    refine h.giveBack rfl rfl hold hold' h.unharmed h.short ?_
      (hbooks.answer hasking rfl rfl rfl rfl rfl rfl rfl)
    show Phase names none s.helper s.toHelper []
    rw [hhelper, hpipe]
    exact .free
  · dsimp only
    rw [if_neg hnil]
    refine h.goOn rfl rfl rfl hold rfl hold' rfl h.unharmed h.short ?_
      (hbooks.answer hasking rfl rfl rfl rfl rfl rfl (if_neg hnil).symm)
    show Phase names _ s.helper s.toHelper []
    rw [hhelper, hpipe]
    exact .silent (.received hanswer)

theorem Inv.readBody {text' data : BString} {n slen : Nat} (h : Inv lib num ft names s)
    (hcall : s.calls t = .body text' n data slen) :
    Inv lib num ft names (s.readBody t text' n data slen) := by
  have hold : (s.calls t).hasLang = true ∧ (s.calls t).hasTotal = false := by
    rw [hcall]
    exact ⟨rfl, rfl⟩
  have hlang : s.langCall = some (.body text' n data slen) := hcall ▸ h.locks.lang_eq hold.1
  have hphase := h.phase
  have hbooks := h.books
  rw [hlang] at hphase hbooks
  obtain ⟨text, htalk⟩ := hphase.talks (List.cons_ne_nil _ _)
  obtain ⟨rfl, hpipe, rfl, output, hanswer, rfl, hroom, htalk', hfull⟩ := htalk.readBody
  rw [readBody_all hanswer.lt hroom]
  by_cases hlen : (data ++ s.fromHelper).length = output.length
  · rw [if_pos hlen]
    obtain ⟨hdata, hhelper⟩ := hfull hlen
    rw [hdata]
    exact h.answered hold.1 hold.2 hlang rfl hanswer hhelper hpipe
  · rw [if_neg hlen]
    refine h.goOn rfl rfl rfl hold.1 rfl hold.2 rfl h.unharmed h.short ?_
      (hbooks.move rfl rfl rfl rfl rfl rfl rfl)
    show Phase names _ s.helper s.toHelper []
    rw [hpipe]
    exact .talk htalk'

/-- `lang_mtx` is free, and the call takes it. -/
theorem Inv.enter (h : Inv lib num ft names s) (hcall : s.calls t = .waiting)
    (hfree : s.langMtx = none) :
    Inv lib num ft names ({ s with langMtx := some t }.setCall t .joining) := by
  have hmoves : s.Moves ({ s with langMtx := some t }.setCall t .joining) t .joining := by
    refine ⟨rfl, rfl, ?_, fun _ => .inr hfree, nofun⟩
    rw [ownerAfter, hcall]
    rfl
  have hold : s.langCall = none := by rw [GoState.langCall, hfree]; rfl
  have hlang : ({ s with langMtx := some t }.setCall t .joining).langCall = some .joining :=
    hmoves.lang_eq h.locks
  have htotal : ({ s with langMtx := some t }.setCall t .joining).totalCall = s.totalCall := by
    have htotal := hmoves.total_eq h.locks
    rw [hcall] at htotal
    exact htotal
  have hphase := h.phase
  have hbooks := h.books
  rw [hold] at hphase hbooks
  refine ⟨h.unharmed, hmoves.locks h.locks, h.short, ?_, ?_⟩
  · rw [hlang]
    show Phase names _ s.helper s.toHelper s.fromHelper
    generalize s.helper = helper, s.toHelper = pipe, s.fromHelper = back at hphase
    cases hphase with
    | free => exact .silent .joining
  · rw [hlang, htotal]
    exact hbooks.move rfl rfl rfl rfl rfl rfl rfl

/-- `total` is free, and the call takes it before it gives `lang_mtx` back. -/
theorem Inv.handOver {text : BString} {calls : MpackArgArray} (h : Inv lib num ft names s)
    (hcall : s.calls t = .parsed text calls) (hfree : s.total = none) :
    Inv lib num ft names ({ s.leave with total := some t }.setCall t (.calling text calls)) := by
  have hmoves : s.Moves ({ s.leave with total := some t }.setCall t (.calling text calls)) t
      (.calling text calls) := by
    refine ⟨rfl, ?_, rfl, nofun, fun _ => .inr hfree⟩
    rw [ownerAfter, hcall]
    rfl
  have hold : s.langCall = some (.parsed text calls) :=
    hcall ▸ h.locks.lang_eq (by rw [hcall]; rfl)
  have hnone : s.totalCall = none := by rw [GoState.totalCall, hfree]; rfl
  have hlang : ({ s.leave with total := some t }.setCall t (.calling text calls)).langCall =
      none := by
    have hlang := hmoves.lang_eq h.locks
    rw [hcall] at hlang
    exact hlang
  have htotal : ({ s.leave with total := some t }.setCall t (.calling text calls)).totalCall =
      some (.calling text calls) := hmoves.total_eq h.locks
  have hphase := h.phase
  have hbooks := h.books
  rw [hold] at hphase hbooks
  rw [hnone] at hbooks
  obtain ⟨-, hhelper, hpipe, hback⟩ := hphase.waits rfl
  refine ⟨h.unharmed, hmoves.locks h.locks, h.short, ?_, ?_⟩
  · rw [hlang]
    show Phase names none s.helper s.toHelper s.fromHelper
    rw [hhelper, hpipe, hback]
    exact .free
  · rw [hlang, htotal]
    exact hbooks.move rfl rfl rfl rfl rfl rfl rfl

/-- The request is handed over, and `total` is given back. -/
theorem Inv.send {text : BString} {calls : MpackArgArray} (h : Inv lib num ft names s)
    (hcall : s.calls t = .calling text calls) :
    Inv lib num ft names
      ({ s with handed := s.handed ++ [(text, calls)], total := none }.setCall t .idle) := by
  have hmoves : s.Moves
      ({ s with handed := s.handed ++ [(text, calls)], total := none }.setCall t .idle) t .idle := by
    refine ⟨rfl, ?_, ?_, nofun, nofun⟩
    · rw [ownerAfter, hcall]
      rfl
    · rw [ownerAfter, hcall]
      rfl
  have hold : s.totalCall = some (.calling text calls) :=
    hcall ▸ h.locks.total_eq (by rw [hcall]; rfl)
  have hlang := hmoves.lang_eq h.locks
  have htotal := hmoves.total_eq h.locks
  rw [hcall] at hlang htotal
  have hbooks := h.books
  rw [hold] at hbooks
  refine ⟨h.unharmed, hmoves.locks h.locks, h.short, ?_, ?_⟩
  · rw [hlang]
    exact h.phase
  · rw [hlang, htotal]
    have hlist : s.handed ++ [(text, calls)] ++ unhanded none ++ unhanded s.langCall =
        s.handed ++ unhanded (some (.calling text calls)) ++ unhanded s.langCall := by
      simp [unhanded]
    refine ⟨hbooks.asked, ?_, ?_, hbooks.num_eq, hbooks.ft_eq⟩
    · exact hbooks.marked.trans (congrArg (fun l => l.map Prod.fst ++ unparsed s.langCall) hlist.symm)
    · exact hlist ▸ hbooks.painted

theorem Inv.next (h : Inv lib num ft names s) (hs : s.next ndebug t = some s') :
    Inv lib num ft names s' := by
  unfold GoState.next at hs
  cases hcall : s.calls t with
  | idle => rw [hcall] at hs; cases hs
  | sending text rest => rw [hcall] at hs; cases hs
  | received text output => rw [hcall] at hs; cases hs
  | counted cntVal =>
      have hold : (s.calls t).hasLang = false ∧ (s.calls t).hasTotal = false := by
        rw [hcall]
        exact ⟨rfl, rfl⟩
      rw [hcall] at hs
      dsimp only at hs
      split at hs
      · obtain rfl := Option.some.inj hs
        exact h.quiet hold.1 hold.2 rfl rfl
      · obtain rfl := Option.some.inj hs
        exact h.quiet (n := s.numWorkers) hold.1 hold.2 rfl rfl
  | waiting =>
      rw [hcall] at hs
      obtain ⟨hfree, hs⟩ := Option.ite_none_right_eq_some.mp hs
      obtain rfl := Option.some.inj hs
      exact h.enter hcall hfree
  | joining =>
      rw [hcall] at hs
      obtain ⟨-, hs⟩ := Option.ite_none_right_eq_some.mp hs
      obtain rfl := Option.some.inj hs
      exact h.join hcall
  | header text =>
      rw [hcall] at hs
      obtain ⟨hne, hs⟩ := Option.ite_none_left_eq_some.mp hs
      obtain rfl := Option.some.inj hs
      exact h.readHeader hcall hne
  | body text num2read data slen =>
      rw [hcall] at hs
      obtain ⟨-, hs⟩ := Option.ite_none_left_eq_some.mp hs
      obtain rfl := Option.some.inj hs
      exact h.readBody hcall
  | parsed text calls =>
      rw [hcall] at hs
      obtain ⟨hfree, hs⟩ := Option.ite_none_right_eq_some.mp hs
      obtain rfl := Option.some.inj hs
      exact h.handOver hcall hfree
  | calling text calls =>
      rw [hcall] at hs
      obtain rfl := Option.some.inj hs
      exact h.send hcall

theorem Inv.write {k : Nat} (h : Inv lib num ft names s) (hs : s.write t k = some s') :
    Inv lib num ft names s' := by
  unfold GoState.write at hs
  split at hs
  next text' rest hcall =>
    obtain rfl := Option.some.inj hs
    have hold : (s.calls t).hasLang = true ∧ (s.calls t).hasTotal = false := by
      rw [hcall]
      exact ⟨rfl, rfl⟩
    have hlang : s.langCall = some (.sending text' rest) := hcall ▸ h.locks.lang_eq hold.1
    have hphase := h.phase
    have hbooks := h.books
    rw [hlang] at hphase hbooks
    obtain ⟨text, htalk⟩ := hphase.talks (List.cons_ne_nil _ _)
    obtain ⟨rfl, htalk'⟩ := htalk.write k
    have hcases : ∀ c, c = (if rest.drop (k + 1) = [] then HighlightCall.header text'
          else .sending text' (rest.drop (k + 1))) →
        c.hasLang = true ∧ c.hasTotal = false ∧ asking (some c) = [text'] ∧ unparsed (some c) = [] ∧
          unhanded (some c) = [] := by
      rintro c rfl
      split <;> exact ⟨rfl, rfl, rfl, rfl, rfl⟩
    obtain ⟨hc, hc', hasking, hunparsed, hunhanded⟩ := hcases _ rfl
    refine h.goOn rfl rfl rfl hold.1 hc hold.2 hc' h.unharmed h.short (.talk htalk') ?_
    exact hbooks.move rfl rfl rfl rfl hasking hunparsed (by rw [hunhanded]; rfl)
  next => cases hs

theorem Inv.parse (hlib : lib.Behaves)
    (hgroups : ∀ info ∈ ft.cmdInfo, info.group.length < 4294967295) {hlId : Int32} (hne : hlId ≠ 0)
    (h : Inv lib num ft names s) (hs : s.parse lib t hlId = some s') :
    Inv lib num ft names s' := by
  unfold GoState.parse at hs
  split at hs
  next text output hcall =>
    have hold : (s.calls t).hasLang = true ∧ (s.calls t).hasTotal = false := by
      rw [hcall]
      exact ⟨rfl, rfl⟩
    have hlang : s.langCall = some (.received text output) := hcall ▸ h.locks.lang_eq hold.1
    have hphase := h.phase
    have hbooks := h.books
    rw [hlang] at hphase hbooks
    obtain ⟨hsilent, hhelper, hpipe, hback⟩ := hphase.waits rfl
    obtain ⟨records, hnames, hrecords, rfl, hlen⟩ : Answer names text output := by
      cases hsilent with
      | received hanswer => exact hanswer
    obtain ⟨calls, hparse, hpaints⟩ := parseGoOutput_paints hlib hrecords s.bdata hlId
      (hbooks.ft_eq ▸ hgroups) (Nat.lt_of_succ_lt hlen)
    rw [hparse] at hs
    obtain rfl := Option.some.inj hs
    rw [hbooks.num_eq, hbooks.ft_eq] at hpaints
    have hid : (if s.bdata.hlId = 0 then hlId else s.bdata.hlId) ≠ 0 := by
      split
      · exact hne
      · assumption
    refine h.goOn rfl rfl rfl hold.1 rfl hold.2 rfl h.unharmed h.short ?_ ?_
    · show Phase names _ s.helper s.toHelper s.fromHelper
      rw [hhelper, hpipe, hback]
      exact .silent (.parsed text calls)
    · have hpainted := hbooks.painted
      have hmarked := hbooks.marked
      rw [show unhanded (some (.received text (records.flatMap Record.format))) = [] from rfl,
        List.append_nil] at hpainted hmarked
      refine ⟨hbooks.asked, ?_, hpainted.add hid (fun hkept => if_neg hkept) hnames hpaints,
        hbooks.num_eq, hbooks.ft_eq⟩
      show namedTexts s.exchanges =
        (s.handed ++ unhanded s.totalCall ++ [(text, calls)]).map Prod.fst ++ []
      rw [hmarked]
      simp [unparsed]
  next => cases hs

/-- The helper goes on, and the calls do not. -/
theorem Inv.helperMoved (h : Inv lib num ft names s)
    (hmoved : HelperMoved names s.langCall s s') : Inv lib num ft names s' := by
  obtain ⟨helper, pipe, back, rfl, hphase⟩ := hmoved
  exact ⟨h.unharmed, ⟨h.locks.lang, h.locks.total⟩, h.short, hphase,
    h.books.move rfl rfl rfl rfl rfl rfl rfl⟩

theorem inv_init (lib : Library) (ndebug : Bool) (num : Int32) (ft : Filetype)
    (names : BString → List Record → Prop) :
    Inv lib num ft names (goSession lib ndebug num ft).init where
  unharmed := rfl
  locks := ⟨fun t => by simp [goSession, HighlightCall.hasLang],
    fun t => by simp [goSession, HighlightCall.hasTotal]⟩
  short := by simp [goSession]
  phase := .free
  books := by
    refine ⟨rfl, rfl, ⟨iff_of_true rfl rfl, fun i text calls hi => ?_⟩, rfl, rfl⟩
    have hnil : ([] : List (BString × MpackArgArray))[i]? = some (text, calls) := hi
    cases hnil

/-- Every step keeps it. -/
theorem Inv.step (hlib : lib.Behaves)
    (hgroups : ∀ info ∈ ft.cmdInfo, info.group.length < 4294967295) {a : GoAction}
    (h : Inv lib num ft names s) (hfair : GoFair names s a)
    (hs : (goSession lib ndebug num ft).step s a = some s') : Inv lib num ft names s' := by
  cases a with
  | edit text =>
      obtain ⟨-, hs⟩ := Option.ite_none_right_eq_some.mp hs
      obtain rfl := Option.some.inj hs
      exact ⟨h.unharmed, ⟨h.locks.lang, h.locks.total⟩, hfair, h.phase,
        h.books.move rfl rfl rfl rfl rfl rfl rfl⟩
  | call t =>
      simp only [goSession, GoState.step, GoState.call] at hs
      split at hs
      next hcall =>
        obtain rfl := Option.some.inj hs
        have hold : (s.calls t).hasLang = false ∧ (s.calls t).hasTotal = false := by
          rw [hcall]
          exact ⟨rfl, rfl⟩
        exact h.quiet hold.1 hold.2 rfl rfl
      next => cases hs
  | next t => exact h.next hs
  | write t k => exact h.write hs
  | parse t hlId => exact h.parse hlib hgroups hfair hs
  | helper => exact h.helperMoved (h.phase.helperNext hs)
  | update output => exact h.helperMoved (h.phase.update hfair hs)
  | helperWrite k => exact h.helperMoved (h.phase.helperWrite hs)

/-- The texts of the requests are texts that were joined, in that order. -/
theorem Books.inOrder {lang : Option HighlightCall} (h : Books lib num ft names s lang total) :
    (s.handed.map Prod.fst).Sublist s.snapshots := by
  have hhanded : (s.handed.map Prod.fst).Sublist (namedTexts s.exchanges) := by
    rw [h.marked, List.map_append, List.map_append, List.append_assoc, List.append_assoc]
    exact List.sublist_append_left _ _
  have hnamed : (namedTexts s.exchanges).Sublist (s.exchanges.map Prod.fst) :=
    List.filter_sublist.map _
  rw [h.asked]
  exact (hhanded.trans hnamed).trans (List.sublist_append_left _ _)

theorem Inv.faithful (h : Inv lib num ft names s) : GoFaithful lib num ft names s where
  unharmed := h.unharmed
  inOrder := h.books.inOrder
  paints := by
    intro i text calls hi
    refine h.books.painted.paints i text calls ?_
    have hlt := (List.getElem?_eq_some_iff.mp hi).1
    rwa [List.append_assoc, List.getElem?_append_left hlt]
  settled := by
    intro hidle
    have hlang : s.langCall = none := by
      cases howner : s.langMtx with
      | none => rw [GoState.langCall, howner]; rfl
      | some t =>
          have ht := (h.locks.lang t).mpr howner
          rw [hidle t] at ht
          cases ht
    have htotal : s.totalCall = none := by
      cases howner : s.total with
      | none => rw [GoState.totalCall, howner]; rfl
      | some t =>
          have ht := (h.locks.total t).mpr howner
          rw [hidle t] at ht
          cases ht
    have hbooks := h.books
    rw [hlang, htotal] at hbooks
    refine ⟨hbooks.asked.trans (List.append_nil _), ?_⟩
    have hmarked := hbooks.marked
    simp only [unhanded, unparsed, List.append_nil] at hmarked
    exact hmarked.symm

end Books

/-- Functions are highlighted, and methods are not. -/
def functionsOnly : Filetype :=
  { order := bt "f", cmdInfo := [{ kind := 102, group := bt "Function" }], ignoredTags := none }

/-- A call up to the first read, with an answer. -/
def ask (t : Nat) (output : BString) : List GoAction :=
  [.call t, .next t, .next t, .next t, .write t 7, .helper, .helper, .write t 99, .helper, .helper,
    .update output, .helper, .next t]

/-- A call that gets two names, in pieces, and another one that gets none. -/
def twoRounds : List GoAction :=
  [.edit (bt "package main")] ++ ask 0 (twoRecords.flatMap Record.format) ++
    [.helperWrite 9, .next 0, .helperWrite 999, .next 0, .parse 0 7, .next 0, .next 0] ++
    ask 1 [] ++ [.next 1]

/-- Any text has the two names, or none. -/
def twoOrNone (_text : BString) (records : List Record) : Prop := records = twoRecords ∨ records = []

theorem twoRecords_legible : ∀ r ∈ twoRecords, r.Legible := by
  intro r hr
  refine ⟨twoRecords_proper r hr, ?_, ?_, ?_, ?_⟩ <;> revert r <;> decide

theorem answer_twoOrNone {records : List Record} (h : records = twoRecords ∨ records = [])
    (text : BString) : Answer twoOrNone text (records.flatMap Record.format) := by
  refine ⟨records, h, ?_, rfl, ?_⟩
  · rcases h with rfl | rfl
    · exact twoRecords_legible
    · exact nofun
  · rcases h with rfl | rfl <;> decide

theorem fair_twoRounds : ∀ a ∈ twoRounds, ∀ s, GoFair twoOrNone s a := by
  intro a ha s
  cases a with
  | edit text =>
      obtain rfl : text = bt "package main" := by simpa [twoRounds, ask] using ha
      exact (by decide : (bt "package main").length < 2 ^ 32)
  | parse t hlId =>
      obtain ⟨-, rfl⟩ : t = 0 ∧ hlId = 7 := by simpa [twoRounds, ask] using ha
      exact (by decide : (7 : Int32) ≠ 0)
  | update output =>
      have houtput : output = twoRecords.flatMap Record.format ∨ output = [] := by
        simpa [twoRounds, ask] using ha
      intro buf _
      rcases houtput with rfl | rfl
      · exact answer_twoOrNone (.inl rfl) buf
      · exact answer_twoOrNone (.inr rfl) buf
  | call t => trivial
  | next t => trivial
  | write t k => trivial
  | helper => trivial
  | helperWrite k => trivial

end TagHighlight.Golang
