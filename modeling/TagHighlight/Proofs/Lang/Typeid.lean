/-
The marks of a file of C or C++ stand where the names stand.

The switch is entered at most three times, and what it carries from one round to the next makes
no difference: `call_group` is set in passing only where the next round sets it again.  So the
class of a token is that of the cursor it leads to.  What is collected are the marks for the
tokens, and a token is cut out of the text where libclang has found it.

libclang is a parameter.  Of its cursors nothing is assumed: whatever it says of one, the class of
a token is a function of that.  Of its tokens it is assumed that they are in the text where it
says, or in another file; without this, `memcpy` could read behind the text, and no mark would
mean anything.
-/
import TagHighlight.Lang.Typeid
import TagHighlight.Proofs.Lang.LineRange
import TagHighlight.Proofs.Lang.Marks
import TagHighlight.Proofs.Lang.GoOutput

namespace TagHighlight.Typeid

open Atomic Golang LineRange

variable {Cursor Typ : Type} {lib : Libclang Cursor Typ} {id : FiletypeId}
  {tok : Token Cursor Typ} {last cursor : Cursor} {callGroup : Int32} {inTemplate : Bool} {k : Nat}

/-! ### The rounds of the switch

A cursor that refers to another one is followed, and the switch is entered again.  What a round
leaves for the next one is only looked at by a branch that has set it itself, so it is enough to
know the cursor.
-/

/-- What a round carries on: nothing, unless the next one is at a parameter of a template. -/
def Idle (lib : Libclang Cursor Typ) (cursor : Cursor) (callGroup : Int32) (inTemplate : Bool) :
    Prop :=
  callGroup = 0 ∧ inTemplate = false ∨ lib.cursorKind cursor = .nonTypeTemplateParameter

theorem switchKind_count (lib : Libclang Cursor Typ) (id : FiletypeId) (tok : Token Cursor Typ)
    (last : Cursor) (k : Nat) (cursor : Cursor) (callGroup : Int32) (inTemplate : Bool) :
    switchKind lib id tok last (k + 1) cursor callGroup inTemplate =
      switchKind lib id tok last 1 cursor callGroup inTemplate := by
  simp only [switchKind, Nat.succ_pos, gt_iff_lt, true_and]

/-- A cursor that refers on is followed. -/
theorem switchKind_retry (tok : Token Cursor Typ) (last : Cursor) {cursor' : Cursor}
    (hidle : Idle lib cursor callGroup inTemplate)
    (h : refersTo lib id cursor = some cursor') :
    ∃ callGroup' inTemplate',
      switchKind lib id tok last 1 cursor callGroup inTemplate =
        .retry cursor' callGroup' inTemplate' ∧ Idle lib cursor' callGroup' inTemplate' := by
  have hsame : lib.cursorKind cursor ≠ .nonTypeTemplateParameter → Idle lib cursor' callGroup
      inTemplate := by
    intro hne
    rcases hidle with hidle | hkind
    · exact .inl hidle
    · exact absurd hkind hne
  unfold refersTo at h
  split at h
  case h_1 hkind =>
    rw [Option.ite_none_right_eq_some] at h
    obtain ⟨⟨rfl, hfound, htype⟩, href⟩ := h
    cases href
    by_cases hparam : lib.cursorKind (lib.referenced cursor) = .nonTypeTemplateParameter
    · refine ⟨extensionTemplateNontypeParam, true, ?_, .inr hparam⟩
      simp only [switchKind, hkind, hparam, if_true]
    · refine ⟨callGroup, inTemplate, ?_, hsame (by simp [hkind])⟩
      simp only [switchKind, hkind, if_true]
  case h_2 hkind | h_3 hkind =>
    rw [Option.ite_none_right_eq_some] at h
    obtain ⟨rfl, href⟩ := h
    cases href
    exact ⟨callGroup, inTemplate, by simp [switchKind, hkind], hsame (by simp [hkind])⟩
  case h_4 hkind =>
    cases h
    exact ⟨callGroup, inTemplate, by simp [switchKind, hkind], hsame (by simp [hkind])⟩
  case h_5 => cases h

/-- At any other cursor the switch is left. -/
theorem switchKind_leave (tok : Token Cursor Typ) (last : Cursor) (callGroup : Int32)
    (inTemplate : Bool) (h : refersTo lib id cursor = none) :
    ∃ callGroup', switchKind lib id tok last 1 cursor callGroup inTemplate = .leave callGroup' := by
  unfold refersTo at h
  unfold switchKind
  cases hkind : lib.cursorKind cursor <;> simp only [hkind] at h ⊢
  case typeRef =>
    split
    · rename_i hcxx
      split
      · exact ⟨_, rfl⟩
      · exact ⟨_, rfl⟩
      · rename_i hparam
        simp [hcxx, hparam] at h
      · rename_i hfound htype _
        exact absurd h (by rw [if_pos ⟨hcxx, hfound, htype⟩]; exact Option.some_ne_none _)
    · exact ⟨_, rfl⟩
  case memberRef | memberRefExpr =>
    split
    · rename_i hcxx
      simp [hcxx] at h
    · exact ⟨_, rfl⟩
  case compoundStmt => cases h
  case nonTypeTemplateParameter =>
    split
    · split <;> exact ⟨_, rfl⟩
    · exact ⟨_, rfl⟩
  case declRefExpr => split <;> exact ⟨_, rfl⟩
  all_goals first | exact ⟨_, rfl⟩ | (split <;> exact ⟨_, rfl⟩)

theorem switchKind_class (hidle : Idle lib cursor callGroup inTemplate)
    (h : refersTo lib id cursor = none) :
    switchKind lib id tok last 1 cursor callGroup inTemplate =
      .leave (classAt lib id tok last cursor) := by
  have hzero : switchKind lib id tok last 1 cursor callGroup inTemplate =
      switchKind lib id tok last 1 cursor 0 false := by
    rcases hidle with ⟨rfl, rfl⟩ | hkind
    · rfl
    · simp only [switchKind, hkind]
  obtain ⟨group, hgroup⟩ := switchKind_leave tok last 0 false h
  rw [hzero, classAt, hgroup]

/-- **A token has the class of the cursor it leads to**, and none if that takes three looks. -/
theorem retry_eq (lib : Libclang Cursor Typ) (id : FiletypeId) (tok : Token Cursor Typ)
    (last : Cursor) :
    retry lib id tok last 0 tok.cursor 0 false =
      ((settle lib id 3 tok.cursor).1,
        if (settle lib id 3 tok.cursor).2 then
          some (classAt lib id tok last (settle lib id 3 tok.cursor).1)
        else none) := by
  suffices h : ∀ n k cursor callGroup inTemplate, k + n = 3 → Idle lib cursor callGroup inTemplate →
      retry lib id tok last k cursor callGroup inTemplate =
        ((settle lib id n cursor).1,
          if (settle lib id n cursor).2 then
            some (classAt lib id tok last (settle lib id n cursor).1)
          else none) from
    h 3 0 tok.cursor 0 false rfl (.inl ⟨rfl, rfl⟩)
  intro n
  induction n with
  | zero =>
      intro k cursor callGroup inTemplate hk _
      rw [retry, if_pos (by omega)]
      rfl
  | succ n ih =>
      intro k cursor callGroup inTemplate hk hidle
      rw [retry, if_neg (by omega), switchKind_count, settle]
      cases href : refersTo lib id cursor with
      | none =>
          rw [switchKind_class hidle href]
          rfl
      | some cursor' =>
          obtain ⟨callGroup', inTemplate', hretry, hidle'⟩ :=
            switchKind_retry tok last hidle href
          rw [hretry]
          exact ih (k + 1) cursor' callGroup' inTemplate' (by omega) hidle'

/-! ### What is collected -/

variable (strings : Library) (bdata : Buffer)

/-- The call for a token is the one for its mark. -/
theorem doTypeswitch_eq (lib : Libclang Cursor Typ) (calls : MpackArgArray)
    (tok : Token Cursor Typ) (last : Cursor) :
    doTypeswitch lib strings bdata calls tok last =
      (fun calls => ((settle lib bdata.id 3 tok.cursor).1, calls)) <$>
        ((tok.mark lib strings bdata.id bdata.ft last).toList.map
          (Mark.op bdata.num bdata.hlId)).foldlM Op.add calls := by
  rw [doTypeswitch, retry_eq]
  unfold Token.mark
  cases hsettled : (settle lib bdata.id 3 tok.cursor).2 with
  | false =>
      have hclass : classOf lib bdata.id tok last = 0 := by
        rw [classOf, hsettled, if_neg Bool.false_ne_true]
      rw [if_neg Bool.false_ne_true, if_pos hclass]
      rfl
  | true =>
      have hclass : classOf lib bdata.id tok last =
          classAt lib bdata.id tok last (settle lib bdata.id 3 tok.cursor).1 := by
        rw [classOf, hsettled, if_pos rfl]
      rw [if_pos rfl, hclass]
      dsimp only
      by_cases hzero : classAt lib bdata.id tok last (settle lib bdata.id 3 tok.cursor).1 = 0
      · rw [if_pos hzero, if_pos hzero]
        rfl
      · rw [if_neg hzero, if_neg hzero]
        cases findGroup strings bdata.ft
          (classAt lib bdata.id tok last (settle lib bdata.id 3 tok.cursor).1) with
        | none => rfl
        | some group =>
            simp only [Option.map_some, Option.toList_some, List.map_cons, List.map_nil,
              List.foldlM_cons, List.foldlM_nil, Mark.op, Op.add, UInt32.ofNat_toNat, bind_pure]
            rw [map_eq_pure_bind]
            exact bind_congr fun calls' => rfl

variable {tags : List BString}

theorem tokInSkipList_eq (htags : bdata.ft.ignoredTags = some tags) (tok : Token Cursor Typ) :
    tokInSkipList strings bdata tok = .ok (strings.bsearch tags tok.text) := by
  rw [tokInSkipList, htags]

theorem typeswitches_eq (lib : Libclang Cursor Typ) (htags : bdata.ft.ignoredTags = some tags)
    (toks : List (Token Cursor Typ)) (last : Cursor) (calls : MpackArgArray) :
    typeswitches lib strings bdata toks last calls =
      ((tokenMarks lib strings bdata.id bdata.ft (toks.filter (Token.Wanted strings tags ·)) last).map
        (Mark.op bdata.num bdata.hlId)).foldlM Op.add calls := by
  induction toks generalizing last calls with
  | nil => rfl
  | cons tok toks ih =>
      rw [typeswitches]
      by_cases hline : tok.line.toInt32 = -1
      · rw [if_pos hline, List.filter_cons_of_neg (by simp [Token.Wanted, hline])]
        exact ih last calls
      · rw [if_neg hline, tokInSkipList_eq strings bdata htags, Fault.ok_bind]
        cases hskip : strings.bsearch tags tok.text with
        | true =>
            rw [List.filter_cons_of_neg (by simp [Token.Wanted, hskip])]
            exact ih last calls
        | false =>
            rw [List.filter_cons_of_pos (by simp [Token.Wanted, hline, hskip]), tokenMarks,
              List.map_append, List.foldlM_append]
            rw [if_neg Bool.false_ne_true, doTypeswitch_eq, map_eq_pure_bind, bind_assoc]
            simp only [pure_bind]
            exact bind_congr fun calls' => ih (settle lib bdata.id 3 tok.cursor).1 calls'

/-- What `create_nvim_calls` collects. -/
theorem createNvimCalls_eq (lib : Libclang Cursor Typ) (hlId : Int32)
    (htags : bdata.ft.ignoredTags = some tags) (toks : List (Token Cursor Typ)) :
    createNvimCalls lib strings bdata hlId toks =
      (markOps bdata.num (if bdata.hlId = 0 then hlId else bdata.hlId) (bdata.hlId ≠ 0)
        (tokenMarks lib strings bdata.id bdata.ft (toks.filter (Token.Wanted strings tags ·))
          lib.nullCursor)).foldlM Op.add newArgArray := by
  rw [createNvimCalls, markOps]
  by_cases hid : bdata.hlId = 0
  · rw [if_pos hid, if_pos hid, typeswitches_eq strings { bdata with hlId := hlId } lib htags]
    simp only [hid, ne_eq, not_true_eq_false, decide_false, Bool.false_eq_true, if_false,
      List.nil_append]
  · rw [if_neg hid, if_neg hid]
    simp only [typeswitches_eq strings bdata lib htags, ne_eq, hid, not_false_eq_true, decide_true,
      if_true, List.singleton_append, List.foldlM_cons]
    rfl

theorem typeswitches_fault (lib : Libclang Cursor Typ) (htags : bdata.ft.ignoredTags = none)
    (toks : List (Token Cursor Typ)) (last : Cursor) (calls : MpackArgArray) :
    typeswitches lib strings bdata toks last calls = .error .undefined ↔
      ∃ tok ∈ toks, tok.line.toInt32 ≠ -1 := by
  induction toks with
  | nil => simp [typeswitches]
  | cons tok toks ih =>
      rw [typeswitches]
      simp only [List.mem_cons, exists_eq_or_imp]
      by_cases hline : tok.line.toInt32 = -1
      · rw [if_pos hline, ih]
        exact ⟨.inr, fun h => h.resolve_left (not_not_intro hline)⟩
      · have hlist : tokInSkipList strings bdata tok = .error .undefined := by
          rw [tokInSkipList, htags]
        rw [if_neg hline, hlist]
        exact iff_of_true rfl (.inl hline)

theorem typeswitches_elsewhere (lib : Libclang Cursor Typ) {toks : List (Token Cursor Typ)}
    (h : ∀ tok ∈ toks, tok.line.toInt32 = -1) (last : Cursor) (calls : MpackArgArray) :
    typeswitches lib strings bdata toks last calls = .ok calls := by
  induction toks with
  | nil => rfl
  | cons tok toks ih =>
      rw [typeswitches, if_pos (h tok List.mem_cons_self)]
      exact ih fun tok' htok' => h tok' (List.mem_cons_of_mem _ htok')

/-- The buffer is cleared, if it was marked, and then the tokens are looked at. -/
theorem createNvimCalls_loop (lib : Libclang Cursor Typ) (hlId : Int32)
    (toks : List (Token Cursor Typ)) : ∃ bdata' calls, bdata'.ft = bdata.ft ∧
      createNvimCalls lib strings bdata hlId toks =
        typeswitches lib strings bdata' toks lib.nullCursor calls := by
  rw [createNvimCalls]
  split
  · exact ⟨{ bdata with hlId := hlId }, newArgArray, rfl, rfl⟩
  · have hone : [Op.addClr bdata.num bdata.hlId 0 (-1)].length < 2 ^ 31 := by
      rw [List.length_singleton]
      decide
    obtain ⟨calls, hclear, -⟩ := collect hone
    rw [List.foldlM_cons] at hclear
    obtain ⟨calls', hadd, -⟩ := Fault.bind_eq_ok.mp hclear
    rw [show addClrCall newArgArray bdata.num bdata.hlId 0 (-1) = .ok calls' from hadd,
      Fault.ok_bind]
    exact ⟨bdata, calls', rfl, rfl⟩

/-- **Without a list of ignored tags, the first token of the file is the end.** -/
theorem createNvimCalls_fault (lib : Libclang Cursor Typ) (hlId : Int32)
    (htags : bdata.ft.ignoredTags = none) (toks : List (Token Cursor Typ)) :
    createNvimCalls lib strings bdata hlId toks = .error .undefined ↔
      ∃ tok ∈ toks, tok.line.toInt32 ≠ -1 := by
  obtain ⟨bdata', calls, hft, hloop⟩ := createNvimCalls_loop strings bdata lib hlId toks
  rw [hloop]
  exact typeswitches_fault strings bdata' lib (by rw [hft, htags]) toks _ _

/-- If there is none in the file, the list is not looked at. -/
theorem createNvimCalls_elsewhere (lib : Libclang Cursor Typ) (hlId : Int32)
    {toks : List (Token Cursor Typ)} (h : ∀ tok ∈ toks, tok.line.toInt32 = -1) :
    ∃ calls, createNvimCalls lib strings bdata hlId toks = .ok calls := by
  obtain ⟨bdata', calls, -, hloop⟩ := createNvimCalls_loop strings bdata lib hlId toks
  rw [hloop, typeswitches_elsewhere strings bdata' lib h]
  exact ⟨calls, rfl⟩

/-! ### Tokens of the text

libclang gives a token with its offsets, lines and columns.  If they are those of a stretch of the
text on one line, then the bytes that are copied are the name, and the columns are where it
stands.
-/

variable {lines : List BString} {t : CXToken} {row col : Nat}

/-- A stretch of a line, found by its offset in the text. -/
theorem slice_textOf {line : BString} (hline : lines[row]? = some line) {start len : Nat}
    (hlen : start + len ≤ line.length) :
    ((textOf lines ++ [0]).drop ((textOf (lines.take row)).length + start)).take len =
      (line.drop start).take len := by
  obtain ⟨hrow, rfl⟩ := List.getElem?_eq_some_iff.mp hline
  have hsplit : textOf lines =
      textOf (lines.take row) ++ (lines[row] ++ Ascii.newline :: textOf (lines.drop (row + 1))) := by
    rw [textOf_split lines row, List.drop_eq_getElem_cons hrow, textOf_cons]
  rw [hsplit, List.append_assoc, List.drop_length_add_append, List.append_assoc,
    List.drop_append_of_le_length (by omega),
    List.take_append_of_le_length (by rw [List.length_drop]; omega)]

theorem Location.IsAt.offset_le {loc : Location} (h : loc.IsAt lines row col) :
    loc.offset.toNat ≤ (textOf lines).length := by
  obtain ⟨line, hline, hcol⟩ := h.inside
  obtain ⟨hrow, rfl⟩ := List.getElem?_eq_some_iff.mp hline
  rw [h.offset, textOf_split lines row, List.drop_eq_getElem_cons hrow, List.length_append,
    length_textOf_cons]
  omega

/-- Two places of a token on one line. -/
theorem CXToken.InText.sameRow (h : t.InText lines) (hsame : t.start.line = t.stop.line) :
    ∃ row start stop, t.start.IsAt lines row start ∧ t.stop.IsAt lines row stop ∧
      start ≤ stop := by
  obtain ⟨row, start, hstart⟩ := h.start
  obtain ⟨row', stop, hstop⟩ := h.stop
  have hrow : row' = row := by
    have hlines := congrArg UInt32.toNat hsame
    rw [hstart.line, hstop.line] at hlines
    omega
  subst hrow
  refine ⟨row', start, stop, hstart, hstop, ?_⟩
  have hle := UInt32.le_iff_toNat_le.mp h.le
  rw [hstart.offset, hstop.offset] at hle
  omega

/-- The number before a positive one. -/
theorem toNat_pred {n : UInt32} {m : Nat} (h : n.toNat = m + 1) : (n - 1).toNat = m := by
  rw [UInt32.toNat_sub_of_le _ _ (UInt32.le_iff_toNat_le.mpr (by rw [h]; simp)), h]
  simp

/-- What is copied for a token. -/
theorem copyFrom_text {line : BString} (hline : lines[row]? = some line) {start stop : Nat}
    (hstart : t.start.IsAt lines row start) (hstop : t.stop.IsAt lines row stop)
    (hle : start ≤ stop) (hstopLe : stop ≤ line.length) :
    copyFrom (textOf lines) t.start.offset (t.stop.offset - t.start.offset) =
      .ok ((line.drop start).take (stop - start)) := by
  have hlen : (t.stop.offset - t.start.offset).toNat = stop - start := by
    have hoffsets : t.start.offset ≤ t.stop.offset := by
      rw [UInt32.le_iff_toNat_le, hstart.offset, hstop.offset]
      omega
    rw [UInt32.toNat_sub_of_le _ _ hoffsets, hstart.offset, hstop.offset]
    omega
  have hend := hstop.offset_le
  rw [hstop.offset] at hend
  rw [copyFrom, hlen, hstart.offset, if_pos (by omega), slice_textOf hline (by omega)]

/-- A token that libclang has found can be cut out. -/
theorem getTokenData_cut (lib : Libclang Cursor Typ) {t : CXToken × Cursor}
    (hfound : t.1.InText lines ∨ t.1.Elsewhere) (hchosen : Chosen lib id t) :
    ∃ tok, getTokenData lib id (textOf lines) t.1 t.2 = .ok (some tok) ∧ CutFrom lib lines t tok := by
  have hnot : t.1.Elsewhere → ¬t.1.InText lines := by
    intro helse hin
    obtain ⟨row, col, hstart⟩ := hin.start
    have hline := hstart.line
    rw [helse.1] at hline
    exact absurd hline (by simp [Location.null])
  rw [getTokenData, if_pos (show _ ∧ _ from hchosen)]
  rcases hfound with hin | helse
  · obtain ⟨row, start, stop, hstart, hstop, hle⟩ := hin.sameRow hchosen.2
    obtain ⟨line, hline, hstopLe⟩ := hstop.inside
    dsimp only
    rw [copyFrom_text hline hstart hstop hle hstopLe]
    refine ⟨_, rfl, rfl, rfl, rfl, fun helse => absurd hin (hnot helse), fun _ => ?_⟩
    rw [toNat_pred hstart.line, toNat_pred hstart.column, toNat_pred hstop.column]
    exact ⟨line, hline, hstart, hstop, hle, rfl⟩
  · dsimp only
    rw [helse.1, helse.2]
    exact ⟨_, rfl, rfl, rfl, rfl, fun _ => rfl, fun hin => absurd hin (hnot helse)⟩

/-- So all that are chosen are. -/
theorem getTokens_cut (lib : Libclang Cursor Typ) (id : FiletypeId) {ts : List (CXToken × Cursor)}
    (hfound : ∀ t ∈ ts, t.1.InText lines ∨ t.1.Elsewhere) :
    ∃ toks, getTokens lib id (textOf lines) ts = .ok toks ∧
      List.Forall₂ (CutFrom lib lines) (ts.filter (Chosen lib id ·)) toks := by
  induction ts with
  | nil => exact ⟨[], rfl, .nil⟩
  | cons t ts ih =>
      obtain ⟨toks, hrest, hcut⟩ := ih fun t' ht' => hfound t' (List.mem_cons_of_mem _ ht')
      obtain ⟨t, cursor⟩ := t
      by_cases hchosen : Chosen lib id (t, cursor)
      · obtain ⟨tok, hdata, htok⟩ := getTokenData_cut lib (hfound _ List.mem_cons_self) hchosen
        refine ⟨tok :: toks, ?_, ?_⟩
        · rw [getTokens, hdata, Fault.ok_bind, hrest]
          rfl
        · rw [List.filter_cons_of_pos (by simpa using hchosen)]
          exact .cons htok hcut
      · refine ⟨toks, ?_, ?_⟩
        · have hnone : getTokenData lib id (textOf lines) t cursor = .ok none := if_neg hchosen
          rw [getTokens, hnone, Fault.ok_bind]
          exact hrest
        · rw [List.filter_cons_of_neg (by simpa using hchosen)]
          exact hcut

/-! ### From the text to Neovim

The marks are those of the tokens that are left, each at its place in the text.  Their numbers are
no larger than the length of the text, so they are sent as they are.
-/

variable {strings : Library} {ft : Filetype} {tags : List BString} {m : Mark}

theorem mem_tokenMarks {toks : List (Token Cursor Typ)} {last : Cursor}
    (hm : m ∈ tokenMarks lib strings id ft toks last) :
    ∃ tok ∈ toks, ∃ last, tok.mark lib strings id ft last = some m := by
  induction toks generalizing last with
  | nil => cases hm
  | cons tok toks ih =>
      rcases List.mem_append.mp hm with hhere | hlater
      · exact ⟨tok, List.mem_cons_self, last, Option.mem_toList.mp hhere⟩
      · obtain ⟨tok', htok', hmark⟩ := ih hlater
        exact ⟨tok', List.mem_cons_of_mem _ htok', hmark⟩

theorem length_tokenMarks (lib : Libclang Cursor Typ) (strings : Library) (id : FiletypeId)
    (ft : Filetype) (toks : List (Token Cursor Typ)) (last : Cursor) :
    (tokenMarks lib strings id ft toks last).length ≤ toks.length := by
  induction toks generalizing last with
  | nil => exact Nat.le_refl 0
  | cons tok toks ih =>
      have hone : (tok.mark lib strings id ft last).toList.length ≤ 1 := by
        cases tok.mark lib strings id ft last <;> simp
      have hrest := ih (settle lib id 3 tok.cursor).1
      rw [tokenMarks, List.length_append, List.length_cons]
      omega

/-- A mark is where its token is. -/
theorem Token.mark_place {tok : Token Cursor Typ}
    (hm : tok.mark lib strings id ft last = some m) :
    m.line = tok.line.toNat ∧ m.start = tok.col1.toNat ∧ m.stop = tok.col2.toNat ∧
      ∃ info ∈ ft.cmdInfo, info.group = m.group := by
  unfold Token.mark at hm
  split at hm
  · cases hm
  · obtain ⟨group, hgroup, rfl⟩ := Option.map_eq_some_iff.mp hm
    exact ⟨rfl, rfl, rfl, findGroup_mem hgroup⟩

theorem length_le_textOf (lines : List BString) : lines.length ≤ (textOf lines).length := by
  induction lines with
  | nil => exact Nat.le_refl 0
  | cons line lines ih =>
      rw [length_textOf_cons, List.length_cons]
      omega

theorem Location.IsAt.lt {loc : Location} (h : loc.IsAt lines row col) {n : Nat}
    (htext : (textOf lines).length < n) : row < n ∧ col < n := by
  have hoffset := h.offset_le
  rw [h.offset] at hoffset
  obtain ⟨line, hline, -⟩ := h.inside
  have hrows := length_le_textOf lines
  have hrow := (List.getElem?_eq_some_iff.mp hline).1
  exact ⟨by omega, by omega⟩

theorem exists_of_forall₂ {ts : List (CXToken × Cursor)} {toks : List (Token Cursor Typ)}
    (h : List.Forall₂ (CutFrom lib lines) ts toks) (htok : tok ∈ toks) :
    ∃ t ∈ ts, CutFrom lib lines t tok := by
  induction h with
  | nil => cases htok
  | cons hcut _ ih =>
      rcases List.mem_cons.mp htok with rfl | hlater
      · exact ⟨_, List.mem_cons_self, hcut⟩
      · obtain ⟨t, ht, hcut'⟩ := ih hlater
        exact ⟨t, List.mem_cons_of_mem _ ht, hcut'⟩

/-- The marks are on names of the text, and their numbers are those of an `int`. -/
theorem tokenMarks_covers {ts : List (CXToken × Cursor)} {toks : List (Token Cursor Typ)}
    (hcut : List.Forall₂ (CutFrom lib lines) ts toks)
    (hfound : ∀ t ∈ ts, t.1.InText lines ∨ t.1.Elsewhere)
    (htext : (textOf lines).length < 2 ^ 31)
    (hgroups : ∀ info ∈ ft.cmdInfo, info.group.length < 4294967295)
    (hm : m ∈ tokenMarks lib strings id ft (toks.filter (Token.Wanted strings tags ·)) last) :
    Covers strings tags lines m ∧ m.Fits := by
  obtain ⟨tok, htok, last', hmark⟩ := mem_tokenMarks hm
  obtain ⟨htok, hwanted⟩ := List.mem_filter.mp htok
  obtain ⟨hline, hskip⟩ := of_decide_eq_true hwanted
  obtain ⟨t, ht, hcut⟩ := exists_of_forall₂ hcut htok
  have hin : t.1.InText lines := by
    rcases hfound t ht with hin | helse
    · exact hin
    · exact absurd (hcut.elsewhere helse) hline
  obtain ⟨line, hget, hstart, hstop, hle, htextEq⟩ := hcut.text hin
  obtain ⟨hrow, hcol, hend, info, hinfo, hgroup⟩ := Token.mark_place hmark
  obtain ⟨line', hget', hstopLe⟩ := hstop.inside
  obtain rfl : line' = line := Option.some.inj (hget'.symm.trans hget)
  constructor
  · refine ⟨line', ?_, ?_, ?_, ?_⟩
    · rw [hrow, hget]
    · rwa [hcol, hend]
    · rwa [hend]
    · rw [hcol, hend, ← htextEq, hskip]
  · constructor
    · rw [← hgroup]
      exact hgroups info hinfo
    · rw [hrow]
      exact (hstart.lt htext).1
    · rw [hcol]
      exact (hstart.lt htext).2
    · rw [hend]
      exact (hstop.lt htext).2

theorem startend_eq {list : LinkedList BString} (hlines : Represents list lines)
    (htext : (textOf lines).length < 2 ^ 32) {first last : Int}
    (hrange : last = -1 ∨ 0 ≤ first ∧ first ≤ last ∧ last < intMax) :
    startend (textOf lines) list first last =
      .ok (((byteRange lines first last).1 : Int), ((byteRange lines first last).2 : Int)) := by
  rw [startend, byteRange]
  rcases hrange with rfl | ⟨hfirst, hle, hlast⟩
  · rfl
  · have hne : last ≠ -1 := by omega
    obtain ⟨f, rfl⟩ := Int.eq_ofNat_of_zero_le hfirst
    obtain ⟨l, rfl⟩ := Int.eq_ofNat_of_zero_le (Int.le_trans hfirst hle)
    rw [if_neg hne, if_neg hne]
    exact lines2bytes_spec hlines (Int.ofNat_le.mp hle) htext (.inl hlast)

/-- The lines `ab` and `c` with a token on each; a cursor is its own kind. -/
def twoNames : Libclang CursorKind TypeKind where
  tokenize := fun _ _ =>
    [({ kind := .identifier, start := ⟨1, 1, 0⟩, stop := ⟨1, 3, 2⟩ }, .structDecl),
      ({ kind := .identifier, start := ⟨2, 1, 3⟩, stop := ⟨2, 2, 4⟩ }, .functionDecl)]
  nullCursor := .other
  cursorKind := fun kind => kind
  cursorType := fun _ => .other
  typeKind := fun kind => kind
  typeDeclaration := fun _ => .other
  referenced := fun cursor => cursor
  definition := fun cursor => cursor
  equalCursors := fun a b => a = b
  spelling := fun _ => []
  displayName := fun _ => []

/-- A buffer in which `c` is ignored. -/
def structsBuffer : Buffer where
  num := 3
  hlId := 7
  id := .c
  ft := { order := bt "sf", cmdInfo := [{ kind := 115, group := bt "Structure" }],
          ignoredTags := some [bt "c"] }

theorem twoNames_found : ∀ t ∈ twoNames.tokenize 0 5,
    t.1.InText [[97, 98], [99]] ∨ t.1.Elsewhere := by
  intro t ht
  have isAt : ∀ {row col : Nat} {loc : Location} (line : BString),
      [[97, 98], [99]][row]? = some line ∧ col ≤ line.length ∧ loc.line.toNat = row + 1 ∧
        loc.column.toNat = col + 1 ∧
        loc.offset.toNat = (textOf ([[97, 98], [99]].take row)).length + col →
      loc.IsAt [[97, 98], [99]] row col := fun line h =>
    ⟨⟨line, h.1, h.2.1⟩, h.2.2.1, h.2.2.2.1, h.2.2.2.2⟩
  rcases List.mem_cons.mp ht with rfl | ht
  · exact .inl ⟨⟨0, 0, isAt [97, 98] (by decide)⟩, ⟨0, 2, isAt [97, 98] (by decide)⟩, by decide⟩
  · obtain rfl := List.mem_singleton.mp ht
    exact .inl ⟨⟨1, 0, isAt [99] (by decide)⟩, ⟨1, 1, isAt [99] (by decide)⟩, by decide⟩

/-- The structure has a group; what a function is called has none. -/
example : tokenMarks twoNames plainLibrary structsBuffer.id structsBuffer.ft
    ([(.structDecl, bt "ab"), (.functionDecl, bt "f")].map fun (kind, text) =>
      { cursor := kind, cursortype := .other, tokenkind := .identifier, line := 0, col1 := 0,
        col2 := 2, offset := 0, len := 2, text }) .other =
    [{ group := bt "Structure", line := 0, start := 0, stop := 2 }] := by decide

end TagHighlight.Typeid
