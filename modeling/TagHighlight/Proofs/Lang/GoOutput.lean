/-
Records that are written and read back.

`sscanf` gets back every field of a record whose name fits the array.  The array always has a
NUL in it, and an identifier has none.  So no identifier of 1024 bytes or more is ever read:
either the NUL is taken for a part of it, or it has been cut.  That is all that can go wrong:
what a line leaves behind in the structure is overwritten by the next, except for the name where
the next has none, and then its length is zero.

The lines are sorted before they are read, so the records come back in another order than they
were written in, and the calls for them as well.  Which order that is depends on the library; that
no record is lost or made up does not.
-/
import TagHighlight.Lang.GoOutput
import TagHighlight.Proofs.Lang.Golang
import Mathlib.Data.List.Perm.Basic

namespace TagHighlight.Golang

open Ascii Atomic
open Readers (isSpace)

/-! ### The text of a record -/

/-- A record without its newline. -/
def Record.text (r : Record) : BString :=
  r.kind :: tab :: (decimal r.startLine ++ tab :: (decimal r.startColumn ++
    tab :: (decimal r.endLine ++ tab :: (decimal r.endColumn ++
      tab :: (decimal r.name.length ++ tab :: r.name)))))

theorem format_eq_text (r : Record) : r.format = r.text ++ [newline] := by
  simp [Record.format, Record.text]

theorem mem_text {r : Record} {b : UInt8} (hb : b ∈ r.text) :
    b = r.kind ∨ b = tab ∨ isDigit b = true ∨ b ∈ r.name := by
  have hdigit : ∀ n, b ∈ decimal n → isDigit b = true := fun n => isDigit_of_mem_decimal
  simp only [Record.text, List.mem_cons, List.mem_append] at hb
  grind

theorem ne_of_isAlpha {b : UInt8} (h : isAlpha b = true) : b ≠ 0 ∧ b ≠ newline ∧ b ≠ 13 := by
  refine ⟨?_, ?_, ?_⟩
  all_goals
    rintro rfl
    exact absurd h (by decide)

theorem ne_of_isDigit {b : UInt8} (h : isDigit b = true) : b ≠ 0 ∧ b ≠ newline ∧ b ≠ 13 := by
  refine ⟨?_, ?_, ?_⟩
  all_goals
    rintro rfl
    exact absurd h (by decide)

/-- A record has no byte that ends a string or a line. -/
theorem Record.Proper.text_clean {r : Record} (hr : r.Proper) {b : UInt8} (hb : b ∈ r.text) :
    b ≠ 0 ∧ b ≠ newline ∧ b ≠ 13 := by
  rcases mem_text hb with hkind | htab | hdigit | hname
  · rw [hkind]
    exact ne_of_isAlpha hr.kind
  · rw [htab]
    decide
  · exact ne_of_isDigit hdigit
  · obtain ⟨hspace, hnul⟩ := hr.name b hname
    refine ⟨hnul, ?_, ?_⟩
    all_goals
      rintro rfl
      exact absurd hspace (by decide)

theorem dropReturn_text {r : Record} (hr : r.Proper) : dropReturn r.text = r.text := by
  unfold dropReturn
  rw [if_neg]
  intro hlast
  exact (hr.text_clean (List.mem_of_getLast? hlast)).2.2 rfl

/-- The lines are those of the records, in some order. -/
theorem separateAndSort_perm {lib : Library} (hlib : lib.Behaves) {records : List Record}
    (hrecords : ∀ r ∈ records, r.Proper) :
    ∃ rs : List Record, separateAndSort lib (records.flatMap Record.format) = rs.map Record.text ∧
      rs.Perm records := by
  have hlines : Delimited.tokens lib.memsep newline (records.flatMap Record.format) =
      records.map Record.text := by
    have hterminated : records.flatMap Record.format =
        (records.map Record.text).flatMap fun tok => tok ++ [newline] := by
      rw [List.flatMap_map]
      exact List.flatMap_congr fun r _ => format_eq_text r
    rw [hterminated]
    apply Delimited.tokens_terminated hlib.splits
    intro tok htok
    obtain ⟨r, hr, rfl⟩ := List.mem_map.mp htok
    intro hmem
    exact ((hrecords r hr).text_clean hmem).2.1 rfl
  have hdrop : (records.map Record.text).map dropReturn = records.map Record.text := by
    rw [List.map_map]
    exact List.map_congr_left fun r hr => dropReturn_text (hrecords r hr)
  obtain ⟨rs, hrs, hsame⟩ := (congrFun₂ (List.eq_map_comp_perm Record.text) _ _).mpr
    (hlib.perm (records.map Record.text))
  refine ⟨rs, ?_, hsame⟩
  unfold separateAndSort
  rw [hlines, hdrop]
  exact hrs

/-! ### One line

`sscanf` reads the fields one after the other.  The numbers come back as they are if they fit 32
bits.  The name is copied to the array up to its width, with a NUL behind it, and the length is a
field of its own.
-/

theorem isSpace_of_isDigit {b : UInt8} (h : isDigit b = true) : isSpace b = false := by
  simp only [isDigit, isSpace, Bool.and_eq_true, decide_eq_true_eq] at h ⊢
  grind

/-- What `%u` makes of a number that fits. -/
theorem scanUnsigned_decimal {n : Nat} (hn : n < 2 ^ 32) (rest : BString) :
    scanUnsigned (decimal n ++ tab :: rest) = some (UInt32.ofNat n, tab :: rest) := by
  have hdigits : ∀ b ∈ decimal n, isDigit b = true := fun b hb => isDigit_of_mem_decimal hb
  have hne : decimal n ≠ [] := decimal_ne_nil n
  obtain ⟨d, ds, hcons⟩ := List.exists_cons_of_ne_nil hne
  have hd : isDigit d = true := hdigits d (by rw [hcons]; exact List.mem_cons_self)
  have hspace : (decimal n ++ tab :: rest).dropWhile isSpace = decimal n ++ tab :: rest := by
    rw [hcons, List.cons_append, List.dropWhile_cons_of_neg]
    rw [isSpace_of_isDigit hd]
    decide
  have hsign : scanSign (decimal n ++ tab :: rest) = (false, decimal n ++ tab :: rest) := by
    have hminus : d ≠ 45 := by
      rintro rfl
      exact absurd hd (by decide)
    have hplus : d ≠ 43 := by
      rintro rfl
      exact absurd hd (by decide)
    rw [hcons, List.cons_append, scanSign, if_neg hminus, if_neg hplus]
  have htake : (decimal n ++ tab :: rest).takeWhile isDigit = decimal n := by
    rw [List.takeWhile_append_of_pos hdigits, List.takeWhile_cons_of_neg (by decide),
      List.append_nil]
  have hdrop : (decimal n ++ tab :: rest).dropWhile isDigit = tab :: rest := by
    rw [List.dropWhile_append_of_pos hdigits, List.dropWhile_cons_of_neg (by decide)]
  have hvalue : strtoul false (decimal n) = n := by
    unfold strtoul
    simp only [value_decimal]
    rw [if_neg (by omega), if_neg (by decide)]
  unfold scanUnsigned
  simp only [hspace, hsign, htake, hdrop, hvalue, if_neg hne]

/-- A number, and the tab before it. -/
theorem sscanf_unsigned {n : Nat} (hn : n < 2 ^ 32) (rest : BString) (ds : List Directive)
    (store : GoOutput → UInt32 → GoOutput) (out : GoOutput) :
    sscanf (.white :: .unsigned store :: ds) (tab :: (decimal n ++ tab :: rest)) out =
      sscanf ds (tab :: rest) (store out (UInt32.ofNat n)) := by
  obtain ⟨d, digits, hcons⟩ := List.exists_cons_of_ne_nil (decimal_ne_nil n)
  have hd : isDigit d = true :=
    isDigit_of_mem_decimal (n := n) (by rw [hcons]; exact List.mem_cons_self)
  have hspace : (tab :: (decimal n ++ tab :: rest)).dropWhile isSpace =
      decimal n ++ tab :: rest := by
    rw [List.dropWhile_cons_of_pos (by decide), hcons, List.cons_append,
      List.dropWhile_cons_of_neg]
    rw [isSpace_of_isDigit hd]
    decide
  rw [sscanf, hspace, sscanf, scanUnsigned_decimal hn]

/-- A name, and the tab before it. -/
theorem scanString_name {name : BString} (hname : ∀ b ∈ name, isSpace b = false)
    (hlt : name.length < 1024) : scanString ((tab :: name).dropWhile isSpace) = name := by
  have hnone : name.dropWhile isSpace = name := by
    cases name with
    | nil => rfl
    | cons b bs =>
        rw [List.dropWhile_cons_of_neg]
        rw [hname b List.mem_cons_self]
        decide
  have htake : name.takeWhile (fun b => !isSpace b) = name := by
    rw [List.takeWhile_eq_self_iff]
    intro b hb
    rw [hname b hb]
    rfl
  unfold scanString
  rw [List.dropWhile_cons_of_pos (by decide), hnone, hnone, htake,
    List.take_of_length_le (Nat.le_of_lt_succ hlt)]

/-- Only the array is written to, and it begins with the name then. -/
theorem sscanf_string {s name : BString} (hs : scanString s = name) (out : GoOutput) :
    ∃ str hlength hnul, sscanf [.string] s out =
      { out with str := str, str_length := hlength, str_nul := hnul } ∧
        str.take name.length = name := by
  subst hs
  by_cases hnil : scanString s = []
  · refine ⟨out.str, out.str_length, out.str_nul, ?_, ?_⟩
    · rw [sscanf, if_pos hnil]
    · rw [hnil]
      rfl
  · refine ⟨_, (out.setStr _ (scanString_lt s)).str_length,
      (out.setStr _ (scanString_lt s)).str_nul,
      ?_, ?_⟩
    · rw [sscanf, if_neg hnil]
      rfl
    · show (scanString s ++ 0 :: out.str.drop _).take _ = _
      exact List.take_left

theorem setCh_ch {out : GoOutput} (h : out.ch.toNat < 256) (b : UInt8) :
    (out.setCh b).ch = b.toUInt32 := by
  show UInt32.ofNat (out.ch.toNat / 256 * 256 + b.toNat) = b.toUInt32
  rw [Nat.div_eq_of_lt h, Nat.zero_mul, Nat.zero_add]
  exact UInt32.toNat_inj.mp (by simp)

/-- If the array begins with the name then what is behind it does not matter. -/
theorem scanned_eq {out : GoOutput} {r : Record} (hch : out.ch = r.kind.toUInt32)
    (hstartLine : out.startLine.toNat = r.startLine)
    (hstartColumn : out.startColumn.toNat = r.startColumn)
    (hendLine : out.endLine.toNat = r.endLine) (hendColumn : out.endColumn.toNat = r.endColumn)
    (hlen : out.len.toNat = r.name.length) (hstr : out.str.take r.name.length = r.name)
    (hlt : r.name.length < 1024) (behind : GoOutput → BString) :
    out.scanned behind = r.scanned := by
  have hname : out.name behind = r.name := by
    have hle : r.name.length ≤ out.str.length := by
      rw [out.str_length]
      omega
    unfold GoOutput.name
    rw [hlen, List.take_append_of_le_length hle, hstr]
  unfold GoOutput.scanned Record.scanned
  rw [hch, hstartLine, hstartColumn, hendLine, hendColumn, hlen, hname]

/-- **What is read of a line is what was written, whatever was in the structure.** -/
theorem scan_text {r : Record} (hr : r.Proper) (hlt : r.name.length < 1024) {out : GoOutput}
    (hout : out.ch.toNat < 256) (behind : GoOutput → BString) :
    (scan r.text out).scanned behind = r.scanned ∧ (scan r.text out).ch = r.kind.toUInt32 := by
  have htext : r.text.takeWhile (· ≠ 0) = r.text := by
    rw [List.takeWhile_eq_self_iff]
    intro b hb
    exact decide_eq_true (hr.text_clean hb).1
  have hlen : r.name.length < 2 ^ 32 := by omega
  have hscan : scanString ((tab :: r.name).dropWhile isSpace) = r.name :=
    scanString_name (fun b hb => (hr.name b hb).1) hlt
  unfold scan
  rw [htext, format, Record.text, sscanf, sscanf_unsigned hr.startLine,
    sscanf_unsigned hr.startColumn, sscanf_unsigned hr.endLine, sscanf_unsigned hr.endColumn,
    sscanf_unsigned hlen, sscanf]
  obtain ⟨str, hlength, hnul, hsscanf, hstr⟩ := sscanf_string hscan _
  rw [hsscanf]
  refine ⟨scanned_eq ?_ ?_ ?_ ?_ ?_ ?_ hstr hlt behind, setCh_ch hout r.kind⟩
  · exact setCh_ch hout r.kind
  · exact UInt32.toNat_ofNat_of_lt' hr.startLine
  · exact UInt32.toNat_ofNat_of_lt' hr.startColumn
  · exact UInt32.toNat_ofNat_of_lt' hr.endLine
  · exact UInt32.toNat_ofNat_of_lt' hr.endColumn
  · exact UInt32.toNat_ofNat_of_lt' hlen

/-! ### All lines

What a line leaves behind is what the next one finds.  All of it is overwritten if the next line
has all its fields, so each record is read as if it were the first.
-/

theorem toUInt32_lt (b : UInt8) : b.toUInt32.toNat < 256 := by
  rw [UInt8.toNat_toUInt32]
  exact b.toNat_lt

theorem scans_text {records : List Record}
    (hrecords : ∀ r ∈ records, r.Proper ∧ r.name.length < 1024) {out : GoOutput}
    (hout : out.ch.toNat < 256) (behind : GoOutput → BString) :
    (scans out (records.map Record.text)).map (GoOutput.scanned behind) =
      records.map Record.scanned := by
  induction records generalizing out with
  | nil => rfl
  | cons r records ih =>
      obtain ⟨hr, hlt⟩ := hrecords r List.mem_cons_self
      obtain ⟨hscanned, hch⟩ := scan_text hr hlt hout behind
      have hrest := ih (fun r hr => hrecords r (List.mem_cons_of_mem _ hr))
        (show (scan r.text out).ch.toNat < 256 by rw [hch]; exact toUInt32_lt _)
      rw [List.map_cons, scans, List.map_cons, List.map_cons, hscanned, hrest]

/-- A name that goes on behind the NUL has it inside. -/
theorem name_lt {out : GoOutput} {behind : GoOutput → BString} (h : 0 ∉ out.name behind) :
    (out.name behind).length < 1024 := by
  by_contra hlong
  apply h
  have hle : 1024 ≤ out.len.toNat := by
    have := List.length_take_le out.len.toNat (out.str ++ behind out)
    unfold GoOutput.name at hlong
    omega
  unfold GoOutput.name
  rw [List.take_append, List.take_of_length_le (by rw [out.str_length]; exact hle)]
  exact List.mem_append_left _ out.str_nul

theorem length_lt_of_recovers {lib : Library} {records : List Record}
    (hrecords : ∀ r ∈ records, r.Proper) (h : Recovers lib records) :
    ∀ r ∈ records, r.name.length < 1024 := by
  intro r hr
  have hmem := h.mem_iff.mpr (List.mem_map_of_mem hr)
  obtain ⟨out, -, hout⟩ := List.mem_map.mp hmem
  have hname : out.name lib.behind = r.name := congrArg Scanned.name hout
  rw [← hname]
  apply name_lt
  rw [hname]
  intro hnul
  exact ((hrecords r hr).name 0 hnul).2 rfl

/-- The records are read back in the order of the sorted lines. -/
theorem scans_separateAndSort {lib : Library} (hlib : lib.Behaves) {records : List Record}
    (hrecords : ∀ r ∈ records, r.Proper) (hlt : ∀ r ∈ records, r.name.length < 1024) :
    ∃ rs : List Record, rs.Perm records ∧
      (scans .zero (separateAndSort lib (records.flatMap Record.format))).map
        (GoOutput.scanned lib.behind) = rs.map Record.scanned := by
  obtain ⟨rs, hlines, hperm⟩ := separateAndSort_perm hlib hrecords
  refine ⟨rs, hperm, ?_⟩
  have hrs : ∀ r ∈ rs, r.Proper ∧ r.name.length < 1024 := by
    intro r hr
    have hmem := hperm.mem_iff.mp hr
    exact ⟨hrecords r hmem, hlt r hmem⟩
  rw [hlines]
  exact scans_text hrs (by decide) lib.behind

/--
**All records are read back exactly when each name is shorter than the array.**
-/
theorem recovers_iff {lib : Library} (hlib : lib.Behaves) {records : List Record}
    (hrecords : ∀ r ∈ records, r.Proper) :
    Recovers lib records ↔ ∀ r ∈ records, r.name.length < 1024 := by
  constructor
  · exact length_lt_of_recovers hrecords
  · intro hlt
    obtain ⟨rs, hperm, hscans⟩ := scans_separateAndSort hlib hrecords hlt
    unfold Recovers
    rw [hscans]
    exact hperm.map _

/-- The index of the byte, or -1. -/
def indexOf (s : BString) (c : Int32) : Int :=
  match s.findIdx? fun b => b.toUInt32.toInt32 = c with
  | none => -1
  | some i => i

/-- A library that leaves lines in their order. -/
def plainLibrary : Library where
  memsep := Delimited.strsep
  strchr := indexOf
  bsearch := fun list s => list.contains s
  qsort := id
  behind := fun _ => []

theorem plainLibrary_behaves : plainLibrary.Behaves where
  splits := Delimited.strsep_splits
  perm := fun list => List.Perm.refl list

/-- A method and a function. -/
def twoRecords : List Record :=
  [ { kind := typeMethod, startLine := 3, startColumn := 9, endLine := 3, endColumn := 10,
      name := bt "f" },
    { kind := typeFunction, startLine := 12, startColumn := 5, endLine := 12, endColumn := 9,
      name := bt "main" } ]

theorem twoRecords_proper : ∀ r ∈ twoRecords, r.Proper := by
  have hproper : ∀ r ∈ twoRecords, isAlpha r.kind = true ∧ r.startLine < 2 ^ 32 ∧
      r.startColumn < 2 ^ 32 ∧ r.endLine < 2 ^ 32 ∧ r.endColumn < 2 ^ 32 ∧
      ∀ b ∈ r.name, isSpace b = false ∧ b ≠ 0 := by decide +kernel
  intro r hr
  obtain ⟨hkind, hstartLine, hstartColumn, hendLine, hendColumn, hname⟩ := hproper r hr
  exact ⟨hkind, hstartLine, hstartColumn, hendLine, hendColumn, hname⟩

theorem recovers_iff_two : Recovers plainLibrary twoRecords :=
  (recovers_iff plainLibrary_behaves twoRecords_proper).mpr (by decide)

/-- An identifier of 1024 bytes. -/
def longRecord : Record where
  kind := typeVariable
  startLine := 1
  startColumn := 4
  endLine := 1
  endColumn := 1028
  name := List.replicate 1024 97

/-- It fills the array, and its last byte is read as a NUL. -/
theorem recovers_long :
    longRecord.Proper ∧ ¬Recovers plainLibrary [longRecord] ∧
      ¬ ∀ (lib : Library) (records : List Record), lib.Behaves → (∀ r ∈ records, r.Proper) →
        Recovers lib records := by
  have hproper : longRecord.Proper := by
    have hcolumn : 1028 < 2 ^ 32 := by omega
    refine ⟨by decide, by decide, by decide, by decide, hcolumn, ?_⟩
    intro b hb
    rw [List.eq_of_mem_replicate hb]
    decide
  have hall : ∀ r ∈ [longRecord], r.Proper := by
    intro r hr
    rw [List.mem_singleton.mp hr]
    exact hproper
  have hnot : ¬Recovers plainLibrary [longRecord] := by
    intro h
    have hlt := length_lt_of_recovers hall h longRecord
      (List.mem_singleton_self _)
    rw [show longRecord.name.length = 1024 from List.length_replicate] at hlt
    exact Nat.lt_irrefl _ hlt
  refine ⟨hproper, hnot, ?_⟩
  intro h
  exact hnot (h plainLibrary [longRecord] plainLibrary_behaves hall)

/-! ### The calls for the records

A call is made for each record whose kind has a group and whose name is not ignored.  The others
leave no trace, so the calls are those for the records, with some of them left out.
-/

/-- A group that is found is one of the table. -/
theorem findGroup_mem {lib : Library} {ft : Filetype} {ctagsKind : Int32} {group : BString}
    (h : findGroup lib ft ctagsKind = some group) : ∃ info ∈ ft.cmdInfo, info.group = group := by
  unfold findGroup at h
  split at h
  · cases h
  · obtain ⟨info, hinfo, hgroup⟩ := Option.map_eq_some_iff.mp h
    exact ⟨info, List.mem_of_find?_eq_some hinfo, hgroup⟩

/-- The call for an identifier of which this is known. -/
def addScanned (lib : Library) (bdata : Buffer) (calls : MpackArgArray) (s : Scanned) :
    Except Fault MpackArgArray :=
  if identIsIgnored lib bdata.ft s.name then .ok calls
  else
    match findGroup lib bdata.ft s.kind.toInt32 with
    | none => .ok calls
    | some group =>
        addHlCall calls bdata.num bdata.hlId group
          { line := UInt32.ofNat s.startLine
            start := UInt32.ofNat s.startColumn
            stop := UInt32.ofNat s.endColumn }

theorem addIdent_eq (lib : Library) (bdata : Buffer) (calls : MpackArgArray) (out : GoOutput) :
    addIdent lib bdata calls out = addScanned lib bdata calls (out.scanned lib.behind) := by
  have hline : out.startLine = UInt32.ofNat (out.scanned lib.behind).startLine :=
    (UInt32.ofNat_toNat).symm
  have hstart : out.startColumn = UInt32.ofNat (out.scanned lib.behind).startColumn :=
    (UInt32.ofNat_toNat).symm
  have hstop : out.endColumn = UInt32.ofNat (out.scanned lib.behind).endColumn :=
    (UInt32.ofNat_toNat).symm
  unfold addIdent
  rw [hline, hstart, hstop]
  rfl

theorem parseLoop_eq (lib : Library) (bdata : Buffer) (out : GoOutput) (calls : MpackArgArray)
    (toks : List BString) :
    parseLoop lib bdata out calls toks =
      ((scans out toks).map (GoOutput.scanned lib.behind)).foldlM (addScanned lib bdata) calls := by
  induction toks generalizing out calls with
  | nil => rfl
  | cons tok toks ih =>
      rw [parseLoop, scans, List.map_cons, List.foldlM_cons, addIdent_eq]
      apply bind_congr
      intro calls'
      exact ih _ calls'

/--
**If all names fit then the calls are those for the records, in some order**, behind the one that
clears the buffer if it has been highlighted before.
-/
theorem parseGoOutput_records {lib : Library} (hlib : lib.Behaves) {records : List Record}
    (hrecords : ∀ r ∈ records, r.Proper) (hlt : ∀ r ∈ records, r.name.length < 1024)
    (bdata : Buffer) (hlId : Int32) :
    ∃ rs : List Record, rs.Perm records ∧
      parseGoOutput lib bdata hlId (separateAndSort lib (records.flatMap Record.format)) =
        (if bdata.hlId = 0 then
          (rs.map Record.scanned).foldlM (addScanned lib { bdata with hlId := hlId }) newArgArray
        else do
          let calls ← addClrCall newArgArray bdata.num bdata.hlId 0 (-1)
          (rs.map Record.scanned).foldlM (addScanned lib bdata) calls) := by
  obtain ⟨rs, hperm, hscans⟩ := scans_separateAndSort hlib hrecords hlt
  refine ⟨rs, hperm, ?_⟩
  unfold parseGoOutput
  simp only [parseLoop_eq, hscans]

end TagHighlight.Golang
