/-
The marks for the names that the Go helper has found.

What `parse_go_output` collects are the marks for the records, in the order in which the lines
were sorted.  So what Neovim hears are those marks.

The names that can be marked are those of fewer than 1024 bytes, for no others are read back, and
they must not stand in the first column, for the helper gets the range of such a name wrong.  Both
are found in the conditions on a name, `Info.Plain`, and what comes of a name that does not meet
them is said where the record is written and where it is read.
-/
import TagHighlight.Lang.GoSession
import TagHighlight.Proofs.Lang.GoOutput
import TagHighlight.Proofs.Lang.Marks

namespace TagHighlight.Golang

open Ascii Atomic

/-! ### One record -/

theorem addScanned_mark (lib : Library) (bdata : Buffer) (calls : MpackArgArray) (r : Record) :
    addScanned lib bdata calls r.scanned =
      match r.mark lib bdata.ft with
      | none => .ok calls
      | some m => (m.op bdata.num bdata.hlId).add calls := by
  unfold addScanned Record.mark
  by_cases hignored : identIsIgnored lib bdata.ft r.name = true
  · simp only [Record.scanned, hignored, if_true]
  · simp only [Record.scanned, hignored, if_false, Bool.false_eq_true]
    cases findGroup lib bdata.ft r.kind.toUInt32.toInt32 with
    | none => rfl
    | some group => rfl

theorem Record.Legible.fits {lib : Library} {ft : Filetype} {r : Record} {m : Mark}
    (h : r.Legible) (hgroups : ∀ info ∈ ft.cmdInfo, info.group.length < 4294967295)
    (hm : r.mark lib ft = some m) : m.Fits := by
  unfold Record.mark at hm
  split at hm
  · cases hm
  · obtain ⟨group, hgroup, rfl⟩ := Option.map_eq_some_iff.mp hm
    obtain ⟨info, hinfo, rfl⟩ := findGroup_mem hgroup
    exact ⟨hgroups info hinfo, h.line_lt, h.start_lt, h.stop_lt⟩

/-- A record takes 13 bytes at least. -/
theorem Record.length_format (r : Record) : 13 ≤ r.format.length := by
  have hdecimal : ∀ n, 1 ≤ (decimal n).length := fun n =>
    List.length_pos_iff.mpr (decimal_ne_nil n)
  have h1 := hdecimal r.startLine
  have h2 := hdecimal r.startColumn
  have h3 := hdecimal r.endLine
  have h4 := hdecimal r.endColumn
  have h5 := hdecimal r.name.length
  simp only [Record.format, List.length_cons, List.length_append, List.length_nil]
  omega

theorem length_records (records : List Record) :
    13 * records.length ≤ (records.flatMap Record.format).length := by
  induction records with
  | nil => simp
  | cons r records ih =>
      have hr := r.length_format
      rw [List.length_cons, List.flatMap_cons, List.length_append]
      omega

/-! ### All records

The calls are collected in the order of the lines, and a list of calls is known by the operations
it was collected from.  So the request says what the marks are.
-/

theorem foldlM_addScanned (lib : Library) (bdata : Buffer) (rs : List Record)
    (calls : MpackArgArray) :
    (rs.map Record.scanned).foldlM (addScanned lib bdata) calls =
      ((rs.filterMap (Record.mark lib bdata.ft)).map (Mark.op bdata.num bdata.hlId)).foldlM Op.add
        calls := by
  induction rs generalizing calls with
  | nil => rfl
  | cons r rs ih =>
      rw [List.map_cons, List.foldlM_cons, addScanned_mark]
      cases hm : r.mark lib bdata.ft with
      | none =>
          rw [List.filterMap_cons_none hm]
          exact ih calls
      | some m =>
          rw [List.filterMap_cons_some hm, List.map_cons, List.foldlM_cons]
          exact bind_congr fun calls' => ih calls'

/-- The answer is read as the calls for its marks. -/
theorem parseGoOutput_marks {lib : Library} (hlib : lib.Behaves) {records : List Record}
    (hrecords : ∀ r ∈ records, r.Legible) (bdata : Buffer) (hlId : Int32) :
    ∃ rs : List Record, rs.Perm records ∧
      parseGoOutput lib bdata hlId (separateAndSort lib (records.flatMap Record.format)) =
        (markOps bdata.num (if bdata.hlId = 0 then hlId else bdata.hlId) (bdata.hlId ≠ 0)
          (rs.filterMap (Record.mark lib bdata.ft))).foldlM Op.add newArgArray := by
  obtain ⟨rs, hperm, hparse⟩ := parseGoOutput_records hlib (fun r hr => (hrecords r hr).toProper)
    (fun r hr => (hrecords r hr).short) bdata hlId
  refine ⟨rs, hperm, ?_⟩
  rw [hparse, markOps]
  by_cases hid : bdata.hlId = 0
  · rw [if_pos hid, if_pos hid, foldlM_addScanned]
    simp [hid]
  · rw [if_neg hid, if_neg hid]
    simp only [foldlM_addScanned, ne_eq, hid, not_false_eq_true, decide_true, if_true,
      List.singleton_append, List.foldlM_cons]
    rfl

/-- So what is collected paints the names. -/
theorem parseGoOutput_paints {lib : Library} (hlib : lib.Behaves) {records : List Record}
    (hrecords : ∀ r ∈ records, r.Legible) (bdata : Buffer) (hlId : Int32)
    (hgroups : ∀ info ∈ bdata.ft.cmdInfo, info.group.length < 4294967295)
    (hlen : (records.flatMap Record.format).length < 2 ^ 32) :
    ∃ calls, parseGoOutput lib bdata hlId (separateAndSort lib (records.flatMap Record.format)) =
        .ok calls ∧
      Paints lib bdata.num (if bdata.hlId = 0 then hlId else bdata.hlId) bdata.ft
        (bdata.hlId ≠ 0) records calls := by
  obtain ⟨rs, hperm, hparse⟩ := parseGoOutput_marks hlib hrecords bdata hlId
  have hcount : (rs.filterMap (Record.mark lib bdata.ft)).length + 1 < 2 ^ 29 := by
    have hsize := length_records records
    have hmarks := List.length_filterMap_le (Record.mark lib bdata.ft) rs
    rw [hperm.length_eq] at hmarks
    omega
  obtain ⟨calls, hcollect, -⟩ := collect (Nat.lt_trans (Nat.lt_of_le_of_lt length_markOps hcount)
    (by decide : 2 ^ 29 < 2 ^ 31))
  refine ⟨calls, hparse.trans hcollect, _, hperm.filterMap _, fun hsome blib hblib count hroom => ?_⟩
  refine marks_heard hblib hcollect (fun m hm => ?_) (by simpa using hsome) hroom
  obtain ⟨r, hr, hmark⟩ := List.mem_filterMap.mp hm
  exact (hrecords r (hperm.mem_iff.mp hr)).fits hgroups hmark

/-! ### From the text to Neovim

The helper writes a record for each name, and here it is put together with the reading: what is
marked is the range of the name in the text, by the results on both sides.
-/

/-- The kinds of the helper are letters. -/
theorem isAlpha_of_identifyKind {typeinfo : Object} {kind : UInt8}
    (h : identifyKind typeinfo = some kind) (hne : kind ≠ 0) : isAlpha kind = true := by
  cases typeinfo with
  | const => cases h; rfl
  | func parent => cases parent <;> cases h <;> rfl
  | pkgName => cases h; rfl
  | typeName type =>
      cases type with
      | none => cases h
      | some u => cases u <;> cases h <;> rfl
  | var type isField global =>
      simp only [identifyKind, Option.some.injEq] at h
      subst h
      split
      · rfl
      · split
        · rfl
        · split
          · rfl
          · rename_i hfield hglobal hsignature
            simp [hfield, hglobal, hsignature] at hne
  | other => cases h; exact absurd rfl hne

/-- A name without blanks, of which there is room for the whole. -/
structure Info.Plain {fset : FileSet} {fileName : BString} (info : Info fset fileName) : Prop where
  /-- It does not begin its line. -/
  inside : 0 < info.col
  clean : ∀ b ∈ info.name, Readers.isSpace b = false ∧ b ≠ 0
  short : info.name.length < 1024
  row_lt : info.row < 2 ^ 31
  col_lt : info.col + info.name.length < 2 ^ 31

variable {fset : FileSet} {fileName : BString}

theorem Info.Plain.legible {info : Info fset fileName} (h : info.Plain) : info.record.Legible where
  kind := isAlpha_of_identifyKind info.identifyKind_eq info.kind_ne
  startLine := Nat.lt_trans h.row_lt (by decide)
  startColumn := show info.col < 2 ^ 32 by have := h.col_lt; omega
  endLine := Nat.lt_trans h.row_lt (by decide)
  endColumn := Nat.lt_trans h.col_lt (by decide)
  name := h.clean
  short := h.short
  line_lt := h.row_lt
  start_lt := show info.col < 2 ^ 31 by have := h.col_lt; omega
  stop_lt := h.col_lt

/-- The mark for a name where it stands in the text. -/
def Info.mark (lib : Library) (ft : Filetype) (info : Info fset fileName) : Option Mark :=
  if identIsIgnored lib ft info.name then none
  else
    (findGroup lib ft info.kind.toUInt32.toInt32).map fun group =>
      { group, line := info.row, start := info.col, stop := info.col + info.name.length }

/-- A file in which `y` is indented. -/
def indentedFile : FileSet :=
  newFileSet.addFile (bt "p.go") (bt "package p\n\nconst (\n\ty = 1\n)\n")

def indentedData : ParsedData where
  output := []
  fileToken := { name := bt "p.go", base := 1, src := bt "package p\n\nconst (\n\ty = 1\n)\n" }

def indentedInfo : Info indentedFile indentedData.fileToken.name where
  file := indentedData.fileToken
  mem := List.mem_singleton_self _
  before := bt "package p\n\nconst (\n\t"
  name := bt "y"
  after := bt " = 1\n)\n"
  src_eq := rfl
  ne_nil := by decide
  oneLine := by
    intro b hb
    rw [show b = 121 from List.mem_singleton.mp hb]
    rfl
  inFile := rfl
  typeinfo := .const
  kind := typeConstant
  identifyKind_eq := rfl
  kind_ne := by decide

theorem indentedInfo_plain : ∀ info ∈ [indentedInfo], info.Plain := by
  intro info hinfo
  obtain rfl := List.mem_singleton.mp hinfo
  refine ⟨by decide, fun b hb => ?_, by decide, by decide, by decide⟩
  rw [show b = 121 from List.mem_singleton.mp hb]
  exact ⟨rfl, by decide⟩

/-- A buffer in which constants have a group. -/
def constantsBuffer : Buffer where
  num := 3
  hlId := 7
  ft := { order := bt "c", cmdInfo := [{ kind := 99, group := bt "Constant" }], ignoredTags := none }

/-- The constant is marked on the fourth line, behind the tab. -/
example : [indentedInfo].filterMap (Info.mark plainLibrary constantsBuffer.ft) =
    [{ group := bt "Constant", line := 3, start := 1, stop := 2 }] := by decide

end TagHighlight.Golang
