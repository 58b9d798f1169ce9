/-
The range of a Go identifier.

The position before an identifier is that of a byte on the same line unless the identifier
begins its line.  The column of that byte, counted from one, is the column of the identifier,
counted from zero.  If the identifier does begin its line then whatever is found at the position
before it, if anything is, has a column that is not zero.  So the identifiers that begin their
lines are exactly those whose record is wrong.

The output is text, so two records have to be told apart by how they are printed:
`format_injective`.
-/
import TagHighlight.Lang.Golang

namespace TagHighlight.Golang

open Ascii

/-! ### Numbers in the output

Numbers are printed in decimal, and a tab ends each of them.  No digit is a tab, so a number can
be told from what follows it, and from its digits it can be computed.
-/

theorem toNat_ofNat_isDigit {c : Char} (hc : c.isDigit = true) :
    (UInt8.ofNat c.toNat).toNat = c.toNat ∧ 48 ≤ c.toNat := by
  simp only [Char.isDigit, Bool.and_eq_true, decide_eq_true_eq] at hc
  have hlo : 48 ≤ c.toNat := hc.1
  have hhi : c.toNat ≤ 57 := hc.2
  rw [UInt8.toNat_ofNat']
  omega

theorem isDigit_of_mem_decimal {n : Nat} {b : UInt8} (hb : b ∈ decimal n) : isDigit b = true := by
  obtain ⟨c, hc, rfl⟩ := List.mem_map.mp hb
  have hdigit := Nat.isDigit_of_mem_toDigits (by decide) (by decide) hc
  have hbyte := toNat_ofNat_isDigit hdigit
  simp only [Char.isDigit, Bool.and_eq_true, decide_eq_true_eq] at hdigit
  have hhi : c.toNat ≤ 57 := hdigit.2
  unfold isDigit
  rw [Bool.and_eq_true, decide_eq_true_eq, decide_eq_true_eq, UInt8.le_iff_toNat_le,
    UInt8.le_iff_toNat_le]
  show 48 ≤ _ ∧ _ ≤ 57
  omega

theorem ne_tab_of_mem_decimal {n : Nat} {b : UInt8} (hb : b ∈ decimal n) : b ≠ tab := by
  intro htab
  have hdigit := isDigit_of_mem_decimal hb
  rw [htab] at hdigit
  exact absurd hdigit (by decide)

/-- Digits as bytes are read as digits are. -/
theorem foldl_digits {cs : List Char} (hcs : ∀ c ∈ cs, c.isDigit = true) (m : Nat) :
    (cs.map fun c => UInt8.ofNat c.toNat).foldl (fun m b => 10 * m + (b.toNat - 48)) m =
      Nat.ofDigitChars 10 cs m := by
  induction cs generalizing m with
  | nil => rw [List.map_nil, List.foldl_nil, Nat.ofDigitChars_nil]
  | cons c cs ih =>
      have hc := (toNat_ofNat_isDigit (hcs c List.mem_cons_self)).1
      rw [List.map_cons, List.foldl_cons, Nat.ofDigitChars_cons, hc]
      exact ih (fun d hd => hcs d (List.mem_cons_of_mem c hd)) _

theorem decimal_ne_nil (n : Nat) : decimal n ≠ [] := by
  unfold decimal
  rw [Ne, List.map_eq_nil_iff]
  exact Nat.toDigits_ne_nil

theorem value_decimal (n : Nat) :
    (decimal n).foldl (fun m b => 10 * m + (b.toNat - 48)) 0 = n := by
  unfold decimal
  rw [foldl_digits (fun c => Nat.isDigit_of_mem_toDigits (by decide) (by decide)) 0,
    Nat.ofDigitChars_ten_toDigits]

theorem decimal_injective {m n : Nat} (h : decimal m = decimal n) : m = n := by
  rw [← value_decimal m, h, value_decimal n]

/-- A number that a tab ends can be told from what comes after it. -/
theorem decimal_tab_inj {m n : Nat} {s t : BString}
    (h : decimal m ++ tab :: s = decimal n ++ tab :: t) : m = n ∧ s = t := by
  have htake : ∀ k (u : BString), (decimal k ++ tab :: u).takeWhile (· ≠ tab) = decimal k := by
    intro k u
    rw [List.takeWhile_append_of_pos (by simpa using fun _ => ne_tab_of_mem_decimal)]
    simp
  have hdigits : decimal m = decimal n := by rw [← htake m s, h, htake n t]
  rw [hdigits] at h
  exact ⟨decimal_injective hdigits, (List.cons.inj (List.append_cancel_left h)).2⟩

/-- A record can be told by how it is printed. -/
theorem format_injective {r r' : Record} (h : r.format = r'.format) : r = r' := by
  unfold Record.format at h
  obtain ⟨hkind, h⟩ := List.cons.inj h
  obtain ⟨-, h⟩ := List.cons.inj h
  obtain ⟨hstartLine, h⟩ := decimal_tab_inj h
  obtain ⟨hstartColumn, h⟩ := decimal_tab_inj h
  obtain ⟨hendLine, h⟩ := decimal_tab_inj h
  obtain ⟨hendColumn, h⟩ := decimal_tab_inj h
  obtain ⟨-, h⟩ := decimal_tab_inj h
  have hname := List.append_cancel_right h
  cases r
  cases r'
  subst hkind hstartLine hstartColumn hendLine hendColumn hname
  rfl

theorem format_ne_nil (r : Record) : r.format ≠ [] := List.cons_ne_nil _ _

/-! ### Positions in a file set

A position is a number that belongs to one file, or to none.  In its file it is an offset, and its
line is the last that begins at this offset or before; the column counts from one, so it is never
zero where there is a line.
-/

/-- Only one file holds a position. -/
theorem find?_holds {files : List File} {f : File} {p : Int}
    (apart : files.Pairwise fun f g => f.base + f.size < g.base) (hf : f ∈ files)
    (hp : f.holds p = true) : files.find? (·.holds p) = some f := by
  induction files with
  | nil => cases hf
  | cons g files ih =>
      obtain ⟨hfirst, hrest⟩ := List.pairwise_cons.mp apart
      rcases List.mem_cons.mp hf with rfl | hmem
      · exact List.find?_cons_of_pos hp
      · have hg : ¬g.holds p = true := by
          have hlt := hfirst f hmem
          simp only [File.holds, Bool.and_eq_true, decide_eq_true_eq] at hp ⊢
          omega
        rw [List.find?_cons_of_neg (by exact hg)]
        exact ih hrest hmem

theorem file_eq {fset : FileSet} {f : File} (hf : f ∈ fset.files) {offset : Nat}
    (hle : offset ≤ f.size) : fset.file (f.base + offset) = some f := by
  have hpos := fset.pos f hf
  have hholds : f.holds (f.base + offset) = true := by
    simp only [File.holds, Bool.and_eq_true, decide_eq_true_eq]
    omega
  have hne : (f.base + offset : Int) ≠ noPos := by
    unfold noPos
    omega
  rw [FileSet.file, if_neg hne]
  exact find?_holds fset.apart hf hholds

/-- The position of a byte of a file, by what is before it. -/
theorem position_eq {fset : FileSet} {f : File} (hf : f ∈ fset.files) {before after : BString}
    (hsrc : f.src = before ++ after) (hafter : after ≠ []) :
    fset.position (f.base + before.length) =
      { line := LineTable.row File.isNewline before + 1
        column := LineTable.col File.isNewline before + 1 } := by
  have hle : before.length ≤ f.size := by
    rw [File.size, hsrc, List.length_append]
    omega
  have hoffset : ((f.base + before.length : Int) - f.base).toNat = before.length := by omega
  have hcol : LineTable.col File.isNewline before ≤ before.length := LineTable.col_le before
  rw [FileSet.position, file_eq hf hle]
  show f.unpack _ = _
  rw [hoffset, File.unpack, File.lines, hsrc, LineTable.reached_table before hafter,
    LineTable.getLast?_starts, List.length_cons, LineTable.length_starts]
  show Position.mk _ _ = _
  congr 1
  omega

/-- Where there is a line there is a column. -/
theorem unpack_column_ne_zero (f : File) (offset : Nat) :
    (f.unpack offset).line ≠ 0 → (f.unpack offset).column ≠ 0 := by
  unfold File.unpack
  cases (LineTable.reached f.lines offset).getLast? with
  | none => exact fun h => absurd rfl h
  | some start => exact fun _ => Nat.succ_ne_zero _

theorem position_column_ne_zero (fset : FileSet) (p : Int) :
    (fset.position p).line ≠ 0 → (fset.position p).column ≠ 0 := by
  unfold FileSet.position
  cases fset.file p with
  | none => exact fun h => absurd rfl h
  | some f => exact unpack_column_ne_zero f _

/-! ### The range of a name

The helper looks at the position before the name and at that of its last byte.  The latter is on
the line of the name, so the end is always right.  The former is on this line only if there is
something on it.
-/

section Range

variable {fset : FileSet} (occ : Occurrence fset)

theorem ident_pos : occ.ident.pos = occ.file.base + occ.before.length := rfl

/-- The position that the end is taken from is that of the last byte of the name. -/
theorem getRange_snd :
    (getRange fset occ.ident.pos occ.name.length).2 =
      { line := occ.row + 1, column := occ.col + occ.name.length } := by
  obtain ⟨w, b, hw⟩ : ∃ w b, occ.name = w ++ [b] :=
    ⟨_, _, (List.dropLast_append_getLast occ.ne_nil).symm⟩
  have hline : ∀ c ∈ w, File.isNewline c = false := by
    intro c hc
    exact occ.oneLine c (by rw [hw]; exact List.mem_append_left _ hc)
  have hsrc : occ.file.src = (occ.before ++ w) ++ (b :: occ.after) := by
    rw [occ.src_eq, hw]
    simp
  have hpos : occ.ident.pos - 1 + occ.name.length = occ.file.base + (occ.before ++ w).length := by
    rw [ident_pos, hw, List.length_append, List.length_append, List.length_singleton]
    omega
  show fset.position (occ.ident.pos - 1 + occ.name.length) = _
  rw [hpos, position_eq occ.mem hsrc (List.cons_ne_nil _ _), LineTable.row_append _ hline,
    LineTable.col_append _ hline, hw, List.length_append, List.length_singleton]
  rfl

/-- The position before a name that does not begin its line is on the line. -/
theorem getRange_fst (h : 0 < occ.col) :
    (getRange fset occ.ident.pos occ.name.length).1 =
      { line := occ.row + 1, column := occ.col } := by
  obtain ⟨s, b, hbefore, hb⟩ := LineTable.exists_of_col_pos h
  have hsrc : occ.file.src = s ++ (b :: (occ.name ++ occ.after)) := by
    rw [occ.src_eq, hbefore]
    simp
  have hpos : occ.ident.pos - 1 = occ.file.base + s.length := by
    rw [ident_pos, hbefore, List.length_append, List.length_singleton]
    omega
  have hrow : occ.row = LineTable.row File.isNewline s := by
    rw [Occurrence.row, hbefore]
    exact LineTable.row_append s (by simpa using hb)
  have hcol : occ.col = LineTable.col File.isNewline s + 1 := by
    rw [Occurrence.col, hbefore, LineTable.col_other s hb]
  show fset.position (occ.ident.pos - 1) = _
  rw [hpos, position_eq occ.mem hsrc (List.cons_ne_nil _ _), hrow, hcol]

end Range

/-! ### What is written about it

The record has the column of the byte before the name, which counted from one is the column of the
name counted from zero.  For a name at the beginning of a line that would have to be zero, and no
column is.
-/

section Written

variable {fset : FileSet} {fileName : BString} (info : Info fset fileName)

/-- What is written about a name. -/
abbrev writtenAt : BString :=
  written info.ident info.kind (getRange fset info.ident.pos info.name.length)

theorem writtenAt_of_col_pos (h : 0 < info.col) : writtenAt info = info.record.format := by
  have hrange : getRange fset info.ident.pos info.name.length =
      ({ line := info.row + 1, column := info.col },
        { line := info.row + 1, column := info.col + info.name.length }) :=
    Prod.ext (getRange_fst _ h) (getRange_snd _)
  rw [writtenAt, hrange]
  rfl

/-- A record never says that a name begins its line. -/
theorem writtenAt_ne_of_col_zero (h : info.col = 0) : writtenAt info ≠ info.record.format := by
  intro heq
  unfold writtenAt written at heq
  by_cases hline : (getRange fset info.ident.pos info.name.length).1.line = 0 ∨
      (getRange fset info.ident.pos info.name.length).2.line = 0
  · rw [if_pos hline] at heq
    exact format_ne_nil _ heq.symm
  · rw [if_neg hline] at heq
    have hcolumn := congrArg Record.startColumn (format_injective heq)
    rw [show info.record.startColumn = 0 from h] at hcolumn
    exact position_column_ne_zero fset _ (not_or.mp hline).1 hcolumn

theorem writtenAt_eq_iff : writtenAt info = info.record.format ↔ 0 < info.col := by
  constructor
  · intro h
    apply Nat.pos_of_ne_zero
    intro hcol
    exact writtenAt_ne_of_col_zero info hcol h
  · exact writtenAt_of_col_pos info

end Written

theorem write_inj {this : ParsedData} {s t : BString} : this.write s = this.write t ↔ s = t := by
  constructor
  · intro h
    exact List.append_cancel_left (congrArg ParsedData.output h)
  · intro h
    rw [h]

/-- What `handle_ident` does for a name of the file. -/
theorem handleIdent_eq {fset : FileSet} (this : ParsedData)
    (info : Info fset this.fileToken.name) :
    handleIdent fset this (some info.ident) info.typeinfo = some (this.write (writtenAt info)) := by
  have hle : info.before.length ≤ info.file.size := by
    rw [File.size, info.src_eq, List.length_append]
    omega
  have hfile : fset.file info.ident.pos = some info.file := file_eq info.mem hle
  simp only [handleIdent, info.identifyKind_eq, if_neg info.kind_ne, hfile, info.inFile, ne_eq,
    not_true_eq_false, if_false]
  rfl

/--
**The record of a name says where the name is exactly when something stands before the name on
its line.**
-/
theorem handleIdent_writesRange_iff {fset : FileSet} (this : ParsedData)
    (info : Info fset this.fileToken.name) : WritesRange this info ↔ 0 < info.col := by
  unfold WritesRange
  rw [handleIdent_eq this info, Option.some_inj, write_inj]
  exact writtenAt_eq_iff info

/-- A file in which `x` begins a line. -/
def groupFile : FileSet :=
  newFileSet.addFile (bt "p.go") (bt "package p\n\nvar (\nx int\n)\n")

def groupData : ParsedData where
  output := []
  fileToken := { name := bt "p.go", base := 1, src := bt "package p\n\nvar (\nx int\n)\n" }

def groupInfo : Info groupFile groupData.fileToken.name where
  file := groupData.fileToken
  mem := List.mem_singleton_self _
  before := bt "package p\n\nvar (\n"
  name := bt "x"
  after := bt " int\n)\n"
  src_eq := rfl
  ne_nil := by decide
  oneLine := by
    intro b hb
    rw [show b = 120 from List.mem_singleton.mp hb]
    rfl
  inFile := rfl
  typeinfo := .var (some .other) false true
  kind := typeVariable
  identifyKind_eq := rfl
  kind_ne := by decide

/-- The start is put behind the end of the line before. -/
theorem handleIdent_first_column :
    handleIdent groupFile groupData (some groupInfo.ident) groupInfo.typeinfo =
        some (groupData.write (bt "v\t2\t6\t3\t1\t1\tx\n")) ∧
      groupInfo.record.format = bt "v\t3\t0\t3\t1\t1\tx\n" ∧
      ¬ ∀ (fset : FileSet) (this : ParsedData) (info : Info fset this.fileToken.name),
        WritesRange this info := by
  refine ⟨rfl, rfl, ?_⟩
  intro h
  have hx := h groupFile groupData groupInfo
  revert hx
  unfold WritesRange
  decide

/-! ### All names -/

/-- If no name begins its line then the output has the right record for each. -/
theorem highlight_eq {fset : FileSet} (this : ParsedData)
    (infos : List (Info fset this.fileToken.name)) (h : ∀ info ∈ infos, 0 < info.col) :
    highlight fset this (infos.map fun info => (some info.ident, info.typeinfo)) =
      some (this.write (infos.flatMap fun info => info.record.format)) := by
  suffices hrun : ∀ s, highlight fset (this.write s)
      (infos.map fun info => (some info.ident, info.typeinfo)) =
        some (this.write (s ++ infos.flatMap fun info => info.record.format)) by
    have := hrun []
    simpa [ParsedData.write] using this
  induction infos with
  | nil =>
      intro s
      simp [highlight]
  | cons info infos ih =>
      intro s
      have hone := handleIdent_eq (this.write s) info
      have hrest := ih fun i hi => h i (List.mem_cons_of_mem _ hi)
      rw [writtenAt_of_col_pos info (h info List.mem_cons_self)] at hone
      unfold highlight at hrest ⊢
      rw [List.map_cons, List.foldlM_cons, hone]
      show List.foldlM _ ((this.write s).write info.record.format) _ = _
      have hwrite : (this.write s).write info.record.format =
          this.write (s ++ info.record.format) := by
        simp [ParsedData.write]
      rw [hwrite, hrest, List.flatMap_cons, List.append_assoc]

end TagHighlight.Golang
