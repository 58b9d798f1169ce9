/-
The fields of a line are its own.

A command with tabs in it leaves pieces that are taken for a kind or a language.  They stand
before the kind and the language of the line, and what is found last counts: the kind is the last
piece of one byte, since a field has a key and a colon, and no key stands on a line twice.

The functions that search and cut strings are parameters, with what their documentation says of
them.  The condition on the line is what ctags promises: no tab but in the command, and each key
once.
-/
import TagHighlight.Lang.CtagsLine

namespace TagHighlight.CtagsScan

open Ascii

variable {strings : Strings}

/-! ### Cutting

The name and the file are cut off at the first tabs, since neither has one in it.  How much of the
command is cut off depends on its tabs, but the tab in front of the kind is never passed, so all
that belongs to the line is still there.
-/

theorem takeField_eq (hstrings : strings.Behaves) {tok : BString} (htok : tab ∉ tok)
    (rest : BString) : takeField strings (tok ++ tab :: rest) = (tok, rest) := by
  unfold takeField
  rw [hstrings.splits.next tab tok rest htok]
  rfl

/-- Whatever is before the last tab that counts, something in front of it is left. -/
theorem advance_eq (hstrings : strings.Behaves) (line s rest : BString) :
    ∃ s', advance strings line (s ++ tab :: rest) (strings.strchr (s ++ tab :: rest) tab) =
      s' ++ tab :: rest := by
  have hdrop : ∀ {pre suf : BString}, tab ∉ pre →
      advance strings line (pre ++ tab :: suf) (strings.strchr (pre ++ tab :: suf) tab) =
        tab :: suf := by
    intro pre suf hpre
    have hpos := hstrings.finds.found pre tab suf hpre
    rw [hpos, advance, if_neg (by omega), Int.toNat_natCast]
    exact List.drop_left
  by_cases htab : tab ∈ s
  · obtain ⟨pre, suf, rfl, hpre⟩ := Delimited.exists_cut_of_mem htab
    refine ⟨tab :: suf, ?_⟩
    rw [List.append_assoc, List.cons_append, hdrop hpre]
  · exact ⟨[], hdrop htab⟩

/-! ### Fields

A piece of one byte is taken for a kind and a piece that begins with `language:` for a language.
A field has a key and a colon, so it is never the first, and only one field is the second.
-/

theorem text_ne_nil (f : Field) : f.text ≠ [] := by simp [Field.text]

theorem tab_not_mem_text (f : Field) : tab ∉ f.text := by
  intro htab
  rcases List.mem_append.mp htab with hkey | hvalue
  · exact f.key_tab hkey
  · rcases List.mem_cons.mp hvalue with hcolon | hvalue
    · exact absurd hcolon (by decide)
    · exact f.value_tab hvalue

/-- A key and a colon are more than one byte. -/
theorem text_length_ne_one (f : Field) : f.text.length ≠ 1 := by
  have hkey := List.length_pos_iff.mpr f.key_ne
  rw [Field.text, List.length_append, List.length_cons]
  omega

/-- The key is what stands before the first colon. -/
theorem takeWhile_text (f : Field) : f.text.takeWhile (· ≠ colon) = f.key := by
  have hall : ∀ b ∈ f.key, decide (b ≠ colon) = true := by
    intro b hb
    exact decide_eq_true fun heq => f.key_colon (heq ▸ hb)
  rw [Field.text, List.takeWhile_append_of_pos hall, List.takeWhile_cons_of_neg (by simp),
    List.append_nil]

theorem takeTok_language {f : Field} (h : f.key = bt "language")
    (found : UInt8 × Option BString) : takeTok found f.text = (found.1, some f.value) := by
  have htext : f.text = bt "language:" ++ f.value := by
    rw [Field.text, h]
    rfl
  have htake : f.text.take (bt "language:").length = bt "language:" := by
    rw [htext]
    exact List.take_left
  have hdrop : f.text.drop (bt "language:").length = f.value := by
    rw [htext]
    exact List.drop_left
  unfold takeTok
  rw [if_neg (text_length_ne_one f), if_pos htake, hdrop]

theorem takeTok_other {f : Field} (h : f.key ≠ bt "language") (found : UInt8 × Option BString) :
    takeTok found f.text = found := by
  have htake : f.text.take (bt "language:").length ≠ bt "language:" := by
    intro htake
    apply h
    have htext : f.text = bt "language:" ++ f.text.drop (bt "language:").length := by
      rw [← htake, List.length_take_of_le]
      · exact (List.take_append_drop _ _).symm
      · rw [← htake]
        exact List.length_take_le' _ _
    rw [← takeWhile_text f, htext, List.takeWhile_append]
    rfl
  unfold takeTok
  rw [if_neg (text_length_ne_one f), if_neg htake]

/-- Fields do not touch the kind. -/
theorem foldl_fields_kind (fields : List Field) (found : UInt8 × Option BString) :
    ((fields.map Field.text).foldl takeTok found).1 = found.1 := by
  induction fields generalizing found with
  | nil => rfl
  | cons f fields ih =>
      rw [List.map_cons, List.foldl_cons, ih]
      by_cases h : f.key = bt "language"
      · rw [takeTok_language h]
      · rw [takeTok_other h]

theorem foldl_fields_other {fields : List Field} (h : ∀ f ∈ fields, f.key ≠ bt "language")
    (found : UInt8 × Option BString) : (fields.map Field.text).foldl takeTok found = found := by
  induction fields with
  | nil => rfl
  | cons f fields ih =>
      rw [List.map_cons, List.foldl_cons, takeTok_other (h f List.mem_cons_self)]
      exact ih fun g hg => h g (List.mem_cons_of_mem f hg)

/-- The language field is the only one that says anything, wherever it stands. -/
theorem foldl_fields (line : TagLine) (found : UInt8 × Option BString) :
    (line.fields.map Field.text).foldl takeTok found = (found.1, some line.lang) := by
  obtain ⟨f, hf, hkey, hvalue⟩ := line.lang_mem
  obtain ⟨before, after, hfields⟩ := List.append_of_mem hf
  have hnodup := line.keys_nodup
  rw [hfields, List.map_append, List.map_cons] at hnodup
  have hafter : ∀ g ∈ after, g.key ≠ bt "language" := by
    intro g hg heq
    have hnot := (List.nodup_cons.mp (List.nodup_append.mp hnodup).2.1).1
    apply hnot
    rw [hkey, ← heq]
    exact List.mem_map_of_mem hg
  rw [hfields, List.map_append, List.map_cons, List.foldl_append, List.foldl_cons,
    takeTok_language hkey, foldl_fields_other hafter, foldl_fields_kind, hvalue]

theorem takeTok_kind (found : UInt8 × Option BString) (kind : UInt8) :
    takeTok found [kind] = (kind, found.2) := rfl

/-! ### A line -/

/-- The name and the file come off, and something of the command is left before the rest. -/
theorem cutLine_text (hstrings : strings.Behaves) (line : TagLine) :
    ∃ s, cutLine strings line.text =
      { name := line.name
        matchFile := line.file
        toks := Delimited.tokens strings.memsep tab (s ++ tab :: line.extension) } := by
  obtain ⟨s, hs⟩ := advance_eq hstrings line.text (line.ex ++ bt ";\"") line.extension
  have hname : takeField strings line.text =
      (line.name, line.file ++ tab :: (line.ex ++ bt ";\"" ++ tab :: line.extension)) :=
    takeField_eq hstrings line.name_tab _
  refine ⟨s, ?_⟩
  unfold cutLine
  simp only [hname, takeField_eq hstrings line.file_tab, hs]

theorem tokens_extension (hstrings : strings.Behaves) (line : TagLine) :
    Delimited.tokens strings.memsep tab line.extension =
      [line.kind] :: line.fields.map Field.text := by
  have hkind : tab ∉ [line.kind] := by
    intro htab
    exact line.kind_tab (List.mem_singleton.mp htab).symm
  have hextension : line.extension =
      [line.kind] ++ (line.fields.map Field.text).flatMap fun t => tab :: t := by
    rw [TagLine.extension, List.flatMap_map]
  rw [hextension]
  apply Delimited.tokens_separated hstrings.splits (List.cons_ne_nil _ _) hkind
  intro t ht
  obtain ⟨f, -, rfl⟩ := List.mem_map.mp ht
  exact ⟨text_ne_nil f, tab_not_mem_text f⟩

/-- Whatever was found in the command, the kind and the language are found after it. -/
theorem foundIn_text (hstrings : strings.Behaves) (line : TagLine) (s : BString) :
    (Delimited.tokens strings.memsep tab (s ++ tab :: line.extension)).foldl takeTok (0, none) =
      (line.kind, some line.lang) := by
  obtain ⟨toks, htoks⟩ := Delimited.tokens_append hstrings.splits (d := tab) s line.extension
  rw [htoks, tokens_extension hstrings, List.foldl_append, List.foldl_cons, takeTok_kind,
    foldl_fields]

/--
**The fields that are used of a line are its own, whatever its command is.**
-/
theorem usesOwn (hstrings : strings.Behaves) (line : TagLine) : UsesOwn strings line := by
  obtain ⟨s, hs⟩ := cutLine_text hstrings line
  refine ⟨?_, ?_, ?_⟩
  · rw [hs]
  · rw [hs]
  · rw [foundIn, hs]
    exact foundIn_text hstrings line s

def plainStrings : Strings where
  memsep := Delimited.strsep
  strchr := Delimited.strchr
  before := fun _ => tab

theorem plainStrings_behaves : plainStrings.Behaves where
  splits := Delimited.strsep_splits
  finds := Delimited.strchr_finds

/-- A field as it is written. -/
def field (key value : BString) (h : key ≠ [] ∧ colon ∉ key ∧ tab ∉ key ∧ tab ∉ value) : Field :=
  ⟨key, value, h.1, h.2.1, h.2.2.1, h.2.2.2⟩

/-- A function of a Go file.  Its line has a letter and a language between tabs. -/
def commandLine : TagLine where
  name := bt "main"
  file := bt "a.go"
  ex := bt "/^func main()\tx\tlanguage:C\ty$/"
  kind := 102
  fields :=
    [ field (bt "line") (bt "3") (by decide),
      field (bt "language") (bt "Go") (by decide),
      field (bt "file") [] (by decide) ]
  lang := bt "Go"
  name_tab := by decide
  file_tab := by decide
  kind_tab := by decide
  keys_nodup := by decide
  lang_mem := ⟨_, List.mem_cons_of_mem _ List.mem_cons_self, rfl, rfl⟩

theorem usesOwn_commandLine : UsesOwn plainStrings commandLine :=
  usesOwn plainStrings_behaves commandLine

/-! ### The tag of a line -/

theorem searchLine_eq (lib : Library) (data : Filter) {line : BString} {kind : UInt8}
    {matchLang : BString} (hline : ¬(line.length < 1 ∨ byteAt line 0 = UInt8.ofNat '!'.toNat))
    (hfound : foundIn (lib.fields line) = (kind, some matchLang)) :
    searchLine lib data line =
      prune lib data (lib.fields line).name (lib.fields line).matchFile kind matchLang := by
  unfold searchLine
  rw [if_neg hline]
  unfold foundIn at hfound
  simp only [hfound]
  rfl

/-- **The tag that is added for a line is the one that its own fields make.** -/
theorem searchLine_text (hstrings : strings.Behaves) (lib : Library) (data : Filter)
    (line : TagLine) (hcomment : byteAt line.text 0 ≠ UInt8.ofNat '!'.toNat) :
    searchLine (lib.withStrings strings) data line.text =
      prune (lib.withStrings strings) data line.name line.file line.kind line.lang := by
  obtain ⟨s, hs⟩ := cutLine_text hstrings line
  have hlength : 0 < line.text.length := by
    rw [TagLine.text, List.length_append, List.length_cons]
    omega
  have hline : ¬(line.text.length < 1 ∨ byteAt line.text 0 = UInt8.ofNat '!'.toNat) := by
    rw [not_or]
    exact ⟨by omega, hcomment⟩
  have hfields : (lib.withStrings strings).fields line.text = cutLine strings line.text := rfl
  have hfound : foundIn ((lib.withStrings strings).fields line.text) =
      (line.kind, some line.lang) := by
    rw [hfields, hs]
    exact foundIn_text hstrings line s
  rw [searchLine_eq _ data hline hfound, hfields, hs]

end TagHighlight.CtagsScan
