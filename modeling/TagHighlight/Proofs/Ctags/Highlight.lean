/-
Each tag in one command.

The scan orders the tags by kind, so what `handle_kind` goes over from the first tag of a kind
on is all tags of the kind.  And it lets a kind through only if `strchr` finds it in `order`, so
there is a group for each tag.

There is one exception, the NUL that ends `order`.  A line has a kind that is not NUL, but an
equivalence without a second letter makes it one.  Such a tag is found in every `order`, and has
no group.
-/
import TagHighlight.Proofs.Ctags.Commands
import Mathlib.Data.List.Nodup

namespace TagHighlight.Commands

open Ascii CtagsScan

variable {ft : Settings} {info : CmdCallInfo} {infos : List CmdCallInfo} {tags : List Tag}

/-! ### The text of a command

There are two forms of a command, one with a pattern and one with keywords.  In both the names
stand one behind the other, in a pattern with bars between them and as keywords with a blank
behind each; what is in front of them and behind them is the same for all groups but for the
group.
-/

theorem intercalate_cons (sep name : BString) (names : List BString) :
    sep.intercalate (name :: names) = name ++ names.flatMap (sep ++ ·) := by
  induction names generalizing name with
  | nil => simp
  | cons next names ih =>
      rw [List.intercalate_cons_cons, ih]
      simp

theorem matchCommand_text (first : Tag) (others : List Tag)
    (hfix : info.matchPrefix.isSome ∨ info.matchSuffix.isSome) :
    bt "silent! syntax clear " ++ groupId ft info ++ bt " | " ++ matchCommand ft info first others =
      commandText ft info ((first :: others).map Tag.name) := by
  unfold commandText matchCommand
  rw [if_pos hfix, List.map_cons, intercalate_cons]
  cases ft.allbut with
  | none => simp [List.flatMap_map, bt]
  | some allbut => simp [List.flatMap_map, bt]

theorem keywordCommand_text (first : Tag) (others : List Tag)
    (hfix : ¬(info.matchPrefix.isSome ∨ info.matchSuffix.isSome)) :
    bt "silent! syntax clear " ++ groupId ft info ++ bt " | " ++
        keywordCommand ft info first others =
      commandText ft info ((first :: others).map Tag.name) := by
  unfold commandText keywordCommand
  rw [if_neg hfix]
  simp [List.flatMap_map]

theorem handleKind_text (ft : Settings) (info : CmdCallInfo)
    (hsorted : tags.Pairwise fun a b => a.kind ≤ b.kind) (hmem : hasTag tags info = true) :
    ∃ n, handleKind (firstOf tags info.kind) ft tags info =
      .ok (commandText ft info (namesOf info.kind tags), n) := by
  have hmem' : ∃ tag ∈ tags, tag.kind = info.kind := by simpa [hasTag] using hmem
  obtain ⟨first, others, n, hfilter, hkind⟩ := handleKind_eq ft info hsorted hmem'
  refine ⟨n, ?_⟩
  rw [hkind, namesOf, hfilter]
  by_cases hfix : info.matchPrefix.isSome ∨ info.matchSuffix.isSome
  · rw [if_pos hfix, matchCommand_text first others hfix]
  · rw [if_neg hfix, keywordCommand_text first others hfix]

theorem firstOf_ne_iff : firstOf tags info.kind ≠ tags.length ↔ hasTag tags info = true := by
  unfold firstOf hasTag
  rw [Ne, List.findIdx_eq_length, List.any_eq_true]
  simp

/-- The commands are those of the groups that have a tag. -/
theorem groupCommands_eq (ft : Settings) (infos : List CmdCallInfo)
    (hsorted : tags.Pairwise fun a b => a.kind ≤ b.kind) :
    groupCommands ft tags infos = .ok ((infos.filter (hasTag tags)).map fun info =>
      commandText ft info (namesOf info.kind tags)) := by
  induction infos with
  | nil => rfl
  | cons info infos ih =>
      unfold groupCommands
      rw [ih]
      simp only [Fault.ok_bind]
      by_cases hmem : hasTag tags info = true
      · obtain ⟨n, hkind⟩ := handleKind_text ft info hsorted hmem
        rw [if_pos (firstOf_ne_iff.mpr hmem), hkind, List.filter_cons_of_pos hmem]
        rfl
      · rw [if_neg (fun hne => hmem (firstOf_ne_iff.mp hne)), List.filter_cons_of_neg hmem]

/-! ### The groups of the tags

Where no letter stands twice in the order, there is at most one group for a kind.  So a tag is in
one command if its kind is a letter of the order, and in none otherwise.
-/

/-- There is at most one group for a kind, and one for each letter of the order. -/
theorem existsUnique_group_iff (hnodup : (infos.map CmdCallInfo.kind).Nodup) {tag : Tag}
    (htag : tag ∈ tags) :
    (∃! info, info ∈ infos.filter (hasTag tags) ∧ tag.kind = info.kind) ↔
      tag.kind ∈ infos.map CmdCallInfo.kind := by
  constructor
  · rintro ⟨info, ⟨hmem, hkind⟩, -⟩
    exact List.mem_map.mpr ⟨info, (List.mem_filter.mp hmem).1, hkind.symm⟩
  · intro hmem
    obtain ⟨info, hinfo, hkind⟩ := List.mem_map.mp hmem
    refine ⟨info, ⟨List.mem_filter.mpr ⟨hinfo, ?_⟩, hkind.symm⟩, ?_⟩
    · rw [hasTag, List.any_eq_true]
      exact ⟨tag, htag, decide_eq_true hkind.symm⟩
    · rintro other ⟨hother, hsame⟩
      exact List.inj_on_of_nodup_map hnodup (List.mem_filter.mp hother).1 hinfo
        (hsame.symm.trans hkind.symm)

theorem highlightsOnce_iff (hsorted : tags.Pairwise fun a b => a.kind ≤ b.kind)
    (hnodup : (infos.map CmdCallInfo.kind).Nodup) :
    HighlightsOnce ft infos tags ↔ ∀ tag ∈ tags, tag.kind ∈ infos.map CmdCallInfo.kind := by
  constructor
  · intro h tag htag
    exact (existsUnique_group_iff hnodup htag).mp (h.once tag htag)
  · intro h
    refine ⟨?_, fun tag htag => (existsUnique_group_iff hnodup htag).mpr (h tag htag)⟩
    unfold updateCommands
    rw [groupCommands_eq ft infos hsorted]
    rfl

/-! ### What the scan lets through

A line passes if its kind is found in the order and its name in the buffer.  `strchr` finds the
NUL at the end of every string, so a kind that was made a NUL is let through by every order.
-/

section Scan

variable {lib : Library} {bdata : Buffer} {vimbuf : List BString} {data : Filter} {tag : Tag}
  {line : BString}

theorem strchr_iff (order : BString) (kind : UInt8) :
    strchr order kind = true → kind = 0 ∨ kind ∈ order := by
  intro h
  rw [strchr, Bool.or_eq_true, List.contains_iff_mem] at h
  rcases h with h | h
  · exact Or.inl (by simpa using h)
  · exact Or.inr ((List.takeWhile_sublist _).subset h)

/-- What a line must be for its tag to pass. -/
theorem searchLine_some (h : searchLine lib data line = some tag) :
    tag.name = (lib.fields line).name ∧ kindOf lib line ≠ 0 ∧
      tag.kind = (inOrder data.equiv data.order (kindOf lib line)).1 ∧
      (tag.kind = 0 ∨ tag.kind ∈ data.order) := by
  unfold searchLine at h
  by_cases hskip : line.length < 1 ∨ byteAt line 0 = UInt8.ofNat '!'.toNat
  · rw [if_pos hskip] at h
    cases h
  rw [if_neg hskip] at h
  obtain ⟨⟨kind, lang⟩, hfold⟩ : ∃ found, (lib.fields line).toks.foldl takeTok (0, none) = found :=
    ⟨_, rfl⟩
  have hkind : kindOf lib line = kind := by rw [kindOf, hfold]
  cases lang with
  | none =>
      simp only [hfold] at h
      cases h
  | some matchLang =>
      simp only [hfold] at h
      split at h
      · rename_i hpass
        have htag := Option.some.inj h
        rw [hkind, ← htag]
        exact ⟨rfl, hpass.1, rfl, strchr_iff _ _ hpass.2.1⟩
      · cases h

/-- Only an equivalence makes the kind NUL. -/
theorem kind_eq_zero_iff (h : searchLine lib data line = some tag) :
    tag.kind = 0 ↔ ReplacedByNothing data.equiv (kindOf lib line) := by
  obtain ⟨-, hne, hkind, -⟩ := searchLine_some h
  unfold ReplacedByNothing
  rw [hkind]
  unfold inOrder
  cases (data.equiv.getD []).find? fun pair => byteAt pair 0 = kindOf lib line with
  | none => simpa using hne
  | some pair => simp

/-- A scan that returns something had tokens and threads. -/
theorem of_processTags {qsort : List Tag → List Tag} {nthreads : Nat} {tags : List Tag}
    (hlist : processTags lib qsort bdata vimbuf nthreads = some tags) :
    vimbuf ≠ [] ∧ 1 ≤ nthreads := by
  constructor
  · rintro rfl
    cases hlist
  · rcases Nat.eq_zero_or_pos nthreads with rfl | hpos
    · unfold processTags at hlist
      split at hlist
      · cases hlist
      · split at hlist
        · cases hlist
        · cases hlist
    · exact hpos

/-- **`update_commands` puts every tag of the scan into one command exactly when no line that
passes, and has a name, is of a kind that an equivalence replaces by nothing.** -/
theorem highlights_iff {ft : Settings} {infos : List CmdCallInfo} {tags : List Tag}
    {qsort : List Tag → List Tag} {nthreads : Nat}
    (hiseq : ∀ a b, lib.iseq (some a) (some b) = decide (a = b)) (hqsort : Sorts qsort)
    (hnames : ∀ tag ∈ accepted lib bdata vimbuf, tag.name.length < 2 ^ 31)
    (hlist : processTags lib qsort bdata vimbuf nthreads = some tags)
    (hinfos : infos.map CmdCallInfo.kind = bdata.order) (hnodup : bdata.order.Nodup) :
    HighlightsOnce ft infos tags ↔
      ∀ line ∈ bdata.tags, (searchLine lib (filterOf lib bdata vimbuf) line).isSome →
        ReplacedByNothing bdata.equiv (kindOf lib line) →
          (lib.fields line).name = [] ∨ 0 ∈ bdata.order := by
  obtain ⟨hvim, hn⟩ := of_processTags hlist
  obtain ⟨hincreasing, hmem⟩ := mem_scanned hiseq hqsort hvim hnames hn
  have hscanned : scanned lib qsort bdata vimbuf nthreads = tags := by rw [scanned, hlist]; rfl
  rw [hscanned] at hincreasing hmem
  rw [highlightsOnce_iff (kind_le_of_increasing hincreasing) (hinfos ▸ hnodup), hinfos]
  constructor
  · intro h line hline hpass hnothing
    obtain ⟨tag, htag⟩ := Option.isSome_iff_exists.mp hpass
    have hzero := (kind_eq_zero_iff htag).mpr hnothing
    rw [← (searchLine_some htag).1]
    by_cases hname : tag.name = []
    · exact Or.inl hname
    · have hscanned := List.mem_filterMap.mpr ⟨line, hline, htag⟩
      refine Or.inr (hzero ▸ h tag ((hmem tag).mpr ⟨hscanned, ?_⟩))
      intro hno
      exact hname (congrArg Tag.name hno)
  · intro h tag htag
    obtain ⟨haccepted, hno⟩ := (hmem tag).mp htag
    obtain ⟨line, hline, hfound⟩ := List.mem_filterMap.mp haccepted
    obtain ⟨hname, -, -, hkind⟩ := searchLine_some hfound
    rcases hkind with hzero | hin
    · rcases h line hline (Option.isSome_iff_exists.mpr ⟨tag, hfound⟩)
        ((kind_eq_zero_iff hfound).mp hzero) with hnone | hin
      · refine absurd ?_ hno
        rw [← hname] at hnone
        cases tag
        simp_all [noTag, bt]
      · exact hzero ▸ hin
    · exact hin

end Scan

/-! ### One line -/

/-- A buffer whose tags file has this line. -/
def oneLine (line : BString) : Buffer := { twoLines with tags := [line] }

/-- The list of one tag comes out as it went in. -/
theorem processTags_one {line : BString} {tag : Tag} (hno : tag ≠ noTag)
    (haccepted : accepted plainLibrary (oneLine line) [bt "b"] = [tag]) :
    processTags plainLibrary qsortTags (oneLine line) [bt "b"] 1 = some [tag] := by
  rw [processTags_eq qsortTags (by decide) (Nat.le_refl 1), haccepted, if_neg (by simp)]
  have hdiffers : tag.kind ≠ noTag.kind ∨ tag.name ≠ noTag.name := by
    by_contra hsame
    rw [not_or, not_not, not_not] at hsame
    cases tag
    simp_all [noTag]
  simp [qsortTags, removeDuplicateTags, removeLoop, plainLibrary, hdiffers]

/-- A function, a prototype and a structure; the letter for structures is the first. -/
def mixedLines : Buffer :=
  { twoLines with
    tags := [bt "a\tx.c\t/^a/\tf\tlanguage:C", bt "b\tx.c\t/^b/\tp\tlanguage:C",
      bt "s\tx.c\t/^s/\ts\tlanguage:C"]
    order := bt "sf" }

def structures : CmdCallInfo := { functions with kind := 115, group := bt "Structure" }

/-- The prototype is put among the functions. -/
theorem highlights_iff_prototype : HighlightsOnce plainC [structures, functions]
    [⟨bt "a", 102⟩, ⟨bt "b", 102⟩, ⟨bt "s", 115⟩] := by
  have haccepted : accepted plainLibrary mixedLines [bt "b"] =
      [⟨bt "a", 102⟩, ⟨bt "b", 102⟩, ⟨bt "s", 115⟩] := by decide
  have hsorted : qsortTags [⟨bt "a", 102⟩, ⟨bt "b", 102⟩, ⟨bt "s", 115⟩] =
      [⟨bt "a", 102⟩, ⟨bt "b", 102⟩, ⟨bt "s", 115⟩] := List.mergeSort_of_pairwise (by decide)
  have hlist : processTags plainLibrary qsortTags mixedLines [bt "b"] 2 =
      some [⟨bt "a", 102⟩, ⟨bt "b", 102⟩, ⟨bt "s", 115⟩] := by
    rw [processTags_eq qsortTags (by decide) (by decide), haccepted, if_neg (by simp), hsorted]
    decide
  exact (highlights_iff (fun _ _ => by simp [plainLibrary]) sorts_qsortTags
    (by rw [haccepted]; decide) hlist rfl (by decide)).mpr (by decide)

/-- A kind that is replaced by nothing: the tag is let through, and no command lists it. -/
theorem highlights_nothing :
    processTags plainLibrary qsortTags (oneLine (bt "b\tx.c\t/^b/\tk\tlanguage:C")) [bt "b"] 1 =
        some [⟨bt "b", 0⟩] ∧
      updateCommands plainC [functions] [⟨bt "b", 0⟩] = .ok [bt "ownsyntax"] ∧
      ¬HighlightsOnce plainC [functions] [⟨bt "b", 0⟩] := by
  refine ⟨processTags_one (by decide) (by decide), rfl, fun h => ?_⟩
  obtain ⟨info, ⟨hmem, -⟩, -⟩ := h.once ⟨bt "b", 0⟩ (List.mem_singleton_self _)
  exact absurd hmem (by simp [hasTag, functions])

end TagHighlight.Commands
