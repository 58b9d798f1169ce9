/-
What the scan finds, for any number of threads.

The parts that the threads get make up the tags file, and each thread keeps the order of
its part, so all together they find what one thread would.  Then it is a matter of sorting
and of dropping repeats.  `tag_cmp` is the order of the keys (kind, length, bytes), as long
as the lengths fit in an `int`.  Its least tag is the one that the comparison with the last
tag starts from, so that one is the only tag that can get lost.

`qsort` is any function that sorts, and `bsearch` and the functions on strings are parameters too.
So nothing depends on which of two equal tags comes first, for they are dropped but for one, and
equal tags are the same.
-/
import TagHighlight.Lang.CtagsScan
import TagHighlight.Lib.Collect
import Mathlib.Data.List.Lex
import Mathlib.Data.Prod.Lex

namespace TagHighlight.CtagsScan

variable {lib : Library} {bdata : Buffer} {vimbuf : List BString}

/-! ### What the threads find together

The lines are dealt out in stretches of equal length, and the last thread takes what is left over.
So the stretches put one behind the other are the lines, and the lists that come back are those of
the tags that pass, in order.
-/

theorem foldl_searchStep (data : Filter) (lines : List BString) (ret : List Tag) :
    lines.foldl (searchStep lib data) ret = ret ++ lines.filterMap (searchLine lib data) := by
  induction lines generalizing ret with
  | nil => simp
  | cons line lines ih =>
      rw [List.foldl_cons, ih, List.filterMap_cons]
      unfold searchStep
      cases searchLine lib data line with
      | none => rfl
      | some tag => simp [addTagToList]

theorem doTokSearch_getD (data : Pdata) :
    (doTokSearch lib data).getD [] =
      (data.lst.take data.num).filterMap (searchLine lib data.filter) := by
  unfold doTokSearch
  split
  · rename_i hnone
    rw [hnone, List.take_zero]
    rfl
  · rw [Option.getD_some, foldl_searchStep, List.nil_append]

/-- What the threads return, as it is combined. -/
def found (lib : Library) (bdata : Buffer) (vimbuf : List BString) (nthreads : Nat) :
    List (Option (List Tag)) :=
  (tokSearchLaunchThreads lib bdata vimbuf nthreads).map (doTokSearch lib)

theorem flatMap_found {nthreads : Nat} (hn : 1 ≤ nthreads) :
    (found lib bdata vimbuf nthreads).flatMap (fun list => list.getD []) =
      accepted lib bdata vimbuf := by
  unfold found tokSearchLaunchThreads accepted
  rw [List.map_map, List.flatMap_map]
  simp only [Function.comp_def, doTokSearch_getD]
  rw [← List.filterMap_flatMap]
  exact congrArg _ (Collect.flatMap_part bdata.tags hn)

/-- The scan on any number of threads, in terms of the accepted tags. -/
theorem processTags_eq (qsort : List Tag → List Tag) (hvim : vimbuf ≠ []) {nthreads : Nat}
    (hn : 1 ≤ nthreads) :
    processTags lib qsort bdata vimbuf nthreads =
      if accepted lib bdata vimbuf = [] then none
      else some (removeDuplicateTags lib (qsort (accepted lib bdata vimbuf))) := by
  have hsize : ((found lib bdata vimbuf nthreads).map fun list => (list.getD []).length).sum =
      (accepted lib bdata vimbuf).length := by
    rw [← flatMap_found hn, List.length_flatMap]
  unfold processTags
  rw [if_neg (by simpa using hvim)]
  split
  · rename_i hnone
    rw [if_pos (by simp [accepted, List.length_eq_zero_iff.mp hnone])]
  · change (tokSearchJoinThreads (found lib bdata vimbuf nthreads)).bind _ = _
    unfold tokSearchJoinThreads
    dsimp only
    rw [hsize]
    split
    · rename_i hzero
      rw [if_pos (List.length_eq_zero_iff.mp hzero)]
      rfl
    · rename_i hsome
      rw [if_neg (by simpa using hsome), Option.bind_some]
      unfold tokSearchCombineData
      dsimp only
      rw [flatMap_found hn]

/-! ### The order of tags

`tag_cmp` returns differences, and a difference of lengths is an `int`.  With lengths of 31 bits
it has the sign that it should have, and then this is the order of a key.  Two tags with one key
are the same tag.
-/

/-- `tag_cmp` compares kinds, then lengths, then bytes. -/
def Tag.key (tag : Tag) : Nat ×ₗ Nat ×ₗ List Nat :=
  toLex (tag.kind.toNat, toLex (tag.name.length, tag.name.map UInt8.toNat))

theorem key_injective : Function.Injective Tag.key := by
  intro a b h
  have hkind : a.kind.toNat = b.kind.toNat := congrArg (fun k => (ofLex k).1) h
  have hname : a.name.map UInt8.toNat = b.name.map UInt8.toNat :=
    congrArg (fun k => (ofLex (ofLex k).2).2) h
  obtain ⟨name, kind⟩ := a
  obtain ⟨name', kind'⟩ := b
  rw [Tag.mk.injEq]
  exact ⟨List.map_injective_iff.mpr (fun _ _ => UInt8.toNat_inj.mp) hname, UInt8.toNat_inj.mp hkind⟩

theorem noTag_le (tag : Tag) : Tag.key noTag ≤ Tag.key tag := by
  unfold Tag.key
  rw [Prod.Lex.toLex_le_toLex, Prod.Lex.toLex_le_toLex]
  rcases Nat.eq_zero_or_pos tag.kind.toNat with hkind | hkind
  · refine Or.inr ⟨hkind.symm, ?_⟩
    rcases Nat.eq_zero_or_pos tag.name.length with hname | hname
    · refine Or.inr ⟨hname.symm, ?_⟩
      dsimp only
      rw [List.length_eq_zero_iff.mp hname]
      exact le_refl _
    · exact Or.inl hname
  · exact Or.inl hkind

theorem memcmp_neg {a b : BString} (h : a.length = b.length) :
    memcmp a b < 0 ↔ a.map UInt8.toNat < b.map UInt8.toNat := by
  induction a generalizing b with
  | nil =>
      rw [List.length_eq_zero_iff.mp h.symm]
      simp [memcmp]
  | cons x xs ih =>
      have hpos : 0 < b.length := by
        rw [← h]
        exact Nat.succ_pos _
      obtain ⟨y, ys, rfl⟩ := List.exists_cons_of_length_pos hpos
      rw [List.map_cons, List.map_cons, List.cons_lt_cons_iff]
      unfold memcmp
      split
      · rename_i hxy
        rw [ih (Nat.succ.inj h), hxy]
        simp
      · rename_i hxy
        have hne : x.toNat ≠ y.toNat := fun heq => hxy (UInt8.toNat_inj.mp heq)
        simp only [hne, false_and, or_false]
        omega

theorem memcmp_comm (a b : BString) : memcmp b a = -memcmp a b := by
  induction a generalizing b with
  | nil => cases b <;> simp [memcmp]
  | cons x xs ih =>
      cases b with
      | nil => simp [memcmp]
      | cons y ys =>
          unfold memcmp
          by_cases hxy : x = y
          · rw [if_pos hxy, if_pos hxy.symm, ih]
          · rw [if_neg hxy, if_neg (Ne.symm hxy)]
            omega

theorem toInt_of_lt {m n : Nat} (hm : m < 2 ^ 31) (hn : n < 2 ^ 31) :
    toInt ((m : Int) - n) = m - n := by
  unfold toInt
  exact Int.bmod_eq_of_le (by omega) (by omega)

section Order

variable {a b : Tag}

theorem tagCmp_neg (ha : a.name.length < 2 ^ 31) (hb : b.name.length < 2 ^ 31) :
    tagCmp a b < 0 ↔ a.key < b.key := by
  unfold tagCmp Tag.key
  rw [toInt_of_lt ha hb, Prod.Lex.toLex_lt_toLex, Prod.Lex.toLex_lt_toLex]
  split
  · rename_i hkind
    split
    · rename_i hlength
      rw [memcmp_neg hlength]
      simp [hkind, hlength]
    · rename_i hlength
      simp only [hkind, hlength, lt_irrefl, false_or, true_and, false_and, or_false]
      omega
  · rename_i hkind
    have hne : a.kind.toNat ≠ b.kind.toNat := fun heq => hkind (UInt8.toNat_inj.mp heq)
    simp only [hne, false_and, or_false]
    omega

theorem tagCmp_comm (ha : a.name.length < 2 ^ 31) (hb : b.name.length < 2 ^ 31) :
    tagCmp b a = -tagCmp a b := by
  unfold tagCmp
  rw [toInt_of_lt ha hb, toInt_of_lt hb ha]
  by_cases hkind : a.kind = b.kind
  · rw [if_pos hkind, if_pos hkind.symm]
    by_cases hlength : a.name.length = b.name.length
    · rw [if_pos hlength, if_pos hlength.symm]
      exact memcmp_comm _ _
    · rw [if_neg hlength, if_neg (Ne.symm hlength)]
      omega
  · rw [if_neg hkind, if_neg (Ne.symm hkind)]
    omega

theorem tagCmp_nonpos (ha : a.name.length < 2 ^ 31) (hb : b.name.length < 2 ^ 31) :
    tagCmp a b ≤ 0 ↔ a.key ≤ b.key := by
  have hcomm := tagCmp_comm ha hb
  rw [← not_lt (a := b.key), ← tagCmp_neg hb ha]
  omega

end Order

/-! ### Dropping repeats

In a sorted list repeats stand together, so it is enough to compare each tag with the one before
it.  The first one is compared with a tag of zeros that was made up for this, and so it is lost if
it is that tag.
-/

theorem removeLoop_eq (hiseq : ∀ a b, lib.iseq (some a) (some b) = decide (a = b)) (last : Tag)
    (list : List Tag) : removeLoop lib last list = Collect.dropRepeats last list := by
  induction list generalizing last with
  | nil => rfl
  | cons tag tags ih =>
      unfold removeLoop Collect.dropRepeats
      rw [ih, ih, hiseq]
      have hsame : (tag.kind ≠ last.kind ∨ ¬ decide (tag.name = last.name) = true) ↔ tag ≠ last := by
        obtain ⟨name, kind⟩ := tag
        obtain ⟨name', kind'⟩ := last
        simp only [ne_eq, decide_eq_true_eq, Tag.mk.injEq]
        tauto
      by_cases heq : tag = last
      · rw [if_neg (fun h => hsame.mp h heq), if_pos heq]
      · rw [if_pos (hsame.mpr heq), if_neg heq]

/-- What remains of a sorted list is strictly increasing, and only `noTag` is missing. -/
theorem removeDuplicateTags_spec (hiseq : ∀ a b, lib.iseq (some a) (some b) = decide (a = b))
    {qsort : List Tag → List Tag} (hqsort : Sorts qsort) {list : List Tag}
    (hnames : ∀ tag ∈ list, tag.name.length < 2 ^ 31) :
    (removeDuplicateTags lib (qsort list)).Pairwise (fun a b => tagCmp a b < 0) ∧
      ∀ tag, tag ∈ removeDuplicateTags lib (qsort list) ↔ tag ∈ list ∧ tag ≠ noTag := by
  have hmem : ∀ tag, tag ∈ qsort list ↔ tag ∈ list := fun tag => (hqsort.perm list).mem_iff
  have hnames' : ∀ tag ∈ qsort list, tag.name.length < 2 ^ 31 := fun tag h => hnames tag ((hmem tag).mp h)
  have hsorted : (qsort list).Pairwise fun a b => a.key ≤ b.key := by
    refine (hqsort.sorted list hnames).imp_of_mem fun ha hb hle => ?_
    exact (tagCmp_nonpos (hnames' _ ha) (hnames' _ hb)).mp hle
  have hstrict := Collect.dropRepeats_sorted key_injective hsorted fun tag _ => noTag_le tag
  obtain ⟨habove, hincreasing⟩ := List.pairwise_cons.mp hstrict
  unfold removeDuplicateTags
  rw [removeLoop_eq hiseq]
  have hkept : ∀ tag, tag ∈ Collect.dropRepeats noTag (qsort list) → tag ∈ qsort list :=
    fun _ => Collect.mem_of_mem_dropRepeats
  refine ⟨hincreasing.imp_of_mem fun ha hb hlt => ?_, fun tag => ⟨fun h => ?_, fun h => ?_⟩⟩
  · exact (tagCmp_neg (hnames' _ (hkept _ ha)) (hnames' _ (hkept _ hb))).mpr hlt
  · refine ⟨(hmem tag).mp (hkept tag h), fun hno => ?_⟩
    exact lt_irrefl _ (hno ▸ habove tag h)
  · exact (Collect.mem_dropRepeats ((hmem tag).mpr h.1)).resolve_left h.2

/-- The tags that the scan returns; a null pointer stands for none. -/
def scanned (lib : Library) (qsort : List Tag → List Tag) (bdata : Buffer) (vimbuf : List BString)
    (nthreads : Nat) : List Tag :=
  (processTags lib qsort bdata vimbuf nthreads).getD []

theorem mem_scanned (hiseq : ∀ a b, lib.iseq (some a) (some b) = decide (a = b))
    {qsort : List Tag → List Tag} (hqsort : Sorts qsort) (hvim : vimbuf ≠ [])
    (hnames : ∀ tag ∈ accepted lib bdata vimbuf, tag.name.length < 2 ^ 31) {nthreads : Nat}
    (hn : 1 ≤ nthreads) :
    (scanned lib qsort bdata vimbuf nthreads).Pairwise (fun a b => tagCmp a b < 0) ∧
      ∀ tag, tag ∈ scanned lib qsort bdata vimbuf nthreads ↔
        tag ∈ accepted lib bdata vimbuf ∧ tag ≠ noTag := by
  unfold scanned
  rw [processTags_eq qsort hvim hn]
  split
  · rename_i hnone
    rw [hnone]
    simp
  · exact removeDuplicateTags_spec hiseq hqsort hnames

/--
**The scan on any number of threads gives what it gives on one**, and that is every accepted
tag once, in increasing order, unless the tag without name and kind is accepted: that one is
dropped.
-/
theorem processTags_isScan_iff (hiseq : ∀ a b, lib.iseq (some a) (some b) = decide (a = b))
    {qsort : List Tag → List Tag} (hqsort : Sorts qsort) (hvim : vimbuf ≠ [])
    (hnames : ∀ tag ∈ accepted lib bdata vimbuf, tag.name.length < 2 ^ 31) {nthreads : Nat}
    (hn : 1 ≤ nthreads) :
    (processTags lib qsort bdata vimbuf nthreads = processTags lib qsort bdata vimbuf 1 ∧
      IsScan lib bdata vimbuf (scanned lib qsort bdata vimbuf nthreads)) ↔
    noTag ∉ accepted lib bdata vimbuf := by
  obtain ⟨hincreasing, hmem⟩ := mem_scanned hiseq hqsort hvim hnames hn
  refine ⟨fun h hno => ?_, fun hno => ⟨?_, hincreasing, fun tag => ?_⟩⟩
  · exact ((hmem noTag).mp ((h.2.mem_iff noTag).mpr hno)).2 rfl
  · rw [processTags_eq qsort hvim hn, processTags_eq qsort hvim (Nat.le_refl 1)]
  · rw [hmem]
    exact ⟨fun h => h.1, fun h => ⟨h, fun heq => hno (heq ▸ h)⟩⟩

/-! ### Two lines -/

/-- Cuts at every tab; the search pattern is the third field. -/
def cutFields (line : BString) : Fields :=
  let parts := line.splitOn 9
  { name := parts.getD 0 [], matchFile := parts.getD 1 [], toks := parts.drop 3 }

def plainLibrary : Library where
  fields := cutFields
  iseq a b := a = b
  iseqCaseless a b := a = b
  bsearch := fun name list => list.contains name
  qsort := id

def keyLe (a b : Tag) : Bool := a.key ≤ b.key

/-- Sorts by what `tag_cmp` compares. -/
def qsortTags (list : List Tag) : List Tag := list.mergeSort keyLe

theorem sorts_qsortTags : Sorts qsortTags where
  perm list := List.mergeSort_perm list keyLe
  sorted list hnames := by
    have htrans : ∀ a b c, keyLe a b = true → keyLe b c = true → keyLe a c = true := by
      simpa [keyLe] using fun (a b c : Tag) => le_trans (a := a.key) (b := b.key) (c := c.key)
    have htotal : ∀ a b, (keyLe a b || keyLe b a) = true := by
      simpa [keyLe] using fun (a b : Tag) => le_total a.key b.key
    have hmem : ∀ tag ∈ qsortTags list, tag.name.length < 2 ^ 31 :=
      fun tag h => hnames tag (List.mem_mergeSort.mp h)
    refine (List.pairwise_mergeSort htrans htotal list).imp_of_mem fun ha hb hle => ?_
    exact (tagCmp_nonpos (hmem _ ha) (hmem _ hb)).mpr (of_decide_eq_true hle)

/-- A file type whose kind `p` is highlighted as `f`, and `k` as nothing. -/
def twoLines : Buffer where
  tags := [bt "b\tx.c\t/^b/\tp\tlanguage:C", bt "a\tx.c\t/^a/\tf\tlanguage:C",
    bt "b\ty.c\t/^b/\tf\tlanguage:C"]
  ignoredTags := []
  equiv := some [bt "pf", bt "k"]
  ctagsName := bt "C"
  order := bt "f"
  filename := bt "x.c"
  isCOrCpp := true

theorem processTags_isScan_iff_two :
    processTags plainLibrary qsortTags twoLines [bt "b"] 2 =
        processTags plainLibrary qsortTags twoLines [bt "b"] 1 ∧
      IsScan plainLibrary twoLines [bt "b"]
        (scanned plainLibrary qsortTags twoLines [bt "b"] 2) :=
  (processTags_isScan_iff (fun _ _ => by simp [plainLibrary]) sorts_qsortTags (by decide)
    (by decide) (by decide)).mpr (by decide)

/-- A line without a name, of the kind that stands for nothing. -/
def namelessLine : Buffer :=
  { twoLines with tags := [bt "\tx.c\t/^/\tk\tlanguage:C"] }

/-- Its tag passes the filter, and the scan returns nothing. -/
theorem namelessLine_dropped :
    accepted plainLibrary namelessLine [bt "b"] = [noTag] ∧
      scanned plainLibrary qsortTags namelessLine [bt "b"] 1 = [] ∧
      ¬ IsScan plainLibrary namelessLine [bt "b"]
        (scanned plainLibrary qsortTags namelessLine [bt "b"] 1) := by
  have haccepted : accepted plainLibrary namelessLine [bt "b"] = [noTag] := by decide
  have hscanned : scanned plainLibrary qsortTags namelessLine [bt "b"] 1 = [] := by
    unfold scanned
    rw [processTags_eq qsortTags (by decide) (Nat.le_refl 1), haccepted]
    simp [qsortTags, removeDuplicateTags, removeLoop, plainLibrary]
  refine ⟨haccepted, hscanned, fun h => ?_⟩
  have hmem := (h.mem_iff noTag).mpr (by rw [haccepted]; exact List.mem_singleton_self _)
  rw [hscanned] at hmem
  exact List.not_mem_nil hmem

end TagHighlight.CtagsScan
