/-
Which projects share a cached tag file.

Every slash of the path becomes two underscores, and an underscore stays as it is.  So the name
keeps a path up to how its runs of slashes and underscores are made up: what is left of a run is
its weight, the number of underscores that it becomes.  `outline` is the path with this much of
its runs; it can be computed from the name, and the name from it.

The file type is behind the last dot but for the suffix, and has none itself.

Of the string library only one promise is used, that it makes room for what it appends.  Whether a
file system tells the names apart, by their length or by upper and lower case, is left to it.
-/
import TagHighlight.Buffer.Topdir
import Mathlib.Data.List.Basic

namespace TagHighlight.Topdir

open Ascii Archive

/-! ### The loop

The loop compares its index with the room of the text it makes, not with the length of the path.
This text has at least one byte for each byte of the path and is inside its buffer, so both are
always ahead of the index, and the loop ends only where the path does.
-/

/-- What one byte becomes. -/
def escapeByte (ch : UInt8) : BString := if ch = slash then bt "__" else [ch]

/-- What a path becomes. -/
def escape (base : BString) : BString := base.flatMap escapeByte

theorem escapeByte_length_pos (ch : UInt8) : 0 < (escapeByte ch).length := by
  unfold escapeByte
  by_cases h : ch = slash
  · rw [if_pos h]
    decide
  · rw [if_neg h]
    exact Nat.zero_lt_one

/-- The loop never ends before the path: the text is ahead of the index, and fits its buffer. -/
theorem escapeLoop_data {lib : BStringLib} (hlib : ∀ mlen slen, slen ≤ lib.concat mlen slen)
    (base : BString) (i : Nat) (gzfile : Packed) (hi : i < gzfile.data.length)
    (hroom : gzfile.data.length ≤ gzfile.mlen) :
    (escapeLoop lib base i gzfile).data = gzfile.data ++ escape base := by
  induction base generalizing i gzfile with
  | nil => simp [escapeLoop, escape]
  | cons ch base ih =>
      have hstep : (if ch = slash then gzfile.concat lib (bt "__") else gzfile.concat lib [ch]) =
          gzfile.concat lib (escapeByte ch) := by
        unfold escapeByte
        by_cases h : ch = slash
        · rw [if_pos h, if_pos h]
        · rw [if_neg h, if_neg h]
      have hpos := escapeByte_length_pos ch
      unfold escapeLoop
      rw [if_pos (Nat.lt_of_lt_of_le hi hroom), hstep, ih]
      · simp [escape]
      · rw [Packed.concat_data, List.length_append]
        omega
      · rw [Packed.concat_data, List.length_append]
        exact hlib _ _

/-! ### What is left of a path

`outline` has the bytes of the path that are no slash and no underscore, and with each of them the
weight of the run that follows.  Escaping a path keeps the weights, and after it there is one run
only for each weight, the one of underscores.  So names are equal just if outlines are.
-/

theorem outline_cons_slash (s : BString) :
    outline (slash :: s) = ((outline s).1 + 2, (outline s).2) := rfl

theorem outline_cons_underscore (s : BString) :
    outline (underscore :: s) = ((outline s).1 + 1, (outline s).2) := rfl

theorem outline_cons_other {ch : UInt8} (s : BString) (hs : ch ≠ slash) (hu : ch ≠ underscore) :
    outline (ch :: s) = (0, (ch, (outline s).1) :: (outline s).2) := by
  rw [outline, if_neg hs, if_neg hu]

/-- The outline of the name is that of the path. -/
theorem outline_escape (base : BString) : outline (escape base) = outline base := by
  induction base with
  | nil => rfl
  | cons ch base ih =>
      have hcons : escape (ch :: base) = escapeByte ch ++ escape base := List.flatMap_cons
      rw [hcons]
      by_cases hs : ch = slash
      · subst hs
        show outline (underscore :: underscore :: escape base) = _
        rw [outline_cons_underscore, outline_cons_underscore, outline_cons_slash, ih]
      · rw [escapeByte, if_neg hs, List.singleton_append]
        by_cases hu : ch = underscore
        · subst hu
          rw [outline_cons_underscore, outline_cons_underscore, ih]
        · rw [outline_cons_other _ hs hu, outline_cons_other _ hs hu, ih]

/-- The name with this outline. -/
def render (o : Nat × List (UInt8 × Nat)) : BString :=
  List.replicate o.1 underscore ++
    o.2.flatMap fun run => run.1 :: List.replicate run.2 underscore

theorem render_outline (base : BString) : render (outline base) = escape base := by
  induction base with
  | nil => rfl
  | cons ch base ih =>
      have hcons : escape (ch :: base) = escapeByte ch ++ escape base := List.flatMap_cons
      rw [hcons, ← ih]
      by_cases hs : ch = slash
      · subst hs
        rw [outline_cons_slash]
        rfl
      · rw [escapeByte, if_neg hs, List.singleton_append]
        by_cases hu : ch = underscore
        · subst hu
          rw [outline_cons_underscore]
          rfl
        · rw [outline_cons_other _ hs hu]
          simp [render]

theorem escape_eq_iff (base₁ base₂ : BString) :
    escape base₁ = escape base₂ ↔ outline base₁ = outline base₂ := by
  constructor
  · intro h
    rw [← outline_escape base₁, ← outline_escape base₂, h]
  · intro h
    rw [← render_outline, ← render_outline, h]

/-! ### The name

What is behind the last dot but for the suffix is the file type, which has no dot in it.  So a
name can be taken apart at that dot, and two names are equal if both parts are.
-/

/-- What is behind the last dot. -/
theorem append_dot_inj {a b v w : BString} (hv : dot ∉ v) (hw : dot ∉ w) :
    a ++ dot :: v = b ++ dot :: w ↔ a = b ∧ v = w := by
  constructor
  · intro h
    rcases List.append_eq_append_iff.mp h with ⟨c, hb, hc⟩ | ⟨c, ha, hc⟩
    · cases c with
      | nil => simp_all
      | cons x c =>
          have : dot ∈ v := by
            rw [(List.cons.inj hc).2]
            exact List.mem_append_right c (List.mem_cons_self ..)
          exact absurd this hv
    · cases c with
      | nil => simp_all
      | cons x c =>
          have : dot ∈ w := by
            rw [(List.cons.inj hc).2]
            exact List.mem_append_right c (List.mem_cons_self ..)
          exact absurd this hw
  · rintro ⟨rfl, rfl⟩
    rfl

/-- What `get_tag_filename` puts behind the file type. -/
def suffix : CompType → BString
  | .lzma => bt ".tags.xz"
  | .gzip => bt ".tags.gz"
  | .none => bt ".tags"

theorem getTagFilename_eq (stem vimName : BString) (comptype : CompType) :
    getTagFilename stem vimName comptype = (stem ++ dot :: vimName) ++ suffix comptype := by
  cases comptype <;> simp [getTagFilename, suffix, bt]

theorem tagFilename_eq {lib : BStringLib} (hlib : ∀ mlen slen, slen ≤ lib.concat mlen slen)
    (cacheDir : Packed) (base : BString) (ft : Filetype) (comptype : CompType) :
    tagFilename lib cacheDir base ft comptype =
      (cacheDir.data ++ bt "/tags/" ++ escape base) ++ dot :: ft.vimName ++ suffix comptype := by
  unfold tagFilename
  rw [getTagFilename_eq, escapeLoop_data hlib]
  · rfl
  · rw [Packed.concat_data, List.length_append]
    exact Nat.lt_of_lt_of_le (by decide) (Nat.le_add_left _ _)
  · rw [Packed.concat_data, List.length_append]
    exact hlib _ _

/-- **Two projects have different tag files exactly when their file types differ, or their paths
differ in more than how the runs of slashes and underscores are made up.** -/
theorem tagFilename_ne_iff (lib : BStringLib) (cacheDir : Packed) (base₁ base₂ : BString)
    (ft₁ ft₂ : Filetype) (comptype : CompType)
    (hlib : ∀ mlen slen, slen ≤ lib.concat mlen slen) :
    tagFilename lib cacheDir base₁ ft₁ comptype ≠ tagFilename lib cacheDir base₂ ft₂ comptype ↔
      ft₁.vimName ≠ ft₂.vimName ∨ outline base₁ ≠ outline base₂ := by
  rw [tagFilename_eq hlib, tagFilename_eq hlib, Ne, List.append_left_inj,
    append_dot_inj ft₁.noDot ft₂.noDot, List.append_right_inj, escape_eq_iff, not_and_or, or_comm]

/-- A library that makes room for what is needed. -/
theorem tagFilename_ne_iff_project :
    tagFilename ⟨fun _ n => n, fun _ slen => slen⟩ ⟨bt "/cache", 6, false⟩ (bt "/home/u")
        ⟨bt "c", true, by decide⟩ .gzip ≠
      tagFilename ⟨fun _ n => n, fun _ slen => slen⟩ ⟨bt "/cache", 6, false⟩ (bt "/home/v")
        ⟨bt "c", true, by decide⟩ .gzip ↔
      bt "c" ≠ bt "c" ∨ outline (bt "/home/u") ≠ outline (bt "/home/v") :=
  tagFilename_ne_iff _ _ _ _ ⟨bt "c", true, by decide⟩ ⟨bt "c", true, by decide⟩ _
    fun _ slen => Nat.le_refl slen

/-- The projects `/a/b` and `/a__b` have the same tag file. -/
theorem tagFilename_collision :
    bt "/a/b" ≠ bt "/a__b" ∧
      tagFilename ⟨fun _ n => n, fun _ slen => slen⟩ ⟨bt "/cache", 6, false⟩ (bt "/a/b")
          ⟨bt "c", true, by decide⟩ .gzip =
        tagFilename ⟨fun _ n => n, fun _ slen => slen⟩ ⟨bt "/cache", 6, false⟩ (bt "/a__b")
          ⟨bt "c", true, by decide⟩ .gzip := by
  decide

end TagHighlight.Topdir
