/-
Which project a buffer belongs to, and what becomes of the option `tags`.

A recorded directory is a candidate if its text occurs anywhere in the path of the buffer.  All
ancestors of the buffer's directory are among the candidates, so the longest candidate is the
right answer unless a directory that is none of them gets in its way.

The option grows through an array of 2048 bytes.  What is written to it has no NUL, so that a
value without one can only come out of the array if the text and its end had room in it.

The first of these results is about one call of `init_topdir`, for any settings.  The second is
about a run of calls: the option is a fold over the names of the projects, so it is enough to know
when a fold of this kind comes through.
-/
import TagHighlight.Buffer.Topdir
import Mathlib.Data.List.Induction
import Mathlib.Data.List.MinMax
import Mathlib.Data.List.TakeWhile

namespace TagHighlight.Topdir

open Ascii Archive

/-! ### Lines and directories

A line of the settings file is cut at its tab, and what is in front of it is looked for in the
path with `strstr`.  So a candidate is a directory, recorded for this file type, that occurs
anywhere in the path, and the loop collects just those, in the order of the lines.
-/

variable {ft : Filetype} {lines : List BString} {dir : BString}

theorem idxOf?_eq_some {ch : UInt8} (s : BString) (h : ch ∈ s) :
    s.idxOf? ch = some (s.takeWhile (· ≠ ch)).length := by
  induction s with
  | nil => simp at h
  | cons b s ih =>
      rw [List.idxOf?_cons]
      by_cases hb : b = ch
      · simp [hb]
      · have hs : ch ∈ s := by
          rcases List.mem_cons.mp h with heq | hs
          · exact absurd heq.symm hb
          · exact hs
        simp [hb, ih hs]

theorem take_length_takeWhile (p : UInt8 → Bool) (s : BString) :
    s.take (s.takeWhile p).length = s.takeWhile p :=
  (List.prefix_iff_eq_take.mp (List.takeWhile_prefix p)).symm

theorem drop_length_takeWhile (p : UInt8 → Bool) (s : BString) :
    s.drop (s.takeWhile p).length = s.dropWhile p := by
  have hsplit : s.takeWhile p ++ s.drop (s.takeWhile p).length =
      s.takeWhile p ++ s.dropWhile p := by
    rw [List.takeWhile_append_dropWhile, ← take_length_takeWhile p s, List.length_take_of_le,
      List.take_append_drop]
    exact List.Sublist.length_le (List.takeWhile_sublist p)
  exact List.append_cancel_left hsplit

theorem strstr_iff (needle : BString) (s : BString) : strstr needle s = true ↔ needle <:+: s := by
  induction s with
  | nil => simp [strstr]
  | cons b s ih => rw [strstr, Bool.or_eq_true, ih, List.isPrefixOf_iff_prefix, List.infix_cons_iff]

theorem cstr_isPrefix {s t : BString} (h : s <+: t) : cstr s <+: cstr t := by
  obtain ⟨u, rfl⟩ := h
  unfold cstr
  rw [List.takeWhile_append]
  by_cases hs : (s.takeWhile (· ≠ 0)).length = s.length
  · rw [if_pos hs]
    exact (List.takeWhile_prefix _).trans (List.prefix_append _ _)
  · rw [if_neg hs]

theorem drop_pathOf (line : BString) :
    cstr (line.drop ((pathOf line).length + 1)) = fileTypeOf line := by
  unfold fileTypeOf pathOf
  rw [← List.drop_drop, drop_length_takeWhile]

/-- The candidates are the recorded directories that occur in the path. -/
theorem candidates_eq (hlen : ∀ line ∈ lines, line.length < 2 ^ 32) :
    getProjectDirectoryCandidates dir ft lines = .ok (occurring ft lines dir) := by
  induction lines with
  | nil => rfl
  | cons tmp fp ih =>
      have htmp : tmp.length < 2 ^ 32 := hlen tmp (List.mem_cons_self ..)
      specialize ih fun line hline => hlen line (List.mem_cons_of_mem _ hline)
      unfold getProjectDirectoryCandidates
      by_cases htab : tab ∈ tmp
      · have hn : bStrchr tmp tab = ((pathOf tmp).length : Int) := by
          unfold bStrchr pathOf
          rw [idxOf?_eq_some tmp htab]
        have hle : (pathOf tmp).length ≤ tmp.length :=
          List.Sublist.length_le (List.takeWhile_sublist _)
        simp only [hn]
        rw [if_neg (by omega), if_neg (by omega)]
        simp only [Int.toNat_natCast, drop_pathOf]
        rw [show tmp.take (pathOf tmp).length = pathOf tmp from take_length_takeWhile _ _]
        by_cases hft : isFor ft (fileTypeOf tmp) = true
        · rw [if_neg (by simp [hft])]
          by_cases hocc : strstr (cstr (pathOf tmp)) (cstr dir) = true
          · rw [if_pos hocc, ih]
            simp [occurring, recorded, htab, hft, hocc]
          · rw [if_neg hocc, ih]
            simp [occurring, recorded, htab, hft, hocc]
        · rw [if_pos (by simp [hft]), ih]
          simp [occurring, recorded, hft]
      · have hn : bStrchr tmp tab = -1 := by
          unfold bStrchr
          rw [List.idxOf?_eq_none_iff.mpr htab]
        simp only [hn]
        rw [if_pos (by omega), ih]
        simp [occurring, recorded, htab]

/-! ### The longest

The loop keeps the first of the longest candidates.  An ancestor of the directory begins its path
and so occurs in it; so the right answer is among the candidates, and it is the one that is kept
unless another one is longer, or as long and in front of it.
-/

/-- An ancestor is a part of the path. -/
theorem occurs_of_isAncestor {path : BString} (h : IsAncestor path dir) :
    strstr (cstr path) (cstr dir) = true := by
  rw [strstr_iff]
  rcases h with heq | ⟨-, hpre, -⟩
  · rw [heq]
  · exact (cstr_isPrefix hpre).isInfix

theorem mem_occurring {path : BString} (h : path ∈ recorded ft lines)
    (hanc : IsAncestor path dir) : path ∈ occurring ft lines dir :=
  List.mem_filter.mpr ⟨h, occurs_of_isAncestor hanc⟩

theorem recorded_of_occurring {path : BString} (h : path ∈ occurring ft lines dir) :
    path ∈ recorded ft lines :=
  (List.mem_filter.mp h).1

/-- The loop keeps the first of the longest. -/
theorem argmax_longestOf (first : BString) (others : List BString) :
    (first :: others).argmax List.length = some (longestOf first (first :: others)) := by
  have hfirst : longestOf first (first :: others) = longestOf first others := by
    simp [longestOf]
  rw [hfirst]
  induction others using List.reverseRecOn with
  | nil => rfl
  | append_singleton others last ih =>
      specialize ih (by simp [longestOf])
      rw [← List.cons_append, List.argmax_concat, ih]
      simp only [longestOf, List.foldl_append, List.foldl_cons, List.foldl_nil]
      by_cases hlt : (others.foldl
          (fun longest c => if c.length > longest.length then c else longest) first).length <
            last.length
      · simp [hlt]
      · simp [hlt]

theorem check_of_nil (hlen : ∀ line ∈ lines, line.length < 2 ^ 32)
    (hocc : occurring ft lines dir = []) :
    checkProjectDirectories (some lines) dir ft = .ok dir := by
  simp only [checkProjectDirectories, candidates_eq hlen, hocc, Fault.ok_bind]

theorem check_of_cons (hlen : ∀ line ∈ lines, line.length < 2 ^ 32) {first : BString}
    {others : List BString} (hocc : occurring ft lines dir = first :: others) :
    checkProjectDirectories (some lines) dir ft = .ok (longestOf first (first :: others)) := by
  simp only [checkProjectDirectories, candidates_eq hlen, hocc, Fault.ok_bind]

/-- The longest of those that occur is right if no other text gets in the way of an ancestor. -/
theorem longest_iff {longest : BString}
    (hmax : (occurring ft lines dir).argmax List.length = some longest) :
    IsProjectDir ft lines dir longest ↔ NotMisled ft lines dir := by
  obtain ⟨hmem, hle, hidx⟩ := List.argmax_eq_some_iff.mp hmax
  rw [lawful_beq_subsingleton instBEqOfDecidableEq List.instBEq] at hidx
  constructor
  · intro hdir path hpath
    rcases hdir with ⟨-, hanc, -⟩ | ⟨hnone, heq⟩
    · by_cases hsame : path = longest
      · exact Or.inl (hsame ▸ hanc)
      refine Or.inr ⟨longest, hmem, hanc, ?_⟩
      rcases Nat.lt_or_ge path.length longest.length with hlt | hge
      · exact Or.inl hlt
      refine Or.inr ⟨Nat.le_antisymm (hle path hpath) hge, ?_⟩
      refine Nat.lt_of_le_of_ne (hidx path hpath hge) fun hi => hsame ?_
      exact ((List.idxOf_inj hmem).mp hi).symm
    · exact absurd (Or.inl heq) (hnone longest (recorded_of_occurring hmem))
  · intro hnot
    refine Or.inl ⟨recorded_of_occurring hmem, ?_, fun path hpath hanc =>
      hle path (mem_occurring hpath hanc)⟩
    rcases hnot longest hmem with hanc | ⟨ancestor, hocc, -, hlt | ⟨heq, hlt⟩⟩
    · exact hanc
    · have := hle ancestor hocc
      omega
    · have := hidx ancestor hocc (Nat.le_of_eq heq)
      omega

/-- **The project of a buffer is the longest recorded directory that it is in exactly when no
directory gets in its way whose text merely occurs in its path.** -/
theorem isProjectDir_iff (ft : Filetype) (lines : List BString) (dir : BString)
    (hlen : ∀ line ∈ lines, line.length < 2 ^ 32) :
    (∃ project, checkProjectDirectories (some lines) dir ft = .ok project ∧
      IsProjectDir ft lines dir project) ↔ NotMisled ft lines dir := by
  rcases hocc : occurring ft lines dir with - | ⟨first, others⟩
  · refine iff_of_true ⟨dir, check_of_nil hlen hocc, Or.inr ⟨?_, rfl⟩⟩ ?_
    · intro path hpath hanc
      have hmem := mem_occurring hpath hanc
      rw [hocc] at hmem
      simp at hmem
    · intro path hpath
      rw [hocc] at hpath
      simp at hpath
  · have hmax := argmax_longestOf first others
    rw [← hocc] at hmax
    rw [← longest_iff hmax, check_of_cons hlen hocc]
    constructor
    · rintro ⟨project, heq, hdir⟩
      rw [← hocc] at heq
      exact Except.ok.inj heq ▸ hdir
    · intro hdir
      exact ⟨_, by rw [hocc], hdir⟩

/-- A project below a directory with a recorded name in its own: the shorter one is an ancestor. -/
theorem isProjectDir_iff_settings :
    (∃ project, checkProjectDirectories (some [bt "/home\tc", bt "/home/u\tcpp", bt "/u\tgo"])
        (bt "/home/u/src") ⟨bt "c", true, by decide⟩ = .ok project ∧
      IsProjectDir ⟨bt "c", true, by decide⟩ [bt "/home\tc", bt "/home/u\tcpp", bt "/u\tgo"]
        (bt "/home/u/src") project) ↔
    NotMisled ⟨bt "c", true, by decide⟩ [bt "/home\tc", bt "/home/u\tcpp", bt "/u\tgo"]
      (bt "/home/u/src") :=
  isProjectDir_iff _ _ _ (by decide)

/-- A buffer in `/home/u/project` is taken to be in the project `/home/u/pro`. -/
theorem isProjectDir_project :
    checkProjectDirectories (some [bt "/home/u/pro\tc"]) (bt "/home/u/project")
        ⟨bt "c", true, by decide⟩ = .ok (bt "/home/u/pro") ∧
      ¬IsProjectDir ⟨bt "c", true, by decide⟩ [bt "/home/u/pro\tc"] (bt "/home/u/project")
        (bt "/home/u/pro") := by
  refine ⟨rfl, ?_⟩
  rintro (⟨-, hanc, -⟩ | ⟨-, heq⟩)
  · rcases hanc with heq | ⟨-, -, hlast | hnext⟩
    · exact absurd heq (by decide)
    · exact absurd hlast (by decide)
    · exact absurd hnext (by decide)
  · exact absurd heq (by decide)

/-! ### The option

The new value is put into an array of 2048 bytes and taken out with the length that `snprintf`
returns, which is that of the whole text.  If this is 2048, the NUL at the end of the array is
taken for a byte of the value; if it is more, bytes behind the array are read.
-/

theorem cstr_eq {s : BString} (h : 0 ∉ s) : cstr s = s := by
  unfold cstr
  rw [List.takeWhile_eq_self_iff]
  intro b hb
  exact decide_eq_true fun heq => h (heq ▸ hb)

theorem setVimTagsOpt_eq (oldval fname : BString) :
    setVimTagsOpt oldval fname = fromBlock 2048
      ((cstr oldval ++ comma :: cstr fname).take 2047 ++ [0])
      (if (cstr oldval ++ comma :: cstr fname).length < 2 ^ 31 then
        ((cstr oldval ++ comma :: cstr fname).length : Int) else -1) := rfl

/-- A value without a NUL that comes out of the array is all of the text. -/
theorem setVimTagsOpt_eq_ok {oldval fname v : BString} (h0 : 0 ∉ v)
    (h : setVimTagsOpt oldval fname = .ok v) :
    v = cstr oldval ++ comma :: cstr fname ∧ v.length < 2048 := by
  rw [setVimTagsOpt_eq] at h
  generalize cstr oldval ++ comma :: cstr fname = text at h ⊢
  unfold fromBlock at h
  by_cases hn : 0 ≤ (if text.length < 2 ^ 31 then (text.length : Int) else -1) ∧
      (if text.length < 2 ^ 31 then (text.length : Int) else -1) ≤ (2048 : Nat)
  · rw [if_pos hn] at h
    by_cases hlong : text.length < 2 ^ 31
    · rw [if_pos hlong] at h hn
      have hv := Except.ok.inj h
      rw [Int.toNat_natCast] at hv
      rcases Nat.lt_or_ge text.length 2048 with hlt | hge
      · rw [List.take_of_length_le (show text.length ≤ 2047 by omega), List.take_left] at hv
        exact ⟨hv.symm, hv ▸ hlt⟩
      · -- the text fills the array, and the NUL is taken for its last byte
        exfalso
        rw [List.take_of_length_le (by simp; omega)] at hv
        exact h0 (hv ▸ List.mem_append_right _ (List.mem_singleton_self 0))
    · rw [if_neg hlong] at hn
      omega
  · rw [if_neg hn] at h
    cases h

theorem setVimTagsOpt_ok {oldval fname : BString} (hold : 0 ∉ oldval) (hname : 0 ∉ fname)
    (hlen : (oldval ++ comma :: fname).length < 2048) :
    setVimTagsOpt oldval fname = .ok (oldval ++ comma :: fname) := by
  rw [setVimTagsOpt_eq, cstr_eq hold, cstr_eq hname]
  generalize oldval ++ comma :: fname = text at hlen ⊢
  rw [if_pos (by omega)]
  unfold fromBlock
  rw [if_pos (by omega), Int.toNat_natCast,
    List.take_of_length_le (show text.length ≤ 2047 by omega), List.take_left]

/-! ### Its entries

Only the last value has to be looked at: it is the longest, and if it fits, all those before it
have fitted.  The bound is on the text with its end, so it is one less than the array has.
-/

theorem tagsOptionWith_cons (initial fname : BString) (fnames : List BString) :
    tagsOptionWith initial (fname :: fnames) =
      tagsOptionWith (initial ++ comma :: fname) fnames := by
  simp [tagsOptionWith]

theorem length_le_tagsOptionWith (initial : BString) (fnames : List BString) :
    initial.length ≤ (tagsOptionWith initial fnames).length := by
  simp [tagsOptionWith]

theorem zero_notMem_entry {initial fname : BString} (h0 : 0 ∉ initial) (hname : 0 ∉ fname) :
    0 ∉ initial ++ comma :: fname := by
  rw [List.mem_append, List.mem_cons]
  rintro (h | h | h)
  · exact h0 h
  · exact absurd h (by decide)
  · exact hname h

theorem zero_notMem_tagsOptionWith {initial : BString} {fnames : List BString} (h0 : 0 ∉ initial)
    (hnames : ∀ fname ∈ fnames, 0 ∉ fname) : 0 ∉ tagsOptionWith initial fnames := by
  induction fnames generalizing initial with
  | nil => simpa [tagsOptionWith] using h0
  | cons fname fnames ih =>
      rw [tagsOptionWith_cons]
      exact ih (zero_notMem_entry h0 (hnames fname (List.mem_cons_self ..)))
        fun fname' hmem => hnames fname' (List.mem_cons_of_mem _ hmem)

theorem entries_ok {initial : BString} {fnames : List BString} (h0 : 0 ∉ initial)
    (hnames : ∀ fname ∈ fnames, 0 ∉ fname)
    (hlen : (tagsOptionWith initial fnames).length < 2048) :
    fnames.foldlM setVimTagsOpt initial = .ok (tagsOptionWith initial fnames) := by
  induction fnames generalizing initial with
  | nil => simp [tagsOptionWith]
  | cons fname fnames ih =>
      have hname := hnames fname (List.mem_cons_self ..)
      rw [tagsOptionWith_cons] at hlen ⊢
      rw [List.foldlM_cons, setVimTagsOpt_ok h0 hname
        (Nat.lt_of_le_of_lt (length_le_tagsOptionWith _ fnames) hlen)]
      exact ih (zero_notMem_entry h0 hname)
        (fun fname' hmem => hnames fname' (List.mem_cons_of_mem _ hmem)) hlen

/-- **The option keeps every entry exactly as long as its value fits the array with its end.** -/
theorem entries_iff (initial : BString) (fnames : List BString) (h0 : 0 ∉ initial)
    (hnames : ∀ fname ∈ fnames, 0 ∉ fname) :
    fnames.foldlM setVimTagsOpt initial = .ok (tagsOptionWith initial fnames) ↔
      fnames = [] ∨ (tagsOptionWith initial fnames).length < 2048 := by
  constructor
  · intro h
    rcases List.eq_nil_or_concat fnames with rfl | ⟨before, fname, rfl⟩
    · exact Or.inl rfl
    · rw [List.concat_eq_append] at h hnames ⊢
      rw [List.foldlM_append] at h
      obtain ⟨v, -, hlast⟩ := Fault.bind_eq_ok.mp h
      rw [List.foldlM_cons] at hlast
      obtain ⟨w, hw, hnil⟩ := Fault.bind_eq_ok.mp hlast
      rw [Except.ok.inj hnil] at hw
      exact Or.inr (setVimTagsOpt_eq_ok (zero_notMem_tagsOptionWith h0 hnames) hw).2
  · rintro (rfl | hlen)
    · simp [tagsOptionWith]
    · exact entries_ok h0 hnames hlen

/-- Two new projects. -/
theorem entries_iff_two :
    [bt "/tmp/nvim/0", bt "/tmp/nvim/1"].foldlM setVimTagsOpt (bt "./tags") =
        .ok (tagsOptionWith (bt "./tags") [bt "/tmp/nvim/0", bt "/tmp/nvim/1"]) ↔
      [bt "/tmp/nvim/0", bt "/tmp/nvim/1"] = [] ∨
        (tagsOptionWith (bt "./tags") [bt "/tmp/nvim/0", bt "/tmp/nvim/1"]).length < 2048 :=
  entries_iff _ _ (by decide) (by decide)

/-- A new project when the option has 2040 bytes: what is behind the array is read. -/
theorem entries_full :
    [bt "/tmp/nvim/0"].foldlM setVimTagsOpt (List.replicate 2040 97) = .error .undefined := by
  have hold : (0 : UInt8) ∉ List.replicate 2040 97 := by
    intro h
    exact absurd (List.eq_of_mem_replicate h) (by decide)
  rw [List.foldlM_cons, setVimTagsOpt_eq, cstr_eq hold]
  have hlen : (List.replicate 2040 97 ++ comma :: cstr (bt "/tmp/nvim/0")).length = 2052 := by
    rw [List.length_append, List.length_replicate]
    rfl
  rw [hlen]
  rfl

/-! ### The entries of the projects

A project that is open already is only counted.  A new one is put behind the others in the list
and in the option at the same time, so the names in the option are those in the list, in this
order.
-/

/-- The names that went into the option are those of the projects. -/
def Entries (initial : BString) (s : Projects) : Prop :=
  (s.topDirs.map TopDir.tmpfname).foldlM setVimTagsOpt initial = .ok s.tagsOption

theorem map_modify_refs (topDirs : List TopDir) (i : Nat) :
    (topDirs.modify i fun cur => { cur with refs := cur.refs + 1 }).map TopDir.tmpfname =
      topDirs.map TopDir.tmpfname := by
  induction topDirs generalizing i with
  | nil => simp
  | cons cur topDirs ih =>
      cases i with
      | zero => simp
      | succ i => simp [ih]

/-- A project that is open already leaves the option alone, a new one puts its name into it. -/
theorem initTopdir_entries {lib : BStringLib} {settings : Settings} {s s' : Projects}
    {path full : BString} {tempname initial : BString}
    (h : initTopdir lib settings s path full ft tempname = .ok s') (hs : Entries initial s) :
    Entries initial s' := by
  unfold initTopdir at h
  obtain ⟨base, -, h⟩ := Fault.bind_eq_ok.mp h
  unfold Entries at hs ⊢
  by_cases hopen : ∃ i, s.topDirs.findIdx? (isOpenTopdir ft
      (if checkNorecurseDirectories settings.norecurseDirs base then base else full)) = some i
  · obtain ⟨i, hi⟩ := hopen
    simp only [hi] at h
    rw [← Except.ok.inj h, map_modify_refs]
    exact hs
  · rw [← Option.isSome_iff_exists, Bool.not_eq_true, Option.isSome_eq_false_iff,
      Option.isNone_iff_eq_none] at hopen
    simp only [hopen] at h
    obtain ⟨tagsOption, hset, h⟩ := Fault.bind_eq_ok.mp h
    rw [← Except.ok.inj h]
    rw [List.map_append, List.foldlM_append, hs]
    simp [hset]

/-- What `init_topdir` is called with. -/
structure Request where
  path : BString
  full : BString
  ft : Filetype
  tempname : BString

/-- **In every run the option holds what adding the names of all projects, one after the other,
makes of its first value.** -/
theorem run_entries {lib : BStringLib} {settings : Settings} {s s' : Projects} {initial : BString}
    (requests : List Request) (hs : Entries initial s)
    (h : requests.foldlM (fun s r => initTopdir lib settings s r.path r.full r.ft r.tempname) s =
      .ok s') : Entries initial s' := by
  induction requests generalizing s with
  | nil => exact Except.ok.inj h ▸ hs
  | cons r requests ih =>
      rw [List.foldlM_cons] at h
      obtain ⟨mid, hmid, h⟩ := Fault.bind_eq_ok.mp h
      exact ih (initTopdir_entries hmid hs) h

end TagHighlight.Topdir
