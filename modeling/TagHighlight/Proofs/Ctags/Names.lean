/-
What is highlighted is what ctags names.

The text that is left when comments and literals are stripped ends in a newline or is empty, and
has no NUL, so it is cut into its identifiers.  They are sorted, and some of the repeats may be
dropped, but `bsearch` still finds just those that are left.  So a line of ctags passes exactly
if it names a tag of the buffer, and each of these tags is in the one command for its group,
which is what Neovim hears.

The repeats are dropped by a loop that moves pointers, and what it compares with may be one that
was moved away.  So it is only known that the words are among the identifiers; that they are all
of them needs a null pointer to be unlike any string, and the theorem says both.
-/
import TagHighlight.Ctags.Names
import TagHighlight.Proofs.Ctags.Update
import TagHighlight.Proofs.Lang.StripC
import TagHighlight.Proofs.Lang.Tok
import TagHighlight.Proofs.Lang.UniqTokens
import TagHighlight.Proofs.NvimApi.CmdCalls
import Mathlib.Data.List.Perm.Subperm
import Mathlib.Data.List.Sort

namespace TagHighlight.Update

open CtagsScan Commands Atomic

/-! ### The words

What is left of a file of C is bytes of its lines, with nothing added but blanks, and a newline
behind each line.  So there is no NUL in it, if there is none in the lines, and it does not end
inside an identifier, which is what the loop that cuts it needs to end where the text does.
-/

theorem endsInIdentifier_newline (text : BString) :
    Tok.endsInIdentifier (text ++ [Ascii.newline]) = false := by
  have hword : Tok.isWord Ascii.newline = false := by decide
  simp [Tok.endsInIdentifier, hword]

/-- A text of lines is empty or ends in a newline. -/
theorem endsInIdentifier_lines (parts : List BString) :
    Tok.endsInIdentifier (parts.flatMap fun part => part ++ [Ascii.newline]) = false := by
  rcases List.eq_nil_or_concat parts with rfl | ⟨parts, part, rfl⟩
  · rfl
  · rw [List.concat_eq_append, List.flatMap_append, List.flatMap_singleton, ← List.append_assoc]
    exact endsInIdentifier_newline _

theorem not_mem_lines {parts : List BString} (h : ∀ part ∈ parts, 0 ∉ part) :
    0 ∉ parts.flatMap fun part => part ++ [Ascii.newline] := by
  intro hmem
  obtain ⟨part, hpart, hin⟩ := List.mem_flatMap.mp hmem
  rcases List.mem_append.mp hin with hin | hin
  · exact h part hpart hin
  · exact absurd (List.mem_singleton.mp hin) (by decide)

/-- None of the bytes is NUL. -/
def NoNul (repl : List StripC.Piece) : Prop := ∀ p ∈ repl, p.byte ≠ 0

theorem noNul_nil : NoNul [] := fun _ hp => absurd hp List.not_mem_nil

theorem NoNul.append {xs ys : List StripC.Piece} (hxs : NoNul xs) (hys : NoNul ys) :
    NoNul (xs ++ ys) := by
  intro p hp
  rcases List.mem_append.mp hp with hp | hp
  · exact hxs p hp
  · exact hys p hp

theorem noNul_added {want : StripC.Want} {esc : Bool} {rest : BString} {r : StripC.Round}
    (h : StripC.round want esc rest = some r) : NoNul r.added := by
  have hspace : NoNul [⟨none, Ascii.space⟩] := by
    intro p hp
    rw [List.mem_singleton.mp hp]
    decide
  unfold StripC.round at h
  dsimp only at h
  repeat' split at h
  all_goals cases h
  all_goals first
    | exact noNul_nil
    | exact hspace

theorem noNul_copied (r : StripC.Round) (rest : BString) (col : Nat) :
    NoNul (StripC.copied r rest col) := by
  intro p hp
  unfold StripC.copied at hp
  split at hp
  · rename_i hcond
    rw [List.mem_singleton.mp hp]
    exact hcond.2
  · exact absurd hp List.not_mem_nil

theorem noNul_scan (line : BString) (n : Nat) (rest : BString) (col : Nat) (want : StripC.Want)
    (esc : Bool) : NoNul (StripC.scan line n rest col want esc).2 := by
  induction n generalizing rest col want esc with
  | zero => exact noNul_nil
  | succ n ih =>
      cases rest with
      | nil => exact noNul_nil
      | cons c cs =>
          cases hround : StripC.round want esc (c :: cs) with
          | none =>
              rw [StripC.scan_none hround]
              exact noNul_nil
          | some r =>
              rw [StripC.scan_round hround]
              exact ((noNul_added hround).append (noNul_copied _ _ _)).append (ih _ _ _ _)

theorem noNul_handleLine (s : StripC.State) (line : BString) :
    NoNul (StripC.handleLine s line).2 := by
  unfold StripC.handleLine
  dsimp only
  split
  · split <;> exact noNul_nil
  · split
    · exact noNul_nil
    · exact noNul_scan _ _ _ _ _ _

theorem noNul_handleLines (s : StripC.State) (lines : List BString) :
    ∀ repl ∈ StripC.handleLines s lines, NoNul repl := by
  induction lines generalizing s with
  | nil =>
      intro repl hrepl
      exact absurd hrepl List.not_mem_nil
  | cons line lines ih =>
      intro repl hrepl
      rcases List.mem_cons.mp hrepl with rfl | hlater
      · exact noNul_handleLine s line
      · exact ih _ repl hlater

/-- What is left of a C file is a text of lines without NUL. -/
theorem handleCstyle_lines (lines : List BString) :
    ∃ parts : List BString, (∀ part ∈ parts, 0 ∉ part) ∧
      StripC.handleCstyle lines = parts.flatMap fun part => part ++ [Ascii.newline] := by
  refine ⟨((StripC.handleLines ⟨.nothing, 0⟩ lines).filter (· ≠ [])).map
    (·.map StripC.Piece.byte), ?_, ?_⟩
  · intro part hpart hnul
    obtain ⟨repl, hrepl, rfl⟩ := List.mem_map.mp hpart
    obtain ⟨p, hp, hzero⟩ := List.mem_map.mp hnul
    exact noNul_handleLines _ lines repl (List.mem_of_mem_filter hrepl) p hp hzero
  · rw [List.flatMap_map]
    rfl

/-- What is left of a text is cut into its identifiers. -/
theorem tokenize_eq (nullDiff : Nat → Nat) {text : BString} (hnul : 0 ∉ text)
    (hends : Tok.endsInIdentifier text = false) : tokenize nullDiff text = Tok.identifiers text := by
  have hwords := (Tok.tokenizeLoop_identifiers nullDiff text _ [] hnul (Nat.le_refl _) hends).2
  have hbytes := congrArg (List.map Prod.fst) hwords
  simp only [List.map_map, Function.comp_def, List.map_id'] at hbytes
  exact hbytes

theorem tokenize_stripComments (nullDiff : Nat → Nat) {com : Option CommentGroup}
    {lines : List BString} {text : BString} (htext : stripComments com lines = .ok text)
    (hlines : ∀ line ∈ lines, 0 ∉ line)
    (hpython : com = some .python → 0 ∉ text ∧ Tok.endsInIdentifier text = false) :
    tokenize nullDiff text = Tok.identifiers text := by
  rcases com with - | com | com
  · cases htext
    exact tokenize_eq nullDiff (not_mem_lines hlines) (endsInIdentifier_lines lines)
  · cases htext
    obtain ⟨parts, hparts, htext⟩ := handleCstyle_lines lines
    rw [htext]
    exact tokenize_eq nullDiff (not_mem_lines hparts) (endsInIdentifier_lines parts)
  · obtain ⟨hnul, hends⟩ := hpython rfl
    exact tokenize_eq nullDiff hnul hends

/-! ### The lines that name a tag

The words are sorted, for dropping some leaves the others in order, so `bsearch` finds a name
exactly if it is one of them.  Everything else that a line must be for its tag to pass is read off
the line.
-/

variable {lib : Library} {strcmp : BString → BString → Int} {tokens : List BString}

theorem uniqLoop_sublist (lib : Library) (before : Option BString) (list : List BString) :
    (uniqLoop lib before list).Sublist list := by
  induction list generalizing before with
  | nil => exact List.Sublist.refl []
  | cons tok toks ih =>
      rw [uniqLoop]
      split
      · exact (ih _).cons tok
      · exact (ih _).cons_cons tok

theorem words_sublist (lib : Library) (tokens : List BString) :
    (words lib tokens).Sublist (lib.qsort tokens) := by
  unfold words
  cases lib.qsort tokens with
  | nil => exact List.Sublist.refl []
  | cons tok toks => exact (uniqLoop_sublist lib none toks).cons_cons tok

theorem Exact.mem_of_words (h : Exact lib strcmp) {word : BString} (hword : word ∈ words lib tokens) :
    word ∈ tokens :=
  (h.compares.perm tokens).mem_iff.mp ((words_sublist lib tokens).subset hword)

/-- If a null pointer is unlike any string, no token is dropped. -/
theorem Exact.mem_words (h : Exact lib strcmp) (hnull : ∀ tok, lib.iseq (some tok) none = false)
    {word : BString} (hword : word ∈ tokens) : word ∈ words lib tokens := by
  rw [words, uniq_of_null_unequal hnull]
  exact (h.compares.perm tokens).mem_iff.mpr hword

/-- `bsearch` finds the words. -/
theorem Exact.bsearch_words (h : Exact lib strcmp) (tokens : List BString) (name : BString) :
    lib.bsearch name (words lib tokens) = true ↔ name ∈ words lib tokens :=
  h.compares.bsearch name _ ((h.sorted tokens).sublist (words_sublist lib tokens))

/-- A line passes if it names a tag. -/
theorem searchLine_iff (h : Exact lib strcmp) (bdata : CtagsScan.Buffer) (line : BString)
    (tag : Tag) :
    searchLine lib (filterOf lib bdata tokens) line = some tag ↔
      Names lib bdata (words lib tokens) line tag := by
  unfold searchLine
  by_cases hskip : line.length < 1 ∨ byteAt line 0 = UInt8.ofNat '!'.toNat
  · rw [if_pos hskip]
    exact ⟨fun hnone => absurd hnone.symm (Option.some_ne_none tag), fun hn => absurd hskip hn.isTag⟩
  rw [if_neg hskip]
  obtain ⟨⟨kind, lang⟩, hfold⟩ :
      ∃ found, (lib.fields line).toks.foldl takeTok (0, none) = found := ⟨_, rfl⟩
  have hkind : kindOf lib line = kind := by rw [kindOf, hfold]
  have hlang : langOf lib line = lang := by rw [langOf, hfold]
  simp only [hfold]
  cases lang with
  | none =>
      refine ⟨fun hnone => absurd hnone.symm (Option.some_ne_none tag), fun hn => ?_⟩
      obtain ⟨matchLang, hmatch, -⟩ := hn.lang
      rw [hlang] at hmatch
      cases hmatch
  | some matchLang =>
      constructor
      · intro hpass
        obtain ⟨⟨hne, hwanted, hlangOk, hkept, hused⟩, htag⟩ :=
          Option.ite_none_right_eq_some.mp hpass
        cases htag
        refine ⟨hskip, rfl, by rwa [hkind], ?_, ⟨matchLang, hlang, hlangOk⟩,
          Bool.eq_false_of_not_eq_true hkept, hused.imp_right (h.bsearch_words tokens _).mp⟩
        rw [hkind]
        exact Prod.ext rfl hwanted
      · intro hn
        have hwanted := hn.wanted
        rw [hkind] at hwanted
        obtain ⟨lang', hlang', hlangOk⟩ := hn.lang
        obtain rfl : matchLang = lang' := Option.some.inj (hlang.symm.trans hlang')
        have hkept := hn.kept
        have hused := hn.used
        rw [hn.name] at hkept hused
        have hcond : kind ≠ 0 ∧ (inOrder bdata.equiv bdata.order kind).2 = true ∧
            isCorrectLang lib bdata.ctagsName matchLang bdata.isCOrCpp = true ∧
            ¬skipTag lib bdata.ignoredTags (lib.fields line).name = true ∧
            (lib.iseq (some bdata.filename) (some (lib.fields line).matchFile) = true ∨
              lib.bsearch (lib.fields line).name (words lib tokens) = true) :=
          ⟨hkind ▸ hn.kind, congrArg Prod.snd hwanted, hlangOk, by simpa using hkept,
            hused.imp_right (h.bsearch_words tokens _).mpr⟩
        refine (if_pos hcond).trans (congrArg some ?_)
        cases tag
        rw [Tag.mk.injEq]
        exact ⟨hn.name.symm, congrArg Prod.fst hwanted⟩

/-! ### The commands

A tag that passes has a kind from the order, and for each letter of the order there is a group.
So all tags are in commands; and since there are no more letters than bytes, there are few enough
commands for one request.
-/

section Scan

variable {qsort : List Tag → List Tag} {bdata : CtagsScan.Buffer} {tags : List Tag}
  {groups : List CmdCallInfo} {numThreads : Nat}

/-- The kind of a tag that is found has a group. -/
theorem kind_mem_order (hequiv : ∀ pair ∈ bdata.equiv.getD [], byteAt pair 1 ≠ 0)
    {line : BString} {tag : Tag}
    (hfound : searchLine lib (filterOf lib bdata tokens) line = some tag) :
    tag.kind ∈ bdata.order := by
  obtain ⟨-, -, -, hzero | hkind⟩ := searchLine_some hfound
  · obtain ⟨pair, hpair, hnothing⟩ := (kind_eq_zero_iff hfound).mp hzero
    exact absurd hnothing (hequiv pair (List.mem_of_find?_eq_some hpair))
  · exact hkind

/-- What `update_commands` makes of the tags that are found. -/
theorem shows_of_processTags (h : Exact lib strcmp) (hqsort : Sorts qsort)
    (bdata : CtagsScan.Buffer) (ft : Settings) (text : BString)
    (hnames : ∀ line ∈ bdata.tags, (lib.fields line).name.length < 2 ^ 31)
    (hgroups : groups.map CmdCallInfo.kind = bdata.order) (hnodup : bdata.order.Nodup)
    (hequiv : ∀ pair ∈ bdata.equiv.getD [], byteAt pair 1 ≠ 0)
    (hlist : processTags lib qsort bdata (Tok.identifiers text) numThreads = some tags) :
    ∃ cmds, updateCommands ft groups tags = .ok cmds ∧
      Shows lib bdata text ft groups tags cmds := by
  obtain ⟨hvim, hn⟩ := of_processTags hlist
  have haccepted : ∀ tag ∈ accepted lib bdata (Tok.identifiers text), ∃ line ∈ bdata.tags,
      searchLine lib (filterOf lib bdata (Tok.identifiers text)) line = some tag := fun tag htag =>
    List.mem_filterMap.mp htag
  have hshort : ∀ tag ∈ accepted lib bdata (Tok.identifiers text), tag.name.length < 2 ^ 31 := by
    intro tag htag
    obtain ⟨line, hline, hfound⟩ := haccepted tag htag
    rw [(searchLine_some hfound).1]
    exact hnames line hline
  obtain ⟨hincreasing, hmem⟩ := mem_scanned h.iseq hqsort hvim hshort hn
  have hscanned : scanned lib qsort bdata (Tok.identifiers text) numThreads = tags := by
    rw [scanned, hlist]
    rfl
  rw [hscanned] at hincreasing hmem
  have hsorted := kind_le_of_increasing hincreasing
  refine ⟨_, ?_, hincreasing, fun tag => ?_, fun word hword => h.mem_of_words hword,
    fun hnull word hword => h.mem_words hnull hword, ?_, rfl⟩
  · rw [updateCommands, groupCommands_eq ft groups hsorted]
    rfl
  · rw [hmem tag, and_comm]
    refine and_congr_right fun _ => ?_
    rw [accepted, List.mem_filterMap]
    exact exists_congr fun line => and_congr_right fun _ => searchLine_iff h bdata line tag
  · intro tag htag
    obtain ⟨line, hline, hfound⟩ := haccepted tag ((hmem tag).mp htag).1
    refine (existsUnique_group_iff (hgroups ▸ hnodup) htag).mpr ?_
    rw [hgroups]
    exact kind_mem_order hequiv hfound

/-- There are no more groups than letters. -/
theorem length_groups {order : BString} (hgroups : groups.map CmdCallInfo.kind = order)
    (hnodup : order.Nodup) : groups.length ≤ 256 := by
  have hbytes : order.map UInt8.toNat ⊆ List.range 256 := by
    intro n hn
    obtain ⟨b, -, rfl⟩ := List.mem_map.mp hn
    exact List.mem_range.mpr b.toNat_lt
  have hle := ((hnodup.map fun _ _ => UInt8.toNat.inj).subperm hbytes).length_le
  rwa [List.length_map, ← hgroups, List.length_map, List.length_range] at hle

/-- So the commands can always be collected. -/
theorem Shows.collect {text : BString} {ft : Settings} {cmds : List BString}
    (h : Shows lib bdata text ft groups tags cmds)
    (hgroups : groups.map CmdCallInfo.kind = bdata.order) (hnodup : bdata.order.Nodup) :
    ∃ calls, collectCommands cmds = .ok (some calls) := by
  have hcount := length_groups hgroups hnodup
  have hfilter := List.length_filter_le (hasTag tags) groups
  refine collectCommands_some ?_ ?_
  · rw [h.commands]
    exact List.cons_ne_nil _ _
  · rw [h.commands, List.length_cons, List.length_map]
    omega

end Scan

/--
**The names of a buffer are handed over, each in the command for its group.**  The words are the
identifiers that are left of the text when comments and literals are stripped, all of them if a
null pointer is unlike any string; the pointer that is subtracted from null does not matter.  If
any line of what ctags prints names a tag for them, there is one command for each group with a
tag, and the commands list in order just the names that the lines give, each of them once.  A
request for which there is room says just these commands to Neovim.
-/
theorem updateOther_heard {blib : BStringLib} (hblib : blib.Grows) {w : World} {st : State}
    (hrun : w.runCtags = true) (h : Exact w.lib strcmp) (hqsort : Sorts w.qsort)
    {com : Option CommentGroup} {text : BString} {nullDiff : Nat → Nat}
    (htext : stripComments com st.bdata.lines = .ok text)
    (htokens : w.tokens st.bdata.lines = tokenize nullDiff text)
    (hlines : ∀ line ∈ st.bdata.lines, 0 ∉ line)
    (hpython : com = some .python → 0 ∉ text ∧ Tok.endsInIdentifier text = false)
    (hnames : ∀ line ∈ Taglist.breakIntoLines (w.ctags .normal),
      (w.lib.fields line).name.length < 2 ^ 31)
    (hgroups : w.groups.map CmdCallInfo.kind = st.bdata.ft.order)
    (hnodup : st.bdata.ft.order.Nodup)
    (hequiv : ∀ pair ∈ st.bdata.ft.equiv.getD [], byteAt pair 1 ≠ 0)
    (hfinds : Finds w st.bdata .normal) :
    ∃ tags cmds st', updateOther w st = .ok st' ∧
      Shows w.lib (st.bdata.rescanned w) text st.bdata.ft.settings w.groups tags cmds ∧
      st'.bdata.calls = some cmds ∧ st'.sent = st.sent ++ sentFor st.bdata.ft cmds ∧
      ∃ calls, collectCommands cmds = .ok (some calls) ∧
        ∀ count, (commandRequest count cmds).HasRoom blib →
          SaysCalls blib count calls (cmds.map commandMessage) := by
  obtain ⟨tags, htags⟩ := Option.ne_none_iff_exists'.mp (tagsOf_ne_none_iff.mpr hfinds)
  obtain ⟨st', hother, cmds, hcmds, hcalls, hsent⟩ := updateOther_of_some hrun htags
  rw [tagsOf, htokens, tokenize_stripComments nullDiff htext hlines hpython] at htags
  obtain ⟨cmds', hcmds', hshows⟩ := shows_of_processTags h hqsort (st.bdata.rescanned w)
    st.bdata.ft.settings text hnames hgroups hnodup hequiv htags
  obtain rfl : cmds' = cmds := Except.ok.inj (hcmds'.symm.trans hcmds)
  obtain ⟨calls, hcollect⟩ := hshows.collect hgroups hnodup
  exact ⟨tags, cmds', st', hother, hshows, hcalls, hsent, calls, hcollect,
    fun count hroom => commands_heard hblib hcollect hroom⟩

/-! ### A name in a comment -/

/-- Shorter names first, then by their bytes. -/
def nameLe (a b : BString) : Prop := (⟨a, 0⟩ : Tag).key ≤ (⟨b, 0⟩ : Tag).key

instance : DecidableRel nameLe := fun a b =>
  inferInstanceAs (Decidable (Tag.key ⟨a, 0⟩ ≤ Tag.key ⟨b, 0⟩))

/-- A string library that sorts. -/
def sortingLibrary : Library := { plainLibrary with qsort := fun list => list.insertionSort nameLe }

def nameCmp (a b : BString) : Int := if a = b then 0 else if nameLe a b then -1 else 1

theorem sortingLibrary_exact : Exact sortingLibrary nameCmp where
  iseq := fun _ _ => by simp [sortingLibrary, plainLibrary]
  compares :=
    { perm := fun list => List.perm_insertionSort nameLe list
      bsearch := fun name list _ => by simp [sortingLibrary, plainLibrary] }
  sorted := by
    intro list
    have : Std.Total nameLe := ⟨fun a b => le_total _ _⟩
    have : IsTrans BString nameLe := ⟨fun a b c => le_trans⟩
    refine (List.pairwise_insertionSort nameLe list).imp fun {a b} hle => ?_
    unfold nameCmp
    split
    · exact le_refl 0
    · decide

/-- ctags knows two functions of another file. -/
def twoFunctions : BString :=
  bt "a\ty.c\t/^a/\tf\tlanguage:C\nb\ty.c\t/^b/\tf\tlanguage:C\n"

/-- The buffer names one of them, and the other in a comment. -/
def commented : State where
  bdata :=
    { ft :=
        { ctagsName := bt "C", order := bt "f", ignoredTags := [], equiv := none
          restoreCmds := none, isCOrCpp := true, hasParser := false, settings := plainC }
      filename := bt "x.c", lines := [bt "b(); // a"], topdir := Taglist.initTopdir, calls := none }
  sent := []

def commentedWorld : World where
  lib := sortingLibrary
  qsort := qsortTags
  numThreads := 1
  tokens := fun lines => tokenize (fun _ => 0) (StripC.handleCstyle lines)
  runCtags := true
  ctags := fun _ => twoFunctions
  groups := [functions]

example : Tok.identifiers (StripC.handleCstyle commented.bdata.lines) = [bt "b"] := by decide

theorem updateOther_heard_commented : ∃ tags cmds st',
    updateOther commentedWorld commented = .ok st' ∧
      Shows commentedWorld.lib (commented.bdata.rescanned commentedWorld)
        (StripC.handleCstyle commented.bdata.lines) commented.bdata.ft.settings
        commentedWorld.groups tags cmds ∧
      st'.bdata.calls = some cmds ∧ st'.sent = commented.sent ++ sentFor commented.bdata.ft cmds ∧
      ∃ calls, collectCommands cmds = .ok (some calls) ∧
        ∀ count, (commandRequest count cmds).HasRoom exactLib →
          SaysCalls exactLib count calls (cmds.map commandMessage) :=
  updateOther_heard exactLib_grows rfl sortingLibrary_exact sorts_qsortTags
    (show stripComments (some .cLike) commented.bdata.lines = .ok _ from rfl) rfl (by decide) (by simp)
    (by decide) rfl (by decide) (by decide) ⟨by decide, by decide, by decide⟩

end TagHighlight.Update
