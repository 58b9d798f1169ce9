/-
What Vim reads in the command for a group of keywords.

The command is words with blanks between them, and two bars.  So it is read as it was put
together if each of the words that are put in is one word for Vim, and only then: whatever a
text is, the words Vim reads in it are words.

Where a bar ends a command is read in two ways, anywhere or only at the front of a word, and
everything here is shown for both.  How a name is split into words and a line into commands is
taken from the library `Lib/Words`, whose lemmas say when a line that was put together falls apart
into the same pieces again.
-/
import TagHighlight.Ctags.Commands
import TagHighlight.Proofs.Lang.CtagsScan

namespace TagHighlight.Commands

open Ascii CtagsScan

/-! ### The tags of a kind

The scan has sorted the tags by their kinds.  So the tags of a kind stand together, and from the
first one on the loop finds them all and stops behind the last.
-/

theorem takeWhile_kind_eq_filter {kind : UInt8} {tags : List Tag}
    (hsorted : tags.Pairwise fun a b => a.kind ≤ b.kind) (hle : ∀ tag ∈ tags, kind ≤ tag.kind) :
    (tags.takeWhile fun tag => tag.kind = kind) = tags.filter fun tag => tag.kind = kind := by
  induction tags with
  | nil => rfl
  | cons tag tags ih =>
      rw [List.pairwise_cons] at hsorted
      by_cases htag : tag.kind = kind
      · have hrest := ih hsorted.2 fun t ht => hle t (List.mem_cons_of_mem _ ht)
        rw [List.takeWhile_cons_of_pos (by simpa using htag),
          List.filter_cons_of_pos (by simpa using htag), hrest]
      · rw [List.takeWhile_cons_of_neg (by simpa using htag),
          List.filter_cons_of_neg (by simpa using htag), eq_comm, List.filter_eq_nil_iff]
        intro t ht heq
        have hkind : t.kind = kind := by simpa using heq
        have hback : tag.kind ≤ kind := hkind ▸ hsorted.1 t ht
        exact htag (UInt8.le_antisymm hback (hle tag List.mem_cons_self))

/-- From the first tag of the kind on, as far as the kind goes. -/
theorem takeWhile_drop_firstOf (kind : UInt8) {tags : List Tag}
    (hsorted : tags.Pairwise fun a b => a.kind ≤ b.kind) :
    ((tags.drop (firstOf tags kind)).takeWhile fun tag => tag.kind = kind) =
      tags.filter fun tag => tag.kind = kind := by
  induction tags with
  | nil => rfl
  | cons tag tags ih =>
      unfold firstOf
      rw [List.findIdx_cons]
      by_cases htag : tag.kind = kind
      · rw [decide_eq_true htag]
        apply takeWhile_kind_eq_filter hsorted
        intro t ht
        rcases List.mem_cons.mp ht with rfl | hmem
        · exact htag ▸ UInt8.le_refl _
        · exact htag ▸ (List.pairwise_cons.mp hsorted).1 t hmem
      · rw [decide_eq_false htag, List.filter_cons_of_neg (by simpa using htag)]
        exact ih (List.pairwise_cons.mp hsorted).2

theorem kind_le_of_increasing {list : List Tag} (h : list.Pairwise fun a b => tagCmp a b < 0) :
    list.Pairwise fun a b => a.kind ≤ b.kind := by
  apply h.imp
  intro a b hcmp
  rw [UInt8.le_iff_toNat_le]
  unfold tagCmp at hcmp
  split at hcmp
  next hkind => exact Nat.le_of_eq (congrArg UInt8.toNat hkind)
  next => omega

/-- The scan leaves the tags in this order. -/
theorem kind_le_of_isScan {lib : Library} {bdata : Buffer} {vimbuf : List BString}
    {list : List Tag} (h : IsScan lib bdata vimbuf list) :
    list.Pairwise fun a b => a.kind ≤ b.kind :=
  kind_le_of_increasing h.increasing

/-- `handle_kind` goes over the tags of the kind. -/
theorem handleKind_eq (ft : Settings) (info : CmdCallInfo) {tags : List Tag}
    (hsorted : tags.Pairwise fun a b => a.kind ≤ b.kind)
    (hmem : ∃ tag ∈ tags, tag.kind = info.kind) :
    ∃ first others n, (tags.filter fun tag => tag.kind = info.kind) = first :: others ∧
      handleKind (firstOf tags info.kind) ft tags info =
        .ok (bt "silent! syntax clear " ++ groupId ft info ++ bt " | " ++
          (if info.matchPrefix.isSome ∨ info.matchSuffix.isSome then
            matchCommand ft info first others
          else keywordCommand ft info first others), n) := by
  obtain ⟨tag, htag, hkind⟩ := hmem
  have hfilter := takeWhile_drop_firstOf info.kind hsorted
  have hin : tag ∈ tags.filter fun tag => tag.kind = info.kind := by simp [htag, hkind]
  rw [← hfilter] at hin
  cases hdrop : tags.drop (firstOf tags info.kind) with
  | nil =>
      rw [hdrop] at hin
      cases hin
  | cons first rest =>
      rw [hdrop] at hin hfilter
      have hfirst : first.kind = info.kind := by
        by_contra hne
        rw [List.takeWhile_cons_of_neg (by simpa using hne)] at hin
        cases hin
      rw [List.takeWhile_cons_of_pos (by simpa using hfirst)] at hfilter
      let others := rest.takeWhile fun tag => tag.kind = info.kind
      refine ⟨first, others, firstOf tags info.kind + 1 + others.length, hfilter.symm, ?_⟩
      rw [handleKind, hdrop]

/-! ### The command as words

A text is a word for Vim if it is not empty, has no blank, and has no bar where a bar ends the
command, which is anywhere or only at the front of a word.  The fixed parts of the command are
words, and that can be computed; of the group and the names it is the condition.  Conversely,
whatever Vim reads in a text are words, so if it reads the names, then the names are.
-/

section Keyword

variable {inWord : Bool} {ft : Settings} {info : CmdCallInfo}

/-- A word that is fixed can be checked letter by letter. -/
theorem isWord_literal (w : BString)
    (hw : (!w.isEmpty && w.all fun c => !isBlank c && c != bar) = true) : IsWord inWord w := by
  rw [Bool.and_eq_true, List.all_eq_true] at hw
  have hletter : ∀ c ∈ w, isBlank c = false ∧ (c == bar) = false := by
    intro c hc
    simpa using hw.2 c hc
  refine ⟨by simpa using hw.1, fun c hc => (hletter c hc).1, ?_⟩
  intro c hc
  apply (hletter c _).2
  split at hc
  · exact hc
  · exact List.mem_of_mem_take hc

/-- The first command, up to the bar. -/
def clearWords (groupId : BString) : List BString :=
  [bt "silent!", bt "syntax", bt "clear", groupId]

def keywordWords (groupId : BString) (names : List BString) : List BString :=
  [bt "syntax", bt "keyword", groupId] ++ names ++ [bt "display"]

/-- The last command, up to the group. -/
def linkWords (groupId : BString) : List BString := [bt "hi", bt "def", bt "link", groupId]

theorem keyword_text (first : Tag) (others : List Tag) :
    bt "silent! syntax clear " ++ groupId ft info ++ bt " | " ++
        keywordCommand ft info first others =
      Words.spaced space (clearWords (groupId ft info)) ++ bar :: space :: space ::
        (Words.spaced space (keywordWords (groupId ft info) ((first :: others).map Tag.name)) ++
          bar :: space :: (Words.spaced space (linkWords (groupId ft info)) ++ info.group)) := by
  have hclear : bt "silent! syntax clear " =
      Words.spaced space [bt "silent!", bt "syntax", bt "clear"] := by decide
  have hkeyword : bt " syntax keyword " =
      space :: Words.spaced space [bt "syntax", bt "keyword"] := by decide
  have hlink : bt "display | hi def link " =
      Words.spaced space [bt "display"] ++ bar :: space ::
        Words.spaced space [bt "hi", bt "def", bt "link"] := by decide
  have hbar : bt " | " = [space, bar, space] := by decide
  have hspace : bt " " = [space] := by decide
  unfold keywordCommand
  rw [hclear, hkeyword, hlink, hbar, hspace]
  simp [clearWords, keywordWords, linkWords, Words.spaced, List.flatMap_map]

/-- The words of the whole command. -/
theorem isKeywordCommand_of_words {groupId group : BString} {names : List BString}
    (hid : IsWord inWord groupId) (hgroup : IsWord inWord group)
    (hnames : ∀ name ∈ names, IsWord inWord name) :
    IsKeywordCommand inWord groupId group names
      (Words.spaced space (clearWords groupId) ++ bar :: space :: space ::
        (Words.spaced space (keywordWords groupId names) ++
          bar :: space :: (Words.spaced space (linkWords groupId) ++ group))) := by
  have hclear : ∀ w ∈ clearWords groupId, IsWord inWord w := by
    simp only [clearWords, List.forall_mem_cons]
    exact ⟨isWord_literal _ rfl, isWord_literal _ rfl,
      isWord_literal _ rfl, hid, List.forall_mem_nil _⟩
  have hkeyword : ∀ w ∈ keywordWords groupId names, IsWord inWord w := by
    simp only [keywordWords, List.forall_mem_append, List.forall_mem_cons]
    exact ⟨⟨⟨isWord_literal _ rfl, isWord_literal _ rfl, hid,
      List.forall_mem_nil _⟩, hnames⟩, isWord_literal _ rfl, List.forall_mem_nil _⟩
  have hlink : ∀ w ∈ linkWords groupId, IsWord inWord w := by
    simp only [linkWords, List.forall_mem_cons]
    exact ⟨isWord_literal _ rfl, isWord_literal _ rfl,
      isWord_literal _ rfl, hid, List.forall_mem_nil _⟩
  have hlast : Words.commands isBlank (· == bar) inWord true group = [group] := by
    have hword := Words.commands_word hgroup []
    rw [List.append_nil] at hword
    rw [hword]
    simp [Words.commands]
  have hblank : isBlank space = true := rfl
  have hspace : (space == bar) = false := rfl
  unfold IsKeywordCommand exCommands
  rw [Words.commands_spaced hblank hspace hclear, Words.commands_bar (by rfl),
    Words.commands_blank hblank hspace, Words.commands_blank hblank hspace,
    Words.commands_spaced hblank hspace hkeyword, Words.commands_bar (by rfl),
    Words.commands_blank hblank hspace, Words.commands_spaced hblank hspace hlink, hlast]
  simp only [List.modifyHead_cons, List.map_cons, List.map_nil]
  rw [Words.words_spaced hblank hclear, Words.words_blank hblank, Words.words_blank hblank,
    Words.words_spaced hblank hkeyword, Words.words_blank hblank,
    Words.words_spaced hblank hlink, Words.words_last hgroup]
  simp [clearWords, keywordWords, linkWords, Words.words]

theorem words_of_isKeywordCommand {groupId group : BString} {names : List BString}
    {cmd : BString} (h : IsKeywordCommand inWord groupId group names cmd) :
    ∀ w ∈ groupId :: group :: names, IsWord inWord w := by
  have hrow : ∀ row ∈ (exCommands inWord cmd).map (Words.words isBlank), ∀ w ∈ row,
      IsWord inWord w := by
    intro row hmem w hw
    obtain ⟨c, hc, rfl⟩ := List.mem_map.mp hmem
    exact Words.isWord_of_mem hc hw
  rw [h] at hrow
  intro w hw
  rcases List.mem_cons.mp hw with rfl | hw
  · exact hrow _ List.mem_cons_self w (by simp)
  rcases List.mem_cons.mp hw with rfl | hname
  · exact hrow [bt "hi", bt "def", bt "link", groupId, w] (by simp) w (by simp)
  · exact hrow ([bt "syntax", bt "keyword", groupId] ++ names ++ [bt "display"]) (by simp) w
      (by simp [hname])

/-- What `handle_kind` returns for a group of keywords. -/
theorem handleKind_keyword (ft : Settings) {tags : List Tag} (hfront : info.matchPrefix = none)
    (hsuffix : info.matchSuffix = none) (hsorted : tags.Pairwise fun a b => a.kind ≤ b.kind)
    (hmem : ∃ tag ∈ tags, tag.kind = info.kind) :
    ∃ first others n, (tags.filter fun tag => tag.kind = info.kind) = first :: others ∧
      handleKind (firstOf tags info.kind) ft tags info =
        .ok (bt "silent! syntax clear " ++ groupId ft info ++ bt " | " ++
          keywordCommand ft info first others, n) := by
  obtain ⟨first, others, n, hfilter, hkind⟩ := handleKind_eq ft info hsorted hmem
  refine ⟨first, others, n, hfilter, ?_⟩
  rw [hkind, if_neg (by simp [hfront, hsuffix])]

end Keyword

/-! ### The commands of a buffer -/

/-- `handle_kind` is called where there is a tag. -/
theorem groupCommands_length (ft : Settings) (tags : List Tag) (infos : List CmdCallInfo) :
    ∃ cmds, groupCommands ft tags infos = .ok cmds ∧
      cmds.length = (infos.filter (hasTag tags)).length := by
  induction infos with
  | nil => exact ⟨[], rfl, rfl⟩
  | cons info infos ih =>
      obtain ⟨rest, hrest, hlen⟩ := ih
      by_cases hctr : firstOf tags info.kind = tags.length
      · have hnone : hasTag tags info = false := by
          rw [hasTag, List.any_eq_false]
          intro tag htag
          rw [List.findIdx_eq_length.mp hctr tag htag]
          exact Bool.false_ne_true
        refine ⟨rest, by simp [groupCommands, hrest, hctr, bind, Except.bind], ?_⟩
        rw [List.filter_cons_of_neg (by simp [hnone]), hlen]
      · have hlt : firstOf tags info.kind < tags.length :=
          Nat.lt_of_le_of_ne List.findIdx_le_length hctr
        have hany : hasTag tags info = true := by
          rw [hasTag, List.any_eq_true]
          exact ⟨tags.get ⟨_, hlt⟩, List.get_mem _ _,
            List.findIdx_getElem (p := fun tag : Tag => decide (tag.kind = info.kind))⟩
        rw [List.filter_cons_of_pos hany, List.length_cons, ← hlen]
        cases hdrop : tags.drop (firstOf tags info.kind) with
        | nil => exact absurd (List.drop_eq_nil_iff.mp hdrop) (by omega)
        | cons first others =>
            simp [groupCommands, hrest, hctr, handleKind, hdrop, bind, Except.bind]

/-- **A buffer's commands are `ownsyntax` and one for each group that has a tag.** -/
theorem updateCommands_length (ft : Settings) (infos : List CmdCallInfo) (tags : List Tag) :
    ∃ cmds, updateCommands ft infos tags = .ok (bt "ownsyntax" :: cmds) ∧
      cmds.length = (infos.filter (hasTag tags)).length := by
  obtain ⟨cmds, hcmds, hlen⟩ := groupCommands_length ft tags infos
  exact ⟨cmds, by simp [updateCommands, hcmds, bind, Except.bind], hlen⟩

/-! ### The command of a group

Which names are in a command is settled by the scan, and whether Vim reads them as names by their
bytes. ctags knows languages in which a name can have a bar in it, so the condition is one that
the code could have checked.
-/

/--
**The command for a group without prefix and suffix is read as three commands, with the group
and its names as the words of the second, exactly when each name, the group and its identifier
are one word.**
-/
theorem handleKind_isKeywordCommand_iff {inWord : Bool} {ft : Settings} {tags : List Tag}
    {info : CmdCallInfo} (hfront : info.matchPrefix = none) (hsuffix : info.matchSuffix = none)
    (hsorted : tags.Pairwise fun a b => a.kind ≤ b.kind)
    (hmem : ∃ tag ∈ tags, tag.kind = info.kind) :
    (∃ cmd n, handleKind (firstOf tags info.kind) ft tags info = .ok (cmd, n) ∧
      IsKeywordCommand inWord (groupId ft info) info.group (namesOf info.kind tags) cmd) ↔
      ∀ w ∈ groupId ft info :: info.group :: namesOf info.kind tags, IsWord inWord w := by
  constructor
  · rintro ⟨cmd, n, _, hcmd⟩
    exact words_of_isKeywordCommand hcmd
  · intro hwords
    obtain ⟨first, others, n, hfilter, hkind⟩ := handleKind_keyword ft hfront hsuffix
      hsorted hmem
    have hnames : namesOf info.kind tags = (first :: others).map Tag.name := by
      rw [namesOf, hfilter]
    refine ⟨_, n, hkind, ?_⟩
    rw [keyword_text, hnames]
    rw [hnames] at hwords
    apply isKeywordCommand_of_words
    · exact hwords _ List.mem_cons_self
    · exact hwords _ (by simp)
    · intro name hname
      exact hwords name (List.mem_cons_of_mem _ (List.mem_cons_of_mem _ hname))

/-- The group of the functions. -/
def functions : CmdCallInfo where
  kind := 102
  group := bt "Function"
  matchPrefix := none
  matchSuffix := none

def plainC : Settings := { vimName := bt "c", globalAllbut := none, ftAllbut := none }

/-- Two functions and a structure. -/
def mainTags : List Tag := [⟨bt "main", 102⟩, ⟨bt "puts", 102⟩, ⟨bt "point", 115⟩]

theorem handleKind_isKeywordCommand_main :
    ∃ cmd n, handleKind (firstOf mainTags functions.kind) plainC mainTags functions = .ok (cmd, n) ∧
      IsKeywordCommand true (groupId plainC functions) functions.group
        (namesOf functions.kind mainTags) cmd := by
  refine (handleKind_isKeywordCommand_iff rfl rfl (by decide)
    ⟨⟨bt "main", 102⟩, List.mem_cons_self, rfl⟩).mpr ?_
  intro w hw
  have hcases : w = groupId plainC functions ∨ w = functions.group ∨ w = bt "main" ∨
      w = bt "puts" := by
    simpa [namesOf, functions, mainTags] using hw
  rcases hcases with rfl | rfl | rfl | rfl <;> exact isWord_literal _ rfl

/-- A line of the tags file, for a method of Ruby. -/
def operatorLine : BString := bt "|\tx.rb\t/^def |(x)$/\tf\tlanguage:Ruby"

/-- The filter that a buffer of this file makes. -/
def ownFile : Filter where
  vimBuf := []
  skip := []
  equiv := none
  lang := bt "Ruby"
  order := bt "f"
  filename := bt "x.rb"
  cFamily := false

def plainRuby : Settings := { vimName := bt "ruby", globalAllbut := none, ftAllbut := none }

/-- The name of an operator passes, ends the command and begins another. -/
theorem handleKind_operator :
    searchLine plainLibrary ownFile operatorLine = some ⟨bt "|", 102⟩ ∧
      (∃ cmd n, handleKind 0 plainRuby [⟨bt "|", 102⟩, ⟨bt "quit", 102⟩] functions =
          .ok (cmd, n) ∧
        ((exCommands false cmd).map (Words.words isBlank))[2]? =
          some [bt "quit", bt "display"]) ∧
      ¬ ∀ (inWord : Bool) (tags : List Tag),
        (∀ tag ∈ tags, tag.kind = functions.kind ∧ tag.name ≠ [] ∧
          (9 : UInt8) ∉ tag.name ∧ (10 : UInt8) ∉ tag.name) → tags ≠ [] →
        ∃ cmd n, handleKind (firstOf tags functions.kind) plainRuby tags functions = .ok (cmd, n) ∧
          IsKeywordCommand inWord (groupId plainRuby functions) functions.group
            (namesOf functions.kind tags) cmd := by
  refine ⟨by decide, ⟨_, _, rfl, by decide⟩, ?_⟩
  intro h
  obtain ⟨cmd, n, hcmd, hread⟩ := h false [⟨bt "|", 102⟩] (by decide) (by simp)
  have hword := words_of_isKeywordCommand hread (bt "|") (by decide)
  exact absurd (hword.noBar bar (by decide)) (by decide)

end TagHighlight.Commands
