/-
What `init_filetype` makes of the user's variables.

First each variable is read, and it is shown what the file type is given, and when it is given
anything: a kind in the order without settings is the end of the process.  What remains is what
becomes of the groups that are to look as before.  Neovim prints whatever it prints for them; a text
is cut into lines and words by two loops, one over `b_memsep` and one over `strchr`, and each of
them comes to a plain function of the text.

A file type with a parser then ignores just the words of the user's list and those that were
printed, and for C it is the end if there is no list at all.  Another one is given the commands that
the lines make, one for each group in turn.  What Neovim does with them is not said.
-/
import Mathlib.Data.List.Dedup
import TagHighlight.Buffer.Filetype
import TagHighlight.Proofs.Ctags.Names
import TagHighlight.Proofs.Events.Notification
import TagHighlight.Proofs.Lang.Typeid
import TagHighlight.Proofs.Mpack.Expect

namespace TagHighlight.InitFiletype

open Ascii Notification

variable {lib : Library} {nvim : Neovim} {config : Config} {ft : Filetype}

/-! ### Variables

Every answer of Neovim goes through `mpack_expect`, and then a member of the union is read that may
not be the one that was stored.  For variables of the right types it always is, and a variable that
is not there is a null pointer.
-/

/-- What is read of a variable goes to the rest. -/
theorem bind_bind_of_eq {α β γ : Type} {x : Except Stop α} {f : α → Except Stop β} {b : β}
    (h : (x >>= f) = .ok b) (k : β → Except Stop γ) : (x >>= fun a => f a >>= k) = k b := by
  rw [← bind_assoc, h]
  rfl

/-- What one is expected to be is handed out. -/
theorem expect_of_branch {type : Expect} {obj : Obj} {ret : Retval}
    (h : type.branch obj = some (.ok ret)) (alternatives : UInt32) :
    expect (some obj) type alternatives = .ok ret := by
  rw [expect, mpackExpect_taken h]

theorem internMpackExpect_ok (obj : Obj) (type : Expect) :
    Api.internMpackExpect (response (.ok obj)) type 0 = expect (some obj) type 0 := rfl

theorem internMpackExpect_error (mes : BString) (type : Expect) :
    Api.internMpackExpect (response (.error mes)) type 0 = .ok (.num 0) := by
  have hmes : expect (some (.string mes)) .string 0 = .ok (.str mes) := expect_of_branch rfl 0
  unfold Api.internMpackExpect
  show (do
    let _ ← expect (some (Obj.string mes)) .string 0
    Except.ok (Retval.num 0)) = Except.ok (Retval.num 0)
  rw [hmes]
  rfl

theorem strVar {varname : BString} {value : Option BString}
    (h : nvim.HasVar varname (value.map Obj.string)) :
    (nvim.getVar varname .string >>= ptrOf strOf) = .ok value := by
  unfold Neovim.getVar
  cases value with
  | none =>
      obtain ⟨mes, hmes⟩ := h
      rw [hmes, internMpackExpect_error]
      rfl
  | some str =>
      rw [show nvim.var varname = .ok (.string str) from h, internMpackExpect_ok,
        expect_of_branch (show Expect.string.branch (.string str) = some (.ok (.str str)) from rfl)]
      rfl

theorem dictVar {varname : BString} (value : Option (List (Obj × Obj)))
    (h : nvim.HasVar varname (value.map Obj.dict)) :
    (nvim.getVar varname .mpackDict >>= ptrOf dictOf) = .ok value := by
  unfold Neovim.getVar
  cases value with
  | none =>
      obtain ⟨mes, hmes⟩ := h
      rw [hmes, internMpackExpect_error]
      rfl
  | some dict =>
      rw [show nvim.var varname = .ok (.dict dict) from h, internMpackExpect_ok,
        expect_of_branch (show Expect.mpackDict.branch (.dict dict) = some (.ok (.dict dict)) from rfl)]
      rfl

theorem findKeyValue_entries {α : Type} (value : α → Obj) (dict : List (BString × α))
    (key : BString) : findKeyValue key (entries value dict) = .ok ((dict.lookup key).map value) := by
  induction dict with
  | nil => rfl
  | cons entry dict ih =>
      obtain ⟨name, a⟩ := entry
      rw [entries, List.map_cons, findKeyValue, List.lookup_cons]
      by_cases hkey : name = key
      · rw [if_pos hkey, hkey, beq_self_eq_true]
        rfl
      · rw [if_neg hkey, beq_eq_false_iff_ne.mpr (Ne.symm hkey)]
        exact ih

theorem mpackDictGetKey_entries {α : Type} {value : α → Obj} {type : Expect} {ret : α → Retval}
    (hbranch : ∀ a, type.branch (value a) = some (.ok (ret a))) (dict : List (BString × α))
    (key : BString) :
    mpackDictGetKey (some (entries value dict)) type key =
      .ok (match dict.lookup key with
        | none => .null
        | some a => ret a) := by
  unfold mpackDictGetKey
  dsimp only
  rw [findKeyValue_entries]
  cases dict.lookup key with
  | none => rfl
  | some a => exact expect_of_branch (hbranch a) 0

theorem mpackArrayToBlist_map (list : List BString) :
    mpackArrayToBlist (list.map Obj.string) = .strlist list := by
  have hmap : (list.map Obj.string).mapM Obj.str? = some list := by
    induction list with
    | nil => rfl
    | cons str list ih => simp [Obj.str?, ih]
  rw [mpackArrayToBlist, hmap]

theorem strlistEntry (dict : List (BString × List BString)) (key : BString) :
    (mpackDictGetKey (some (entries strs dict)) .strlist key >>= ptrOf strlistOf) =
      .ok (dict.lookup key) := by
  have hbranch : ∀ list : List BString,
      Expect.strlist.branch (strs list) = some (.ok (.strlist list)) := by
    intro list
    rw [strs, Expect.branch, mpackArrayToBlist_map]
  rw [mpackDictGetKey_entries hbranch]
  cases dict.lookup key <;> rfl

theorem arrEntry (dict : List (BString × List BString)) (key : BString) :
    (mpackDictGetKey (some (entries strs dict)) .mpackArray key >>= ptrOf arrOf) =
      .ok ((dict.lookup key).map (List.map Obj.string)) := by
  have hbranch : ∀ list : List BString,
      Expect.mpackArray.branch (strs list) = some (.ok (.arr (list.map Obj.string))) :=
    fun _ => rfl
  rw [mpackDictGetKey_entries hbranch]
  cases dict.lookup key <;> rfl

/-- The group for a kind, which is a string if it is there. -/
theorem groupEntry {dict : List (BString × Obj)}
    (hgroup : ∀ obj, dict.lookup (bt "group") = some obj → ∃ group, obj = .string group) :
    (mpackDictGetKey (some (entries id dict)) .string (bt "group") >>= ptrOf strOf) =
      .ok (groupOf dict) := by
  unfold mpackDictGetKey groupOf
  dsimp only
  rw [findKeyValue_entries]
  cases hlookup : dict.lookup (bt "group") with
  | none => rfl
  | some obj =>
      obtain ⟨group, rfl⟩ := hgroup obj hlookup
      have hstr : expect (some (.string group)) .string 0 = .ok (.str group) := expect_of_branch rfl 0
      simp only [Option.map_some, ok_bind, id, hstr]
      rfl

theorem output_eq (nvim : Neovim) (src : BString) :
    nvim.output src = .ok (nvim.exec src).toOption := by
  unfold Neovim.output
  cases hexec : nvim.exec src with
  | error mes =>
      show (Api.internMpackExpect (response (.error mes)) .string 0 >>= ptrOf strOf) = _
      rw [internMpackExpect_error]
      rfl
  | ok out =>
      show (Api.internMpackExpect (response (.ok (.string out))) .string 0 >>= ptrOf strOf) = _
      rw [internMpackExpect_ok,
        expect_of_branch (show Expect.string.branch (.string out) = some (.ok (.str out)) from rfl)]
      rfl

/-! ### The file type

`init_filetype` is one chain of calls.  With the variables read, there are two of them left that can
fail: what is done with the restored groups, and the settings for the kinds.
-/

theorem equivOf_entries (dict : List (BString × BString)) :
    equivOf (entries Obj.string dict) = .ok (dict.map fun entry => entry.1 ++ entry.2) := by
  induction dict with
  | nil => rfl
  | cons entry dict ih =>
      show (do .ok ((entry.1 ++ entry.2) :: (← equivOf (entries Obj.string dict)))) = _
      rw [ih]
      rfl

theorem map_eq_ok {α β : Type} {x : Except Stop α} {f : α → β} {b : β} :
    x.map f = .ok b ↔ ∃ a, x = .ok a ∧ b = f a := by
  cases x with
  | error e => simp [Except.map]
  | ok a => simp [Except.map, eq_comm]

/-- A list is gone through to its end, or up to the first failure. -/
theorem mapM_eq_ok {α β : Type} {f : α → Except Stop β} {list : List α} {results : List β} :
    list.mapM f = .ok results ↔ List.Forall₂ (fun a b => f a = .ok b) list results := by
  induction list generalizing results with
  | nil =>
      rw [List.mapM_nil, List.forall₂_nil_left_iff]
      exact ⟨fun h => (Except.ok.inj h).symm, fun h => h ▸ rfl⟩
  | cons a list ih =>
      rw [List.mapM_cons, List.forall₂_cons_left_iff]
      constructor
      · intro h
        obtain ⟨b, hb, hrest⟩ := bind_eq_ok.mp h
        obtain ⟨bs, hbs, hresults⟩ := bind_eq_ok.mp hrest
        exact ⟨b, bs, hb, ih.mp hbs, (Except.ok.inj hresults).symm⟩
      · rintro ⟨b, bs, hb, hbs, rfl⟩
        rw [hb, ok_bind, ih.mpr hbs]
        rfl

/-- What is read for a kind. -/
theorem cmdInfoOf_eq_ok (hset : config.Set nvim ft.vimName) {ch : UInt8}
    (hch : ch ∈ config.order.getD []) {n : Nat} {info : CmdInfo} :
    cmdInfoOf nvim ft.vimName n ch = .ok info ↔ (config.kinds ch).isSome ∧
      info = { kind := ch, group := (config.kinds ch).bind groupOf, num := n } := by
  have hvar := hset.kinds ch hch
  rw [cmdInfoOf]
  cases hkind : config.kinds ch with
  | none =>
      rw [hkind] at hvar
      have hdict : (nvim.getVar (pkg (ft.vimName ++ bt "#" ++ [ch])) .mpackDict >>= ptrOf dictOf) =
          .ok none := dictVar none hvar
      rw [bind_bind_of_eq hdict]
      exact iff_of_false (fun h => nomatch h) (by simp)
  | some dict =>
      rw [hkind] at hvar
      have hdict : (nvim.getVar (pkg (ft.vimName ++ bt "#" ++ [ch])) .mpackDict >>= ptrOf dictOf) =
          .ok (some (entries id dict)) := dictVar (some _) hvar
      rw [bind_bind_of_eq hdict, bind_bind_of_eq (groupEntry fun obj => hset.groups ch dict obj hkind)]
      simp [eq_comm]

/-- All kinds of the order have to have settings. -/
theorem getCmdInfo_eq_ok (hset : config.Set nvim ft.vimName) {infos : List CmdInfo}
    (tags : Option (List BString)) (cmds : Option BString) :
    getCmdInfo nvim ft.vimName (config.order.getD []) = .ok infos ↔
      config.Described ∧ infos = (ft.configured config tags cmds).cmdInfo := by
  have hall : ∀ n : Nat, ∀ list ⊆ config.order.getD [], ∀ infos : List CmdInfo,
      List.Forall₂ (fun ch info => cmdInfoOf nvim ft.vimName n ch = .ok info) list infos ↔
        (∀ ch ∈ list, (config.kinds ch).isSome) ∧ infos = list.map fun ch =>
          { kind := ch, group := (config.kinds ch).bind groupOf, num := n } := by
    intro n list
    induction list with
    | nil => intro _ infos; simp
    | cons ch list ih =>
        intro hsub infos
        obtain ⟨hch, hlist⟩ := List.cons_subset.mp hsub
        rw [List.forall₂_cons_left_iff, List.forall_mem_cons, List.map_cons]
        constructor
        · rintro ⟨info, rest, hinfo, hrest, rfl⟩
          obtain ⟨hsome, rfl⟩ := (cmdInfoOf_eq_ok hset hch).mp hinfo
          obtain ⟨hothers, rfl⟩ := (ih hlist rest).mp hrest
          exact ⟨⟨hsome, hothers⟩, rfl⟩
        · rintro ⟨⟨hsome, hothers⟩, rfl⟩
          exact ⟨_, _, (cmdInfoOf_eq_ok hset hch).mpr ⟨hsome, rfl⟩,
            (ih hlist _).mpr ⟨hothers, rfl⟩, rfl⟩
  exact mapM_eq_ok.trans (hall _ _ (List.Subset.refl _) infos)

theorem userTags_eq (list : Option (List BString)) :
    userTags lib (list.map (List.map Obj.string)) = .ok (list.map lib.qsort) := by
  cases list with
  | none => rfl
  | some list => simp [userTags, mpackArrayToBlist_map]

/-- The groups are looked up. -/
theorem getIgnoredTags_eq {groups : List (BString × List BString)}
    (hgroups : nvim.HasVar (pkg (bt "restored_groups")) (some (.dict (entries strs groups)))) :
    getIgnoredTags lib nvim ft = (do
      let ft' ← takeRestoredGroups lib nvim ft (groups.lookup ft.vimName)
      .ok { ft' with restoreCmdsInitialized := true }) := by
  have hdict : (nvim.getVar (pkg (bt "restored_groups")) .mpackDict >>= ptrOf dictOf) =
      .ok (some (entries strs groups)) := dictVar (some _) hgroups
  rw [getIgnoredTags, bind_bind_of_eq hdict, bind_bind_of_eq (strlistEntry _ ft.vimName)]

/-- The file type when `get_ignored_tags` is called. -/
def started (lib : Library) (config : Config) (ft : Filetype) : Filetype :=
  { ft with
    initialized := true, order := config.order.getD []
    ignoredTags := (config.ignoredTags.lookup ft.vimName).map lib.qsort, restoreCmds := none }

/-- The file type is set up if the groups are taken and every kind has settings. -/
theorem initFiletype_eq_ok (hset : config.Set nvim ft.vimName) (hft : ft.initialized = false)
    {taken : Except Stop (Option (List BString) × Option BString)}
    (htaken : takeRestoredGroups lib nvim (started lib config ft)
        (config.restoredGroups.lookup ft.vimName) =
      taken.map fun t => { started lib config ft with ignoredTags := t.1, restoreCmds := t.2 })
    {ft' : Filetype} :
    initFiletype lib nvim (some (entries strs config.ignoredTags)) ft = .ok ft' ↔
      config.Described ∧ ∃ t, taken = .ok t ∧ ft' = ft.configured config t.1 t.2 := by
  have hignored : getIgnoredTags lib nvim (started lib config ft) = _ :=
    getIgnoredTags_eq hset.restoredGroups
  have hvimName : (started lib config ft).vimName = ft.vimName := rfl
  have hequiv := dictVar (config.equivalent.map (entries Obj.string)) (show nvim.HasVar (pkg (ft.vimName ++ bt "#equivalent"))
    ((config.equivalent.map (entries Obj.string)).map Obj.dict) by
      rw [Option.map_map]
      exact hset.equivalent)
  have hdict : (config.equivalent.map (entries Obj.string)).mapM equivOf =
      .ok (config.equivalent.map fun dict => dict.map fun entry => entry.1 ++ entry.2) := by
    cases config.equivalent with
    | none => rfl
    | some dict =>
        show (do return some (← equivOf (entries Obj.string dict))) = _
        rw [equivOf_entries]
        rfl
  rw [hvimName, htaken, started] at hignored
  rw [initFiletype, hft, if_neg Bool.false_ne_true, bind_bind_of_eq (strVar hset.order),
    bind_bind_of_eq (arrEntry config.ignoredTags ft.vimName), userTags_eq, ok_bind, hignored]
  cases taken with
  | error e => exact iff_of_false (fun h => nomatch h) fun ⟨_, _, ht, _⟩ => nomatch ht
  | ok t =>
      simp only [Except.map, ok_bind]
      rw [bind_bind_of_eq hequiv, hdict, ok_bind, bind_eq_ok]
      constructor
      · rintro ⟨infos, hinfos, hft'⟩
        obtain ⟨hdescribed, rfl⟩ := (getCmdInfo_eq_ok hset t.1 t.2).mp hinfos
        exact ⟨hdescribed, t, rfl, (Except.ok.inj hft').symm⟩
      · rintro ⟨hdescribed, t', ht', rfl⟩
        obtain rfl := Except.ok.inj ht'
        exact ⟨_, (getCmdInfo_eq_ok hset t.1 t.2).mpr ⟨hdescribed, rfl⟩, rfl⟩

/-! ### The words of the groups

The text behind "xxx" is cut into lines, and a line into words, by one function that is called until
nothing is left.  What this takes off is what stands between the delimiters, so the words of a
group are those of `listedWords`, and the reading fails only for a command that is too long, or for
a text that ends with "xxx".
-/

section Words

variable {group output : BString} {words : List BString}

theorem wordsOfLines_eq (hsplits : Delimited.Splits lib.memsep) (text : BString) :
    wordsOfLines lib (Delimited.tokens lib.memsep newline text) = listedWords text := by
  rw [Delimited.tokens_eq_cut hsplits, listedWords]
  induction Delimited.cut newline text with
  | nil => rfl
  | cons line lines ih =>
      rw [wordsOfLines, List.map_cons, List.takeWhile_cons]
      by_cases hlink : (bt "links to ").isPrefixOf (line.dropWhile isBlank) = true
      · simp [hlink]
      · simp [hlink, ih, Delimited.tokens_eq_cut hsplits]

/-- The words of what is printed, if it is no pattern. -/
def wordsOf (output : BString) : List BString :=
  if bt "match /" <+: output then [] else ((listedText output).map listedWords).getD []

theorem shows_iff (word : BString) :
    nvim.Shows group word ↔ ∃ output, nvim.listed group = some output ∧ word ∈ wordsOf output := by
  simp only [Neovim.Shows, wordsOf]
  refine exists_congr fun output => ⟨?_, ?_⟩
  · rintro ⟨text, hlisted, hpattern, htext, hword⟩
    rw [if_neg hpattern, htext]
    exact ⟨hlisted, hword⟩
  · rintro ⟨hlisted, hword⟩
    by_cases hpattern : bt "match /" <+: output
    · rw [if_pos hpattern] at hword
      exact absurd hword List.not_mem_nil
    · rw [if_neg hpattern] at hword
      cases htext : listedText output with
      | none =>
          rw [htext] at hword
          exact absurd hword List.not_mem_nil
      | some text =>
          rw [htext] at hword
          exact ⟨text, hlisted, hpattern, rfl, hword⟩

theorem skipXxx_eq_ok {n : Nat} {text : BString} :
    skipXxx output n = .ok text ↔ n + 4 ≤ output.length ∧ text = output.drop (n + 4) := by
  rw [skipXxx]
  split
  · exact iff_of_false (fun h => nomatch h) (by omega)
  · refine ⟨fun h => ⟨by omega, (Except.ok.inj h).symm⟩, fun h => by rw [h.2]⟩

theorem restoredWords_eq_ok (hsplits : Delimited.Splits lib.memsep) :
    restoredWords lib output = .ok words ↔
      (¬ bt "match /" <+: output → Complete output) ∧ words = wordsOf output := by
  simp only [restoredWords, wordsOf, Complete, listedText, List.isPrefixOf_iff_prefix]
  cases hfound : findXxx output with
  | none => simp [eq_comm]
  | some n =>
      by_cases hpattern : bt "match /" <+: output
      · simp [hpattern, eq_comm]
      · simp only [hpattern, if_false, bind_eq_ok, skipXxx_eq_ok, wordsOfLines_eq hsplits]
        constructor
        · rintro ⟨text, ⟨hlength, rfl⟩, hwords⟩
          exact ⟨fun _ m hm => Option.some.inj hm ▸ hlength, (Except.ok.inj hwords).symm⟩
        · rintro ⟨hcomplete, rfl⟩
          exact ⟨_, ⟨hcomplete not_false n rfl, rfl⟩, rfl⟩

/-- What is appended for a group. -/
theorem wordsOfGroup_eq_ok (hsplits : Delimited.Splits lib.memsep) :
    wordsOfGroup lib nvim group = .ok words ↔ nvim.Readable group ∧
      words = ((nvim.listed (cstr group)).map wordsOf).getD [] := by
  have hlength : (bt "syntax list " ++ cstr group).length = 12 + (cstr group).length :=
    List.length_append
  rw [wordsOfGroup, listCommand, Neovim.Readable, hlength]
  by_cases hshort : 12 + (cstr group).length < 8192
  · rw [if_pos hshort, ok_bind, output_eq, ok_bind, ← Neovim.listed]
    cases nvim.listed (cstr group) with
    | none => simp [hshort, eq_comm]
    | some output => simp [hshort, restoredWords_eq_ok hsplits]
  · rw [if_neg hshort]
    exact iff_of_false (fun h => nomatch h) fun h => hshort h.1.1

/-- All groups have to be readable; then their words are collected. -/
theorem getTags_eq_ok (hsplits : Delimited.Splits lib.memsep) {groups : List BString} :
    getTagsFromRestoredGroups lib nvim groups = .ok words ↔
      (∀ group ∈ groups, nvim.Readable group) ∧
        words = groups.flatMap fun group => ((nvim.listed (cstr group)).map wordsOf).getD [] := by
  induction groups generalizing words with
  | nil => simp [getTagsFromRestoredGroups, eq_comm]
  | cons group groups ih =>
      simp only [getTagsFromRestoredGroups, bind_eq_ok, wordsOfGroup_eq_ok hsplits, ih,
        List.forall_mem_cons, List.flatMap_cons]
      constructor
      · rintro ⟨_, ⟨hgroup, rfl⟩, _, ⟨hgroups, rfl⟩, hwords⟩
        exact ⟨⟨hgroup, hgroups⟩, (Except.ok.inj hwords).symm⟩
      · rintro ⟨⟨hgroup, hgroups⟩, rfl⟩
        exact ⟨_, ⟨hgroup, rfl⟩, _, ⟨hgroups, rfl⟩, rfl⟩

/-- What is in a list that was sorted is found. -/
theorem bsearch_qsort {strcmp : BString → BString → Int} (hlib : lib.Exact strcmp)
    (list : List BString) (word : BString) :
    lib.bsearch (lib.qsort list) word = true ↔ word ∈ list :=
  (hlib.bsearch word _ (hlib.sorted list)).trans (hlib.behaves.perm list).mem_iff

end Words

/-! ### The commands for the groups

Here the text is a string of C, so it ends at a NUL, and the lines are found by `strchr`.  The loop
leaves the pointer at the last line, the one without a newline behind it; nothing else looks for the
link there, and what stands from its tenth byte on is taken for the name.  So a command is made of
every text but a pattern, whatever its lines say.
-/

section Commands

variable {group output : BString}

/-- The loop over the lines takes all but the last, and stops there. -/
theorem lineLoop_eq (fuel : Nat) {ptr : BString} (h : ptr.length ≤ fuel) :
    lineLoop fuel ptr = ((textLines ptr).dropLast, (textLines ptr).getLastD []) := by
  induction fuel generalizing ptr with
  | zero =>
      obtain rfl := List.length_eq_zero_iff.mp (Nat.le_zero.mp h)
      rfl
  | succ fuel ih =>
      rw [lineLoop]
      by_cases hmem : newline ∈ ptr
      · obtain ⟨line, rest, rfl, hline⟩ := Delimited.exists_cut_of_mem hmem
        have hall : ∀ b ∈ line, decide (b ≠ newline) = true := fun b hb =>
          decide_eq_true fun heq => hline (heq ▸ hb)
        have htake : (line ++ newline :: rest).takeWhile (· ≠ newline) = line := by
          rw [List.takeWhile_append_of_pos hall]
          simp
        have hdrop : ((line ++ newline :: rest).dropWhile (· ≠ newline)).drop 1 = rest := by
          rw [List.dropWhile_append_of_pos hall]
          simp
        have hfuel : (rest.dropWhile isBlank).length ≤ fuel := by
          have hrest := (List.dropWhile_sublist isBlank (l := rest)).length_le
          rw [List.length_append, List.length_cons] at h
          omega
        -- The blanks are skipped in the rest, so they are missing on its first line.
        have hlines : textLines (rest.dropWhile isBlank) =
            (rest.splitOn newline).map (·.dropWhile isBlank) := by
          rw [textLines, Delimited.splitOn_dropWhile (show isBlank newline = false by decide)]
          cases rest.splitOn newline <;> rfl
        have hne : (rest.splitOn newline).map (·.dropWhile isBlank) ≠ [] := by
          simp [List.splitOn_ne_nil]
        have htext : textLines (line ++ newline :: rest) =
            line :: (rest.splitOn newline).map (·.dropWhile isBlank) := by
          rw [textLines, List.splitOn_append_cons_self_of_not_mem hline]
        rw [if_pos hmem, htake, hdrop, ih hfuel, hlines, htext, List.dropLast_cons_of_ne_nil hne]
        simp [List.getLastD_eq_getLast?, List.getLast?_cons_of_ne_nil hne]
      · rw [if_neg hmem, textLines, List.splitOn_eq_singleton hmem]
        rfl

/-- The command for a text. -/
def commandOf (lib : Library) (group text : BString) : BString :=
  bt "syntax clear " ++ group ++ bt " | syntax keyword " ++ group ++ bt " " ++
    (lib.removeDups (textLines text).dropLast).flatMap (· ++ bt " ") ++
    bt " | hi! link " ++ group ++ bt " " ++ (((textLines text).getLastD []).drop 9).take 1023

theorem commandOf_restores {strcmp : BString → BString → Int} (hlib : lib.Exact strcmp)
    (group text : BString) : Restores group text (commandOf lib group text) :=
  ⟨_, (hlib.removeDups _).1, (hlib.removeDups _).2, rfl⟩

theorem linkName_eq_ok {ptr name : BString} :
    linkName ptr = .ok name ↔ 9 < ptr.length ∧ name = (ptr.drop 9).take 1023 := by
  rw [linkName]
  split
  · exact iff_of_false (fun h => nomatch h) (by omega)
  · split
    · exact iff_of_false (fun h => nomatch h) (by omega)
    · exact ⟨fun h => ⟨by omega, (Except.ok.inj h).symm⟩, fun h => by rw [h.2]⟩

/-- What is done with the text, when it is found. -/
theorem restoreCmd_eq {n : Nat} (hfound : findXxx output = some n)
    (hlength : n + 4 ≤ output.length) :
    restoreCmd lib group output =
      if isBlank ((cstr (output.drop (n + 4))).headD 0) then
        .error (.fault (.assertion "!isblank(*ptr)"))
      else if (bt "match /").isPrefixOf (cstr (output.drop (n + 4))) then .ok none
      else (linkName ((textLines (cstr (output.drop (n + 4)))).getLastD [])).map fun _ =>
        some (commandOf lib group (cstr (output.drop (n + 4)))) := by
  rw [restoreCmd, hfound]
  dsimp only
  rw [skipXxx, if_neg (by omega), ok_bind]
  generalize cstr (output.drop (n + 4)) = ptr
  refine if_congr Iff.rfl rfl (if_congr Iff.rfl rfl ?_)
  rw [lineLoop_eq _ (Nat.le_refl ptr.length), commandOf]
  dsimp only
  cases hname : linkName ((textLines ptr).getLastD []) with
  | error e => rfl
  | ok name =>
      rw [(linkName_eq_ok.mp hname).2]
      simp [Except.map, bt]

/-- A command is made, or none, if the text is not in the way of it. -/
theorem restoreCmd_eq_ok {cmd : Option BString} : restoreCmd lib group output = .ok cmd ↔
    Restorable output ∧ cmd = (keywordText output).map (commandOf lib group) := by
  cases hfound : findXxx output with
  | none =>
      have hnone : keywordText output = none := by rw [keywordText, listedText, hfound]; rfl
      have hrestorable : Restorable output := by
        simp [Restorable, Complete, hnone, listedText, hfound]
      rw [restoreCmd, hfound, hnone]
      exact ⟨fun h => ⟨hrestorable, (Except.ok.inj h).symm⟩, fun h => congrArg Except.ok h.2.symm⟩
  | some n =>
      have hlisted : listedText output = some (output.drop (n + 4)) := by
        rw [listedText, hfound]
        rfl
      by_cases hlength : n + 4 ≤ output.length
      · have hcomplete : Complete output := fun m hm => by
          obtain rfl := Option.some.inj (hfound.symm.trans hm)
          exact hlength
        rw [restoreCmd_eq hfound hlength, Restorable, keywordText, hlisted]
        simp only [Option.map_some, Option.some.injEq, forall_eq']
        generalize cstr (output.drop (n + 4)) = ptr
        by_cases hblank : isBlank (ptr.headD 0) = true
        · rw [if_pos hblank, hblank]
          exact iff_of_false (fun h => nomatch h) fun h => Bool.noConfusion h.1.2.1
        · rw [if_neg hblank]
          cases hpattern : (bt "match /").isPrefixOf ptr with
          | true =>
              have hfilter : (some ptr).filter (fun text => !(bt "match /").isPrefixOf text) = none := by
                rw [Option.filter_some, hpattern]
                rfl
              rw [if_pos rfl, hfilter]
              exact ⟨fun h => ⟨⟨hcomplete, eq_false_of_ne_true hblank, fun _ ht => nomatch ht⟩,
                (Except.ok.inj h).symm⟩, fun h => congrArg Except.ok h.2.symm⟩
          | false =>
              have hfilter : (some ptr).filter (fun text => !(bt "match /").isPrefixOf text) =
                  some ptr := by
                rw [Option.filter_some, hpattern]
                rfl
              rw [if_neg Bool.false_ne_true, hfilter, map_eq_ok]
              constructor
              · rintro ⟨name, hname, rfl⟩
                refine ⟨⟨hcomplete, eq_false_of_ne_true hblank, fun text htext => ?_⟩, rfl⟩
                rw [← Option.some.inj htext]
                exact (linkName_eq_ok.mp hname).1
              · rintro ⟨⟨-, -, hlong⟩, rfl⟩
                exact ⟨_, linkName_eq_ok.mpr ⟨hlong ptr rfl, rfl⟩, rfl⟩
      · rw [restoreCmd, hfound]
        dsimp only
        rw [skipXxx, if_pos (by omega)]
        exact iff_of_false (fun h => nomatch h) fun h => hlength (h.1.1 n hfound)

/-- All texts have to be fit for a command; then there is one for each group with keywords. -/
theorem allCmds_eq_ok {groups cmds : List BString} : allCmds lib nvim groups = .ok cmds ↔
    (∀ group ∈ groups, ∀ output, nvim.listed group = some output → Restorable output) ∧
      cmds = (nvim.keywordLists groups).map fun shown => commandOf lib shown.1 shown.2 := by
  induction groups generalizing cmds with
  | nil => simp [allCmds, Neovim.keywordLists, eq_comm]
  | cons group groups ih =>
      have hlists : nvim.keywordLists (group :: groups) =
          (((nvim.listed group).bind keywordText).toList.map fun text => (group, text)) ++
            nvim.keywordLists groups := List.flatMap_cons
      have hcmd : ∀ cmd, cmdOfGroup lib nvim group = .ok cmd ↔
          (∀ output, nvim.listed group = some output → Restorable output) ∧
            cmd = ((nvim.listed group).bind keywordText).map (commandOf lib group) := by
        intro cmd
        rw [cmdOfGroup, output_eq, ok_bind, ← Neovim.listed]
        cases nvim.listed group with
        | none => simp [eq_comm]
        | some output => simp [restoreCmd_eq_ok]
      simp only [allCmds, bind_eq_ok, hcmd, ih, List.forall_mem_cons, hlists, List.map_append,
        ← Option.toList_map]
      constructor
      · rintro ⟨_, ⟨hgroup, rfl⟩, _, ⟨hgroups, rfl⟩, hcmds⟩
        refine ⟨⟨hgroup, hgroups⟩, ?_⟩
        rw [← Except.ok.inj hcmds, Option.map_map]
        rfl
      · rintro ⟨⟨hgroup, hgroups⟩, rfl⟩
        refine ⟨_, ⟨hgroup, rfl⟩, _, ⟨hgroups, rfl⟩, ?_⟩
        rw [Option.map_map]
        rfl

end Commands

/-! ### With and without a parser

What is made of the groups goes into the list of ignored tags or into the commands, and so into the
file type; a type without groups keeps the user's own list, or none.
-/

/-- The list of a file type with a parser. -/
def tagsOf (lib : Library) (nvim : Neovim) (config : Config) (vimName : BString) :
    Option (List BString) :=
  match config.restoredGroups.lookup vimName with
  | none => (config.ignoredTags.lookup vimName).map lib.qsort
  | some groups =>
      some (lib.qsort (((config.ignoredTags.lookup vimName).map lib.qsort).getD [] ++
        groups.flatMap fun group => ((nvim.listed (cstr group)).map wordsOf).getD []))

theorem initFiletype_withParser {strcmp : BString → BString → Int} (hlib : lib.Exact strcmp)
    (hset : config.Set nvim ft.vimName) (hft : ft.initialized = false)
    (hparser : ft.hasParser = true) {ft' : Filetype} :
    initFiletype lib nvim (some (entries strs config.ignoredTags)) ft = .ok ft' ↔
      (config.Described ∧
        ∀ group ∈ (config.restoredGroups.lookup ft.vimName).getD [], nvim.Readable group) ∧
      ft' = ft.configured config (tagsOf lib nvim config ft.vimName) none := by
  have hstarted : (started lib config ft).hasParser = true := hparser
  rw [tagsOf]
  cases hgroups : config.restoredGroups.lookup ft.vimName with
  | none =>
      have htaken : takeRestoredGroups lib nvim (started lib config ft)
          (config.restoredGroups.lookup ft.vimName) =
            (Except.ok ((config.ignoredTags.lookup ft.vimName).map lib.qsort, none)).map fun t =>
              { started lib config ft with ignoredTags := t.1, restoreCmds := t.2 } := by
        rw [hgroups]
        rfl
      rw [initFiletype_eq_ok hset hft htaken]
      simp
  | some groups =>
      have htaken : takeRestoredGroups lib nvim (started lib config ft)
          (config.restoredGroups.lookup ft.vimName) =
            ((getTagsFromRestoredGroups lib nvim groups).map fun tags =>
              (some (lib.qsort
                (((config.ignoredTags.lookup ft.vimName).map lib.qsort).getD [] ++ tags)), none)).map
              fun t => { started lib config ft with ignoredTags := t.1, restoreCmds := t.2 } := by
        rw [hgroups, takeRestoredGroups, if_pos hstarted]
        cases getTagsFromRestoredGroups lib nvim groups <;> rfl
      rw [initFiletype_eq_ok hset hft htaken, Option.getD_some]
      simp only [map_eq_ok, getTags_eq_ok hlib.behaves.splits]
      constructor
      · rintro ⟨hdescribed, _, ⟨_, ⟨hreadable, rfl⟩, rfl⟩, rfl⟩
        exact ⟨⟨hdescribed, hreadable⟩, rfl⟩
      · rintro ⟨⟨hdescribed, hreadable⟩, rfl⟩
        exact ⟨hdescribed, _, ⟨_, ⟨hreadable, rfl⟩, rfl⟩, rfl⟩

/-- The commands of a file type without one. -/
def cmdsOf (lib : Library) (nvim : Neovim) (config : Config) (vimName : BString) :
    Option BString :=
  (config.restoredGroups.lookup vimName).map fun groups =>
    (bt " | ").intercalate
      ((nvim.keywordLists groups).map fun shown => commandOf lib shown.1 shown.2)

theorem initFiletype_noParser (hset : config.Set nvim ft.vimName) (hft : ft.initialized = false)
    (hparser : ft.hasParser = false) {ft' : Filetype} :
    initFiletype lib nvim (some (entries strs config.ignoredTags)) ft = .ok ft' ↔
      (config.Described ∧ ∀ group ∈ (config.restoredGroups.lookup ft.vimName).getD [],
        ∀ output, nvim.listed group = some output → Restorable output) ∧
      ft' = ft.configured config ((config.ignoredTags.lookup ft.vimName).map lib.qsort)
        (cmdsOf lib nvim config ft.vimName) := by
  have hstarted : (started lib config ft).hasParser = false := hparser
  rw [cmdsOf]
  cases hgroups : config.restoredGroups.lookup ft.vimName with
  | none =>
      have htaken : takeRestoredGroups lib nvim (started lib config ft)
          (config.restoredGroups.lookup ft.vimName) =
            (Except.ok ((config.ignoredTags.lookup ft.vimName).map lib.qsort, none)).map fun t =>
              { started lib config ft with ignoredTags := t.1, restoreCmds := t.2 } := by
        rw [hgroups]
        rfl
      rw [initFiletype_eq_ok hset hft htaken]
      simp
  | some groups =>
      have htaken : takeRestoredGroups lib nvim (started lib config ft)
          (config.restoredGroups.lookup ft.vimName) =
            ((allCmds lib nvim groups).map fun cmds =>
              ((config.ignoredTags.lookup ft.vimName).map lib.qsort,
                some ((bt " | ").intercalate cmds))).map
              fun t => { started lib config ft with ignoredTags := t.1, restoreCmds := t.2 } := by
        rw [hgroups, takeRestoredGroups, if_neg (ne_true_of_eq_false hstarted), getRestoreCmds]
        cases allCmds lib nvim groups <;> rfl
      rw [initFiletype_eq_ok hset hft htaken, Option.getD_some, Option.map_some]
      simp only [map_eq_ok, allCmds_eq_ok]
      constructor
      · rintro ⟨hdescribed, _, ⟨_, ⟨hrestorable, rfl⟩, rfl⟩, rfl⟩
        exact ⟨⟨hdescribed, hrestorable⟩, rfl⟩
      · rintro ⟨⟨hdescribed, hrestorable⟩, rfl⟩
        exact ⟨hdescribed, _, ⟨_, ⟨hrestorable, rfl⟩, rfl⟩, rfl⟩

/-- The list has just the words that are protected. -/
theorem tagsOf_protected {strcmp : BString → BString → Int} (hlib : lib.Exact strcmp)
    (vimName word : BString) :
    (∃ list, tagsOf lib nvim config vimName = some list ∧ lib.bsearch list word = true) ↔
      Protected nvim config vimName word := by
  unfold Protected tagsOf
  cases config.restoredGroups.lookup vimName with
  | none =>
      cases config.ignoredTags.lookup vimName with
      | none => simp
      | some user => simp [bsearch_qsort hlib]
  | some groups =>
      have huser : word ∈ ((config.ignoredTags.lookup vimName).map lib.qsort).getD [] ↔
          word ∈ (config.ignoredTags.lookup vimName).getD [] := by
        cases config.ignoredTags.lookup vimName with
        | none => rfl
        | some user => exact (hlib.behaves.perm user).mem_iff
      have hshown : ∀ group, word ∈ ((nvim.listed (cstr group)).map wordsOf).getD [] ↔
          nvim.Shows (cstr group) word := by
        intro group
        rw [shows_iff]
        cases nvim.listed (cstr group) <;> simp
      simp only [Option.some.injEq, exists_eq_left', bsearch_qsort hlib, List.mem_append, huser,
        List.mem_flatMap, hshown, Option.getD_some]

/-! ### A configuration

A word of C is to be ignored, and four groups are to look as before.  The first has keywords, of
which one is printed twice, and a link; the second is a pattern; the third a region, whose lines are
taken for keywords, and the last does not exist.
-/

/-- A library that sorts. -/
def sortingLibrary : Library :=
  { Golang.plainLibrary with
    qsort := fun list => list.insertionSort Update.nameLe
    removeDups := List.dedup }

theorem sortingLibrary_exact : sortingLibrary.Exact Update.nameCmp where
  behaves :=
    { splits := Delimited.strsep_splits
      perm := fun list => List.perm_insertionSort Update.nameLe list }
  sorted := Update.sortingLibrary_exact.sorted
  bsearch := fun name list _ => by simp [sortingLibrary, Golang.plainLibrary]
  removeDups := fun list => ⟨list.nodup_dedup, fun _ => List.mem_dedup⟩

def someGroups : List BString := [bt "cType", bt "cFloat", bt "cBlock", bt "cGone"]

def someConfig : Config where
  order := some (bt "s")
  ignoredTags := [(bt "c", [bt "NULL"])]
  restoredGroups := [(bt "c", someGroups), (bt "python", someGroups)]
  equivalent := none
  kinds := fun _ =>
    some [(bt "group", .string (bt "Structure")), (bt "notin", .array [.string (bt "cComment")])]

/-- What Neovim prints for the groups. -/
def someListings : List (BString × BString) :=
  [(bt "syntax list cType",
      bt "cType          xxx int long\n         char int\n         int long\n    links to Type"),
    (bt "syntax list cFloat", bt "cFloat         xxx match /1.0/\n         links to Number"),
    (bt "syntax list cBlock", bt "cBlock         xxx start=/a/ end=/b/\n         links to Block")]

/-- Neovim with these variables. -/
def someNeovim : Neovim where
  var := fun name =>
    let kind : Obj := .dict (entries id ((someConfig.kinds 0).getD []))
    let vars : List (BString × Obj) :=
      [(bt "tag_highlight#c#order", .string (bt "s")),
        (bt "tag_highlight#python#order", .string (bt "s")),
        (bt "tag_highlight#restored_groups", .dict (entries strs someConfig.restoredGroups)),
        (bt "tag_highlight#c#s", kind),
        (bt "tag_highlight#python#s", kind)]
    match vars.lookup name with
    | some value => .ok value
    | none => .error (bt "Key not found")
  exec := fun src =>
    match someListings.lookup src with
    | some output => .ok output
    | none => .error (bt "No such highlight group name")

theorem someConfig_set {vimName : BString} (h : vimName = bt "c" ∨ vimName = bt "python") :
    someConfig.Set someNeovim vimName := by
  have hgroups : ∀ (ch : UInt8) dict obj, someConfig.kinds ch = some dict →
      dict.lookup (bt "group") = some obj → ∃ group, obj = .string group := by
    rintro ch _ obj ⟨⟩ hobj
    exact ⟨bt "Structure", (Option.some.inj hobj).symm⟩
  have hkind : ∀ ch ∈ someConfig.order.getD [], ch = 115 := fun ch hch => List.mem_singleton.mp hch
  rcases h with rfl | rfl
  · refine ⟨rfl, rfl, ⟨_, rfl⟩, fun ch hch => ?_, hgroups⟩
    rw [hkind ch hch]
    rfl
  · refine ⟨rfl, rfl, ⟨_, rfl⟩, fun ch hch => ?_, hgroups⟩
    rw [hkind ch hch]
    rfl

def someFiletype (vimName : BString) (hasParser : Bool) : Filetype where
  vimName := vimName
  hasParser := hasParser
  initialized := false
  order := []
  ignoredTags := none
  restoreCmds := none
  restoreCmdsInitialized := false
  equiv := none
  cmdInfo := []

/-! ### The file type in use

The two cases end up as they were begun: what the user does not want highlighted is what the parser
leaves out, and the commands are what the lines of the groups make.
-/

section Main

variable {strcmp : BString → BString → Int}

/--
**What the user protects is not highlighted.**  The file type is set up if every kind in the order
has settings, and the lists of the groups that are to look as before can be read.  It is then given
what the user has set, and the functions for a parser ignore just the words that the user has listed
for the file type, and those that are printed for the groups, up to a link.
-/
theorem initFiletype_protects (hlib : lib.Exact strcmp) (hset : config.Set nvim ft.vimName)
    (hft : ft.initialized = false) (hparser : ft.hasParser = true) :
    ((∃ ft', initFiletype lib nvim (some (entries strs config.ignoredTags)) ft = .ok ft') ↔
      config.Described ∧
        ∀ group ∈ (config.restoredGroups.lookup ft.vimName).getD [], nvim.Readable group) ∧
    ∀ ft', initFiletype lib nvim (some (entries strs config.ignoredTags)) ft = .ok ft' →
      ft' = ft.configured config ft'.ignoredTags none ∧
      (∀ word, Golang.identIsIgnored lib.toLibrary ft'.toGolang word = true ↔
        Protected nvim config ft.vimName word) ∧
      ∀ (Cursor Typ : Type) (tok : Typeid.Token Cursor Typ) (list : List BString),
        ft'.ignoredTags = some list →
          (tok.Wanted lib.toLibrary list ↔ tok.line.toInt32 ≠ -1 ∧
            ¬ Protected nvim config ft.vimName tok.text) := by
  refine ⟨?_, fun ft' hinit => ?_⟩
  · simp only [initFiletype_withParser hlib hset hft hparser, exists_and_left, exists_eq, and_true]
  · obtain ⟨-, rfl⟩ := (initFiletype_withParser hlib hset hft hparser).mp hinit
    refine ⟨rfl, fun word => ?_, fun Cursor Typ tok list hlist => ?_⟩
    · rw [← tagsOf_protected hlib]
      simp only [Golang.identIsIgnored, Filetype.toGolang, Filetype.configured]
      cases tagsOf lib nvim config ft.vimName <;> simp
    · have htags : tagsOf lib nvim config ft.vimName = some list := hlist
      rw [Typeid.Token.Wanted, ← tagsOf_protected hlib, htags]
      simp

theorem initFiletype_protects_c :
    ((∃ ft', initFiletype sortingLibrary someNeovim (some (entries strs someConfig.ignoredTags))
        (someFiletype (bt "c") true) = .ok ft') ↔
      someConfig.Described ∧ ∀ group ∈ someGroups, someNeovim.Readable group) ∧
    ∀ ft', initFiletype sortingLibrary someNeovim (some (entries strs someConfig.ignoredTags))
        (someFiletype (bt "c") true) = .ok ft' →
      ft' = (someFiletype (bt "c") true).configured someConfig ft'.ignoredTags none ∧
      (∀ word, Golang.identIsIgnored sortingLibrary.toLibrary ft'.toGolang word = true ↔
        Protected someNeovim someConfig (bt "c") word) ∧
      ∀ (Cursor Typ : Type) (tok : Typeid.Token Cursor Typ) (list : List BString),
        ft'.ignoredTags = some list →
          (tok.Wanted sortingLibrary.toLibrary list ↔ tok.line.toInt32 ≠ -1 ∧
            ¬ Protected someNeovim someConfig (bt "c") tok.text) :=
  initFiletype_protects sortingLibrary_exact
    (show someConfig.Set someNeovim (someFiletype (bt "c") true).vimName from
      someConfig_set (.inl rfl)) rfl rfl

/-- The words of the pattern and of the region are among them. -/
example : (getTagsFromRestoredGroups sortingLibrary someNeovim someGroups).toOption =
    some [bt "int", bt "long", bt "char", bt "int", bt "int", bt "long", bt "match", bt "/1.0/",
      bt "start=/a/", bt "end=/b/"] := by
  rfl

/-- What `init_filetype` leaves of the list of ignored tags. -/
theorem ignoredTags_eq_none {restoredGroups ignoredTags : List (BString × List BString)}
    (hft : ft.initialized = false) (hparser : ft.hasParser = true)
    (hgroups : nvim.HasVar (pkg (bt "restored_groups"))
      (some (.dict (entries strs restoredGroups)))) {ft' : Filetype}
    (hinit : initFiletype lib nvim (some (entries strs ignoredTags)) ft = .ok ft') :
    ft'.ignoredTags = none ↔
      ignoredTags.lookup ft.vimName = none ∧ restoredGroups.lookup ft.vimName = none := by
  rw [initFiletype, hft, if_neg Bool.false_ne_true] at hinit
  obtain ⟨_, -, hinit⟩ := bind_eq_ok.mp hinit
  obtain ⟨_, -, hinit⟩ := bind_eq_ok.mp hinit
  rw [bind_bind_of_eq (arrEntry ignoredTags ft.vimName), userTags_eq, ok_bind,
    getIgnoredTags_eq hgroups] at hinit
  obtain ⟨ft₂, hft₂, hinit⟩ := bind_eq_ok.mp hinit
  obtain ⟨_, -, hinit⟩ := bind_eq_ok.mp hinit
  obtain ⟨_, -, hinit⟩ := bind_eq_ok.mp hinit
  obtain ⟨_, -, hinit⟩ := bind_eq_ok.mp hinit
  obtain ⟨_, -, hinit⟩ := bind_eq_ok.mp hinit
  obtain ⟨ft₁, hft₁, hdone⟩ := bind_eq_ok.mp hft₂
  obtain rfl := Except.ok.inj hinit
  obtain rfl := Except.ok.inj hdone
  show ft₁.ignoredTags = none ↔ _
  cases hlookup : restoredGroups.lookup ft.vimName with
  | none =>
      rw [hlookup] at hft₁
      obtain rfl := Except.ok.inj hft₁
      simp
  | some groups =>
      rw [hlookup, takeRestoredGroups, if_pos hparser] at hft₁
      obtain ⟨tags, -, htags⟩ := bind_eq_ok.mp hft₁
      obtain rfl := Except.ok.inj htags
      simp

/--
**When highlighting C is undefined.**  It is if the user's variables say nothing at all of the
file type, and libclang finds a token in the file: there is no list of ignored tags then, and it
is searched.  Otherwise the calls are made.
-/
theorem createNvimCalls_undefined_iff {restoredGroups ignoredTags : List (BString × List BString)}
    (hft : ft.initialized = false) (hparser : ft.hasParser = true)
    (hgroups : nvim.HasVar (pkg (bt "restored_groups"))
      (some (.dict (entries strs restoredGroups)))) {ft' : Filetype}
    (hinit : initFiletype lib nvim (some (entries strs ignoredTags)) ft = .ok ft')
    {Cursor Typ : Type} (clang : Typeid.Libclang Cursor Typ) {bdata : Typeid.Buffer}
    (hbuffer : bdata.ft = ft'.toGolang) (hlId : Int32) {toks : List (Typeid.Token Cursor Typ)}
    (hfew : toks.length + 1 < 2 ^ 31) :
    (Typeid.createNvimCalls clang lib.toLibrary bdata hlId toks = .error .undefined ↔
      ignoredTags.lookup ft.vimName = none ∧ restoredGroups.lookup ft.vimName = none ∧
        ∃ tok ∈ toks, tok.line.toInt32 ≠ -1) ∧
    (Typeid.createNvimCalls clang lib.toLibrary bdata hlId toks ≠ .error .undefined →
      ∃ calls, Typeid.createNvimCalls clang lib.toLibrary bdata hlId toks = .ok calls) := by
  have htags : bdata.ft.ignoredTags = ft'.ignoredTags := by rw [hbuffer]; rfl
  have hnone := ignoredTags_eq_none hft hparser hgroups hinit
  cases hlist : ft'.ignoredTags with
  | none =>
      obtain ⟨huser, hrestored⟩ := hnone.mp hlist
      have hfault := Typeid.createNvimCalls_fault lib.toLibrary bdata clang hlId
        (htags.trans hlist) toks
      rw [huser, hrestored]
      refine ⟨by simp [hfault], fun hdefined => ?_⟩
      refine Typeid.createNvimCalls_elsewhere lib.toLibrary bdata clang hlId fun tok htok => ?_
      by_contra hline
      exact hdefined (hfault.mpr ⟨tok, htok, hline⟩)
  | some list =>
      -- With a list the calls are collected; for so few tokens nothing else can go wrong.
      have hmarks := Typeid.length_tokenMarks clang lib.toLibrary bdata.id bdata.ft
        (toks.filter (Typeid.Token.Wanted lib.toLibrary list ·)) clang.nullCursor
      have hwanted := List.length_filter_le (Typeid.Token.Wanted lib.toLibrary list ·) toks
      have hcount := Nat.lt_of_le_of_lt
        (Nat.succ_le_succ (Nat.le_trans hmarks hwanted)) hfew
      obtain ⟨calls, hcollect, -⟩ := Atomic.collect (Nat.lt_of_le_of_lt length_markOps hcount)
      rw [Typeid.createNvimCalls_eq lib.toLibrary bdata clang hlId (htags.trans hlist) toks,
        hcollect]
      refine ⟨iff_of_false (fun h => nomatch h) fun h => ?_, fun _ => ⟨calls, rfl⟩⟩
      rw [hnone.mpr ⟨h.1, h.2.1⟩] at hlist
      cases hlist

/-- A token on the first line. -/
def someToken : Typeid.Token Typeid.CursorKind Typeid.TypeKind where
  cursor := .structDecl
  cursortype := .other
  tokenkind := .identifier
  line := 0
  col1 := 0
  col2 := 2
  offset := 0
  len := 2
  text := bt "ab"

/-- Nothing is said of C++. -/
theorem createNvimCalls_undefined_iff_cpp :
    (Typeid.createNvimCalls Typeid.twoNames sortingLibrary.toLibrary
        { Typeid.structsBuffer with
          ft := { order := [], cmdInfo := [], ignoredTags := none } } 8 [someToken] =
          .error .undefined ↔
      someConfig.ignoredTags.lookup (bt "cpp") = none ∧
        someConfig.restoredGroups.lookup (bt "cpp") = none ∧
        ∃ tok ∈ [someToken], tok.line.toInt32 ≠ -1) ∧
    (Typeid.createNvimCalls Typeid.twoNames sortingLibrary.toLibrary
        { Typeid.structsBuffer with
          ft := { order := [], cmdInfo := [], ignoredTags := none } } 8 [someToken] ≠
          .error .undefined →
      ∃ calls, Typeid.createNvimCalls Typeid.twoNames sortingLibrary.toLibrary
        { Typeid.structsBuffer with
          ft := { order := [], cmdInfo := [], ignoredTags := none } } 8 [someToken] = .ok calls) :=
  createNvimCalls_undefined_iff (show (someFiletype (bt "cpp") true).initialized = false from rfl)
    rfl (show someNeovim.HasVar (pkg (bt "restored_groups"))
      (some (.dict (entries strs someConfig.restoredGroups))) from rfl)
    (show initFiletype sortingLibrary someNeovim (some (entries strs someConfig.ignoredTags))
      (someFiletype (bt "cpp") true) = .ok
        { someFiletype (bt "cpp") true with initialized := true, restoreCmdsInitialized := true }
      from rfl) Typeid.twoNames rfl 8 (by decide)

/--
**Commands are kept that put the keywords back.**  The file type is set up if every kind in the
order has settings, and what is printed for the groups is fit for a command.  Then the commands for
them stand one behind the other, with bars between, in the order of the groups: each clears its
group, gives it the lines that were printed, but the last, and links it to what the last says.
A pattern gets no command, but anything else does, whether its lines are keywords or not.
-/
theorem initFiletype_restores (hlib : lib.Exact strcmp) (hset : config.Set nvim ft.vimName)
    (hft : ft.initialized = false) (hparser : ft.hasParser = false) :
    ((∃ ft', initFiletype lib nvim (some (entries strs config.ignoredTags)) ft = .ok ft') ↔
      config.Described ∧ ∀ group ∈ (config.restoredGroups.lookup ft.vimName).getD [],
        ∀ output, nvim.listed group = some output → Restorable output) ∧
    ∀ ft', initFiletype lib nvim (some (entries strs config.ignoredTags)) ft = .ok ft' →
      ft' = ft.configured config ((config.ignoredTags.lookup ft.vimName).map lib.qsort)
        ft'.restoreCmds ∧
      (ft'.restoreCmds = none ↔ config.restoredGroups.lookup ft.vimName = none) ∧
      ∀ cmds, ft'.restoreCmds = some cmds → ∃ list : List BString,
        List.Forall₂ (fun shown cmd => Restores shown.1 shown.2 cmd)
          (nvim.keywordLists ((config.restoredGroups.lookup ft.vimName).getD [])) list ∧
        cmds = (bt " | ").intercalate list := by
  refine ⟨?_, fun ft' hinit => ?_⟩
  · simp only [initFiletype_noParser hset hft hparser, exists_and_left, exists_eq, and_true]
  · obtain ⟨-, rfl⟩ := (initFiletype_noParser hset hft hparser).mp hinit
    refine ⟨rfl, Option.map_eq_none_iff, fun cmds hcmds => ?_⟩
    obtain ⟨groups, hgroups, rfl⟩ := Option.map_eq_some_iff.mp hcmds
    rw [hgroups, Option.getD_some]
    refine ⟨_, ?_, rfl⟩
    rw [List.forall₂_map_right_iff, List.forall₂_same]
    exact fun shown _ => commandOf_restores hlib shown.1 shown.2

theorem initFiletype_restores_python :
    ((∃ ft', initFiletype sortingLibrary someNeovim (some (entries strs someConfig.ignoredTags))
        (someFiletype (bt "python") false) = .ok ft') ↔
      someConfig.Described ∧ ∀ group ∈ someGroups,
        ∀ output, someNeovim.listed group = some output → Restorable output) ∧
    ∀ ft', initFiletype sortingLibrary someNeovim (some (entries strs someConfig.ignoredTags))
        (someFiletype (bt "python") false) = .ok ft' →
      ft' = (someFiletype (bt "python") false).configured someConfig
        ((someConfig.ignoredTags.lookup (bt "python")).map sortingLibrary.qsort) ft'.restoreCmds ∧
      (ft'.restoreCmds = none ↔ someConfig.restoredGroups.lookup (bt "python") = none) ∧
      ∀ cmds, ft'.restoreCmds = some cmds → ∃ list : List BString,
        List.Forall₂ (fun shown cmd => Restores shown.1 shown.2 cmd)
          (someNeovim.keywordLists someGroups) list ∧
        cmds = (bt " | ").intercalate list :=
  initFiletype_restores sortingLibrary_exact
    (show someConfig.Set someNeovim (someFiletype (bt "python") false).vimName from
      someConfig_set (.inr rfl)) rfl rfl

/-- A line is kept once, but a word may come twice; and the region is cleared as well. -/
example : (getRestoreCmds sortingLibrary someNeovim someGroups).toOption =
    some (
      bt "syntax clear cType | syntax keyword cType char int int long  | hi! link cType Type | " ++
      bt "syntax clear cBlock | syntax keyword cBlock start=/a/ end=/b/  | hi! link cBlock Block") := by
  decide +kernel

end Main

end TagHighlight.InitFiletype
