/-
Running ctags with the language is of no use.

After it, the tags of the project are those of that run.  But the label that is gone to stands
in front of the first run, and not behind it: ctags is run as usual once more, and its tags
replace the others before any is looked for.  So both rounds look through the same tags, and
if there was none in the first round, there is none in the second.

That the loop ends is not in question: the flag is cleared before the label is gone to, so there
are two rounds at most.  What is shown is that the second one was for nothing.
-/
import TagHighlight.Ctags.Update
import TagHighlight.Proofs.Ctags.Highlight

namespace TagHighlight.Update

open CtagsScan Commands

variable {w : World} {st : State} {bdata : Buffer} {opts : UpdateTaglistOpts}

/-! ### Another run of ctags

A run of ctags puts its own lines in the place of those of the run before and changes nothing else
that the scan looks at.  So what a scan finds is a function of the last run alone.
-/

/-- All it changes are the tags of the project, and the commands of last time. -/
theorem updateTaglist_eq (hrun : w.runCtags = true) (bdata : Buffer) (opts : UpdateTaglistOpts) :
    ∃ topdir calls, topdir.tags = some (Taglist.breakIntoLines (w.ctags opts)) ∧
      (updateTaglist w bdata opts).1 = { bdata with topdir := topdir, calls := calls } := by
  unfold updateTaglist runCtagsPipe
  rw [if_pos hrun]
  by_cases hparser : bdata.ft.hasParser = true
  · rw [if_pos hparser]
    exact ⟨_, bdata.calls, rfl, rfl⟩
  · rw [if_neg hparser]
    exact ⟨_, none, rfl, rfl⟩

/-- The tags that are found are those of this run. -/
theorem processTags_updateTaglist (hrun : w.runCtags = true) :
    (updateTaglist w bdata opts).1.processTags w = tagsOf w bdata opts := by
  obtain ⟨topdir, calls, htags, hbdata⟩ := updateTaglist_eq hrun bdata opts
  rw [hbdata, Buffer.processTags, tagsOf]
  simp only [Buffer.scanned, htags, Option.getD_some]

/-- They do not depend on those of the run before. -/
theorem tagsOf_updateTaglist (hrun : w.runCtags = true) (bdata : Buffer)
    (opts opts' : UpdateTaglistOpts) :
    tagsOf w (updateTaglist w bdata opts).1 opts' = tagsOf w bdata opts' := by
  obtain ⟨topdir, calls, -, hbdata⟩ := updateTaglist_eq hrun bdata opts
  rw [hbdata]
  rfl

/-- There are tags exactly if some line names one. -/
theorem tagsOf_ne_none_iff : tagsOf w bdata opts ≠ none ↔ Finds w bdata opts := by
  unfold tagsOf Finds
  by_cases hn : 1 ≤ w.numThreads
  · by_cases hvim : w.tokens bdata.lines = []
    · simp [processTags, hvim]
    · rw [processTags_eq w.qsort hvim hn]
      simp only [ne_eq, ite_eq_left_iff, reduceCtorEq, imp_false, not_not, hn, hvim, true_and,
        not_false_eq_true]
      rw [accepted, List.filterMap_eq_nil_iff]
      simp [filterOf, Option.isSome_iff_ne_none]
  · -- Without a thread nothing is looked through.
    have hzero : w.numThreads = 0 := by omega
    simp [processTags, hzero, tokSearchLaunchThreads, tokSearchJoinThreads]

/-! ### One round -/

/-- With a tag, its commands are stored and sent, and that was the last round. -/
theorem round_of_some (hrun : w.runCtags = true) {tags : List Tag}
    (htags : tagsOf w st.bdata .normal = some tags) (retry : Bool) :
    ∃ st', round w retry st = .ok (false, st') ∧ Highlights w st st' (some tags) := by
  have hfound := (processTags_updateTaglist hrun).trans htags
  obtain ⟨topdir, calls, -, hbdata⟩ := updateTaglist_eq hrun st.bdata .normal
  obtain ⟨cmds, hcmds, -⟩ := updateCommands_length st.bdata.ft.settings w.groups tags
  rw [hbdata] at hfound
  refine ⟨{ bdata := { st.bdata with topdir := topdir, calls := some (bt "ownsyntax" :: cmds) }
            sent := st.sent ++ sentFor st.bdata.ft (bt "ownsyntax" :: cmds) }, ?_, _, hcmds, rfl, rfl⟩
  simp only [round, hbdata, hfound, sendCommands, hcmds, Fault.ok_bind]

/-- Without one, nothing is sent, and the flag is as it was. -/
theorem round_of_none (hrun : w.runCtags = true) (st : State)
    (htags : tagsOf w st.bdata .normal = none) (retry : Bool) :
    round w retry st =
      .ok (retry, { st with bdata := (updateTaglist w st.bdata .normal).1 }) := by
  have hfound := (processTags_updateTaglist hrun).trans htags
  simp only [round, hfound]

/-! ### All rounds

The second round runs ctags as usual again, and what the run with the language has printed is gone
before anything is looked for.  So what was found is what the first round finds, and the run with
the language has its effect only if it was not needed, or if it would have found nothing either.
-/

theorem fromRetry_done {retry : Bool} {st' : State} (h : round w retry st = .ok (false, st')) :
    fromRetry w retry st = .ok st' := by
  rw [fromRetry]
  split <;> simp_all

theorem fromRetry_again {retry : Bool} {st' : State} (h : round w retry st = .ok (true, st')) :
    fromRetry w retry st =
      fromRetry w false { st' with bdata := (updateTaglist w st'.bdata .forceLanguage).1 } := by
  rw [fromRetry]
  split <;> simp_all

theorem updateOther_of_some (hrun : w.runCtags = true) {tags : List Tag}
    (htags : tagsOf w st.bdata .normal = some tags) :
    ∃ st', updateOther w st = .ok st' ∧ Highlights w st st' (some tags) := by
  obtain ⟨st', hround, hst'⟩ := round_of_some hrun htags true
  exact ⟨st', fromRetry_done hround, hst'⟩

/-- The second round looks through the tags of the first. -/
theorem updateOther_of_none (hrun : w.runCtags = true) (htags : tagsOf w st.bdata .normal = none) :
    ∃ st', updateOther w st = .ok st' ∧ st'.sent = st.sent ∧
      st'.bdata.topdir.tags = some (Taglist.breakIntoLines (w.ctags .normal)) := by
  let forced := (updateTaglist w (updateTaglist w st.bdata .normal).1 .forceLanguage).1
  have htags' : tagsOf w forced .normal = none := by
    rw [tagsOf_updateTaglist hrun, tagsOf_updateTaglist hrun, htags]
  have hagain := fromRetry_again (round_of_none hrun st htags true)
  have hround := round_of_none hrun ⟨forced, st.sent⟩ htags' false
  obtain ⟨topdir, calls, hnormal, hbdata⟩ := updateTaglist_eq hrun forced .normal
  refine ⟨_, hagain.trans (fromRetry_done hround), rfl, ?_⟩
  simp only [hbdata, hnormal]

/-- The tags of the run with the language are not what is sent. -/
theorem not_effective (hrun : w.runCtags = true) (hnormal : tagsOf w st.bdata .normal = none)
    (hforced : tagsOf w st.bdata .forceLanguage ≠ none) : ¬RetryEffective w st := by
  obtain ⟨tags, htags⟩ := Option.ne_none_iff_exists'.mp hforced
  obtain ⟨st', hother, hsent, -⟩ := updateOther_of_none hrun hnormal
  rintro ⟨st2, hother2, hst2⟩
  rw [hnormal, Option.none_or, htags] at hst2
  obtain ⟨calls, -, -, hsent2⟩ := hst2
  obtain rfl : st2 = st' := Except.ok.inj (hother2.symm.trans hother)
  rw [hsent] at hsent2
  simp [sentFor] at hsent2

/--
**The run with the language does what it is for** exactly where there is nothing for it to do:
the first run finds a tag, or it would find none itself.
-/
theorem retryEffective_iff (hrun : w.runCtags = true) :
    RetryEffective w st ↔ Finds w st.bdata .normal ∨ ¬Finds w st.bdata .forceLanguage := by
  rw [← tagsOf_ne_none_iff, ← tagsOf_ne_none_iff, not_ne_iff]
  cases hnormal : tagsOf w st.bdata .normal with
  | some tags =>
      refine iff_of_true ?_ (Or.inl (Option.some_ne_none _))
      rw [RetryEffective, hnormal, Option.some_or]
      exact updateOther_of_some hrun hnormal
  | none =>
      by_cases hforced : tagsOf w st.bdata .forceLanguage = none
      · obtain ⟨st', hother, hsent, -⟩ := updateOther_of_none hrun hnormal
        refine iff_of_true ?_ (Or.inr hforced)
        rw [RetryEffective, hnormal, hforced]
        exact ⟨st', hother, hsent⟩
      · exact iff_of_false (not_effective hrun hnormal hforced) (by simp [hforced])

/-! ### A script without a suffix

ctags tells the language of a file by its suffix, and of a script it may not know it.  Then the
run with the language finds the function of the script, and nothing is sent all the same.
-/

/-- A function of the script, as ctags prints it. -/
def mainTag : BString := bt "main\t/run\t/^main/\tf\tlanguage:Sh\n"

/-- The buffer `/run`, before anything has been sent. -/
def script : State where
  bdata :=
    { ft :=
        { ctagsName := bt "Sh", order := bt "f", ignoredTags := [], equiv := none
          restoreCmds := none, isCOrCpp := false, hasParser := false
          settings := { vimName := bt "sh", globalAllbut := none, ftAllbut := none } }
      filename := bt "/run", lines := [bt "main"], topdir := Taglist.initTopdir, calls := none }
  sent := []

/-- The only line is the only token. -/
def scriptWorld (ctags : UpdateTaglistOpts → BString) : World where
  lib := plainLibrary
  qsort := qsortTags
  numThreads := 1
  tokens := fun lines => lines
  runCtags := true
  ctags := ctags
  groups := [functions]

/-- ctags knows the language. -/
theorem retryEffective_iff_known : RetryEffective (scriptWorld fun _ => mainTag) script :=
  (retryEffective_iff rfl).mpr (Or.inl ⟨Nat.le_refl 1, by decide, by decide⟩)

/-- ctags has to be told the language. -/
def toldOnly : UpdateTaglistOpts → BString
  | .forceLanguage => mainTag
  | _ => []

/-- Then the function is found, and nothing is sent. -/
theorem toldOnly_unused :
    Finds (scriptWorld toldOnly) script.bdata .forceLanguage ∧
      (∃ st, updateOther (scriptWorld toldOnly) script = .ok st ∧ st.sent = []) ∧
      ¬RetryEffective (scriptWorld toldOnly) script := by
  have hfinds : Finds (scriptWorld toldOnly) script.bdata .forceLanguage :=
    ⟨Nat.le_refl 1, by decide, by decide⟩
  have hnormal : tagsOf (scriptWorld toldOnly) script.bdata .normal = none := rfl
  obtain ⟨st, hother, hsent, -⟩ := updateOther_of_none rfl hnormal
  exact ⟨hfinds, ⟨st, hother, hsent⟩, not_effective rfl hnormal (tagsOf_ne_none_iff.mpr hfinds)⟩

end TagHighlight.Update
