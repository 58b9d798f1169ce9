/-
What is kept of a buffer is what it was highlighted with last.

`update_other` hands the commands that it stores to `nvim_call_atomic`.  Between two of its runs the
stored ones can get lost, when ctags is run and nothing is found, but they cannot become others.
So to show the buffer again is to hand over once more what was handed over last, and nothing else
happens.

The invariant of one buffer, `Inv`, is kept by each function of `update.c` that may run for it;
that of the session, `SessionOk`, says it of all buffers at once.  A step writes to the buffer that
it is for and to the tags of its project, and the latter are not part of the invariant.
-/
import TagHighlight.Ctags.Session
import TagHighlight.Proofs.Ctags.Update
import TagHighlight.Proofs.NvimApi.CmdCalls

namespace TagHighlight.Session

open Atomic Update

/-! ### What was handed over last

The requests for a buffer are atomic ones with all of its commands, and single commands.  Only the
first sort is what highlights it, so the last of these is the one that counts, whatever single
commands come after it.
-/

theorem lastHighlight_sentFor (sent : List Sent) (ft : FileType) (calls : List BString) :
    lastHighlight (sent ++ sentFor ft calls) = some calls := by
  have hone : (sentFor ft calls).filterMap commandsOf = [calls] := by
    cases hrestore : ft.restoreCmds with
    | none => simp [sentFor, hrestore, commandsOf]
    | some cmd => simp [sentFor, hrestore, commandsOf]
  rw [lastHighlight, List.filterMap_append, hone, List.getLast?_append]
  rfl

theorem lastHighlight_command (sent : List Sent) (cmd : BString) :
    lastHighlight (sent ++ [.command cmd]) = lastHighlight sent := by
  rw [lastHighlight, List.filterMap_append]
  simp [lastHighlight, commandsOf]

/-! ### One update

An update takes one of three ways: the parser has done it, the commands of last time are handed
over again, or tags are looked for.  In the last case the commands that are stored are those that
are sent, and until then running ctags can only have thrown the old ones away.
-/

variable {w : World} {st st' : Update.State} {ret : Except Fault Int}
  {type : UpdateHighlightType}

/-- The commands that are stored are those that were handed over last. -/
def Inv (st : Update.State) : Prop :=
  ∀ calls, st.bdata.calls = some calls →
    lastHighlight st.sent = some calls ∧ ∃ cmds, calls = bt "ownsyntax" :: cmds

theorem updateTaglist_calls (w : World) (bdata : Update.Buffer) (opts : UpdateTaglistOpts) :
    (updateTaglist w bdata opts).1.calls = bdata.calls ∨
      (updateTaglist w bdata opts).1.calls = none := by
  unfold updateTaglist runCtagsPipe
  by_cases hrun : w.runCtags = true
  · rw [if_pos hrun]
    by_cases hparser : bdata.ft.hasParser = true
    · rw [if_pos hparser]
      exact .inl rfl
    · rw [if_neg hparser]
      exact .inr rfl
  · rw [if_neg hrun]
    exact .inl rfl

theorem inv_updateTaglist (h : Inv st) (opts : UpdateTaglistOpts) :
    Inv { st with bdata := (updateTaglist w st.bdata opts).1 } := by
  intro calls hcalls
  rcases updateTaglist_calls w st.bdata opts with hkept | hnone
  · exact h calls (hkept.symm.trans hcalls)
  · exact absurd (hnone.symm.trans hcalls).symm (Option.some_ne_none calls)

theorem inv_sendCommands {tags : List CtagsScan.Tag} (h : sendCommands w st tags = .ok st') :
    Inv st' := by
  obtain ⟨calls, hcmds, hst⟩ := Fault.bind_eq_ok.mp h
  cases hst
  intro calls' hcalls
  cases hcalls
  obtain ⟨cmds, hbegins, -⟩ := Commands.updateCommands_length st.bdata.ft.settings w.groups tags
  exact ⟨lastHighlight_sentFor _ _ _, cmds, Except.ok.inj (hcmds.symm.trans hbegins)⟩

theorem inv_round {retry retry' : Bool} (h : Inv st)
    (hround : Update.round w retry st = .ok (retry', st')) : Inv st' := by
  unfold Update.round at hround
  dsimp only at hround
  split at hround
  · obtain ⟨st'', hsend, hst⟩ := Fault.bind_eq_ok.mp hround
    cases hst
    exact inv_sendCommands hsend
  · cases hround
    exact inv_updateTaglist h .normal

theorem fromRetry_error {retry : Bool} {fault : Fault} (h : Update.round w retry st = .error fault) :
    fromRetry w retry st = .error fault := by
  rw [fromRetry]
  split <;> simp_all

theorem inv_fromRetry (retry : Bool) (st : Update.State) (h : Inv st)
    (hrun : fromRetry w retry st = .ok st') : Inv st' := by
  induction retry, st using fromRetry.induct (w := w) with
  | case1 retry st fault hround =>
      rw [fromRetry_error hround] at hrun
      cases hrun
  | case2 retry st st1 hround ih =>
      rw [fromRetry_again hround] at hrun
      exact ih (inv_updateTaglist (inv_round h hround) .forceLanguage) hrun
  | case3 retry st st1 hround =>
      rw [fromRetry_done hround] at hrun
      cases hrun
      exact inv_round h hround

theorem inv_withoutParser (h : Inv st) (hrun : withoutParser w type st = .ok st') : Inv st' := by
  unfold withoutParser at hrun
  split at hrun
  · rename_i calls hcalls
    split at hrun
    · cases hrun
      intro calls' hcalls'
      obtain rfl : calls = calls' := Option.some.inj (hcalls.symm.trans hcalls')
      exact ⟨lastHighlight_sentFor _ _ _, (h calls hcalls).2⟩
    · exact inv_fromRetry true st h hrun
  · exact inv_fromRetry true st h hrun

/-- An update keeps it. -/
theorem inv_updateHighlight (h : Inv st) (hrun : updateHighlight w ret type st = .ok st') :
    Inv st' := by
  unfold updateHighlight at hrun
  split at hrun
  · obtain ⟨r, -, hrest⟩ := Fault.bind_eq_ok.mp hrun
    split at hrest
    · cases hrest
      exact h
    · exact inv_withoutParser h hrest
  · exact inv_withoutParser h hrun

theorem inv_clearHighlight (h : Inv st) (w : World) : Inv (clearHighlight w st) := by
  unfold clearHighlight
  split
  · exact h
  · intro calls hcalls
    obtain ⟨hlast, hbegins⟩ := h calls hcalls
    exact ⟨(lastHighlight_command _ _).trans hlast, hbegins⟩

/-- Where the parser has succeeded, nothing has happened. -/
theorem updateHighlight_withParser (hparser : st.bdata.ft.hasParser = true)
    (hret : ret = .ok 0 ∨ ret = .ok (-1)) : updateHighlight w ret type st = .ok st := by
  rw [updateHighlight, if_pos hparser]
  rcases hret with rfl | rfl
  · rfl
  · rfl

/-! ### A session

A step is about one buffer, and the invariant says something of each buffer by itself.  So it is
kept if that buffer keeps its part; the tags of the project, which others have in common with it,
are not in it.
-/

/-- What holds of every buffer. -/
structure BufferOk (b : Buffer) : Prop where
  kept : ∀ calls, b.calls = some calls → Kept b calls
  /-- Files with a parser are never highlighted with tags. -/
  parser : b.ft.hasParser = true → b.calls = none ∧ b.handed = []

theorem BufferOk.inv {b : Buffer} (h : BufferOk b) (s : State) : Inv (s.view b) := fun calls hcalls =>
  ⟨(h.kept calls hcalls).last, (h.kept calls hcalls).begins⟩

theorem Inv.bufferOk {b : Buffer} (h : Inv st)
    (hparser : b.ft.hasParser = true → st.bdata.calls = none ∧ st.sent = []) :
    BufferOk { b with calls := st.bdata.calls, handed := st.sent } :=
  ⟨fun calls hcalls => ⟨(h calls hcalls).1, (h calls hcalls).2⟩, hparser⟩

/-- So an update leaves the buffer as it should be. -/
theorem bufferOk_updateHighlight {s : State} {b : Buffer} (h : BufferOk b)
    (hret : ret = .ok 0 ∨ ret = .ok (-1))
    (hrun : updateHighlight w ret type (s.view b) = .ok st') :
    BufferOk { b with calls := st'.bdata.calls, handed := st'.sent } := by
  refine (inv_updateHighlight (h.inv s) hrun).bufferOk fun hparser => ?_
  rw [updateHighlight_withParser hparser hret] at hrun
  cases hrun
  exact h.parser hparser

/-- All buffers there are. -/
def SessionOk (s : State) : Prop := ∀ n b, s.buffers n = some b → BufferOk b

theorem SessionOk.update {s s' : State} {n : Nat} {b : Buffer} (h : SessionOk s) (hb : BufferOk b)
    (hs' : s'.buffers = Function.update s.buffers n (some b)) : SessionOk s' := by
  intro m b' hm
  rw [hs'] at hm
  by_cases hmn : m = n
  · subst hmn
    rw [Function.update_self] at hm
    exact Option.some.inj hm ▸ hb
  · rw [Function.update_of_ne hmn] at hm
    exact h m b' hm

theorem sessionOk_step {s s' : State} {a : Action} (h : SessionOk s) (hret : ParserReturns a)
    (hstep : step s a = some s') : SessionOk s' := by
  cases a with
  | attach n ft filename lines topdir found w ret =>
      have hnew : BufferOk { ft, filename, lines, topdir, calls := none, handed := [] } :=
        { kept := fun _ hcalls => absurd hcalls.symm (Option.some_ne_none _)
          parser := fun _ => ⟨rfl, rfl⟩ }
      rw [step] at hstep
      split at hstep
      · cases hstep
      · obtain ⟨⟨top, ret', text⟩, -, hattach⟩ :=
          Fault.bind_eq_ok.mp (Fault.toOption_eq_some.mp hstep)
        obtain ⟨st, hrun, hs'⟩ := Fault.bind_eq_ok.mp hattach
        cases hs'
        exact SessionOk.update (s := s) h (bufferOk_updateHighlight hnew hret hrun) rfl
  | highlight n type w ret =>
      obtain ⟨b, hb, hrest⟩ := Option.bind_eq_some_iff.mp hstep
      obtain ⟨st, hrun, hs'⟩ := Option.bind_eq_some_iff.mp hrest
      cases hs'
      exact h.update (bufferOk_updateHighlight (h n b hb) hret (Fault.toOption_eq_some.mp hrun)) rfl
  | edit n lines =>
      obtain ⟨b, hb, hs'⟩ := Option.bind_eq_some_iff.mp hstep
      cases hs'
      have hok : BufferOk { b with lines := lines } :=
        { kept := fun calls hcalls =>
            ⟨((h n b hb).kept calls hcalls).last, ((h n b hb).kept calls hcalls).begins⟩
          parser := (h n b hb).parser }
      exact h.update hok rfl
  | clear n w =>
      obtain ⟨b, hb, hs'⟩ := Option.bind_eq_some_iff.mp hstep
      cases hs'
      refine h.update ((inv_clearHighlight ((h n b hb).inv s) w).bufferOk fun hparser => ?_) rfl
      rw [clearHighlight, if_pos (show (s.view b).bdata.ft.hasParser = true from hparser)]
      exact (h n b hb).parser hparser
  | destroy n =>
      obtain ⟨b, hb, hs'⟩ := Option.bind_eq_some_iff.mp hstep
      cases hs'
      intro m b' hm
      have hm : Function.update s.buffers n none m = some b' := hm
      by_cases hmn : m = n
      · subst hmn
        rw [Function.update_self] at hm
        cases hm
      · rw [Function.update_of_ne hmn] at hm
        exact h m b' hm

/--
**Coming back to a buffer repeats what it was highlighted with last.**  In every session, whatever
ctags printed and the user did, the commands that are kept of a buffer are the last that were
handed to `nvim_call_atomic` for it.  To show the buffer again hands over just these, and neither
the tags of the project nor anything else changes.  A request with room for them says them to
Neovim.  A file with a parser is never highlighted with tags, as long as the parser finds its
program.
-/
theorem session_replays {blib : BStringLib} (hblib : blib.Grows)
    {topdirs : Nat → Taglist.TopDir} {s : State}
    (hs : (session topdirs).Reached (fun _ a => ParserReturns a) s) {n : Nat} {b : Buffer}
    (hb : s.buffers n = some b) :
    (b.ft.hasParser = true → b.calls = none ∧ b.handed = []) ∧
    ∀ calls, b.calls = some calls → lastHighlight b.handed = some calls ∧ Replays s n b calls ∧
      ∀ count, (commandRequest count calls).HasRoom blib →
        ∃ array, collectCommands calls = .ok (some array) ∧
          SaysCalls blib count array (calls.map commandMessage) := by
  have hok := hs.invariant (I := SessionOk) (fun _ _ hnone => by cases hnone)
    (fun _ _ _ h hret hstep => sessionOk_step h hret hstep) n b hb
  refine ⟨hok.parser, fun calls hcalls => ?_⟩
  obtain ⟨hlast, cmds, hbegins⟩ := hok.kept calls hcalls
  have hparser : b.ft.hasParser = false := by
    by_contra hparser
    rw [(hok.parser (Bool.eq_true_of_not_eq_false hparser)).1] at hcalls
    cases hcalls
  refine ⟨hlast, fun w ret => ?_, fun count hroom => ?_⟩
  · have hrun : updateHighlight w ret .normal (s.view b) = .ok (updateFromCache (s.view b) calls) := by
      have hnot : ¬(s.view b).bdata.ft.hasParser = true := Bool.eq_false_iff.mp hparser
      have hcalls' : (s.view b).bdata.calls = some calls := hcalls
      rw [updateHighlight, if_neg hnot, withoutParser, hcalls']
      rfl
    simp only [step, hb, hrun, Except.toOption, Option.bind_eq_bind, Option.bind_some]
    simp only [State.put, updateFromCache, State.view, Function.update_eq_self]
  · obtain ⟨array, hcollect⟩ := collectCommands_some (hbegins ▸ List.cons_ne_nil _ _)
      (Nat.le_of_lt (length_of_commands hroom))
    exact ⟨array, hcollect, commands_heard hblib hcollect hroom⟩

/-! ### Two buffers of a script

The second is opened, the first is edited and cleared, and then it is shown again.
-/

/-- There is no compressed tags file yet. -/
def firstRun : Taglist.World where
  mtime := none
  saved := none
  out := some mainTag
  mtimeAfter := some 1

theorem getInitialTaglist_firstRun (top : Taglist.TopDir) :
    ∃ top' found, Taglist.getInitialTaglist top firstRun = .ok (top', found) := by
  unfold Taglist.getInitialTaglist
  cases top.tags with
  | none => exact ⟨_, _, rfl⟩
  | some tags => exact ⟨_, _, rfl⟩

/-- The script is opened. -/
def opened (n : Nat) : Action :=
  .attach n script.bdata.ft script.bdata.filename script.bdata.lines 0 firstRun
    (scriptWorld fun _ => mainTag) (.ok 0)

/-- ctags finds its function. -/
theorem opened_highlights {s : State} {n : Nat} (hfree : s.buffers n = none) :
    ∃ s' b calls, step s (opened n) = some s' ∧ s'.buffers = Function.update s.buffers n (some b) ∧
      b.ft = script.bdata.ft ∧ b.calls = some calls := by
  obtain ⟨top, found, hinitial⟩ := getInitialTaglist_firstRun (s.topdirs 0)
  have hfinds : Finds (scriptWorld fun _ => mainTag) script.bdata .normal :=
    ⟨Nat.le_refl 1, by decide, by decide⟩
  obtain ⟨tags, htags⟩ := Option.ne_none_iff_exists'.mp (tagsOf_ne_none_iff.mpr hfinds)
  obtain ⟨st, hother, calls, -, hcalls, -⟩ :=
    @updateOther_of_some (scriptWorld fun _ => mainTag) ⟨{ script.bdata with topdir := top }, []⟩
      rfl _ htags
  let b : Buffer :=
    { ft := script.bdata.ft, filename := script.bdata.filename, lines := script.bdata.lines,
      topdir := 0, calls := none, handed := [] }
  let s1 : State := { s with topdirs := Function.update s.topdirs 0 top }
  have hview : s1.view b = ⟨{ script.bdata with topdir := top }, []⟩ := by
    simp only [State.view, s1, b, Function.update_self]
    rfl
  have hupdate : updateHighlight (scriptWorld fun _ => mainTag) (.ok 0) .update (s1.view b) =
      .ok st := by
    rw [hview]
    exact hother
  have hattach : attach s n b firstRun (scriptWorld fun _ => mainTag) (.ok 0) =
      .ok (s1.put n b st) := by
    rw [attach]
    refine Eq.trans (congrArg (· >>= _) hinitial) ?_
    exact congrArg (· >>= fun st => .ok (s1.put n b st)) hupdate
  refine ⟨s1.put n b st, { b with calls := st.bdata.calls, handed := st.sent }, calls, ?_, rfl, rfl,
    hcalls⟩
  have hstep : step s (opened n) =
      (attach s n b firstRun (scriptWorld fun _ => mainTag) (.ok 0)).toOption := by
    rw [opened, step, hfree]
  rw [hstep, hattach]
  rfl

theorem session_replays_script :
    ∃ s b b' calls, (session fun _ => Taglist.initTopdir).Reached (fun _ a => ParserReturns a) s ∧
      s.buffers 0 = some b ∧ b.lines = [bt "stop"] ∧ s.buffers 1 = some b' ∧
      b.calls = some calls ∧ lastHighlight b.handed = some calls ∧ Replays s 0 b calls := by
  obtain ⟨s1, b1, calls, hfirst, hs1, hft, hcalls⟩ :=
    opened_highlights (s := (session fun _ => Taglist.initTopdir).init) (n := 0) rfl
  obtain ⟨s2, b2, -, hsecond, hs2, -, -⟩ := opened_highlights (s := s1) (n := 1) (by rw [hs1]; rfl)
  have hold : s2.buffers 0 = some b1 := by
    rw [hs2, hs1]
    rfl
  let b : Buffer := { b1 with lines := [bt "stop"] }
  let s3 : State := { s2 with buffers := Function.update s2.buffers 0 (some b) }
  have hedit : step s2 (.edit 0 [bt "stop"]) = some s3 := by
    rw [step, hold]
    rfl
  have hb : s3.buffers 0 = some b := by simp only [s3, Function.update_self]
  let w : World := scriptWorld fun _ => mainTag
  have hclear : step s3 (.clear 0 w) = some (s3.put 0 b (clearHighlight w (s3.view b))) := by
    rw [step, hb]
    rfl
  have hreturns : ∀ {n}, ParserReturns (opened n) := .inl rfl
  have hopened : (session fun _ => Taglist.initTopdir).Reached (fun _ a => ParserReturns a) s2 :=
    .step (.step .init hreturns hfirst) hreturns hsecond
  have hedited : ParserReturns (.edit 0 [bt "stop"]) := trivial
  have hcleared : ParserReturns (.clear 0 w) := trivial
  have hrun : (session fun _ => Taglist.initTopdir).Reached (fun _ a => ParserReturns a)
      (s3.put 0 b (clearHighlight w (s3.view b))) :=
    .step (.step hopened hedited hedit) hcleared hclear
  have hkept : (clearHighlight w (s3.view b)).bdata.calls = some calls := by
    have hparser : (s3.view b).bdata.ft.hasParser = false := by
      rw [show (s3.view b).bdata.ft = script.bdata.ft from hft]
      rfl
    rw [clearHighlight, hparser]
    exact hcalls
  have hshown : (s3.put 0 b (clearHighlight w (s3.view b))).buffers 0 =
      some { b with calls := (clearHighlight w (s3.view b)).bdata.calls,
                    handed := (clearHighlight w (s3.view b)).sent } := by
    simp only [State.put, Function.update_self]
  obtain ⟨hlast, hreplays, -⟩ := (session_replays exactLib_grows hrun hshown).2 calls hkept
  refine ⟨_, _, b2, calls, hrun, hshown, rfl, ?_, hkept, hlast, hreplays⟩
  simp [State.put, s3, hs2]

end TagHighlight.Session
