/-
When the lines a buffer starts with are Neovim's, and stay so.

Until the text is merged the events are applied to lines that are not there, and the
invariant says nothing of the lines but that they are `Sound`.  The merge deletes the one
line there may be; with no other it leaves exactly the text that Neovim answered with,
however it came about.  From the answer on, the invariant is that the edits whose events
are still on their way lead from the lines, or from the text to be merged, to Neovim's.

Neither part of the condition is about Neovim alone.  How many lines there are at the merge
depends on the events that were handled before it, and whether an edit is mistaken on the lines
that Neovim has when it makes it.
-/
import TagHighlight.Events.InitialLines
import TagHighlight.Proofs.Events.LineEvent
import TagHighlight.Proofs.Util.Sound

namespace TagHighlight

open Fault

/-! ### Events for lines that are not there

The indices of such an event mean nothing to the list, and the list operations were only proved
right for indices that do.  What can be said of them for all indices is little: the list stays
sound, in the sense of `Util/Sound`, if they return.
-/

section

variable {l : LinkedList BString}

theorem Sound.replaceLine (h : Sound l) (newStrings : BList BString) (lineno : Int) (index : Nat) :
    Yields (replaceLine l newStrings lineno index) fun r => Sound r.1 := by
  unfold TagHighlight.replaceLine
  refine yields_bind fun node => yields_bind fun moved => ?_
  exact h.fresh.writeData _ _ |>.bind fun mem hmem => yields_ok ⟨hmem, h.qty⟩

/-- Whatever the indices are, a loop that comes to its end leaves a sound list. -/
theorem Sound.multiOpLoop (first olen : Int) : ∀ (count i : Nat) (numToModify : Int)
    {l : LinkedList BString} (newStrings : BList BString), Sound l →
    Yields (multiOpLoop first olen count i numToModify l newStrings) Sound := by
  intro count
  induction count with
  | zero => intro i numToModify l newStrings h; exact yields_ok h
  | succ count ih =>
      intro i numToModify l newStrings h
      unfold TagHighlight.multiOpLoop
      refine yields_ite (fun _ => yields_ite (fun _ => ?_) fun _ => ?_) fun _ => ?_
      · exact (h.replaceLine newStrings _ i).bind fun r hr => ih _ _ _ hr
      · exact h.deleteRangeAt _ _
      · refine yields_ite (fun _ => ?_) fun _ => ?_
        · exact (h.insertBlistAfterAt _ newStrings i (-1)).bind fun r hr => yields_ok hr
        · exact (h.insertBlistBeforeAt _ newStrings i (-1)).bind fun r hr => yields_ok hr

theorem Sound.editLines (h : Sound l) (ev : LineEvent) :
    Yields (editLines l ev) fun r => Sound r.1 := by
  unfold TagHighlight.editLines
  refine yields_ite (fun _ => ?_) fun _ => yields_ite (fun _ => ?_) fun _ => yields_ok h
  · refine yields_ite (fun _ => yields_error _) fun _ => yields_ite (fun _ => yields_ok h) fun _ => ?_
    refine yields_ite (fun _ => ?_) fun _ => ?_
    · exact (h.insertBlistBeforeAt _ ev.newStrings 0 (-1)).bind fun r hr => yields_ok hr
    · exact (Sound.multiOpLoop _ _ _ _ _ _ h).bind fun l' hl' => yields_ok hl'
  · exact (h.deleteRangeAt _ _).bind fun l' hl' => yields_ok hl'

/-- After an event there is a line, if only by the count. -/
theorem Sound.handleLineEvent {bdata : Buffer} (h : Sound bdata.lines) (ev : LineEvent) :
    Yields (handleLineEvent bdata ev) fun r => Sound r.1.lines ∧ 1 ≤ r.1.lines.qty := by
  unfold TagHighlight.handleLineEvent
  refine yields_ite (fun _ => yields_error _) fun _ => ?_
  refine (h.editLines ev).bind fun r hr => ?_
  refine yields_ite (fun hqty => ?_) fun hqty => yields_ok ⟨hr, ?_⟩
  · refine (hr.append []).bind fun l hl => yields_ok ⟨hl.1, ?_⟩
    have := hl.2
    show 1 ≤ l.qty
    omega
  · have := hr.qty
    show 1 ≤ r.1.qty
    omega

end

/-! ### The merge

`get_initial_lines` deletes the only line, if there is one, and inserts the text.  The deletion
resets both ends, so whatever shape the list had, it is empty then; but with two lines or more
nothing is deleted, and they stay.
-/

/-- The lines of a buffer whose text has not been merged. -/
structure Buffer.Unread (bdata : Buffer) : Prop where
  sound : Sound bdata.lines
  /-- There are none, or an event has put some there. -/
  lines : bdata.lines = llMakeNew ∨ 1 ≤ bdata.lines.qty

namespace Buffer.Unread

variable {bdata : Buffer}

theorem newBuffer : newBuffer.Unread := ⟨Sound.makeNew, .inl rfl⟩

theorem handleLineEvent (h : bdata.Unread) (ev : LineEvent) :
    Yields (handleLineEvent bdata ev) fun r => r.1.Unread := by
  intro r hr
  obtain ⟨hsound, hqty⟩ := h.sound.handleLineEvent ev r hr
  exact ⟨hsound, .inr hqty⟩

/-- With at most one line, nothing is left of it: `ll_delete_node` resets both ends. -/
theorem cleared (h : bdata.Unread) (hqty : bdata.lines.qty ≤ 1) :
    Yields (if bdata.lines.qty = 1 then llDeleteNode bdata.lines bdata.lines.head
      else .ok bdata.lines) (Rep · []) := by
  refine yields_ite (fun hone => ?_) fun hne => yields_ok ?_
  · unfold llDeleteNode unlinkNode
    rw [if_pos hone, ok_bind]
    refine h.sound.fresh.free _ |>.bind fun mem hmem => yields_ok ?_
    refine ⟨trivial, rfl, rfl, ?_, List.nodup_nil, hmem⟩
    show bdata.lines.qty - 1 = 0
    omega
  · rcases h.lines with hnew | hsome
    · rw [hnew]
      exact ⟨trivial, rfl, rfl, rfl, List.nodup_nil, fun _ _ => rfl⟩
    · omega

/-- **The merge leaves the text**, if there was at most one line. -/
theorem getInitialLines {tmp : List BString} (h : bdata.Unread) (hqty : bdata.lines.qty ≤ 1)
    (hne : tmp ≠ []) :
    Yields (getInitialLines bdata (tmp.map some)) fun bdata' => Represents bdata'.lines tmp := by
  unfold TagHighlight.getInitialLines
  refine (h.cleared hqty).bind fun l hl => ?_
  obtain ⟨l', blist', hrun, hrep⟩ := hl.insertBlistAfter_nil (sliceArgs_map_some hne)
  rw [hl.head, show DList.firstOr [] none = (none : Option Nat) from rfl, hrun, ok_bind]
  exact yields_ok ⟨_, hrep, Rep.vals_freshCells tmp l.brk⟩

end Buffer.Unread

/-- With two lines or more the merge keeps them, and leaves too many. -/
theorem getInitialLines_keeps {bdata : Buffer} (tmp : List BString) (hqty : 2 ≤ bdata.lines.qty) :
    Yields (getInitialLines bdata (tmp.map some)) fun bdata' =>
      ¬Represents bdata'.lines tmp := by
  unfold getInitialLines
  rw [if_neg (by omega), ok_bind]
  refine (llInsertBlistAfter_qty _ _ _).bind fun r hr => yields_ok fun hrep => ?_
  have hlen : r.1.qty = tmp.length := hrep.qty
  rw [List.length_map] at hr
  omega

/-! ### Edits on their way

Messages come through in order, so the edits whose events are still on their way are the last ones
that Neovim has made.  What they make of the lines is the text that Neovim has now; each event
that is handled takes the first of them away.
-/

/-- The edits `pending` lead from `lines` to `text`, none of them mistaken for a useless one. -/
structure Leads (lines : List BString) (pending : List Edit) (text : List BString) : Prop where
  ne : lines ≠ []
  edits : EachEdit (fun e s => e.Valid s ∧ e.Told s) pending lines
  text : nvimEdits pending lines = text

namespace Leads

variable {lines text : List BString} {pending : List Edit} {e : Edit}

theorem refl (h : lines ≠ []) : Leads lines [] lines := ⟨h, trivial, rfl⟩

theorem eq_of_nil (h : Leads lines [] text) : lines = text := h.text

/-- Neovim makes one more edit. -/
theorem snoc (h : Leads lines pending text) (hvalid : e.Valid text) (htold : e.Told text) :
    Leads lines (pending ++ [e]) (nvimEdit e text) := by
  obtain ⟨hne, hedits, rfl⟩ := h
  refine ⟨hne, ?_, ?_⟩
  · induction pending generalizing lines with
    | nil => exact ⟨⟨hvalid, htold⟩, trivial⟩
    | cons e' pending ih => exact ⟨hedits.1, ih (nvimEdit_ne_nil e' lines) hedits.2 hvalid htold⟩
  · induction pending generalizing lines with
    | nil => rfl
    | cons e' pending ih => exact ih (nvimEdit_ne_nil e' lines) hedits.2 hvalid htold

/-- The event of the first edit is handled. -/
theorem handled {bdata : Buffer} (h : Leads lines (e :: pending) text)
    (hrep : Represents bdata.lines lines) :
    ∃ r, handleLineEvent bdata e.event = .ok r ∧
      Represents r.1.lines (nvimEdit e lines) ∧ Leads (nvimEdit e lines) pending text := by
  obtain ⟨⟨hvalid, htold⟩, hrest⟩ := h.edits
  obtain ⟨bdata', empty, hrun, hrep'⟩ := hrep.handleLineEvent h.ne hvalid htold
  exact ⟨(bdata', empty), hrun, hrep', nvimEdit_ne_nil e lines, hrest, h.text⟩

end Leads

namespace InitialLines

/-! ### What is asked of the run

`Orderly` is a condition on the steps, and both halves of it can be computed from the state before
the step.  The lines are only compared with the text of Neovim when there is nothing on its way
between them.
-/

namespace Session

/--
Once `get_initial_lines` has returned the process lives, and when every message has been
handled the lines are Neovim's.
-/
def Mirrors (s : Session) : Prop :=
  s.attacher = .returned → s.fault = none ∧
    ∃ bdata, s.bdata = some bdata ∧ (s.wire = [] → Represents bdata.lines s.text)

/-- Neovim has answered with the text. -/
def answered (s : Session) : Bool :=
  match s.attacher with
  | .loading => s.query.isNone
  | .loaded _ | .returned => true
  | _ => false

/-- `bdata->lines->qty` where the next step is the merge. -/
def linesAtMerge (s : Session) : Int :=
  match s.attacher, s.bdata with
  | .loaded _, some bdata => bdata.lines.qty
  | _, _ => 0

/--
The text is merged into at most one line, and no edit after Neovim has answered with it is
mistaken for a useless one.
-/
def Orderly (s : Session) : Action → Prop
  | .edit e => s.answered = true → e.Told s.text
  | .attacher => s.linesAtMerge ≤ 1
  | .answer | .loop => True

instance (e : Edit) (s : List BString) : Decidable (e.Told s) :=
  inferInstanceAs (Decidable (_ → _))

instance Orderly.decidable (s : Session) : (a : Action) → Decidable (s.Orderly a)
  | .edit e => inferInstanceAs (Decidable (s.answered = true → e.Told s.text))
  | .attacher => inferInstanceAs (Decidable (s.linesAtMerge ≤ 1))
  | .answer | .loop => isTrue trivial

/-! ### The invariant

Until Neovim has answered with the text, it says only that no text is on its way and that the
lines are not read.  From the answer on, the events behind it are those of the edits that the text
does not have yet, and so it stays when the text is in the lines.
-/

/-- No text is on its way. -/
def NoText (wire : List Message) : Prop := ∀ tmp, .text tmp ∉ wire

/-- Nobody has asked for the text. -/
def Unasked (s : Session) : Prop := s.query ≠ some .getLines ∧ NoText s.wire

def HasUnread (s : Session) : Prop := ∃ bdata, s.bdata = some bdata ∧ bdata.Unread

/-- How far the thread is, and what is on its way from Neovim. -/
def Stage (s : Session) : Prop :=
  match s.attacher with
  | .starting => s.Unasked
  | .created | .attaching | .attached | .locked => s.Unasked ∧ s.HasUnread
  | .loading => s.HasUnread ∧
      (s.query = some .getLines ∧ NoText s.wire ∨
       s.query = none ∧ ∃ before tmp pending, NoText before ∧
        s.wire = before ++ .text tmp :: pending.map .lines ∧ Leads tmp pending s.text)
  | .loaded tmp => s.HasUnread ∧ s.query = none ∧
      ∃ pending, s.wire = pending.map .lines ∧ Leads tmp pending s.text
  | .returned => s.query = none ∧ ∃ bdata lines pending, s.bdata = some bdata ∧
      Represents bdata.lines lines ∧ s.wire = pending.map .lines ∧ Leads lines pending s.text

/-- The thread knows that Neovim sends the events, or is about to hear it. -/
def Subscribed (s : Session) : Prop :=
  .attached ∈ s.wire ∨ s.attacher ≠ .starting ∧ s.attacher ≠ .created ∧ s.attacher ≠ .attaching

structure Inv (s : Session) : Prop where
  ne : s.text ≠ []
  attached : s.Subscribed → s.attached = true
  stage : s.fault = none → s.Stage
  alive : s.attacher = .returned → s.fault = none

theorem Inv.start {text : List BString} (h : text ≠ []) : Inv (start text) where
  ne := h
  attached hsub := by simp [Subscribed, Session.start] at hsub
  stage _ := ⟨by simp [Session.start], by simp [Session.start, NoText]⟩
  alive h := by cases h

theorem Inv.mirrors {s : Session} (h : s.Inv) : s.Mirrors := by
  intro hreturned
  have halive := h.alive hreturned
  have hstage := h.stage halive
  rw [Stage, hreturned] at hstage
  obtain ⟨-, bdata, lines, pending, hb, hrep, hwire, hleads⟩ := hstage
  refine ⟨halive, bdata, hb, fun hnil => ?_⟩
  obtain rfl : pending = [] := List.map_eq_nil_iff.mp (hwire.symm.trans hnil)
  rwa [← hleads.eq_of_nil]

/-! ### What the steps keep

An edit in Neovim adds to what is on its way, an answer begins a new part of it, and the event
loop takes the first message away.  The thread has the lock from before its second request until
the merge, so no event is handled in between.
-/

variable {s s' : Session}

theorem NoText.append {wire : List Message} {m : Message} (h : NoText wire)
    (hm : ∀ tmp, m ≠ .text tmp) : NoText (wire ++ [m]) := by
  intro tmp hmem
  rcases List.mem_append.mp hmem with hold | hnew
  · exact h tmp hold
  · exact hm tmp (List.mem_singleton.mp hnew).symm

theorem NoText.report {wire : List Message} (h : NoText wire) (attached : Bool) (e : Edit) :
    NoText (if attached then wire ++ [.lines e] else wire) := by
  cases attached with
  | false => exact h
  | true => exact h.append fun tmp heq => by cases heq

theorem Inv.edit {e : Edit} (h : s.Inv) (hfault : s.fault = none) (hok : s.Orderly (.edit e))
    (hs : s.edit e = some s') : s'.Inv := by
  obtain ⟨text, attached, query, wire, bdata, attacher, fault⟩ := s
  unfold Session.edit at hs
  split at hs
  case isFalse => cases hs
  case isTrue hvalid =>
    cases hs
    refine ⟨nvimEdit_ne_nil _ _, fun hsub => h.attached ?_, fun _ => ?_, h.alive⟩
    · refine hsub.imp_left fun hmem => ?_
      cases attached with
      | false => exact hmem
      | true => simpa using hmem
    have hstage := h.stage hfault
    -- Once Neovim has answered, the edit joins those on their way.
    have hattached : attacher ≠ .starting → attacher ≠ .created → attacher ≠ .attaching →
        attached = true := fun h1 h2 h3 => h.attached (.inr ⟨h1, h2, h3⟩)
    cases attacher with
    | starting => exact ⟨hstage.1, hstage.2.report attached e⟩
    | created | attaching | attached | locked =>
        exact ⟨⟨hstage.1.1, hstage.1.2.report attached e⟩, hstage.2⟩
    | loading =>
        obtain rfl := hattached (by simp) (by simp) (by simp)
        obtain ⟨hunread, ⟨hquery, hno⟩ | ⟨rfl, before, tmp, pending, hno, rfl, hleads⟩⟩ := hstage
        · exact ⟨hunread, .inl ⟨hquery, hno.report true e⟩⟩
        · refine ⟨hunread, .inr ⟨rfl, before, tmp, pending ++ [e], hno, by simp, ?_⟩⟩
          exact hleads.snoc hvalid (hok rfl)
    | loaded tmp =>
        obtain rfl := hattached (by simp) (by simp) (by simp)
        obtain ⟨hunread, hquery, pending, rfl, hleads⟩ := hstage
        exact ⟨hunread, hquery, pending ++ [e], by simp, hleads.snoc hvalid (hok rfl)⟩
    | returned =>
        obtain rfl := hattached (by simp) (by simp) (by simp)
        obtain ⟨hquery, b, lines, pending, hb, hrep, rfl, hleads⟩ := hstage
        exact ⟨hquery, b, lines, pending ++ [e], hb, hrep, by simp, hleads.snoc hvalid (hok rfl)⟩

theorem Inv.answer (h : s.Inv) (hfault : s.fault = none) (hs : s.answer = some s') : s'.Inv := by
  obtain ⟨text, attached, query, wire, bdata, attacher, fault⟩ := s
  have hstage := h.stage hfault
  unfold Session.answer at hs
  cases query with
  | none => cases hs
  | some q =>
      cases q with
      | attach =>
          cases hs
          have hno {wire : List Message} (hwire : NoText wire) : NoText (wire ++ [.attached]) :=
            hwire.append fun tmp heq => by cases heq
          refine ⟨h.ne, fun _ => rfl, fun _ => ?_, h.alive⟩
          cases attacher with
          | starting => exact ⟨by simp, hno hstage.2⟩
          | created | attaching | attached | locked =>
              exact ⟨⟨by simp, hno hstage.1.2⟩, hstage.2⟩
          | loading => simp [Stage] at hstage
          | loaded tmp => simp [Stage] at hstage
          | returned => simp [Stage] at hstage
      | getLines =>
          cases hs
          refine ⟨h.ne, fun hsub => h.attached (hsub.imp_left fun hmem => ?_), fun _ => ?_, h.alive⟩
          · simpa using hmem
          cases attacher with
          | starting => exact absurd rfl hstage.1
          | created | attaching | attached | locked => exact absurd rfl hstage.1.1
          | loading =>
              obtain ⟨hunread, ⟨-, hno⟩ | ⟨hquery, -⟩⟩ := hstage
              · exact ⟨hunread, .inr ⟨rfl, wire, text, [], hno, rfl, Leads.refl h.ne⟩⟩
              · cases hquery
          | loaded tmp => simp [Stage] at hstage
          | returned => simp [Stage] at hstage

/-- A fault before `get_initial_lines` has returned ends the run. -/
theorem Inv.faulted {wire : List Message} (h : s.Inv) (hnot : s.attacher ≠ .returned)
    (hwire : wire ⊆ s.wire) (f : Fault) : Inv { s with wire := wire, fault := some f } where
  ne := h.ne
  attached hsub := h.attached (hsub.imp_left (@hwire _))
  stage hnone := by cases hnone
  alive hreturned := absurd hreturned hnot

theorem Inv.attacherStep (h : s.Inv) (hfault : s.fault = none) (hok : s.Orderly .attacher)
    (hs : s.attacherStep = some s') : s'.Inv := by
  obtain ⟨text, attached, query, wire, bdata, attacher, fault⟩ := s
  have hstage := h.stage hfault
  cases attacher with
  | starting =>
      cases hs
      refine ⟨h.ne, fun hsub => h.attached ?_, fun _ => ⟨hstage, _, rfl, Buffer.Unread.newBuffer⟩, ?_⟩
      · simpa [Subscribed] using hsub
      · simp
  | created =>
      cases hs
      refine ⟨h.ne, fun hsub => h.attached ?_, fun _ => ⟨⟨by simp, hstage.1.2⟩, hstage.2⟩, ?_⟩
      · simpa [Subscribed] using hsub
      · simp
  | attached =>
      cases hs
      exact ⟨h.ne, fun _ => h.attached (.inr (by simp)), fun _ => hstage, by simp⟩
  | locked =>
      cases hs
      refine ⟨h.ne, fun _ => h.attached (.inr (by simp)), fun _ => ?_, by simp⟩
      exact ⟨hstage.2, .inl ⟨rfl, hstage.1.2⟩⟩
  | loaded tmp =>
      obtain ⟨⟨b, rfl, hunread⟩, rfl, pending, rfl, hleads⟩ := hstage
      have hqty : b.lines.qty ≤ 1 := hok
      cases hrun : getInitialLines b (tmp.map some) with
      | error f =>
          simp only [Session.attacherStep, Session.after, hrun] at hs
          cases hs
          exact h.faulted (by simp) (List.Subset.refl _) f
      | ok b' =>
          simp only [Session.attacherStep, Session.after, hrun] at hs
          cases hs
          refine ⟨h.ne, fun _ => h.attached (.inr (by simp)), fun _ => ?_, fun _ => hfault⟩
          have hrep := hunread.getInitialLines hqty hleads.ne b' hrun
          exact ⟨rfl, b', tmp, pending, rfl, hrep, rfl, hleads⟩
  | attaching | loading | returned => simp [Session.attacherStep] at hs

theorem NoText.tail {m : Message} {rest : List Message} (h : NoText (m :: rest)) : NoText rest :=
  fun tmp hmem => h tmp (List.mem_cons_of_mem m hmem)

/-- An event that finds the lines unread. -/
theorem Inv.handleUnread {e : Edit} {rest : List Message} (h : s.Inv) (hfault : s.fault = none)
    (hwire : s.wire = .lines e :: rest) (hnot : s.attacher ≠ .returned)
    (hs : handleLines { s with wire := rest } e = some s') : s'.Inv := by
  have hsub : rest ⊆ s.wire := by
    rw [hwire]
    exact List.subset_cons_self _ _
  obtain ⟨text, attached, query, wire, bdata, attacher, fault⟩ := s
  have hstage := h.stage hfault
  cases bdata with
  | none =>
      cases hs
      exact h.faulted hnot hsub _
  | some b =>
      cases hlock : attacher.holdsLock with
      | true => simp [handleLines, hlock] at hs
      | false =>
          cases hrun : handleLineEvent b e.event with
          | error f =>
              simp only [handleLines, hlock, Session.after, hrun] at hs
              cases hs
              exact h.faulted hnot hsub f
          | ok r =>
              simp only [handleLines, hlock, Session.after, hrun] at hs
              cases hs
              refine ⟨h.ne, fun hmem => h.attached (hmem.imp_left (@hsub _)), fun _ => ?_,
                fun hreturned => absurd hreturned hnot⟩
              subst hwire
              cases attacher with
              | starting => exact ⟨hstage.1, hstage.2.tail⟩
              | created | attaching | attached =>
                  obtain ⟨⟨hquery, hno⟩, b', hb, hunread⟩ := hstage
                  obtain rfl := Option.some.inj hb
                  exact ⟨⟨hquery, hno.tail⟩, r.1, rfl, hunread.handleLineEvent e.event r hrun⟩
              | locked | loading | loaded => cases hlock
              | returned => exact absurd rfl hnot

/-- An event that finds the text in place is the first of those on their way. -/
theorem Inv.handleReturned {e : Edit} {rest : List Message} (h : s.Inv) (hfault : s.fault = none)
    (hwire : s.wire = .lines e :: rest) (hreturned : s.attacher = .returned)
    (hs : handleLines { s with wire := rest } e = some s') : s'.Inv := by
  obtain ⟨text, attached, query, wire, bdata, attacher, fault⟩ := s
  subst hreturned
  obtain ⟨hquery, b, lines, pending, rfl, hrep, hmap, hleads⟩ := h.stage hfault
  obtain ⟨e', pending, rfl, he, rfl⟩ := List.map_eq_cons_iff.mp (hmap.symm.trans hwire)
  cases he
  obtain ⟨r, hrun, hrep', hleads'⟩ := hleads.handled hrep
  simp only [handleLines, Attacher.holdsLock, Session.after, hrun] at hs
  cases hs
  refine ⟨h.ne, fun _ => h.attached (.inr (by simp)), fun _ => ?_, fun _ => hfault⟩
  exact ⟨hquery, r.1, _, pending, rfl, hrep', rfl, hleads'⟩

theorem Inv.loop (h : s.Inv) (hfault : s.fault = none) (hs : s.loop = some s') : s'.Inv := by
  unfold Session.loop at hs
  cases hwire : s.wire with
  | nil => simp [hwire] at hs
  | cons m rest =>
      rw [hwire] at hs
      cases m with
      | lines e =>
          by_cases hreturned : s.attacher = .returned
          · exact h.handleReturned hfault hwire hreturned hs
          · exact h.handleUnread hfault hwire hreturned hs
      | attached =>
          obtain ⟨text, attached, query, wire, bdata, attacher, fault⟩ := s
          subst hwire
          cases attacher with
          | attaching =>
              cases hs
              obtain ⟨⟨hquery, hno⟩, hunread⟩ := h.stage hfault
              refine ⟨h.ne, fun _ => h.attached (.inl List.mem_cons_self), fun _ => ?_, by simp⟩
              exact ⟨⟨hquery, hno.tail⟩, hunread⟩
          | _ => cases hs
      | text tmp =>
          obtain ⟨text, attached, query, wire, bdata, attacher, fault⟩ := s
          subst hwire
          cases attacher with
          | loading =>
              cases hs
              obtain ⟨hunread, ⟨-, hno⟩ | ⟨hquery, before, tmp', pending, hno, hwire, hleads⟩⟩ :=
                h.stage hfault
              · exact absurd List.mem_cons_self (hno tmp)
              -- No other text is on its way, so this is the one that was asked for.
              obtain rfl : before = [] := by
                rcases List.cons_eq_append_iff.mp hwire with ⟨hnil, -⟩ | ⟨before', rfl, -⟩
                · exact hnil
                · exact absurd List.mem_cons_self (hno tmp)
              cases hwire
              refine ⟨h.ne, fun _ => h.attached (.inr (by simp)), fun _ => ?_, by simp⟩
              exact ⟨hunread, hquery, pending, rfl, hleads⟩
          | _ => cases hs

theorem Inv.step {a : Action} (h : s.Inv) (hok : s.Orderly a) (hs : s.step a = some s') :
    s'.Inv := by
  unfold Session.step at hs
  cases hfault : s.fault with
  | some f => simp [hfault] at hs
  | none =>
      rw [hfault] at hs
      cases a with
      | edit e => exact h.edit hfault hok hs
      | answer => exact h.answer hfault hs
      | loop => exact h.loop hfault hs
      | attacher => exact h.attacherStep hfault hok hs

end Session

/--
**The lines a buffer starts with are Neovim's**, and stay so: in every run in which the
text is merged into at most one line and no edit after Neovim's answer is mistaken for a
useless one.
-/
theorem mirrors_of_orderly (text : List BString) (hne : text ≠ []) (as : List Action)
    (hok : (system text).Meets Session.Orderly (Session.start text) as) :
    (system text).Throughout Session.Mirrors (Session.start text) as :=
  TransitionSystem.throughout_of_meets (fun _ h => h.mirrors) (fun _ _ _ h hok hs => h.step hok hs)
    (Session.Inv.start hne) hok

/--
One line, replaced before the text is asked for, and a second one put behind it when it
has been merged.
-/
theorem mirrors_of_orderly_two :
    (system [[97]]).Throughout Session.Mirrors (Session.start [[97]])
      [.attacher, .attacher, .answer, .loop, .edit ⟨0, 1, [[120]]⟩, .loop, .attacher, .attacher,
        .answer, .loop, .attacher, .edit ⟨1, 1, [[121]]⟩, .loop] :=
  mirrors_of_orderly [[97]] (by decide) _ (by decide)

/--
The condition on the merge is exact: where it brings two lines or more to the text that
Neovim has, with nothing on its way, the lines are not Neovim's.
-/
theorem Session.not_mirrors_of_two {s s' : Session} {tmp : List BString} {bdata : Buffer}
    (hattacher : s.attacher = .loaded tmp) (hb : s.bdata = some bdata)
    (hqty : 2 ≤ bdata.lines.qty) (htext : s.text = tmp) (hwire : s.wire = [])
    (hs : s.step .attacher = some s') (hreturned : s'.attacher = .returned) : ¬s'.Mirrors := by
  intro hmirrors
  obtain ⟨text, attached, query, wire, bdata', attacher, fault⟩ := s
  obtain rfl : text = tmp := htext
  subst hattacher hb hwire
  cases fault with
  | some f => cases hs
  | none =>
      cases hrun : getInitialLines bdata (text.map some) with
      | error f =>
          simp only [step, attacherStep, after, hrun] at hs
          cases hs
          cases hreturned
      | ok b =>
          simp only [step, attacherStep, after, hrun] at hs
          cases hs
          obtain ⟨-, b', hb', hrep⟩ := hmirrors rfl
          cases hb'
          exact getInitialLines_keeps text hqty b hrun (hrep rfl)

/--
A buffer with the lines `a` and `b`.  The first one is replaced by `x` and `y` as soon as
Neovim sends events, and the event is handled before the text is asked for.
-/
def earlyEdit : List Action :=
  [.attacher, .attacher, .answer, .loop, .edit ⟨0, 1, [[120], [121]]⟩, .loop, .attacher, .attacher,
    .answer, .loop, .attacher]

/-- The two early lines stay, around the text of three. -/
theorem earlyEdit_not_mirrors :
    ¬(system [[97], [98]]).Throughout Session.Mirrors (Session.start [[97], [98]]) earlyEdit := by
  intro hall
  obtain ⟨s, hrun, hreturned, hwire, htext, bdata, hb, hqty⟩ :
      ∃ s, (system [[97], [98]]).run (Session.start [[97], [98]]) earlyEdit = some s ∧
        s.attacher = .returned ∧ s.wire = [] ∧ s.text = [[120], [121], [98]] ∧
        ∃ bdata, s.bdata = some bdata ∧ bdata.lines.qty = 5 :=
    ⟨_, rfl, rfl, rfl, rfl, _, rfl, rfl⟩
  obtain ⟨-, bdata', hb', hrep⟩ := hall.last hrun hreturned
  obtain rfl := Option.some.inj (hb.symm.trans hb')
  have hlen := (hrep hwire).qty
  simp [hqty, htext] at hlen

end InitialLines

end TagHighlight
