/-
The lines a `Buffer` keeps are Neovim's, unless an edit is mistaken for an update of an
empty buffer.

The handler works on nodes; here everything is said about the sequence the list stands
for.  What the loop over the replaced lines does to it is known from the strings themselves.

`line_event_multi_op` is known from `Proofs/Events/LineSplice`, so what is left are the branches
of the handler around it: an insertion at the top, a deletion, an edit that changes nothing, and
in front of them the one for an edit that is taken for a useless one.
-/
import TagHighlight.Proofs.Events.LineSplice

namespace TagHighlight

open DList

variable {l : LinkedList BString}

/-! ### One event

An edit of Neovim replaces a range of lines by others.  Each branch of the handler is compared
with that.  The one that takes an edit for a useless one is right only where the one line of the
buffer is replaced, and is empty already.
-/

theorem oneEmptyString_map (ss : List BString) :
    oneEmptyString (ss.map some) = true ↔ ss = [[]] := by
  simp [oneEmptyString, List.map_eq_singleton_iff]

theorem sliceArgs_map_some {ss : List BString} (h : ss ≠ []) :
    Rep.SliceArgs (ss.map some) 0 (-1) 0 ss := LineSplice.slots_args (i := 0) h

/-- What `line_event_multi_op` does to the lines. -/
theorem Represents.lineEventMultiOp {s : List BString} {e : Edit} (h : Represents l s)
    (hvalid : e.Valid s) :
    ∃ l', lineEventMultiOp l (e.newStrings.map some) e.first ((e.last : Int) - e.first) = .ok l' ∧
      Represents l' (s.take e.first ++ e.newStrings ++ s.drop e.last) := by
  obtain ⟨hle, hlen⟩ := hvalid
  have hrange : e.first + (e.last - e.first) ≤ s.length := by omega
  obtain ⟨l', hrun, hrep⟩ := LineSplice.lineEventMultiOp_spec e.newStrings h hrange
  refine ⟨l', ?_, by rwa [LineSplice.spliced, Nat.add_sub_cancel' hle] at hrep⟩
  rw [← LineSplice.lineEventMultiOp_fst, show (e.last : Int) - e.first = (e.last - e.first : Nat) by
    omega, hrun]
  rfl

/-- What a pure deletion does to the lines: there is a line at `first`. -/
theorem Represents.deleteLines {s : List BString} {first last : Nat} (h : Represents l s)
    (hlt : first < last) (hlen : last ≤ s.length) :
    ∃ l', llDeleteRangeAt l first ((last : Int) - first) = .ok l' ∧
      Represents l' (s.take first ++ s.drop last) := by
  have hlength : (s.take first).length = first := by
    rw [List.length_take]
    omega
  have hne : s.drop first ≠ [] := by
    intro hnil
    rw [List.drop_eq_nil_iff] at hnil
    omega
  obtain ⟨o, old, hcons⟩ := List.exists_cons_of_ne_nil hne
  rw [← List.take_append_drop first s, hcons] at h
  obtain ⟨l', hrun, hrep⟩ := h.deleteRangeAt (last - first)
  rw [hlength] at hrun
  rw [← hcons, List.drop_drop, Nat.add_sub_cancel' (Nat.le_of_lt hlt)] at hrep
  refine ⟨l', ?_, hrep⟩
  rw [show (last : Int) - first = (last - first : Nat) by omega, hrun]

/-- When the handler takes an edit for a useless one. -/
theorem Represents.useless_iff {s : List BString} {e : Edit} (h : Represents l s) :
    (l.qty ≤ 1 ∧ e.event.first = 0 ∧ oneEmptyString e.event.newStrings = true) ↔
      s.length ≤ 1 ∧ e.first = 0 ∧ e.newStrings = [[]] := by
  rw [h.qty, Edit.event, oneEmptyString_map]
  exact and_congr (by omega) (and_congr_left fun _ => Int.natCast_eq_zero)

/--
The branches of the handler, for an edit that is not mistaken for a useless one.  The
text is not empty, as Neovim's never is.
-/
theorem Represents.editLines {s : List BString} {e : Edit} (h : Represents l s) (hne : s ≠ [])
    (hvalid : e.Valid s) (htold : e.Told s) :
    ∃ l' empty, editLines l e.event = .ok (l', empty) ∧
      Represents l' (s.take e.first ++ e.newStrings ++ s.drop e.last) := by
  obtain ⟨hle, hlen⟩ := hvalid
  have hfirst : e.event.first = e.first := rfl
  have hlast : e.event.last = e.last := rfl
  have hstrings : e.event.newStrings = e.newStrings.map some := rfl
  have hcount : e.event.newStrings.length = e.newStrings.length := by simp [hstrings]
  rw [TagHighlight.editLines]
  by_cases hnew : e.newStrings = []
  · rw [if_neg (by simp [hcount, hnew])]
    by_cases hdel : e.first = e.last
    · rw [if_neg (by simp [hfirst, hlast, hdel])]
      exact ⟨l, false, rfl, by simpa [hnew, hdel] using h⟩
    · have hlt : e.first < e.last := by omega
      obtain ⟨l', hrun, hrep⟩ := h.deleteLines hlt hlen
      rw [if_pos (by omega), hfirst, hlast, hrun]
      exact ⟨l', false, rfl, by simpa [hnew] using hrep⟩
  · rw [if_pos (by simpa [hcount] using hnew), if_neg (by omega)]
    by_cases huseless : s.length ≤ 1 ∧ e.first = 0 ∧ e.newStrings = [[]]
    · rw [if_pos (h.useless_iff.mpr huseless)]
      obtain ⟨hlast1, hs⟩ := htold huseless
      obtain ⟨-, hfirst0, hnew1⟩ := huseless
      exact ⟨l, true, rfl, by simpa [hfirst0, hlast1, hnew1, hs] using h⟩
    · rw [if_neg fun hand => huseless (h.useless_iff.mp hand)]
      by_cases htop : e.first = 0 ∧ e.last = 0
      · obtain ⟨b, bs, rfl⟩ := List.exists_cons_of_ne_nil hne
        have htop' : Represents l ([] ++ b :: bs) := h
        obtain ⟨l', hrun, hrep⟩ := htop'.insertBlistBeforeAt (sliceArgs_map_some hnew)
        rw [if_pos (by omega), hfirst, htop.1, hstrings]
        refine ⟨l', false, ?_, by simpa [htop.1, htop.2] using hrep⟩
        rw [show ((0 : Nat) : Int) = ([] : List BString).length from rfl, hrun]
        rfl
      · rw [if_neg (by omega), hfirst, hlast, hstrings]
        obtain ⟨l', hrun, hrep⟩ := h.lineEventMultiOp ⟨hle, hlen⟩
        exact ⟨l', false, by rw [hrun]; rfl, hrep⟩

/-- One event that is not mistaken for a useless one. -/
theorem Represents.handleLineEvent {s : List BString} {e : Edit} {bdata : Buffer}
    (h : Represents bdata.lines s) (hne : s ≠ []) (hvalid : e.Valid s) (htold : e.Told s) :
    ∃ bdata' empty, handleLineEvent bdata e.event = .ok (bdata', empty) ∧
      Represents bdata'.lines (nvimEdit e s) := by
  obtain ⟨l', empty, hrun, hrep⟩ := h.editLines hne hvalid htold
  rw [TagHighlight.handleLineEvent, hrun, nvimEdit]
  by_cases hnil : s.take e.first ++ e.newStrings ++ s.drop e.last = []
  · rw [hnil] at hrep ⊢
    obtain ⟨cells, hcells, hvals⟩ := hrep
    obtain ⟨l'', happend, hrep''⟩ := hcells.append ([] : BString)
    have hqty : l'.qty = 0 := by rw [hcells.qty, ← vals_length, hvals]; rfl
    refine ⟨{ lines := l'', initialized := bdata.initialized || !empty }, empty, ?_, _, hrep'',
      by simp [hvals]⟩
    simp [Edit.event, hqty, happend]
  · have hqty : l'.qty ≠ 0 := by
      rw [hrep.qty]
      have := List.length_pos_iff.mpr hnil
      omega
    refine ⟨{ lines := l', initialized := bdata.initialized || !empty }, empty, ?_, ?_⟩
    · simp [Edit.event, hqty]
    · rw [if_neg hnil]
      exact hrep

/-- An edit that is mistaken for a useless one changes Neovim's text but not the lines. -/
theorem Represents.handleLineEvent_ignored {s : List BString} {e : Edit} {bdata : Buffer}
    (h : Represents bdata.lines s) (hne : s ≠ []) (hvalid : e.Valid s) (htold : ¬e.Told s) :
    TagHighlight.handleLineEvent bdata e.event = .ok (bdata, true) ∧ nvimEdit e s ≠ s := by
  simp only [Edit.Told, not_forall] at htold
  obtain ⟨⟨hlen, hfirst, hnew⟩, hother⟩ := htold
  obtain ⟨b, bs, rfl⟩ := List.exists_cons_of_ne_nil hne
  obtain rfl : bs = [] := List.length_eq_zero_iff.mp (by simpa using hlen)
  constructor
  · have hqty := h.qty
    have hedit : TagHighlight.editLines bdata.lines e.event = .ok (bdata.lines, true) := by
      have hcount : e.event.newStrings.length ≠ 0 := by simp [Edit.event, hnew]
      have hlast : ¬e.event.last = -1 := by simp [Edit.event]
      rw [TagHighlight.editLines, if_pos hcount, if_neg hlast,
        if_pos (h.useless_iff.mpr ⟨hlen, hfirst, hnew⟩)]
    rw [TagHighlight.handleLineEvent, hedit]
    simp [Edit.event, hqty]
  · -- The one line is replaced by an empty one, or an empty one is put above it.
    obtain ⟨-, hlast⟩ := hvalid
    simp only [List.length_singleton] at hlast
    rw [nvimEdit, hfirst, hnew]
    rcases Nat.le_one_iff_eq_zero_or_eq_one.mp hlast with h0 | h1
    · simp [h0]
    · simpa [h1] using fun hb => hother ⟨h1, by rw [hb]⟩

/-! ### A run of events

After each event the lines are Neovim's, so the next one finds them as it should.  And an event
that is mistaken leaves the lines as they are while the text of Neovim becomes another one, so
behind it they do not agree, whatever later events make of it.
-/

theorem nvimEdit_ne_nil (e : Edit) (s : List BString) : nvimEdit e s ≠ [] := by
  rw [nvimEdit]
  split
  · exact List.cons_ne_nil _ _
  · assumption

/-- **The lines are Neovim's** after every edit of a run without a mistaken one. -/
theorem Represents.handleLineEvents : ∀ {edits : List Edit} {s : List BString} {bdata : Buffer},
    Represents bdata.lines s → s ≠ [] → EachEdit (fun e s => e.Valid s ∧ e.Told s) edits s →
    ∃ bdata', handleLineEvents edits bdata = .ok bdata' ∧
      Represents bdata'.lines (nvimEdits edits s) := by
  intro edits
  induction edits with
  | nil => intro s bdata h _ _; exact ⟨bdata, rfl, h⟩
  | cons e edits ih =>
      intro s bdata h hne hall
      obtain ⟨⟨hvalid, htold⟩, hrest⟩ := hall
      obtain ⟨b1, empty, hrun1, h1⟩ := h.handleLineEvent hne hvalid htold
      obtain ⟨b', hrun, h'⟩ := ih h1 (nvimEdit_ne_nil e s) hrest
      exact ⟨b', by rw [TagHighlight.handleLineEvents, hrun1, Fault.ok_bind, hrun], h'⟩

theorem EachEdit.and {P Q : Edit → List BString → Prop} : ∀ {edits : List Edit} {s : List BString},
    EachEdit P edits s → EachEdit Q edits s → EachEdit (fun e s => P e s ∧ Q e s) edits s := by
  intro edits
  induction edits with
  | nil => intro s _ _; trivial
  | cons e edits ih => intro s hp hq; exact ⟨⟨hp.1, hq.1⟩, ih hp.2 hq.2⟩

theorem EachEdit.take {P : Edit → List BString → Prop} : ∀ {edits : List Edit} {s : List BString},
    EachEdit P edits s → ∀ k, EachEdit P (edits.take k) s := by
  intro edits
  induction edits with
  | nil => intro s h k; rwa [List.take_nil]
  | cons e edits ih =>
      intro s h k
      cases k with
      | zero => trivial
      | succ k => exact ⟨h.1, ih h.2 k⟩

/--
**When the lines stay Neovim's.**  From a text the lines agree on, they agree after every
one of a sequence of edits exactly if no edit puts one empty string at the top of a
one-line buffer without that line being empty already.
-/
theorem lines_mirror_iff (edits : List Edit) (s : List BString) (bdata : Buffer)
    (h : Represents bdata.lines s) (hne : s ≠ []) (hvalid : EachEdit Edit.Valid edits s) :
    (∀ k, ∃ bdata', handleLineEvents (edits.take k) bdata = .ok bdata' ∧
      Represents bdata'.lines (nvimEdits (edits.take k) s)) ↔ EachEdit Edit.Told edits s := by
  constructor
  · intro hmirror
    induction edits generalizing s bdata with
    | nil => trivial
    | cons e edits ih =>
        obtain ⟨hv, hrest⟩ := hvalid
        -- The first edit is looked at alone, the others after it.
        have htold : e.Told s := by
          by_contra hn
          obtain ⟨hrun, hdiff⟩ := h.handleLineEvent_ignored hne hv hn
          obtain ⟨b1, hrun1, h1⟩ := hmirror 1
          simp only [List.take_succ_cons, List.take_zero, handleLineEvents, hrun, Fault.ok_bind,
            Except.ok.injEq] at hrun1
          subst hrun1
          exact hdiff (h1.unique h)
        refine ⟨htold, ?_⟩
        obtain ⟨b1, empty, hrun1, h1⟩ := h.handleLineEvent hne hv htold
        refine ih _ b1 h1 (nvimEdit_ne_nil e s) hrest fun k => ?_
        obtain ⟨b', hrun, h'⟩ := hmirror (k + 1)
        rw [List.take_succ_cons, handleLineEvents, hrun1, Fault.ok_bind] at hrun
        exact ⟨b', hrun, h'⟩
  · intro htold k
    exact h.handleLineEvents hne ((hvalid.and htold).take k)

/-- A buffer with the one line `hello`. -/
def helloBuffer : Buffer :=
  { lines := { head := some 0, tail := some 0, qty := 1
               mem := Mem.store (fun _ => none) 0 ⟨[104, 101, 108, 108, 111], none, none⟩
               brk := 1 }
    initialized := true }

theorem represents_hello : Represents helloBuffer.lines [[104, 101, 108, 108, 111]] := by
  refine ⟨[(0, [104, 101, 108, 108, 111])], ⟨⟨rfl, trivial⟩, rfl, rfl, rfl, ?_, fun a ha => ?_⟩,
    rfl⟩
  · simp
  · have ha' : 1 ≤ a := ha
    show Mem.store (fun _ => none) 0 _ a = none
    exact Mem.store_ne (by omega)

/-- An edit in the middle, and then everything deleted. -/
theorem lines_mirror_iff_hello :
    (∀ k, ∃ bdata', handleLineEvents ([⟨0, 1, [[104], [105]]⟩, ⟨0, 2, []⟩].take k) helloBuffer =
        .ok bdata' ∧ Represents bdata'.lines
          (nvimEdits ([⟨0, 1, [[104], [105]]⟩, ⟨0, 2, []⟩].take k) [[104, 101, 108, 108, 111]])) ↔
      EachEdit Edit.Told [⟨0, 1, [[104], [105]]⟩, ⟨0, 2, []⟩] [[104, 101, 108, 108, 111]] :=
  lines_mirror_iff [⟨0, 1, [[104], [105]]⟩, ⟨0, 2, []⟩] _ helloBuffer represents_hello (by simp)
    (by simp [EachEdit, Edit.Valid, nvimEdit])

/--
Clearing the only line of a buffer, which Neovim reports as its replacement by an empty
one, leaves the old line in place.
-/
theorem clearing_hello_lost :
    Represents helloBuffer.lines [[104, 101, 108, 108, 111]] ∧
    EachEdit Edit.Valid [⟨0, 1, [[]]⟩] [[104, 101, 108, 108, 111]] ∧
    ¬∃ bdata', handleLineEvents [⟨0, 1, [[]]⟩] helloBuffer = .ok bdata' ∧
      Represents bdata'.lines (nvimEdits [⟨0, 1, [[]]⟩] [[104, 101, 108, 108, 111]]) := by
  refine ⟨represents_hello, by simp [EachEdit, Edit.Valid], ?_⟩
  intro hex
  obtain ⟨bdata', hrun, h'⟩ := hex
  obtain ⟨hignored, hdiff⟩ := represents_hello.handleLineEvent_ignored (e := ⟨0, 1, [[]]⟩) (by simp)
    (by simp [Edit.Valid]) (by simp [Edit.Told])
  simp only [handleLineEvents, hignored, Fault.ok_bind, Except.ok.injEq] at hrun
  subst hrun
  exact hdiff (h'.unique represents_hello)

end TagHighlight
