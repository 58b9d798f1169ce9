/-
What is left in the temporary tags file.

`update_taglist` cuts the file and writes the new text, but at the offset where the last
text ended: the file then starts with as many zeros as all the texts before it had bytes.
`fileAfter` is that content as a function of the texts obtained, and the invariant says
that it is what the calls leave.  The text alone is there just if there are no zeros.

The texts themselves make no difference, only how long they are.  A text that is empty moves no
offset, so the file may also come out right after several runs, and the condition has to speak of
the texts that are not.
-/
import TagHighlight.Ctags.Taglist

namespace TagHighlight.Taglist

/-! ### The content after a number of texts

The zeros come from the system: a file that is written to behind its end is filled up with them.
Each text is written where the one before it ended, so their number is the length of all texts but
the last.
-/

/-- The tag text last obtained. -/
def lastText (texts : List BString) : BString := texts.getLast?.getD []

/-- What the file has in it after these texts were written. -/
def fileAfter (texts : List BString) : BString :=
  if lastText texts = [] then []
  else List.replicate texts.dropLast.flatten.length 0 ++ lastText texts

@[simp] theorem lastText_append (texts : List BString) (text : BString) :
    lastText (texts ++ [text]) = text := by
  simp [lastText]

theorem fileAfter_append (texts : List BString) (text : BString) :
    fileAfter (texts ++ [text]) =
      if text = [] then [] else List.replicate texts.flatten.length 0 ++ text := by
  rw [fileAfter, lastText_append, List.dropLast_concat]

theorem fileAfter_singleton (text : BString) : fileAfter [text] = text := by
  have h := fileAfter_append [] text
  rw [List.nil_append] at h
  rw [h]
  split
  · exact Eq.symm ‹_›
  · rfl

/-- There are no zeros before the text exactly if nothing was written before it. -/
theorem fileAfter_eq_lastText_iff (texts : List BString) : fileAfter texts = lastText texts ↔
    lastText texts = [] ∨ ∀ text ∈ texts.dropLast, text = [] := by
  rw [fileAfter]
  split
  · rename_i hempty
    exact iff_of_true hempty.symm (Or.inl hempty)
  · rename_i hne
    constructor
    · intro h
      have hlen := congrArg List.length h
      rw [List.length_append, List.length_replicate] at hlen
      have hflat : texts.dropLast.flatten = [] := List.length_eq_zero_iff.mp (by omega)
      exact Or.inr (List.flatten_eq_nil_iff.mp hflat)
    · intro h
      have hall := h.resolve_left hne
      rw [List.flatten_eq_nil_iff.mpr hall]
      rfl

/-! ### The invariant

Three ways lead to a new text: the first run of ctags, a further run, and the lines of the
compressed file.  The first one writes at the end of an empty file; the other two cut the file and
leave the offset where it was.  In each case the offset afterwards is the length of all texts.
-/

/-- The file is as the texts obtained so far leave it. -/
structure Kept (top : TopDir) (texts : List BString) : Prop where
  offset : top.tmpfile.offset = texts.flatten.length
  content : top.tmpfile.content = fileAfter texts
  /-- Nothing is written before there is a list of tags. -/
  fresh : top.tags = none → texts = []

namespace Kept

variable {top top' : TopDir} {texts : List BString}

theorem init : Kept initTopdir [] where
  offset := rfl
  content := rfl
  fresh _ := rfl

/-- One text after others: the file is cut, and the offset stays. -/
theorem rewritten (h : Kept top texts) (out : BString) {tags : List BString} {timestamp : Int} :
    Kept { tags := some tags, timestamp := timestamp, tmpfile := top.tmpfile.truncate.write out }
      (texts ++ [out]) where
  offset := by
    rw [OpenFile.write_offset, OpenFile.truncate_offset, h.offset]
    simp
  content := by
    rw [fileAfter_append]
    split
    · rename_i hempty
      rw [hempty, OpenFile.write_nil, OpenFile.truncate_content]
    · rename_i hne
      rw [OpenFile.write_content_empty (OpenFile.truncate_content _) hne, OpenFile.truncate_offset,
        h.offset]
  fresh := nofun

/-- Before there are any tags the file is empty, and so the first text is written at its end. -/
theorem offset_zero (h : Kept top texts) (htags : top.tags = none) :
    top.tmpfile.offset = 0 ∧ top.tmpfile.content = [] := by
  have htexts := h.fresh htags
  refine ⟨?_, ?_⟩
  · rw [h.offset, htexts]
    rfl
  · rw [h.content, htexts]
    rfl

theorem updateTaglist (h : Kept top texts) (out : Option BString) :
    Kept (Taglist.updateTaglist top out).1
      (texts ++ (Taglist.updateTaglist top out).2.2.toList) := by
  cases out with
  | none => simpa [Taglist.updateTaglist] using h
  | some out => exact h.rewritten out

theorem forceCtags {tags : List BString} {world : World} {ret : Int} {text : Option BString}
    (hoffset : top.tmpfile.offset = 0) (hcontent : top.tmpfile.content = [])
    (hrun : Taglist.forceCtags top tags world = .ok (top', ret, text)) :
    Kept top' text.toList := by
  unfold Taglist.forceCtags at hrun
  cases hout : world.out with
  | none =>
      rw [hout] at hrun
      cases hrun
      exact { offset := hoffset, content := hcontent, fresh := fun _ => rfl }
  | some out =>
      cases hmtime : world.mtimeAfter with
      | none =>
          simp only [hout, hmtime] at hrun
          cases hrun
      | some mtime =>
          simp only [hout, hmtime] at hrun
          cases hrun
          have hend : top.tmpfile.offset = top.tmpfile.content.length := by
            rw [hoffset, hcontent]
            rfl
          exact { offset := by simp [hoffset]
                  content := by
                    rw [OpenFile.write_content_end hend, hcontent, Option.toList,
                      fileAfter_singleton]
                    rfl
                  fresh := nofun }

theorem flatten_lines (lines : List BString) :
    (lines.flatMap fun line => [line, [10]]).flatten = textOf lines := by
  induction lines with
  | nil => rfl
  | cons line lines ih =>
      rw [List.flatMap_cons, List.flatten_append, ih, textOf, textOf, List.flatMap_cons]
      simp

/-- The lines of the compressed file, written out before anything else is. -/
theorem savedWritten {timestamp : Int} (hoffset : top.tmpfile.offset = 0) (lines : List BString) :
    Kept { tags := some lines, timestamp := timestamp,
           tmpfile := top.tmpfile.truncate.writeAll (lines.flatMap fun line => [line, [10]]) }
      (some (textOf lines)).toList where
  offset := by
    rw [OpenFile.writeAll_offset, OpenFile.truncate_offset, hoffset, flatten_lines]
    simp
  content := by
    have hend : top.tmpfile.truncate.offset = top.tmpfile.truncate.content.length := hoffset
    rw [OpenFile.writeAll_content_end hend, OpenFile.truncate_content, flatten_lines, Option.toList,
      fileAfter_singleton]
    rfl
  fresh := nofun

theorem getInitialTaglist {world : World} {ret : Int} {text : Option BString} (h : Kept top texts)
    (hrun : Taglist.getInitialTaglist top world = .ok (top', ret, text)) :
    Kept top' (texts ++ text.toList) := by
  unfold Taglist.getInitialTaglist at hrun
  cases htags : top.tags with
  | some tags =>
      simp only [htags] at hrun
      have hkept := h.updateTaglist world.out
      rw [Except.ok.inj hrun] at hkept
      exact hkept
  | none =>
      obtain ⟨hoffset, hcontent⟩ := h.offset_zero htags
      rw [h.fresh htags, List.nil_append]
      simp only [htags] at hrun
      cases hmtime : world.mtime with
      | none =>
          simp only [hmtime] at hrun
          refine forceCtags ?_ ?_ hrun
          · exact hoffset
          · exact hcontent
      | some mtime =>
          simp only [hmtime] at hrun
          split at hrun
          · cases hsaved : world.saved with
            | none =>
                simp only [hsaved] at hrun
                refine forceCtags ?_ ?_ hrun
                · exact hoffset
                · exact hcontent
            | some lines =>
                simp only [hsaved] at hrun
                cases hrun
                exact savedWritten hoffset lines
          · cases hrun
            exact { offset := hoffset, content := hcontent, fresh := fun _ => rfl }

theorem call (h : Kept top texts) {c : TagCall} {ret : Int} {text : Option BString}
    (hrun : top.call c = .ok (top', ret, text)) : Kept top' (texts ++ text.toList) := by
  cases c with
  | getInitial world => exact h.getInitialTaglist hrun
  | update out =>
      have hkept := h.updateTaglist out
      rw [Except.ok.inj hrun] at hkept
      exact hkept

theorem runCalls (h : Kept top texts) {calls : List TagCall} {texts' : List BString}
    (hrun : Taglist.runCalls calls top = .ok (top', texts')) : Kept top' (texts ++ texts') := by
  induction calls generalizing top texts texts' with
  | nil =>
      cases hrun
      rwa [List.append_nil]
  | cons c calls ih =>
      obtain ⟨⟨top1, ret, text⟩, hcall, hrun⟩ := Fault.bind_eq_ok.mp hrun
      obtain ⟨⟨top2, texts2⟩, hrest, hrun⟩ := Fault.bind_eq_ok.mp hrun
      cases hrun
      rw [← List.append_assoc]
      exact ih (h.call hcall) hrest

end Kept

/--
**What is in the temporary tags file.**  After any sequence of calls it is the tag text last
obtained, and nothing else, exactly if this text is empty or all texts before it are.
-/
theorem tmpfile_iff {calls : List TagCall} {top : TopDir} {texts : List BString}
    (h : runCalls calls initTopdir = .ok (top, texts)) :
    top.tmpfile.content = lastText texts ↔
      lastText texts = [] ∨ ∀ text ∈ texts.dropLast, text = [] := by
  have hkept := Kept.init.runCalls h
  rw [hkept.content, List.nil_append]
  exact fileAfter_eq_lastText_iff texts

/-- Two runs of ctags: the first prints `a`, the second `b`. -/
def twoRuns : List TagCall :=
  [.getInitial { mtime := none, saved := none, out := some [97, 10], mtimeAfter := some 1 },
    .update (some [98, 10])]

/-- Two zeros are left in front of the second text. -/
theorem twoRuns_zeros : ∃ top, runCalls twoRuns initTopdir = .ok (top, [[97, 10], [98, 10]]) ∧
    top.tmpfile.content = [0, 0, 98, 10] ∧
    ¬ top.tmpfile.content = lastText [[97, 10], [98, 10]] := by
  refine ⟨_, rfl, by decide, by decide⟩

/-- The first text is neither empty nor the last, so the file is not as it should be. -/
theorem tmpfile_iff_two : ∃ top, runCalls twoRuns initTopdir = .ok (top, [[97, 10], [98, 10]]) ∧
    (top.tmpfile.content = lastText [[97, 10], [98, 10]] ↔
      lastText [[97, 10], [98, 10]] = [] ∨
        ∀ text ∈ [[97, 10], [98, 10]].dropLast, text = ([] : BString)) := by
  obtain ⟨top, hrun⟩ : ∃ top, runCalls twoRuns initTopdir = .ok (top, [[97, 10], [98, 10]]) :=
    ⟨_, rfl⟩
  exact ⟨top, hrun, tmpfile_iff hrun⟩

end TagHighlight.Taglist
