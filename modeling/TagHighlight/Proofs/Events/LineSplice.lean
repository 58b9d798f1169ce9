/-
What `line_event_multi_op` makes of the lines, and of the strings it is given.

`multiOpLoop` is an induction on the lines still to go and the strings still to come, one
branch of the C loop for each way the two can run out.  Along it the slots of the strings
that have been dealt with are NULL, and the others hold the strings still to come.

The lines may be values of any type, since they are only moved.  What is said of them is what a
caller of the function relies on: which values the list has afterwards, in what order, and which
of the strings that it was given it does not own any more.
-/
import TagHighlight.Events.LineSplice
import TagHighlight.Proofs.Util.Sequence

namespace TagHighlight

open DList Fault

variable {α : Type} {l : LinkedList α} {as bs ds : List α} {b : α}

/-! ### Strings moved out of their slots

A string that has become a line belongs to the list, so its slot is set to NULL.  A slice of one
string is the exception, for there the pointer is copied before it is moved, and the slot keeps
it.
-/

/-- The array with the `n` entries from `x` on moved out. -/
def BList.emptied (blist : BList α) (x n : Nat) : BList α :=
  blist.take x ++ List.replicate n none ++ blist.drop (x + n)

theorem BList.emptied_zero (blist : BList α) (x : Nat) : blist.emptied x 0 = blist := by
  simp [BList.emptied]

/-- One entry after the other. -/
theorem BList.emptied_succ {blist : BList α} {x : Nat} (hx : x < blist.length) (n : Nat) :
    BList.emptied (blist.set x none) (x + 1) n = blist.emptied x (n + 1) := by
  have hlen : (blist.take x).length = x := by
    rw [List.length_take]
    omega
  have hset : blist.set x none = (blist.take x ++ [none]) ++ blist.drop (x + 1) := by
    rw [List.set_eq_take_append_cons_drop, if_pos hx, List.append_assoc]
    rfl
  have hlen' : (blist.take x ++ [none]).length = x + 1 := by
    rw [List.length_append, hlen]
    rfl
  unfold BList.emptied
  rw [hset, List.take_left' hlen', ← List.drop_drop, List.drop_left' hlen', List.drop_drop,
    show x + 1 + n = x + (n + 1) by omega, List.replicate_succ]
  simp only [List.append_assoc, List.cons_append, List.nil_append]

theorem BList.move_yields (blist : BList α) (x : Nat) :
    Yields (blist.move x) fun r => x < blist.length ∧ r.2 = blist.set x none := by
  intro r hr
  unfold BList.move at hr
  split at hr
  · cases hr
  · cases hr
  · rename_i data hx
    cases hr
    exact ⟨(List.getElem?_eq_some_iff.mp hx).1, rfl⟩

theorem createNodes_slots : ∀ (count x i prev : Nat) (l : LinkedList α) (blist : BList α),
    Yields (createNodes count x i prev l blist) fun r => r.2.1 = blist.emptied x count := by
  intro count
  induction count with
  | zero => intro x i prev l blist; exact yields_ok (blist.emptied_zero x).symm
  | succ count ih =>
      intro x i prev l blist
      unfold createNodes
      refine yields_ite (fun _ => yields_error _) fun _ => ?_
      refine yields_ite (fun _ => yields_error _) fun _ => ?_
      refine (blist.move_yields x).bind fun moved hmoved => yields_bind fun mem => ?_
      rw [← BList.emptied_succ hmoved.1, ← hmoved.2]
      exact ih _ _ _ _ _

theorem sliceNodes_slots (l : LinkedList α) (blist : BList α) {start stop : Int} (prev : Option Nat)
    (hlt : 0 ≤ start ∧ start < stop) :
    Yields (sliceNodes l blist start stop prev) fun r =>
      r.2.1 = blist.emptied start.toNat (stop - start).toNat := by
  unfold sliceNodes
  refine yields_ite (fun _ => yields_error _) fun _ => ?_
  refine (blist.move_yields _).bind fun moved hmoved => ?_
  have hcount : (stop - start).toNat = (stop - start - 1).toNat + 1 := by omega
  rw [hcount, ← BList.emptied_succ hmoved.1, ← hmoved.2]
  exact createNodes_slots _ _ _ _ _ _

/-- The slots after a slice was inserted: a single string is moved from a copy of its pointer. -/
def BList.inserted (blist : BList α) (x n : Nat) : BList α :=
  if n = 1 then blist else blist.emptied x n

theorem insertBlistAfter_slots {blist : BList α} {start stop : Int} {x : Nat}
    (hargs : Rep.SliceArgs blist start stop x ds) (l : LinkedList α) (atNode : Option Nat) :
    Yields (llInsertBlistAfter l atNode blist start stop) fun r =>
      r.2 = blist.inserted x ds.length := by
  have hpos := List.length_pos_iff.mpr hargs.nonempty
  unfold llInsertBlistAfter
  simp only [hargs.start, hargs.stop]
  refine yields_bind fun _ => yields_ite (fun hone => ?_) fun hmore => ?_
  · rw [BList.inserted, if_pos (by omega)]
    exact yields_bind fun data => yields_bind fun l' => yields_ok rfl
  · rw [BList.inserted, if_neg (by omega)]
    refine (sliceNodes_slots l blist atNode (by omega)).bind fun r hr => ?_
    have hlen : ((x : Int) + ds.length - x).toNat = ds.length := by omega
    rw [hlen, Int.toNat_natCast] at hr
    exact yields_bind fun next => yields_bind fun _ => yields_bind fun _ => yields_bind fun _ =>
      yields_ok hr

theorem insertBlistBefore_slots {blist : BList α} {start stop : Int} {x : Nat}
    (hargs : Rep.SliceArgs blist start stop x ds) (l : LinkedList α) (atNode : Option Nat) :
    Yields (llInsertBlistBefore l atNode blist start stop) fun r =>
      r.2 = blist.inserted x ds.length := by
  have hpos := List.length_pos_iff.mpr hargs.nonempty
  unfold llInsertBlistBefore
  simp only [hargs.start, hargs.stop]
  refine yields_bind fun _ => yields_ite (fun hone => ?_) fun hmore => ?_
  · rw [BList.inserted, if_pos (by omega)]
    exact yields_bind fun data => yields_bind fun l' => yields_ok rfl
  · rw [BList.inserted, if_neg (by omega)]
    refine (sliceNodes_slots l blist none (by omega)).bind fun r hr => ?_
    have hlen : ((x : Int) + ds.length - x).toNat = ds.length := by omega
    rw [hlen, Int.toNat_natCast] at hr
    exact yields_bind fun _ => yields_bind fun prev => yields_bind fun _ => yields_bind fun _ =>
      yields_bind fun _ => yields_ok hr

/-! ### List operations by index

The loop knows the lines by their index.  For an index of the list, looking the node up and
working at it is the operation on the sequence; these lemmas put the two together.
-/

/-- A split of the sequence is a split of the cells. -/
theorem Represents.split (h : Represents l (as ++ bs)) :
    ∃ pre post, Rep l (pre ++ post) ∧ vals pre = as ∧ vals post = bs := by
  obtain ⟨cells, hrep, hvals⟩ := h
  obtain ⟨pre, post, rfl, hpre, hpost⟩ := List.map_eq_append_iff.mp hvals
  exact ⟨pre, post, hrep, hpre, hpost⟩

theorem Represents.split_cons (h : Represents l (as ++ b :: bs)) :
    ∃ pre c post, Rep l (pre ++ c :: post) ∧ vals pre = as ∧ c.2 = b ∧ vals post = bs := by
  obtain ⟨pre, post, hrep, hpre, hpost⟩ := h.split
  obtain ⟨c, post, rfl, hc, hpost⟩ := List.map_eq_cons_iff.mp hpost
  exact ⟨pre, c, post, hrep, hpre, hc, hpost⟩

theorem Represents.qty {s : List α} (h : Represents l s) : l.qty = s.length := by
  obtain ⟨cells, hrep, rfl⟩ := h
  rw [hrep.qty, vals_length]

/-- A list stands for one sequence only. -/
theorem Represents.unique {s s' : List α} (h : Represents l s) (h' : Represents l s') :
    s = s' := by
  obtain ⟨cells, hrep, rfl⟩ := h
  obtain ⟨cells', hrep', rfl⟩ := h'
  rw [hrep.unique hrep']

theorem Represents.insertBlistBeforeAt {blist : BList α} {start stop : Int} {x : Nat}
    (h : Represents l (as ++ b :: bs)) (hargs : Rep.SliceArgs blist start stop x ds) :
    ∃ l', llInsertBlistBeforeAt l as.length blist start stop =
        .ok (l', blist.inserted x ds.length) ∧
      Represents l' (as ++ ds ++ b :: bs) := by
  obtain ⟨pre, c, post, hrep, rfl, rfl, rfl⟩ := h.split_cons
  obtain ⟨l', blist', hrun, hrep'⟩ := hrep.insertBlistBefore hargs
  obtain rfl : blist' = _ := insertBlistBefore_slots hargs _ _ _ hrun
  refine ⟨l', ?_, _, hrep', by simp⟩
  rw [llInsertBlistBeforeAt, vals_length, hrep.at_node, Fault.ok_bind, hrun]

/-- Past the last line, `ll_at` gives the last node, or NULL for an empty list. -/
theorem Represents.insertBlistAfterAt {blist : BList α} {start stop : Int} {x : Nat}
    (h : Represents l as) (hargs : Rep.SliceArgs blist start stop x ds) :
    ∃ l', llInsertBlistAfterAt l as.length blist start stop = .ok (l', blist.inserted x ds.length) ∧
      Represents l' (as ++ ds) := by
  obtain ⟨cells, hrep, rfl⟩ := h
  have hat := hrep.at_length
  rw [llInsertBlistAfterAt, vals_length, hat, Fault.ok_bind, hrep.tail]
  rcases List.eq_nil_or_concat cells with rfl | ⟨pre, c, rfl⟩
  · obtain ⟨l', blist', hrun, hrep'⟩ := hrep.insertBlistAfter_nil hargs
    obtain rfl : blist' = _ := insertBlistAfter_slots hargs _ _ _ hrun
    exact ⟨l', hrun, _, hrep', by simp⟩
  · have hlast : Rep l (pre ++ c :: []) := by simpa using hrep
    obtain ⟨l', blist', hrun, hrep'⟩ := hlast.insertBlistAfter hargs
    obtain rfl : blist' = _ := insertBlistAfter_slots hargs _ _ _ hrun
    exact ⟨l', by simpa using hrun, _, hrep', by simp⟩

theorem Represents.deleteRangeAt (h : Represents l (as ++ b :: bs)) (range : Nat) :
    ∃ l', llDeleteRangeAt l as.length range = .ok l' ∧
      Represents l' (as ++ (b :: bs).drop range) := by
  obtain ⟨pre, c, post, hrep, rfl, rfl, rfl⟩ := h.split_cons
  obtain ⟨l', hrun, hrep'⟩ := hrep.deleteRange range
  refine ⟨l', ?_, _, hrep', by simp [vals, List.map_drop]⟩
  rw [llDeleteRangeAt, vals_length, hrep.at_node, Fault.ok_bind, hrun]

/-! ### The loop over the replaced lines

Each round takes one line off the old ones and one string off the new ones, until either runs out.
If the lines do, the other strings are inserted in one piece; if the strings do, the other lines
are deleted in one piece.
-/

namespace LineSplice

theorem replaceLine_spec {newStrings : BList α} {i : Nat} {d : α}
    (h : Represents l (as ++ b :: bs)) (hslice : Rep.Slice newStrings i (d :: ds)) :
    ∃ l', replaceLine l newStrings as.length i = .ok (l', newStrings.set i none) ∧
      Represents l' (as ++ d :: bs) := by
  obtain ⟨pre, c, post, hrep, rfl, rfl, rfl⟩ := h.split_cons
  obtain ⟨mem, hwrite, hrep'⟩ := hrep.setData d
  refine ⟨_, ?_, _, hrep', by simp⟩
  rw [replaceLine, vals_length, hrep.at_node]
  simp only [Fault.ok_bind, hslice.move.1, hwrite]

/-- The slots while the loop runs: `i` of them are NULL, the others hold the strings to come. -/
def slots (i : Nat) (new : List α) : BList α := List.replicate i none ++ new.map some

theorem slots_length (i : Nat) (new : List α) : (slots i new).length = i + new.length := by
  simp [slots]

theorem slots_slice (i : Nat) (new : List α) : Rep.Slice (slots i new) i new := by
  intro k hk
  rw [slots, List.getElem?_append_right (by simp), List.length_replicate, Nat.add_sub_cancel_left,
    List.getElem?_map, List.getElem?_eq_getElem hk]
  rfl

theorem slots_set (i : Nat) (d : α) (new : List α) :
    (slots i (d :: new)).set i none = slots (i + 1) new := by
  rw [slots, slots, List.map_cons, List.set_append_right _ _ (by simp), List.length_replicate,
    Nat.sub_self, List.set_cons_zero, List.replicate_succ', List.append_assoc]
  rfl

theorem slots_args {i : Nat} {new : List α} (hne : new ≠ []) :
    Rep.SliceArgs (slots i new) i (-1) i new := by
  refine ⟨by simp [resolveNegativeIndex], ?_, hne, Nat.le_of_eq (slots_length i new).symm,
    slots_slice i new⟩
  simp only [resolveNegativeIndex, slots_length]
  omega

theorem slotsAfter_nil (diff : Nat) : slotsAfter ([] : List α) diff = [] := by
  simp [slotsAfter]

/-- A string that replaces a line has been moved out. -/
theorem slotsAfter_cons (d : α) (new : List α) (diff : Nat) :
    slotsAfter (d :: new) (diff + 1) = none :: slotsAfter new diff := by
  unfold slotsAfter
  rw [List.length_cons, Nat.add_min_add_right, List.replicate_succ, List.drop_succ_cons,
    Nat.add_sub_add_right, List.cons_append]
  simp only [Nat.add_right_cancel_iff]

/-- What inserting the strings still to come leaves of the slots. -/
theorem slots_inserted (i : Nat) (new : List α) :
    (slots i new).inserted i new.length = List.replicate i none ++ slotsAfter new 0 := by
  have hi : (List.replicate i (none : Option α)).length = i := List.length_replicate
  unfold slotsAfter BList.inserted
  by_cases hone : new.length = 1
  · simp [hone, slots]
  · rw [if_neg hone, if_neg (by omega), BList.emptied, slots, List.take_left' hi,
      List.drop_eq_nil_of_le (by simp)]
    simp

/--
From line `as.length` on, `old` is replaced by `new`.  Each round takes one line off
`old` and one string off `new`, until one of them runs out.
-/
theorem multiOpLoop_spec {post : List α} (first olen : Int) :
    ∀ {old : List α} (new : List α) {as : List α} {l : LinkedList α} {i : Nat},
    Represents l (as ++ old ++ post) → first + i = as.length → (i + old.length : Int) ≤ olen →
    ∃ l', multiOpLoop first olen (max old.length new.length) i old.length l (slots i new) =
        .ok (l', List.replicate i none ++ slotsAfter new old.length) ∧
      Represents l' (as ++ new ++ post) := by
  intro old
  induction old with
  | nil =>
      intro new as l i h hindex _
      cases new with
      | nil => exact ⟨l, by rw [slotsAfter_nil]; rfl, h⟩
      | cons d new =>
          -- No line is left to replace: the remaining strings are inserted.
          have hargs := slots_args (i := i) (List.cons_ne_nil d new)
          rw [List.length_nil, List.length_cons, Nat.zero_max, multiOpLoop, if_neg (by omega),
            hindex, h.qty, ← slots_inserted]
          cases post with
          | nil =>
              have hend : Represents l as := by simpa using h
              obtain ⟨l', hrun, hrep⟩ := hend.insertBlistAfterAt hargs
              refine ⟨l', ?_, by simpa using hrep⟩
              rw [if_pos (by simp), hrun]
          | cons p post =>
              have hmid : Represents l (as ++ p :: post) := by simpa using h
              obtain ⟨l', hrun, hrep⟩ := hmid.insertBlistBeforeAt hargs
              refine ⟨l', ?_, hrep⟩
              rw [if_neg (by simp only [List.length_append, List.length_cons]; omega), hrun]
  | cons o old ih =>
      intro new as l i h hindex holen
      simp only [List.length_cons] at holen
      have hmax : max (o :: old).length new.length = max old.length (new.length - 1) + 1 := by
        simp only [List.length_cons]
        omega
      have hmore : ((o :: old).length : Int) > 0 ∧ (i : Int) < olen := by
        simp only [List.length_cons]
        omega
      have hmid : Represents l (as ++ o :: (old ++ post)) := by simpa using h
      rw [hmax, multiOpLoop, if_pos hmore]
      cases new with
      | nil =>
          -- No string is left: the remaining lines are deleted.
          obtain ⟨l', hrun, hrep⟩ := hmid.deleteRangeAt (o :: old).length
          refine ⟨l', ?_, by simpa using hrep⟩
          have hcount : ((o :: old).length : Int) - 1 + 1 = (o :: old).length := by omega
          rw [if_neg (by simp [slots_length]), hindex, hcount, hrun, slotsAfter_nil]
          rfl
      | cons d new =>
          obtain ⟨l1, hrun1, h1⟩ := replaceLine_spec hmid (slots_slice i (d :: new))
          have hnext : Represents l1 ((as ++ [d]) ++ old ++ post) := by simpa using h1
          obtain ⟨l', hrun, hrep⟩ := ih new (i := i + 1) hnext
            (by simp only [List.length_append, List.length_singleton]; omega) (by omega)
          refine ⟨l', ?_, by simpa using hrep⟩
          rw [if_pos (by simp [slots_length]), hindex, hrun1, slots_set]
          simp only [List.length_cons, Nat.add_sub_cancel, Fault.ok_bind]
          rw [show ((old.length + 1 : Nat) : Int) - 1 = old.length from by omega, hrun,
            slotsAfter_cons, List.replicate_succ', List.append_assoc]
          rfl

/-! ### The whole splice

The range is one of lines that are there, so those in front of it and behind it are kept, and the
new strings come in between.  Where all strings are told apart, each of the new ones is at one
place of the list.
-/

/-- What the splice leaves: the lines, their number, and the slots of the new strings. -/
structure Spliced (old new : List α) (first diff : Nat) (lines : LinkedList α)
    (newStrings : BList α) : Prop where
  contents : Represents lines (spliced old new first diff)
  qty : lines.qty = (old.length - diff + new.length : Nat)
  slots : newStrings = slotsAfter new diff
  /-- Strings that are told apart by their address are in the list at one place each. -/
  once : (old ++ new).Nodup → ∀ s ∈ new, ∃! k : Nat, (spliced old new first diff)[k]? = some s

/-- The lines to be replaced, between those that are kept. -/
theorem split_range {old : List α} {first diff : Nat} (hrange : first + diff ≤ old.length) :
    old.take first ++ (old.drop first).take diff ++ old.drop (first + diff) = old ∧
      (old.take first).length = first ∧ ((old.drop first).take diff).length = diff := by
  refine ⟨?_, by rw [List.length_take]; omega, by rw [List.length_take, List.length_drop]; omega⟩
  rw [← List.drop_drop, List.append_assoc, List.take_append_drop, List.take_append_drop]

/-- What is kept and what is new are no more than what there was. -/
theorem nodup_spliced {old new : List α} (first diff : Nat) (h : (old ++ new).Nodup) :
    (spliced old new first diff).Nodup := by
  have hperm : (spliced old new first diff).Perm
      ((old.take first ++ old.drop (first + diff)) ++ new) := by
    rw [spliced, List.append_assoc, List.append_assoc]
    exact List.perm_append_comm.append_left _
  have hkept : (old.take first ++ old.drop (first + diff)).Sublist old := by
    conv_rhs => rw [← List.take_append_drop first old]
    refine List.Sublist.append_left ?_ _
    rw [← List.drop_drop]
    exact List.drop_sublist _ _
  exact hperm.nodup_iff.mpr (h.sublist (hkept.append_right new))

theorem once_of_nodup {s : List α} (h : s.Nodup) {x : α} (hx : x ∈ s) :
    ∃! k : Nat, s[k]? = some x := by
  obtain ⟨k, hk, hget⟩ := List.mem_iff_getElem.mp hx
  refine ⟨k, List.getElem?_eq_some_iff.mpr ⟨hk, hget⟩, fun j hj => ?_⟩
  obtain ⟨hlt, hjx⟩ := List.getElem?_eq_some_iff.mp hj
  exact h.getElem_inj_iff.mp (hjx.trans hget.symm)

theorem spliced_length {old : List α} {first diff : Nat} (new : List α)
    (hrange : first + diff ≤ old.length) :
    (spliced old new first diff).length = old.length - diff + new.length := by
  simp only [spliced, List.length_append, List.length_take, List.length_drop]
  omega

theorem lineEventMultiOp_spec {old : List α} (new : List α) {first diff : Nat}
    (h : Represents l old) (hrange : first + diff ≤ old.length) :
    ∃ lines, lineEventMultiOp l (new.map some) first diff = .ok (lines, slotsAfter new diff) ∧
      Represents lines (spliced old new first diff) := by
  obtain ⟨hsplit, hfirst, hdiff⟩ := split_range hrange
  have hold := h
  rw [← hsplit] at hold
  obtain ⟨lines, hrun, hcontents⟩ := multiOpLoop_spec first l.qty new (i := 0) hold
    (by omega) (by rw [h.qty, hdiff]; omega)
  refine ⟨lines, ?_, hcontents⟩
  rw [hdiff] at hrun
  have hcount : (max (diff : Int) (new.map some).length).toNat = max diff new.length := by
    simp only [List.length_map]
    omega
  rw [lineEventMultiOp, hcount]
  exact hrun

/--
**The splice.**  Replacing `diff` lines from `first` on by the new strings leaves the list
of the lines before, the new strings, and the lines behind.
-/
theorem line_splice (l : LinkedList α) (old new : List α) (first diff : Nat) (h : Represents l old)
    (hrange : first + diff ≤ old.length) :
    ∃ lines newStrings, lineEventMultiOp l (new.map some) first diff = .ok (lines, newStrings) ∧
      Spliced old new first diff lines newStrings := by
  obtain ⟨lines, hrun, hcontents⟩ := lineEventMultiOp_spec new h hrange
  refine ⟨lines, slotsAfter new diff, hrun, hcontents, ?_, rfl, fun hnodup s hs => ?_⟩
  · rw [hcontents.qty]
    exact congrArg _ (spliced_length new hrange)
  · have hmem : s ∈ spliced old new first diff := by simp [spliced, hs]
    exact once_of_nodup (nodup_spliced first diff hnodup) hmem

/-- The line in the middle of three replaced by two. -/
theorem line_splice_three :
    ∃ lines newStrings, lineEventMultiOp threeNodes [some 20, some 21] 1 1 = .ok (lines, newStrings) ∧
      Spliced [10, 11, 12] [20, 21] 1 1 lines newStrings :=
  line_splice threeNodes [10, 11, 12] [20, 21] 1 1 ⟨_, rep_threeNodes, rfl⟩ (by decide)

/-! ### The texts of the lines -/

/-- Where only the texts matter, what is left in the slots is dropped. -/
theorem multiOpLoop_fst (first olen : Int) : ∀ (count i : Nat) (numToModify : Int)
    (lines : LinkedList BString) (newStrings : BList BString),
    (multiOpLoop first olen count i numToModify lines newStrings).map Prod.fst =
      TagHighlight.multiOpLoop first olen count i numToModify lines newStrings := by
  intro count
  induction count with
  | zero => intro i numToModify lines newStrings; rfl
  | succ count ih =>
      intro i numToModify lines newStrings
      rw [multiOpLoop, TagHighlight.multiOpLoop]
      by_cases hmore : numToModify > 0 ∧ (i : Int) < olen
      · by_cases hi : i < newStrings.length
        · have hreplace : TagHighlight.replaceLine lines newStrings (first + i) i =
              replaceLine lines newStrings (first + i) i := rfl
          simp only [if_pos hmore, if_pos hi, hreplace]
          cases replaceLine lines newStrings (first + i) i with
          | error e => rfl
          | ok r => exact ih _ _ _ _
        · simp only [if_pos hmore, if_neg hi]
          cases llDeleteRangeAt lines (first + i) (numToModify - 1 + 1) with
          | error e => rfl
          | ok r => rfl
      · simp only [if_neg hmore]
        by_cases hend : first + i ≥ lines.qty
        · simp only [if_pos hend]
          cases llInsertBlistAfterAt lines (first + i) newStrings i (-1) with
          | error e => rfl
          | ok r => rfl
        · simp only [if_neg hend]
          cases llInsertBlistBeforeAt lines (first + i) newStrings i (-1) with
          | error e => rfl
          | ok r => rfl

theorem lineEventMultiOp_fst (lines : LinkedList BString) (newStrings : BList BString)
    (first numToModify : Int) :
    (lineEventMultiOp lines newStrings first numToModify).map Prod.fst =
      TagHighlight.lineEventMultiOp lines newStrings first numToModify :=
  multiOpLoop_fst _ _ _ _ _ _ _

end LineSplice

end TagHighlight
