/-
What the generic lists hold.

The invariant splits the array into the slots that hold the sequence and a rest about which
nothing is known.  Each operation is then a way to cut the sequence in two: what it does to the
array is computed from the parts, and the slots it no longer needs go to the rest.

An index that is not the last leaves a NULL among the slots in use, and doubling a length of
2^31 or more makes it smaller than the count.  Neither can be what a sequence looks like, so a
run is right up to the first call that does one of the two, and not after it.
-/
import TagHighlight.Util.GenericList
import Mathlib.Data.List.Basic

namespace TagHighlight.GenericList

variable {α : Type} {alloc : Nat → Bool} {list list' : Genlist α} {xs : List α}

/-- The list stands for the sequence. -/
structure Represents (list : Genlist α) (xs : List α) : Prop where
  lst : ∃ rest, list.lst = xs.map some ++ rest
  qty : list.qty = xs.length
  mlen : list.lst.length = list.mlen
  two_le : 2 ≤ list.mlen
  lt : list.mlen < 2 ^ 32

namespace Represents

theorem qty_le (h : Represents list xs) : list.qty ≤ list.mlen := by
  obtain ⟨rest, hlst⟩ := h.lst
  rw [← h.mlen, hlst, h.qty, List.length_append, List.length_map]
  exact Nat.le_add_right _ _

theorem take_qty (h : Represents list xs) : list.lst.take list.qty = xs.map some := by
  obtain ⟨rest, hlst⟩ := h.lst
  rw [hlst, h.qty]
  exact List.take_left' (List.length_map some)

theorem isContents (h : Represents list xs) : IsContents list xs := ⟨h.take_qty, h.qty_le⟩

end Represents

theorem represents_create : Represents (genlistCreate : Genlist α) [] :=
  ⟨⟨_, rfl⟩, rfl, rfl, Nat.le_refl 2, show 2 < 2 ^ 32 by decide⟩

/-! ### Arrays -/

theorem set_at (a c : List (Option α)) (y z : Option α) {i : Nat} (hi : i = a.length) :
    (a ++ y :: c).set i z = a ++ z :: c := by
  subst hi
  rw [List.set_append_right _ _ (Nat.le_refl _), Nat.sub_self, List.set_cons_zero]

/-- The part behind a slot moves over it. -/
theorem memmove_at (a b c : List (Option α)) (y : Option α) {i n : Nat} (hi : i = a.length)
    (hn : n = b.length) :
    memmove (a ++ y :: (b ++ c)) i (i + 1) n = a ++ b ++ (y :: (b ++ c)).drop n := by
  subst hi hn
  unfold memmove
  rw [List.drop_length_add_append, List.drop_one, List.tail_cons, List.take_left,
    List.take_left, List.drop_length_add_append]

/-! ### Appending

The array has room for two at least, and is doubled when it is full.  A length is an `unsigned`,
so from 2 ^ 31 on the doubled one is zero, and the array is then shorter than what is in it.
-/

/-- A slot behind those in use is written to. -/
theorem put_represents (h : Represents list xs) (hroom : list.qty < list.mlen) (item : α) :
    Represents
      { list with lst := list.lst.set list.qty (some item), qty := (list.qty + 1) % 2 ^ 32 }
      (xs ++ [item]) := by
  have hlt := h.lt
  obtain ⟨rest, hlst⟩ := h.lst
  have hlen := h.mlen
  rw [hlst, List.length_append, List.length_map, ← h.qty] at hlen
  cases rest with
  | nil =>
      rw [List.length_nil] at hlen
      omega
  | cons y rest =>
      refine ⟨⟨rest, ?_⟩, ?_, ?_, h.two_le, h.lt⟩
      · show list.lst.set list.qty (some item) = _
        rw [hlst, set_at _ _ _ _ (by rw [List.length_map, h.qty])]
        simp
      · show (list.qty + 1) % 2 ^ 32 = _
        rw [Nat.mod_eq_of_lt (by omega), List.length_append, h.qty]
        rfl
      · show (list.lst.set list.qty (some item)).length = list.mlen
        rw [List.length_set, h.mlen]

theorem grow_represents (h : Represents list xs) (hok : list.mlen < 2 ^ 31)
    (hgrow : grow alloc list = .ok list') :
    Represents list' xs ∧ list'.qty < list'.mlen := by
  have htwo := h.two_le
  have hle := h.qty_le
  have hmlen := h.mlen
  have hlast : (list.mlen + (2 ^ 32 - 1)) % 2 ^ 32 = list.mlen - 1 := by omega
  unfold grow at hgrow
  rw [hlast] at hgrow
  by_cases hfull : list.qty ≥ list.mlen - 1
  · have hdouble : list.mlen * 2 % 2 ^ 32 = list.mlen * 2 := Nat.mod_eq_of_lt (by omega)
    simp only [if_pos hfull, hdouble] at hgrow
    by_cases halloc : alloc (list.mlen * 2) = true
    · rw [if_pos halloc] at hgrow
      rw [← Except.ok.inj hgrow]
      obtain ⟨rest, hlst⟩ := h.lst
      refine ⟨⟨⟨rest ++ List.replicate (list.mlen * 2 - list.lst.length) none, ?_⟩, h.qty, ?_, ?_,
        ?_⟩, ?_⟩
      · show tallocRealloc list.lst (list.mlen * 2) = _
        unfold tallocRealloc
        rw [List.take_of_length_le (by omega), ← List.append_assoc, ← hlst]
      · show (tallocRealloc list.lst (list.mlen * 2)).length = list.mlen * 2
        unfold tallocRealloc
        rw [List.length_append, List.length_take, List.length_replicate]
        omega
      · show 2 ≤ list.mlen * 2
        omega
      · show list.mlen * 2 < 2 ^ 32
        omega
      · show list.qty < list.mlen * 2
        omega
    · rw [if_neg halloc] at hgrow
      cases hgrow
  · rw [if_neg hfull] at hgrow
    rw [← Except.ok.inj hgrow]
    exact ⟨h, by omega⟩

theorem grow_of_room (h : Represents list xs) (hroom : list.qty + 1 < list.mlen) :
    grow alloc list = .ok list := by
  have hlt := h.lt
  have hlast : (list.mlen + (2 ^ 32 - 1)) % 2 ^ 32 = list.mlen - 1 := by omega
  unfold grow
  rw [hlast, if_neg (by omega)]

theorem append_represents (h : Represents list xs) {item : α}
    (hok : list.qty + 1 < list.mlen ∨ list.mlen < 2 ^ 31)
    (happ : genlistAppend alloc list item = .ok list') : Represents list' (xs ++ [item]) := by
  obtain ⟨grown, hgrow, hput⟩ := Fault.bind_eq_ok.mp happ
  rw [← Except.ok.inj hput]
  rcases hok with hroom | hlt
  · rw [grow_of_room h hroom] at hgrow
    rw [← Except.ok.inj hgrow]
    exact put_represents h (by omega) item
  · obtain ⟨hrep, hroom⟩ := grow_represents h hlt hgrow
    exact put_represents hrep hroom item

/-- When the length wraps around, the array no longer has the slots that are in use. -/
theorem append_spoils (h : Represents list xs) {item : α}
    (hno : ¬(list.qty + 1 < list.mlen ∨ list.mlen < 2 ^ 31))
    (happ : genlistAppend alloc list item = .ok list') : ¬IsContents list' (xs ++ [item]) := by
  rintro ⟨htake, hle⟩
  have hlt := h.lt
  have hqty := h.qty
  have hlast : (list.mlen + (2 ^ 32 - 1)) % 2 ^ 32 = list.mlen - 1 := by omega
  obtain ⟨grown, hgrow, hput⟩ := Fault.bind_eq_ok.mp happ
  unfold grow at hgrow
  rw [hlast, if_pos (by omega)] at hgrow
  by_cases halloc : alloc (list.mlen * 2 % 2 ^ 32) = true
  · simp only [if_pos halloc] at hgrow
    rw [← Except.ok.inj hgrow] at hput
    rw [← Except.ok.inj hput] at htake hle
    have hlen := congrArg List.length htake
    rw [List.length_take, List.length_map, List.length_append, List.length_singleton] at hlen
    simp only at hle hlen
    omega
  · simp only [if_neg halloc] at hgrow
    cases hgrow

/-! ### Removing

An item is set to NULL and the others are moved up.  `genlist_remove` moves them unless the item
is the last; `genlist_remove_index` tests this the wrong way round, and moves nothing but in the
one case where there is nothing to move.
-/

/-- What is behind an item moves over it. -/
theorem close_represents {a b : List α} {x : α} (h : Represents list (a ++ x :: b)) {i : Nat}
    (hi : i = a.length) :
    Represents { list with
        lst := memmove (list.lst.set i none) i (i + 1) (list.qty - 1 - i), qty := list.qty - 1 }
      (a ++ b) := by
  have hqty := h.qty
  rw [List.length_append, List.length_cons] at hqty
  obtain ⟨rest, hlst⟩ := h.lst
  have hmoved : memmove (list.lst.set i none) i (i + 1) (list.qty - 1 - i) =
      a.map some ++ b.map some ++ (none :: (b.map some ++ rest)).drop (list.qty - 1 - i) := by
    rw [hlst, List.map_append, List.append_assoc, List.map_cons, List.cons_append,
      set_at _ _ _ _ (by rw [List.length_map, hi])]
    exact memmove_at _ _ _ _ (by rw [List.length_map, hi]) (by rw [List.length_map]; omega)
  have hlen := h.mlen
  rw [hlst] at hlen
  simp only [List.map_append, List.map_cons, List.length_append, List.length_cons,
    List.length_map] at hlen
  refine ⟨⟨(none :: (b.map some ++ rest)).drop (list.qty - 1 - i), ?_⟩, ?_, ?_, h.two_le, h.lt⟩
  · show memmove (list.lst.set i none) i (i + 1) (list.qty - 1 - i) = _
    rw [hmoved, List.map_append]
  · show list.qty - 1 = (a ++ b).length
    rw [List.length_append]
    omega
  · show (memmove (list.lst.set i none) i (i + 1) (list.qty - 1 - i)).length = list.mlen
    rw [hmoved]
    simp only [List.length_append, List.length_map, List.length_drop, List.length_cons]
    omega

/-- A last item goes without a move. -/
theorem cut_represents {a : List α} {x : α} (h : Represents list (a ++ [x])) {i : Nat}
    (hi : i = a.length) :
    Represents { list with lst := list.lst.set i none, qty := list.qty - 1 } a := by
  have hqty := h.qty
  rw [List.length_append, List.length_singleton] at hqty
  obtain ⟨rest, hlst⟩ := h.lst
  refine ⟨⟨none :: rest, ?_⟩, ?_, ?_, h.two_le, h.lt⟩
  · show list.lst.set i none = _
    rw [hlst, List.map_append, List.append_assoc]
    exact set_at _ _ _ _ (by rw [List.length_map, hi])
  · show list.qty - 1 = a.length
    omega
  · show (list.lst.set i none).length = list.mlen
    rw [List.length_set, h.mlen]

theorem idxOf?_split {β : Type} [BEq β] [LawfulBEq β] {a c : List β} {x : β} (hx : x ∉ a) :
    (a ++ x :: c).idxOf? x = some a.length := by
  induction a with
  | nil => simp [List.idxOf?_cons]
  | cons y a ih =>
      have hy : y ≠ x := fun heq => hx (heq ▸ List.mem_cons_self ..)
      rw [List.cons_append, List.idxOf?_cons, ih fun hmem => hx (List.mem_cons_of_mem _ hmem)]
      simp [hy]

theorem remove_represents [DecidableEq α] (h : Represents list xs) {obj : α} {ret : Int}
    (hrem : genlistRemove list obj = .ok (ret, list')) : Represents list' (xs.erase obj) := by
  unfold genlistRemove at hrem
  by_cases hzero : list.qty = 0
  · rw [if_pos hzero] at hrem
    cases hrem
  rw [if_neg hzero, h.take_qty] at hrem
  by_cases hmem : obj ∈ xs
  · obtain ⟨a, b, hnot, hxs, herase⟩ := List.exists_erase_eq hmem
    have hidx : (xs.map some).idxOf? (some obj) = some a.length := by
      rw [hxs, List.map_append, List.map_cons, idxOf?_split (by simpa using hnot), List.length_map]
    simp only [hidx] at hrem
    rw [← (Prod.mk.inj (Except.ok.inj hrem)).2, herase]
    have hqty := h.qty
    rw [hxs, List.length_append, List.length_cons] at hqty
    rw [hxs] at h
    by_cases hmid : a.length ≠ list.qty - 1 ∧ list.qty - 1 > 0
    · rw [if_pos hmid]
      exact close_represents h rfl
    · rw [if_neg hmid]
      have hb : b = [] := List.eq_nil_of_length_eq_zero (by omega)
      subst hb
      rw [List.append_nil]
      exact cut_represents h rfl
  · have hidx : (xs.map some).idxOf? (some obj) = none := by
      rw [List.idxOf?_eq_none_iff]
      simpa using hmem
    simp only [hidx] at hrem
    rw [← (Prod.mk.inj (Except.ok.inj hrem)).2, List.erase_of_not_mem hmem]
    exact h

theorem removeIndex_represents (h : Represents list xs) {index : Nat}
    (hlast : index + 1 = list.qty) (hrem : genlistRemoveIndex list index = .ok list') :
    Represents list' (xs.eraseIdx index) := by
  have hqty := h.qty
  unfold genlistRemoveIndex at hrem
  rw [if_neg (by omega)] at hrem
  simp only [if_pos (show index = list.qty - 1 by omega)] at hrem
  rw [← Except.ok.inj hrem]
  rcases List.eq_nil_or_concat xs with rfl | ⟨a, x, rfl⟩
  · rw [List.length_nil] at hqty
    omega
  · rw [List.concat_eq_append] at h hqty ⊢
    rw [List.length_append, List.length_singleton] at hqty
    have hi : index = a.length := by omega
    rw [List.eraseIdx_append_of_length_le (by omega), hi, Nat.sub_self, ← hi]
    exact close_represents h hi

/-- An index before the last leaves a NULL among the slots in use. -/
theorem removeIndex_spoils (h : Represents list xs) {index : Nat} (hnot : index + 1 ≠ list.qty)
    (hrem : genlistRemoveIndex list index = .ok list') :
    ¬IsContents list' (xs.eraseIdx index) := by
  rintro ⟨htake, -⟩
  have hle := h.qty_le
  have hmlen := h.mlen
  unfold genlistRemoveIndex at hrem
  by_cases hge : index ≥ list.qty
  · rw [if_pos hge] at hrem
    cases hrem
  rw [if_neg hge] at hrem
  simp only [if_neg (show ¬index = list.qty - 1 by omega)] at hrem
  rw [← Except.ok.inj hrem] at htake
  simp only at htake
  have hnull : none ∈ (list.lst.set index none).take (list.qty - 1) := by
    rw [List.mem_take_iff_getElem]
    exact ⟨index, by rw [List.length_set]; omega, List.getElem_set_self ..⟩
  rw [htake, List.mem_map] at hnull
  obtain ⟨x, -, hx⟩ := hnull
  cases hx

theorem pop_represents (h : Represents list xs) {item : Option α}
    (hpop : genlistPop list = .ok (item, list')) :
    item = xs.getLast? ∧ Represents list' xs.dropLast := by
  have hqty := h.qty
  unfold genlistPop at hpop
  by_cases hzero : list.qty = 0
  · rw [if_pos hzero] at hpop
    cases hpop
  rw [if_neg hzero] at hpop
  obtain ⟨hitem, hlist⟩ := Prod.mk.inj (Except.ok.inj hpop)
  rcases List.eq_nil_or_concat xs with rfl | ⟨a, x, rfl⟩
  · exact absurd hqty hzero
  · rw [List.concat_eq_append] at h hqty ⊢
    rw [List.length_append, List.length_singleton] at hqty
    have hi : list.qty - 1 = a.length := by omega
    obtain ⟨rest, hlst⟩ := h.lst
    rw [← hitem, ← hlist, List.dropLast_concat, List.getLast?_concat]
    constructor
    · rw [hlst, hi, List.getD_eq_getElem?_getD, List.map_append, List.append_assoc,
        List.getElem?_append_right (by simp)]
      simp
    · exact cut_represents h hi

theorem dequeue_represents (h : Represents list xs) {item : Option α}
    (hdeq : genlistDequeue list = .ok (item, list')) :
    item = xs.head? ∧ Represents list' xs.tail := by
  have hqty := h.qty
  unfold genlistDequeue at hdeq
  by_cases hzero : list.qty = 0
  · rw [if_pos hzero] at hdeq
    cases hdeq
  rw [if_neg hzero] at hdeq
  obtain ⟨hitem, hlist⟩ := Prod.mk.inj (Except.ok.inj hdeq)
  cases xs with
  | nil => exact absurd hqty hzero
  | cons x b =>
      rw [List.length_cons] at hqty
      obtain ⟨rest, hlst⟩ := h.lst
      rw [← hitem, ← hlist, List.head?_cons, List.tail_cons]
      constructor
      · rw [hlst]
        rfl
      · by_cases hmore : list.qty > 1
        · rw [if_pos hmore]
          exact close_represents (a := []) h rfl
        · rw [if_neg hmore]
          have hb : b = [] := List.eq_nil_of_length_eq_zero (by omega)
          subst hb
          exact cut_represents (a := []) h rfl

/-! ### Copying -/

theorem createAlloc_mlen (msz : Nat) (hlt : msz < 2 ^ 32) :
    msz ≤ (genlistCreateAlloc msz : Genlist α).mlen ∧
      2 ≤ (genlistCreateAlloc msz : Genlist α).mlen ∧
      (genlistCreateAlloc msz : Genlist α).mlen < 2 ^ 32 := by
  show msz ≤ (if msz ≤ 2 then 2 else msz) ∧ 2 ≤ (if msz ≤ 2 then 2 else msz) ∧
    (if msz ≤ 2 then 2 else msz) < 2 ^ 32
  by_cases hsmall : msz ≤ 2
  · rw [if_pos hsmall]
    omega
  · rw [if_neg hsmall]
    omega

theorem copy_represents (h : Represents list xs) (cpy : Nat → Option α → α) :
    Represents (genlistCopy list cpy) (xs.mapIdx fun i x => cpy i (some x)) := by
  obtain ⟨hle, htwo, hlt⟩ :=
    createAlloc_mlen (α := α) list.qty (Nat.lt_of_le_of_lt h.qty_le h.lt)
  have hitems : ((list.lst.take list.qty).mapIdx fun i item => some (cpy i item)) =
      (xs.mapIdx fun i x => cpy i (some x)).map some := by
    rw [h.take_qty]
    refine List.ext_getElem? fun i => ?_
    simp [List.getElem?_mapIdx, Function.comp_def]
  refine ⟨⟨(genlistCreateAlloc list.qty).lst.drop list.qty, ?_⟩, ?_, ?_, htwo, hlt⟩
  · rw [← hitems]
    rfl
  · rw [List.length_mapIdx, ← h.qty]
    rfl
  · show (((list.lst.take list.qty).mapIdx fun i item => some (cpy i item)) ++
      (genlistCreateAlloc list.qty).lst.drop list.qty).length = _
    rw [hitems, List.length_append, List.length_map, List.length_mapIdx, List.length_drop, ← h.qty]
    show list.qty + ((List.replicate _ none).length - list.qty) = _
    rw [List.length_replicate]
    exact Nat.add_sub_cancel' hle

/-! ### Runs

A call on one list leaves the others alone, so all lists stand for their sequences if the one that
was called on does.  From a call of the bad kind on, one list stands for none.
-/

/-- Every list stands for its sequence. -/
def AllRepresent (s : Lists α) : Prop := ∀ p ∈ s, Represents p.1 p.2

variable [DecidableEq α]

theorem apply_represents (h : Represents list xs) {op : Op α} (hok : op.WithinReach list)
    (happ : op.apply alloc list = .ok list') : Represents list' (op.onSequence xs) := by
  cases op with
  | append item => exact append_represents h hok happ
  | remove obj =>
      obtain ⟨⟨ret, rest⟩, hrem, rfl⟩ := Fault.map_eq_ok.mp happ
      exact remove_represents h hrem
  | removeIndex index => exact removeIndex_represents h hok happ
  | pop =>
      obtain ⟨⟨item, rest⟩, hpop, rfl⟩ := Fault.map_eq_ok.mp happ
      exact (pop_represents h hpop).2
  | dequeue =>
      obtain ⟨⟨item, rest⟩, hdeq, rfl⟩ := Fault.map_eq_ok.mp happ
      exact (dequeue_represents h hdeq).2

theorem apply_spoils (h : Represents list xs) {op : Op α} (hno : ¬op.WithinReach list)
    (happ : op.apply alloc list = .ok list') : ¬IsContents list' (op.onSequence xs) := by
  cases op with
  | append item => exact append_spoils h hno happ
  | removeIndex index => exact removeIndex_spoils h hno happ
  | remove obj => exact absurd trivial hno
  | pop => exact absurd trivial hno
  | dequeue => exact absurd trivial hno

/-- What a call on a list does to the lists. -/
theorem step_on {s s' : Lists α} {k : Nat} {op : Op α}
    (hstep : Call.step alloc s (.on k op) = some s') :
    ∃ list xs list', s[k]? = some (list, xs) ∧ op.apply alloc list = .ok list' ∧
      s' = s.set k (list', op.onSequence xs) := by
  obtain ⟨⟨list, xs⟩, hget, hstep⟩ := Option.bind_eq_some_iff.mp hstep
  obtain ⟨list', happ, hstep⟩ := Option.bind_eq_some_iff.mp hstep
  exact ⟨list, xs, list', hget, Fault.toOption_eq_some.mp happ, (Option.some.inj hstep).symm⟩

theorem step_represents {s s' : Lists α} {c : Call α} (h : AllRepresent s)
    (hok : c.WithinReach s) (hstep : Call.step alloc s c = some s') : AllRepresent s' := by
  cases c with
  | on k op =>
      obtain ⟨list, xs, list', hget, happ, rfl⟩ := step_on hstep
      intro p hp
      rcases List.mem_or_eq_of_mem_set hp with hmem | rfl
      · exact h p hmem
      · exact apply_represents (h _ (List.mem_of_getElem? hget)) (hok _ hget) happ
  | copy k cpy =>
      obtain ⟨⟨list, xs⟩, hget, hstep⟩ := Option.bind_eq_some_iff.mp hstep
      intro p hp
      rw [← Option.some.inj hstep] at hp
      rcases List.mem_append.mp hp with hmem | hnew
      · exact h p hmem
      · rw [List.mem_singleton.mp hnew]
        exact copy_represents (h _ (List.mem_of_getElem? hget)) cpy

theorem step_spoils {s s' : Lists α} {c : Call α} (h : AllRepresent s) (hno : ¬c.WithinReach s)
    (hstep : Call.step alloc s c = some s') : ¬AllContents s' := by
  cases c with
  | on k op =>
      obtain ⟨list, xs, list', hget, happ, rfl⟩ := step_on hstep
      intro hall
      refine apply_spoils (h _ (List.mem_of_getElem? hget)) (fun hok => hno ?_) happ
        (hall (list', op.onSequence xs) ?_)
      · intro p hp
        rw [hget] at hp
        exact Option.some.inj hp ▸ hok
      · have hlt : k < s.length := (List.getElem?_eq_some_iff.mp hget).1
        exact List.mem_of_getElem? (List.getElem?_set_self hlt)
  | copy k cpy => exact absurd trivial hno

theorem represents_init : AllRepresent (listSystem α alloc).init := by
  intro p hp
  rw [List.mem_singleton.mp hp]
  exact represents_create

/-- **All lists hold their sequences exactly as long as no item but a last one is removed by its
index and no length is doubled that is too large for it.** -/
theorem allContents_iff (alloc : Nat → Bool) (calls : List (Call α)) :
    (listSystem α alloc).Throughout AllContents (listSystem α alloc).init calls ↔
      (listSystem α alloc).Meets Call.WithinReach (listSystem α alloc).init calls := by
  refine TransitionSystem.throughout_iff_meets (I := AllRepresent) ?_ ?_ ?_ represents_init calls
  · intro s h p hp
    exact (h p hp).isContents
  · intro s c s' h hok hstep
    exact step_represents h hok hstep
  · intro s c s' h hno hstep
    exact step_spoils h hno hstep

/-- Two items, and the first of them is removed by its index: the slot that is left is NULL. -/
theorem allContents_removeIndex :
    (listSystem Nat fun _ => true).run [(genlistCreate, [])]
        [.on 0 (.append 7), .on 0 (.append 8), .on 0 (.removeIndex 0)] =
      some [(⟨[none, some 8, none, none], 1, 4⟩, [8])] ∧
    ¬IsContents ⟨[none, some 8, none, none], 1, 4⟩ [8] := by
  refine ⟨rfl, ?_⟩
  rintro ⟨htake, -⟩
  exact absurd htake (by decide)

end TagHighlight.GenericList
