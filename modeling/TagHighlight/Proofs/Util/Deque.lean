/-
Taking out of the linked list.

`ll_pop` unlinks the last node as it should.  What it does not do is count: `qty` stays, and
`ll_dequeue` has the same fault.  So a list that something was taken out of is no deque any
more, whatever else is right about it.

`ll_dequeue` also writes the wrong pointer of the new head.  It loses the rest of the list, and
leaves a pointer to the node that was freed.
-/
import TagHighlight.Util.Deque
import TagHighlight.Proofs.Util.Sequence

namespace TagHighlight.Deque

open DList

variable {α : Type} {l : LinkedList α} {cells : List (Nat × α)} {c d : Nat × α}

/-! ### The two functions

Nothing that is left may refer to the node that is freed.  `ll_pop` sets the `next` of the node
before the last to NULL, which is right.  `ll_dequeue` sets that of the second node instead of its
`prev`, so what comes behind the second node is not reached any more, and this one points back to
a node that is not there.
-/

theorem pop_nil (h : Rep l []) : llPop l = .ok (none, l) := by
  unfold llPop
  rw [h.ends_nil.2]

theorem dequeue_nil (h : Rep l []) : llDequeue l = .ok (none, l) := by
  unfold llDequeue
  rw [h.ends_nil.1]

/-- The memory when a node has been freed still has the others. -/
theorem freed_ne_none (h : Rep l cells) {a : Nat} (ha : a ∈ addrs cells) (hne : a ≠ c.1) :
    Function.update l.mem c.1 none a ≠ none := by
  rw [Function.update_of_ne hne]
  exact h.chain.alloc a ha

theorem llPop_eq (h : Rep l (cells ++ [c])) :
    llPop l = .ok (some c.2,
      { l with
        tail := lastOr none cells
        head := if (lastOr none cells).isSome then l.head else none
        mem := Mem.setNext (Function.update l.mem c.1 none) (lastOr none cells) none }) := by
  obtain ⟨hnot, -⟩ := h.not_mem_sides
  have htail : l.tail = some c.1 := by rw [h.tail, lastOr_append, lastOr_cons, lastOr_nil]
  have hfree : l.mem.free (some c.1) = .ok (Function.update l.mem c.1 none) :=
    Mem.free_some (by rw [h.node]; simp)
  have hwrite : Mem.writeNext? (Function.update l.mem c.1 none) (lastOr none cells) none =
      .ok (Mem.setNext (Function.update l.mem c.1 none) (lastOr none cells) none) := by
    refine writeNext?_lastOr none fun a ha => freed_ne_none h (by simp [ha]) ?_
    intro heq
    exact hnot (heq ▸ ha)
  unfold llPop
  simp only [htail, Mem.read_some h.node, Fault.ok_bind, hfree, hwrite]

/-- `ll_pop` does everything but count. -/
theorem pop_links (h : Rep l (cells ++ [c])) :
    ∃ l', llPop l = .ok (some c.2, l') ∧ l'.qty = l.qty ∧
      Rep { l' with qty := l'.qty - 1 } cells := by
  obtain ⟨hnot, -⟩ := h.not_mem_sides
  have h' : Rep l (cells ++ [c] ++ []) := by simpa using h
  have hrep := h'.rep_unlinked (m := Function.update l.mem c.1 none)
    (fun a ha => Function.update_of_ne (fun heq => hnot (by simpa [heq] using ha)) _ _)
    (fun a ha => by
      by_cases hac : a = c.1
      · rw [hac, Function.update_self]
      · rw [Function.update_of_ne hac]
        exact h.fresh a ha)
  refine ⟨_, llPop_eq h, rfl, ?_⟩
  rw [List.append_nil] at hrep
  have hhead : (if (lastOr none cells).isSome then l.head else none) = firstOr cells none := by
    rw [h.head]
    cases cells with
    | nil => rfl
    | cons e cells =>
        have hlast : (lastOr none (e :: cells)).isSome :=
          Option.isSome_iff_ne_none.mpr (lastOr_ne_none cells e.1)
        rw [if_pos hlast]
        rfl
  simp only [hhead]
  simpa [Rep.unlinked, Mem.setPrev] using hrep

/-- `ll_dequeue` returns the first item, and cuts the list behind the second node. -/
theorem llDequeue_eq (h : Rep l (c :: cells)) :
    llDequeue l = .ok (some c.2,
      { l with
        head := firstOr cells none
        tail := if (firstOr cells none).isSome then l.tail else none
        mem := Mem.setNext (Function.update l.mem c.1 none) (firstOr cells none) none }) := by
  have hcells : Rep l ([] ++ c :: cells) := h
  have hnode : l.mem c.1 = some ⟨c.2, none, firstOr cells none⟩ := hcells.node
  obtain ⟨-, hnot⟩ := hcells.not_mem_sides
  have hhead : l.head = some c.1 := by rw [h.head, firstOr_cons]
  have hfree : l.mem.free (some c.1) = .ok (Function.update l.mem c.1 none) :=
    Mem.free_some (by rw [hnode]; simp)
  have hwrite : Mem.writeNext? (Function.update l.mem c.1 none) (firstOr cells none) none =
      .ok (Mem.setNext (Function.update l.mem c.1 none) (firstOr cells none) none) := by
    refine Mem.writeNext?_eq none fun a ha => freed_ne_none h ?_ ?_
    · exact List.mem_cons_of_mem _ (firstOr_mem ha)
    · intro heq
      exact hnot (heq ▸ firstOr_mem ha)
  unfold llDequeue
  simp only [hhead, Mem.read_some hnode, Fault.ok_bind, hfree, hwrite]

/-- The new head is then the only node in reach, and points back to the freed one. -/
theorem dequeue_cuts (h : Rep l (c :: d :: cells)) :
    ∃ l', llDequeue l = .ok (some c.2, l') ∧ l'.head = some d.1 ∧ l'.mem c.1 = none ∧
      l'.mem d.1 = some ⟨d.2, some c.1, none⟩ := by
  have hfirst : Rep l ([] ++ c :: d :: cells) := h
  have hsecond : Rep l ([c] ++ d :: cells) := h
  have hnode : l.mem d.1 = some ⟨d.2, some c.1, firstOr cells none⟩ := hsecond.node
  have hne : d.1 ≠ c.1 := by
    intro heq
    exact hfirst.not_mem_sides.2 (by simp [heq])
  refine ⟨_, llDequeue_eq h, rfl, ?_, ?_⟩
  · show Mem.setNext (Function.update l.mem c.1 none) (some d.1) none c.1 = none
    rw [Mem.setNext_ne (by simpa using hne), Function.update_self]
  · show Mem.setNext (Function.update l.mem c.1 none) (some d.1) none d.1 = _
    exact Mem.setNext_self ((Function.update_of_ne hne _ _).trans hnode)

/-! ### Runs

Taking from an empty list does nothing, and that is right.  Taking from any other leaves the count
as it was, and a chain of another length; so the condition is exact from the first call of this
kind.
-/

/-- The invariant of a run: the list is laid out as `Rep` has it. -/
structure Invariant (s : State α) : Prop where
  list : Represents s.list s.contents
  returned : s.taken = s.due
  conserved : s.put.Perm (s.taken.reduceOption ++ s.contents)

theorem Invariant.isDeque {s : State α} (h : Invariant s) : IsDeque s := by
  obtain ⟨cells, hrep, hvals⟩ := h.list
  exact ⟨⟨cells, ⟨hrep.chain, hrep.head, hrep.tail, hrep.qty⟩, hvals⟩, h.returned, h.conserved⟩

/-- Taking NULL out of an empty list is right. -/
theorem Invariant.taken_none {s : State α} (h : Invariant s) (hempty : s.contents = []) :
    Invariant { s with taken := s.taken ++ [none], due := s.due ++ [none], contents := [] } := by
  have hconserved := h.conserved
  rw [hempty] at hconserved
  refine ⟨hempty ▸ h.list, ?_, ?_⟩
  · show s.taken ++ [none] = s.due ++ [none]
    rw [h.returned]
  · show s.put.Perm ((s.taken ++ [none]).reduceOption ++ [])
    rw [List.reduceOption_append]
    simpa using hconserved

theorem step_invariant {s s' : State α} {call : Call α} (h : Invariant s)
    (hok : call.TakesNothing s) (hstep : call.apply s = .ok s') : Invariant s' := by
  obtain ⟨cells, hrep, hvals⟩ := h.list
  cases call with
  | append data =>
      obtain ⟨list, hrun, hrep'⟩ := hrep.append data
      obtain ⟨list', hcall, heq⟩ := Fault.bind_eq_ok.mp hstep
      rw [hrun] at hcall
      rw [← Except.ok.inj heq, ← Except.ok.inj hcall]
      refine ⟨⟨_, hrep', by simp [hvals]⟩, h.returned, ?_⟩
      simpa using h.conserved.append_right [data]
  | prepend data =>
      obtain ⟨list, hrun, hrep'⟩ := hrep.prepend data
      obtain ⟨list', hcall, heq⟩ := Fault.bind_eq_ok.mp hstep
      rw [hrun] at hcall
      rw [← Except.ok.inj heq, ← Except.ok.inj hcall]
      refine ⟨⟨_, hrep', by simp [hvals]⟩, h.returned, ?_⟩
      show (s.put ++ [data]).Perm (s.taken.reduceOption ++ data :: s.contents)
      refine List.perm_append_comm.trans ?_
      exact (h.conserved.cons data).trans List.perm_middle.symm
  | pop =>
      have hempty : s.contents = [] := hok
      have hnil : cells = [] := List.map_eq_nil_iff.mp (hvals.trans hempty)
      obtain ⟨ret, hcall, heq⟩ := Fault.bind_eq_ok.mp hstep
      rw [pop_nil (hnil ▸ hrep)] at hcall
      rw [← Except.ok.inj heq, ← Except.ok.inj hcall, hempty]
      exact h.taken_none hempty
  | dequeue =>
      have hempty : s.contents = [] := hok
      have hnil : cells = [] := List.map_eq_nil_iff.mp (hvals.trans hempty)
      obtain ⟨ret, hcall, heq⟩ := Fault.bind_eq_ok.mp hstep
      rw [dequeue_nil (hnil ▸ hrep)] at hcall
      rw [← Except.ok.inj heq, ← Except.ok.inj hcall, hempty]
      exact h.taken_none hempty

/-- A count that is kept is wrong for a sequence of another length. -/
theorem not_isDeque {s s' : State α} (h : Invariant s) (hqty : s'.list.qty = s.list.qty)
    (hlen : s'.contents.length ≠ s.contents.length) : ¬IsDeque s' := by
  intro h'
  obtain ⟨cells, hrep, hvals⟩ := h.list
  obtain ⟨cells', hchain, hvals'⟩ := h'.list
  refine hlen ?_
  rw [← hvals, ← hvals', vals_length, vals_length]
  have hq := hchain.qty
  rw [hqty, hrep.qty] at hq
  omega

/-- What is taken out of a list that is not empty stays counted. -/
theorem step_spoils {s s' : State α} {call : Call α} (h : Invariant s)
    (hno : ¬call.TakesNothing s) (hstep : call.apply s = .ok s') : ¬IsDeque s' := by
  obtain ⟨cells, hrep, hvals⟩ := h.list
  cases call with
  | append data => exact absurd trivial hno
  | prepend data => exact absurd trivial hno
  | pop =>
      have hne : s.contents ≠ [] := hno
      rcases List.eq_nil_or_concat cells with rfl | ⟨cells, c, rfl⟩
      · exact absurd hvals.symm hne
      rw [List.concat_eq_append] at hrep
      obtain ⟨list, hrun, hqty, -⟩ := pop_links hrep
      obtain ⟨ret, hcall, heq⟩ := Fault.bind_eq_ok.mp hstep
      rw [hrun] at hcall
      rw [← Except.ok.inj heq, ← Except.ok.inj hcall]
      refine not_isDeque h hqty ?_
      have hpos := List.length_pos_iff.mpr hne
      show s.contents.dropLast.length ≠ s.contents.length
      rw [List.length_dropLast]
      omega
  | dequeue =>
      have hne : s.contents ≠ [] := hno
      cases cells with
      | nil => exact absurd hvals.symm hne
      | cons c cells =>
          obtain ⟨ret, hcall, heq⟩ := Fault.bind_eq_ok.mp hstep
          rw [llDequeue_eq hrep] at hcall
          rw [← Except.ok.inj heq, ← Except.ok.inj hcall]
          refine not_isDeque h rfl ?_
          have hpos := List.length_pos_iff.mpr hne
          show s.contents.tail.length ≠ s.contents.length
          rw [List.length_tail]
          omega

theorem invariant_init : Invariant (dequeSystem α).init :=
  ⟨represents_makeNew, rfl, List.Perm.nil⟩

/-- **The list is a deque exactly as long as nothing is taken out of it.** -/
theorem isDeque_iff (calls : List (Call α)) :
    (dequeSystem α).Throughout IsDeque (dequeSystem α).init calls ↔
      (dequeSystem α).Meets Call.TakesNothing (dequeSystem α).init calls := by
  refine TransitionSystem.throughout_iff_meets (I := Invariant) ?_ ?_ ?_ invariant_init calls
  · intro s h
    exact h.isDeque
  · intro s c s' h hok hstep
    exact step_invariant h hok (Fault.toOption_eq_some.mp hstep)
  · intro s c s' h hno hstep
    exact step_spoils h hno (Fault.toOption_eq_some.mp hstep)

/-- One item in, one item out: the empty list still counts one. -/
theorem isDeque_pop :
    (((dequeSystem Nat).run (dequeSystem Nat).init [.append 7, .pop]).map fun s =>
        (s.list.head, s.list.qty, s.contents, s.taken)) = some (none, 1, [], [some 7]) ∧
      ¬(dequeSystem Nat).Throughout IsDeque (dequeSystem Nat).init [.append 7, .pop] := by
  refine ⟨rfl, fun h => ?_⟩
  obtain ⟨cells, hchain, hvals⟩ := (h.last rfl).list
  have hnil : cells = [] := List.map_eq_nil_iff.mp hvals
  have hqty := hchain.qty
  rw [hnil] at hqty
  exact absurd hqty (by decide)

end TagHighlight.Deque
