/-
The registry of buffers holds together as long as no number is opened twice.

A look-up walks the list and reads every entry on its way, so what it finds is settled by
two facts: that no entry dangles, and that no two different entries have one number.
Opening a number that has no entry yet, and closing, keep them.  Opening a number that
has one breaks them whatever Neovim reports: the node is then either freed while the list
still refers to it, or listed a second time.

What is to hold of the registry is said without its list: a look-up gives the `Buffer` that was
opened last.  The history of the calls says which one that is, so the invariant relates the list
to the history, and a call that keeps it has also returned what it should.
-/
import TagHighlight.Buffer.Registry
import Mathlib.Data.List.Nodup

namespace TagHighlight

namespace Registry

variable {r r' : Registry} {fts : Filetypes} {bufnum : Nat}

theorem node_eq_ok {a : Nat} {bnode : BufferNode} :
    r.node a = .ok bnode ↔ r.nodes a = some bnode := by
  unfold node
  cases r.nodes a <;> simp

theorem buffer_eq_ok {p : Nat} {bdata : Bufdata} :
    r.buffer p = .ok bdata ↔ r.buffers p = some bdata := by
  unfold buffer
  cases r.buffers p <;> simp

@[simp] theorem nodes_setNode (a : Nat) (bnode : BufferNode) :
    (r.setNode a bnode).nodes = Function.update r.nodes a (some bnode) := rfl

@[simp] theorem buffers_setNode (a : Nat) (bnode : BufferNode) :
    (r.setNode a bnode).buffers = r.buffers := rfl

@[simp] theorem bufferList_setNode (a : Nat) (bnode : BufferNode) :
    (r.setNode a bnode).bufferList = r.bufferList := rfl

@[simp] theorem fresh_setNode (a : Nat) (bnode : BufferNode) :
    (r.setNode a bnode).fresh = r.fresh := rfl

@[simp] theorem nodes_setBuffer (p : Nat) (bdata : Bufdata) :
    (r.setBuffer p bdata).nodes = r.nodes := rfl

@[simp] theorem nodes_freeBuffer (p : Nat) : (r.freeBuffer p).nodes = r.nodes := rfl

/-! ### What a look-up finds

The look-up reads the entries in the order of the list and stops at the first with its number.  As
long as none dangles it comes to its end, and as long as no number has two entries the order does
not matter.  What it finds is then a function of the registry that needs no loop.
-/

/-- The number of the node at an address. -/
def numOf (r : Registry) (a : Nat) : Option Nat := (r.nodes a).map (·.num)

/-- The first entry for a number. -/
def entry (r : Registry) (bufnum : Nat) : Option Nat :=
  r.bufferList.find? fun a => r.numOf a = some bufnum

/-- The `Buffer` of the first entry for a number, if that is open. -/
def opened (r : Registry) (bufnum : Nat) : Option Nat :=
  (r.entry bufnum).bind fun a => (r.nodes a).bind fun bnode =>
    if bnode.isopen then bnode.bdata else none

/-- No entry dangles, and entries for one number are the same node. -/
structure Listed (r : Registry) : Prop where
  alive : ∀ a ∈ r.bufferList, r.nodes a ≠ none
  same : ∀ a ∈ r.bufferList, ∀ b ∈ r.bufferList, r.numOf a = r.numOf b → a = b

theorem numOf_eq_some {a : Nat} :
    r.numOf a = some bufnum ↔ ∃ bnode, r.nodes a = some bnode ∧ bnode.num = bufnum := by
  simp [numOf]

theorem findIn_eq (l : List Nat) (halive : ∀ a ∈ l, r.nodes a ≠ none) :
    r.findIn bufnum l = .ok (l.find? fun a => r.numOf a = some bufnum) := by
  induction l with
  | nil => rfl
  | cons a rest ih =>
      obtain ⟨bnode, hnode⟩ := Option.ne_none_iff_exists'.mp (halive a (by simp))
      have hrest := ih fun b hb => halive b (List.mem_cons_of_mem a hb)
      by_cases hnum : bnode.num = bufnum
      · simp [findIn, node_eq_ok.mpr hnode, numOf, hnode, hnum]
      · simp [findIn, node_eq_ok.mpr hnode, numOf, hnode, hnum, hrest]

theorem entry_eq_none : r.entry bufnum = none ↔ ∀ a ∈ r.bufferList, r.numOf a ≠ some bufnum := by
  simp [entry, List.find?_eq_none]

namespace Listed

variable (h : Listed r)
include h

theorem findBufferNode : r.findBufferNode bufnum = .ok (r.entry bufnum) :=
  findIn_eq r.bufferList h.alive

theorem haveSeenBufnum : r.haveSeenBufnum bufnum = .ok (r.entry bufnum).isSome := by
  simp [Registry.haveSeenBufnum, h.findBufferNode]

theorem entry_eq_some {a : Nat} :
    r.entry bufnum = some a ↔ a ∈ r.bufferList ∧ r.numOf a = some bufnum := by
  constructor
  · intro ha
    exact ⟨List.mem_of_find?_eq_some ha, by simpa using List.find?_some ha⟩
  · intro hand
    obtain ⟨hmem, hnum⟩ := hand
    obtain ⟨b, hb⟩ : ∃ b, r.entry bufnum = some b := by
      rw [← Option.isSome_iff_exists, entry, List.find?_isSome]
      exact ⟨a, hmem, by simpa using hnum⟩
    have hbnum : r.numOf b = some bufnum := by simpa using List.find?_some hb
    rw [hb, h.same b (List.mem_of_find?_eq_some hb) a hmem (hbnum.trans hnum.symm)]

theorem findBuffer : r.findBuffer bufnum = .ok (r.opened bufnum) := by
  unfold Registry.findBuffer opened
  rw [h.findBufferNode]
  cases hentry : r.entry bufnum with
  | none => rfl
  | some a =>
      obtain ⟨-, hnum⟩ := h.entry_eq_some.mp hentry
      obtain ⟨bnode, hnode, -⟩ := numOf_eq_some.mp hnum
      simp [node_eq_ok.mpr hnode, hnode]

/-- A number is open where some entry for it is. -/
theorem opened_eq_some {p : Nat} :
    r.opened bufnum = some p ↔ ∃ a ∈ r.bufferList, ∃ bnode, r.nodes a = some bnode ∧
      bnode.num = bufnum ∧ bnode.isopen = true ∧ bnode.bdata = some p := by
  unfold opened
  constructor
  · intro hp
    obtain ⟨a, ha, hp⟩ := Option.bind_eq_some_iff.mp hp
    obtain ⟨bnode, hnode, hp⟩ := Option.bind_eq_some_iff.mp hp
    obtain ⟨hmem, hnum⟩ := h.entry_eq_some.mp ha
    simp only [numOf, hnode, Option.map_some, Option.some.injEq] at hnum
    simp only [Option.ite_none_right_eq_some] at hp
    exact ⟨a, hmem, bnode, hnode, hnum, hp⟩
  · intro hex
    obtain ⟨a, hmem, bnode, hnode, hnum, hopen, hp⟩ := hex
    rw [h.entry_eq_some.mpr ⟨hmem, by simp [numOf, hnode, hnum]⟩]
    simp [hnode, hopen, hp]

end Listed

/-! ### Writing to a node

Most writes change what a node says of its `Buffer` and leave it its number.  For these the
look-ups find the same entries as before, and only what the entry says is new.
-/

section SetNode

variable {a : Nat} (bnode : BufferNode) (hnum : r.numOf a = some bnode.num)
include hnum

/-- A write that leaves a node its number leaves every node its number. -/
theorem numOf_setNode (b : Nat) : (r.setNode a bnode).numOf b = r.numOf b := by
  by_cases hb : b = a
  · rw [hb, hnum]
    simp [numOf]
  · simp [numOf, Function.update_of_ne hb]

theorem entry_setNode (n : Nat) : (r.setNode a bnode).entry n = r.entry n := by
  simp only [entry, bufferList_setNode, numOf_setNode bnode hnum]

theorem Listed.setNode (h : Listed r) : Listed (r.setNode a bnode) where
  alive := by
    intro b hb
    by_cases hba : b = a
    · simp [hba]
    · simp only [nodes_setNode, Function.update_of_ne hba]
      exact h.alive b hb
  same := by
    intro b hb c hc hbc
    rw [numOf_setNode bnode hnum, numOf_setNode bnode hnum] at hbc
    exact h.same b hb c hc hbc

theorem opened_setNode (n : Nat) :
    (r.setNode a bnode).opened n =
      if r.entry n = some a then if bnode.isopen then bnode.bdata else none else r.opened n := by
  unfold opened
  rw [entry_setNode bnode hnum]
  cases hentry : r.entry n with
  | none => simp
  | some b =>
      by_cases hb : b = a
      · simp [hb]
      · simp [hb]

end SetNode

/-! ### What the operations do

Each operation gets one lemma that says what the registry is after it, under the condition that
nothing dangles.  `new_buffer` has two: for a number without an entry it adds one or leaves no
trace, and for a number that has one, all it can do is wrong.
-/

/-- Entries own their `Buffer`s, and what is not allocated yet is not in use. -/
structure Sound (r : Registry) : Prop extends Listed r where
  owned : ∀ a ∈ r.bufferList, ∀ bnode p, r.nodes a = some bnode → bnode.bdata = some p →
    ∃ bdata, r.buffers p = some bdata ∧ bdata.num = bnode.num
  unusedNode : ∀ a, r.fresh ≤ a → r.nodes a = none
  unusedBuffer : ∀ p, r.fresh ≤ p → r.buffers p = none

theorem sound_empty : Sound empty where
  alive := by simp [empty]
  same := by simp [empty]
  owned := by simp [empty]
  unusedNode := fun _ _ => rfl
  unusedBuffer := fun _ _ => rfl

/-- The registry after `bufnum` was opened for the first time. -/
def added (r : Registry) (bufnum : Nat) (ft : BString) : Registry :=
  { nodes := Function.update r.nodes r.fresh
      (some { num := bufnum, isopen := true, bdata := some (r.fresh + 1) })
    buffers := Function.update r.buffers (r.fresh + 1)
      (some { num := bufnum, ft := ft, initialized := false })
    bufferList := r.bufferList ++ [r.fresh]
    fresh := r.fresh + 2 }

/-- The registry after `bufnum`'s `Buffer` `p` was closed, whose node is `a`. -/
def closed (r : Registry) (bufnum a p : Nat) : Registry :=
  (r.setNode a { num := bufnum, isopen := false, bdata := none }).freeBuffer p

/-- Freeing a node that owns its `Buffer` succeeds and empties its address. -/
theorem freeNode_node {a : Nat} {bnode : BufferNode} (hnode : r.nodes a = some bnode)
    (howned : ∀ p, bnode.bdata = some p → ∃ bdata, r.buffers p = some bdata) :
    ∃ r', r.freeNode a = .ok r' ∧ r'.bufferList = r.bufferList ∧ r'.nodes a = none := by
  cases hp : bnode.bdata with
  | none =>
      refine ⟨{ r with nodes := Function.update r.nodes a none }, ?_, rfl,
        Function.update_self _ _ _⟩
      simp [freeNode, node_eq_ok.mpr hnode, hp]
  | some p =>
      obtain ⟨bdata, hbuffer⟩ := howned p hp
      refine ⟨{ r.freeBuffer p with nodes := Function.update r.nodes a none }, ?_, rfl,
        Function.update_self _ _ _⟩
      simp [freeNode, node_eq_ok.mpr hnode, hp, buffer_eq_ok.mpr hbuffer]

theorem finishOpening_wanted {a : Nat} {bnode : BufferNode} {ftname : Option BString}
    {ft : BString} (hnode : r.nodes a = some bnode) (hft : fts.wanted ftname = some ft) :
    ∃ r', r.finishOpening fts a ftname = .ok (r', some r.fresh) ∧
      r'.bufferList = r.bufferList := by
  simp only [finishOpening, node_eq_ok.mpr hnode, hft, Fault.ok_bind]
  exact ⟨_, rfl, rfl⟩

namespace Sound

variable (h : Sound r)
include h

theorem lt_fresh {a : Nat} (ha : a ∈ r.bufferList) : a < r.fresh := by
  by_contra hle
  exact h.alive a ha (h.unusedNode a (Nat.le_of_not_lt hle))

/-- Opening a number for the first time adds an entry, or leaves no trace. -/
theorem newBuffer_unseen (hnew : r.entry bufnum = none) (ftname : Option BString) :
    r.newBuffer fts bufnum ftname = .ok
      (match fts.wanted ftname with
        | none => ({ r with fresh := r.fresh + 1 }, none)
        | some ft => (r.added bufnum ft, some (r.fresh + 1))) := by
  have hback : Function.update r.nodes r.fresh none = r.nodes := by
    rw [← h.unusedNode r.fresh (Nat.le_refl _), Function.update_eq_self]
  cases hft : fts.wanted ftname with
  | none =>
      simp [newBuffer, nodeFor, h.findBufferNode, hnew, newBufferNode, startOpening, node,
        finishOpening, hft, settle, freeNode, hback]
  | some ft =>
      simp [newBuffer, nodeFor, h.findBufferNode, hnew, newBufferNode, startOpening, node,
        finishOpening, hft, settle]
      rfl

/-- Opening a number that has an entry frees the node of the entry, or lists it again. -/
theorem newBuffer_seen (fts : Filetypes) {a : Nat} (ha : r.entry bufnum = some a)
    (ftname : Option BString) :
    ∃ r' ret, r.newBuffer fts bufnum ftname = .ok (r', ret) ∧
      (r'.bufferList = r.bufferList ∧ r'.nodes a = none ∨
        r'.bufferList = r.bufferList ++ [a]) := by
  obtain ⟨hmem, hnum⟩ := h.entry_eq_some.mp ha
  obtain ⟨bnode, hnode, -⟩ := numOf_eq_some.mp hnum
  have howned : ∀ p, bnode.bdata = some p → ∃ bdata, r.buffers p = some bdata := fun p hp =>
    let ⟨bdata, hbuffer, _⟩ := h.owned a hmem bnode p hnode hp
    ⟨bdata, hbuffer⟩
  cases hopen : bnode.isopen with
  | true =>
      obtain ⟨r', hfree, hlist, hnone⟩ := freeNode_node hnode howned
      refine ⟨r', none, ?_, Or.inl ⟨hlist, hnone⟩⟩
      simp [newBuffer, nodeFor, h.findBufferNode, ha, startOpening, node_eq_ok.mpr hnode, hopen,
        settle, hfree]
  | false =>
      -- The node is marked open first, whatever the file type turns out to be.
      have hmarked : (r.setNode a { bnode with isopen := true }).node a
          = .ok { bnode with isopen := true } := node_eq_ok.mpr (by simp)
      cases hft : fts.wanted ftname with
      | none =>
          obtain ⟨r', hfree, hlist, hnone⟩ := freeNode_node (node_eq_ok.mp hmarked) howned
          refine ⟨r', none, ?_, Or.inl ⟨hlist, hnone⟩⟩
          simp [newBuffer, nodeFor, h.findBufferNode, ha, startOpening, node_eq_ok.mpr hnode,
            hopen, finishOpening, hmarked, hft, settle, hfree]
      | some ft =>
          obtain ⟨r', hfinish, hlist⟩ := finishOpening_wanted (node_eq_ok.mp hmarked) hft
          refine ⟨{ r' with bufferList := r'.bufferList ++ [a] }, some r.fresh, ?_,
            Or.inr (by rw [hlist]; rfl)⟩
          simp only [fresh_setNode] at hfinish
          simp [newBuffer, nodeFor, h.findBufferNode, ha, startOpening, node_eq_ok.mpr hnode,
            hopen, hfinish, settle]

/-- Closing a number clears its node and frees its `Buffer`. -/
theorem destroyBuffer {p : Nat} (hp : r.opened bufnum = some p) :
    ∃ a ∈ r.bufferList, ∃ bnode, r.nodes a = some bnode ∧ bnode.num = bufnum ∧
      bnode.bdata = some p ∧ r.destroyBuffer p = .ok (r.closed bufnum a p) := by
  obtain ⟨a, hmem, bnode, hnode, hnum, -, hbdata⟩ := h.opened_eq_some.mp hp
  obtain ⟨bdata, hbuffer, hsame⟩ := h.owned a hmem bnode p hnode hbdata
  have hentry : r.entry bdata.num = some a :=
    h.entry_eq_some.mpr ⟨hmem, by simp [numOf, hnode, hsame]⟩
  refine ⟨a, hmem, bnode, hnode, hnum, hbdata, ?_⟩
  simp [Registry.destroyBuffer, closeNode, buffer, hbuffer, h.findBufferNode, hentry,
    node_eq_ok.mpr hnode, closed, hnum]

end Sound

/-! ### What the operations keep

An entry that is added is for a number that had none, and its node is new.  An entry that is
closed stays in the list with its number, and owns nothing any more.  So in both cases no two
nodes come to own the same `Buffer`.
-/

section Added

variable (h : Sound r) (hnew : r.entry bufnum = none) (ft : BString)
include h

theorem numOf_added {a : Nat} (ha : a ∈ r.bufferList) :
    (r.added bufnum ft).numOf a = r.numOf a := by
  simp [numOf, added, Function.update_of_ne (Nat.ne_of_lt (h.lt_fresh ha))]

omit h in
theorem numOf_added_fresh : (r.added bufnum ft).numOf r.fresh = some bufnum := by
  simp [numOf, added]

include hnew

theorem Sound.added : Sound (r.added bufnum ft) where
  alive := by
    intro a ha
    rcases List.mem_append.mp ha with ha | ha
    · simp only [Registry.added, Function.update_of_ne (Nat.ne_of_lt (h.lt_fresh ha))]
      exact h.alive a ha
    · simp [Registry.added, List.mem_singleton.mp ha]
  same := by
    have hnot := entry_eq_none.mp hnew
    intro a ha b hb hab
    rcases List.mem_append.mp ha with ha | ha <;> rcases List.mem_append.mp hb with hb | hb
    · rw [numOf_added h ft ha, numOf_added h ft hb] at hab
      exact h.same a ha b hb hab
    · rw [List.mem_singleton.mp hb, numOf_added h ft ha, numOf_added_fresh] at hab
      exact absurd hab (hnot a ha)
    · rw [List.mem_singleton.mp ha, numOf_added h ft hb, numOf_added_fresh] at hab
      exact absurd hab.symm (hnot b hb)
    · rw [List.mem_singleton.mp ha, List.mem_singleton.mp hb]
  owned := by
    intro a ha bnode p hnode hp
    rcases List.mem_append.mp ha with ha | ha
    · simp only [Registry.added, Function.update_of_ne (Nat.ne_of_lt (h.lt_fresh ha))] at hnode
      obtain ⟨bdata, hbuffer, hnum⟩ := h.owned a ha bnode p hnode hp
      have hne : p ≠ r.fresh + 1 := by
        intro heq
        subst heq
        rw [h.unusedBuffer _ (Nat.le_succ _)] at hbuffer
        exact absurd hbuffer (by simp)
      exact ⟨bdata, by simp [Registry.added, Function.update_of_ne hne, hbuffer], hnum⟩
    · simp only [Registry.added, List.mem_singleton.mp ha, Function.update_self,
        Option.some.injEq] at hnode
      subst hnode
      simp only [Option.some.injEq] at hp
      subst hp
      exact ⟨_, Function.update_self _ _ _, rfl⟩
  unusedNode := by
    intro a ha
    have hle : r.fresh + 2 ≤ a := ha
    simp only [Registry.added, Function.update_of_ne (show a ≠ r.fresh by omega)]
    exact h.unusedNode a (by omega)
  unusedBuffer := by
    intro p hp
    have hle : r.fresh + 2 ≤ p := hp
    simp only [Registry.added, Function.update_of_ne (show p ≠ r.fresh + 1 by omega)]
    exact h.unusedBuffer p (by omega)

theorem opened_added (n : Nat) :
    (r.added bufnum ft).opened n = if bufnum = n then some (r.fresh + 1) else r.opened n := by
  by_cases hn : bufnum = n
  · rw [if_pos hn]
    exact (h.added hnew ft).opened_eq_some.mpr
      ⟨r.fresh, by simp [added], _, Function.update_self _ _ _, hn, rfl, rfl⟩
  · rw [if_neg hn]
    refine Option.ext fun p => ?_
    rw [(h.added hnew ft).opened_eq_some, h.opened_eq_some]
    constructor
    · intro hex
      obtain ⟨a, ha, bnode, hnode, hnum, hrest⟩ := hex
      rcases List.mem_append.mp ha with ha | ha
      · simp only [added, Function.update_of_ne (Nat.ne_of_lt (h.lt_fresh ha))] at hnode
        exact ⟨a, ha, bnode, hnode, hnum, hrest⟩
      · have hfresh : (r.added bufnum ft).numOf r.fresh = some bufnum := numOf_added_fresh ft
        rw [← List.mem_singleton.mp ha, numOf, hnode] at hfresh
        exact absurd ((Option.some.inj hfresh).symm.trans hnum) hn
    · intro hex
      obtain ⟨a, ha, bnode, hnode, hrest⟩ := hex
      refine ⟨a, List.mem_append_left _ ha, bnode, ?_, hrest⟩
      simpa only [added, Function.update_of_ne (Nat.ne_of_lt (h.lt_fresh ha))] using hnode

end Added

section Closed

variable {a : Nat} (p : Nat) (hnum : r.numOf a = some bufnum)

omit hnum in
/-- No other node has the `Buffer` of the one that is closed. -/
theorem bdata_ne (h : Sound r) (ha : a ∈ r.bufferList) {bnode : BufferNode}
    (hnode : r.nodes a = some bnode) (hp : bnode.bdata = some p) {b : Nat}
    (hb : b ∈ r.bufferList) (hba : b ≠ a) {other : BufferNode}
    (hother : r.nodes b = some other) : other.bdata ≠ some p := by
  intro hq
  obtain ⟨bdata, hbuffer, hsame⟩ := h.owned a ha bnode p hnode hp
  obtain ⟨bdata', hbuffer', hsame'⟩ := h.owned b hb other p hother hq
  have heq : bdata = bdata' := Option.some.inj (hbuffer.symm.trans hbuffer')
  refine hba (h.same b hb a ha ?_)
  simp [numOf, hnode, hother, ← hsame, ← hsame', heq]

include hnum

theorem Sound.closed (h : Sound r) (ha : a ∈ r.bufferList) {bnode : BufferNode}
    (hnode : r.nodes a = some bnode) (hp : bnode.bdata = some p) :
    Sound (r.closed bufnum a p) where
  alive := (h.toListed.setNode ⟨bufnum, false, none⟩ hnum).alive
  same := (h.toListed.setNode ⟨bufnum, false, none⟩ hnum).same
  owned := by
    intro b hb other q hother hq
    by_cases hba : b = a
    · simp only [Registry.closed, nodes_freeBuffer, nodes_setNode, hba, Function.update_self,
        Option.some.injEq] at hother
      exact absurd hq (by simp [← hother])
    · simp only [Registry.closed, nodes_freeBuffer, nodes_setNode,
        Function.update_of_ne hba] at hother
      have hqp : q ≠ p := fun hqp =>
        bdata_ne p h ha hnode hp hb hba hother (hqp ▸ hq)
      simp only [Registry.closed, freeBuffer, buffers_setNode, Function.update_of_ne hqp]
      exact h.owned b hb other q hother hq
  unusedNode := by
    intro b hb
    have hne : b ≠ a := Nat.ne_of_gt (Nat.lt_of_lt_of_le (h.lt_fresh ha) hb)
    simp only [Registry.closed, nodes_freeBuffer, nodes_setNode, Function.update_of_ne hne]
    exact h.unusedNode b hb
  unusedBuffer := by
    intro q hq
    by_cases hqp : q = p
    · simp [Registry.closed, freeBuffer, hqp]
    · simp only [Registry.closed, freeBuffer, buffers_setNode, Function.update_of_ne hqp]
      exact h.unusedBuffer q hq

theorem opened_closed (h : Sound r) (ha : a ∈ r.bufferList) (n : Nat) :
    (r.closed bufnum a p).opened n = if bufnum = n then none else r.opened n := by
  have hentry : r.entry n = some a ↔ bufnum = n := by
    rw [h.entry_eq_some, hnum, Option.some.injEq]
    exact and_iff_right ha
  have hopened := opened_setNode ⟨bufnum, false, none⟩ hnum n
  simp only [hentry] at hopened
  exact hopened.trans (by simp)

end Closed

end Registry

/-! ### Whole runs

From the first call that opens a number again, something is wrong: either the node of the entry
was freed, and the entry dangles, or it is listed twice.  So the condition on the calls is exact,
whatever file types Neovim reports.
-/

/-- What the registry is for. -/
structure RegistryOk (fts : Filetypes) (s : Registry × RegistryHistory) : Prop where
  /-- No entry refers to a freed node. -/
  alive : ∀ a ∈ s.1.bufferList, s.1.nodes a ≠ none
  /-- There is at most one entry for a number. -/
  once : (s.1.bufferList.map s.1.numOf).Nodup
  /-- A look-up gives the `Buffer` last opened for the number, unless it was destroyed. -/
  finds : ∀ bufnum, s.1.findBuffer bufnum = .ok (s.2.standing bufnum)
  /-- Whatever is called next returns. -/
  returns : ∀ op, ∃ res, s.1.call fts op = .ok res

/-- `new_buffer` is not called for a number that has an entry. -/
def FirstOpening (s : Registry × RegistryHistory) : RegistryOp → Prop
  | .newBuffer bufnum _ => s.1.haveSeenBufnum bufnum = .ok false
  | _ => True

/-- What is kept as long as no number is opened twice. -/
structure Kept (s : Registry × RegistryHistory) : Prop where
  sound : s.1.Sound
  nodup : s.1.bufferList.Nodup
  opened : ∀ bufnum, s.1.opened bufnum = s.2.standing bufnum

namespace Kept

variable {s : Registry × RegistryHistory} {fts : Filetypes}

theorem init : Kept (registrySystem fts).init where
  sound := Registry.sound_empty
  nodup := List.nodup_nil
  opened := fun _ => rfl

theorem returns (h : Kept s) (fts : Filetypes) (op : RegistryOp) :
    ∃ res, s.1.call fts op = .ok res := by
  cases op with
  | newBuffer bufnum ftname =>
      cases hentry : s.1.entry bufnum with
      | none => exact ⟨_, h.sound.newBuffer_unseen hentry ftname⟩
      | some a =>
          obtain ⟨r', ret, hcall, -⟩ := h.sound.newBuffer_seen fts hentry ftname
          exact ⟨_, hcall⟩
  | findBuffer bufnum => exact ⟨_, by simp only [Registry.call, h.sound.findBuffer]; rfl⟩
  | destroyBuffer bufnum =>
      cases hp : s.1.opened bufnum with
      | none => exact ⟨_, by simp only [Registry.call, h.sound.findBuffer, hp]; rfl⟩
      | some p =>
          obtain ⟨a, -, bnode, -, -, -, hcall⟩ := h.sound.destroyBuffer hp
          exact ⟨(s.1.closed bufnum a p, some p),
            by simp [Registry.call, h.sound.findBuffer, hp, hcall]⟩

theorem registryOk (h : Kept s) : RegistryOk fts s where
  alive := h.sound.alive
  once := h.nodup.map_on fun a ha b hb => h.sound.same a ha b hb
  finds := fun bufnum => by rw [h.sound.findBuffer, h.opened]
  returns := h.returns fts

theorem newBuffer (h : Kept s) {bufnum : Nat} (hnew : s.1.entry bufnum = none)
    {ftname : Option BString} {r' : Registry} {ret : Option Nat}
    (hcall : s.1.newBuffer fts bufnum ftname = .ok (r', ret)) :
    Kept (r', (.newBuffer bufnum ftname, ret) :: s.2) := by
  rw [h.sound.newBuffer_unseen hnew] at hcall
  cases hft : fts.wanted ftname with
  | none =>
      rw [hft] at hcall
      obtain ⟨rfl, rfl⟩ := Prod.mk.inj (Except.ok.inj hcall)
      have hsound := h.sound
      exact {
        sound := {
          alive := hsound.alive
          same := hsound.same
          owned := hsound.owned
          unusedNode := fun a ha => hsound.unusedNode a (Nat.le_of_succ_le ha)
          unusedBuffer := fun p hp => hsound.unusedBuffer p (Nat.le_of_succ_le hp) }
        nodup := h.nodup
        opened := h.opened }
  | some ft =>
      rw [hft] at hcall
      obtain ⟨rfl, rfl⟩ := Prod.mk.inj (Except.ok.inj hcall)
      refine ⟨h.sound.added hnew ft, ?_, fun n => ?_⟩
      · refine List.nodup_append.mpr ⟨h.nodup, List.nodup_singleton _, ?_⟩
        intro a ha b hb hab
        exact Nat.ne_of_lt (h.sound.lt_fresh ha) (hab.trans (List.mem_singleton.mp hb))
      · rw [Registry.opened_added h.sound hnew, h.opened]
        rfl

theorem destroyBuffer (h : Kept s) {bufnum : Nat} {r' : Registry} {ret : Option Nat}
    (hcall : s.1.call fts (.destroyBuffer bufnum) = .ok (r', ret)) :
    Kept (r', (.destroyBuffer bufnum, ret) :: s.2) := by
  simp only [Registry.call, h.sound.findBuffer, Fault.ok_bind] at hcall
  cases hp : s.1.opened bufnum with
  | none =>
      rw [hp] at hcall
      obtain ⟨rfl, rfl⟩ := Prod.mk.inj (Except.ok.inj hcall)
      exact ⟨h.sound, h.nodup, h.opened⟩
  | some p =>
      obtain ⟨a, ha, bnode, hnode, hnum, hdata, hdestroy⟩ := h.sound.destroyBuffer hp
      rw [hp] at hcall
      simp only [hdestroy, Fault.ok_bind] at hcall
      obtain ⟨rfl, rfl⟩ := Prod.mk.inj (Except.ok.inj hcall)
      have hnumOf : s.1.numOf a = some bufnum := Registry.numOf_eq_some.mpr ⟨bnode, hnode, hnum⟩
      refine ⟨h.sound.closed p hnumOf ha hnode hdata, h.nodup, fun n => ?_⟩
      rw [Registry.opened_closed p hnumOf h.sound ha, h.opened]
      rfl

theorem step (h : Kept s) {op : RegistryOp} {s' : Registry × RegistryHistory}
    (hfirst : FirstOpening s op) (hstep : (registrySystem fts).step s op = some s') :
    Kept s' := by
  obtain ⟨⟨r', ret⟩, hcall⟩ := h.returns fts op
  simp only [registrySystem, hcall, Option.some.injEq] at hstep
  subst hstep
  cases op with
  | newBuffer bufnum ftname =>
      refine h.newBuffer ?_ hcall
      simpa [FirstOpening, h.sound.haveSeenBufnum] using hfirst
  | findBuffer bufnum =>
      simp only [Registry.call, h.sound.findBuffer] at hcall
      obtain ⟨rfl, rfl⟩ := Prod.mk.inj (Except.ok.inj hcall)
      exact ⟨h.sound, h.nodup, h.opened⟩
  | destroyBuffer bufnum => exact h.destroyBuffer hcall

/-- A second opening leaves an entry that dangles, or two for one number. -/
theorem spoiled (h : Kept s) {op : RegistryOp} {s' : Registry × RegistryHistory}
    (hagain : ¬ FirstOpening s op) (hstep : (registrySystem fts).step s op = some s') :
    ¬ RegistryOk fts s' := by
  cases op with
  | findBuffer bufnum => exact absurd trivial hagain
  | destroyBuffer bufnum => exact absurd trivial hagain
  | newBuffer bufnum ftname =>
      obtain ⟨a, ha⟩ : ∃ a, s.1.entry bufnum = some a := by
        rw [← Option.ne_none_iff_exists']
        intro hnone
        exact hagain (by simp [FirstOpening, h.sound.haveSeenBufnum, hnone])
      have hmem := (h.sound.entry_eq_some.mp ha).1
      obtain ⟨r', ret, hcall, hbad⟩ := h.sound.newBuffer_seen fts ha ftname
      simp only [registrySystem, Registry.call, hcall, Option.some.injEq] at hstep
      subst hstep
      intro hok
      rcases hbad with ⟨hlist, hnone⟩ | hlist
      · exact hok.alive a (by simpa [hlist] using hmem) hnone
      · have honce := hok.once
        simp only [hlist, List.map_append, List.map_cons, List.map_nil] at honce
        exact (List.nodup_append.mp honce).2.2 _ (List.mem_map_of_mem hmem) _ (by simp) rfl

end Kept

/--
**The registry stays sound in a sequence of calls, whatever Neovim reports, exactly as long
as no call opens a number that has an entry already.**
-/
theorem registryOk_iff (fts : Filetypes) (ops : List RegistryOp) :
    (registrySystem fts).Throughout (RegistryOk fts) (registrySystem fts).init ops ↔
      (registrySystem fts).Meets FirstOpening (registrySystem fts).init ops :=
  TransitionSystem.throughout_iff_meets (I := Kept) (fun _ h => h.registryOk)
    (fun _ _ _ h hok hstep => h.step hok hstep) (fun _ _ _ h hno hstep => h.spoiled hno hstep)
    Kept.init ops

/-- C files are highlighted and nothing else is. -/
def onlyC : Filetypes := { ftdata := [[99]], ignoredFtypes := [] }

/-- A C buffer is opened, closed, and opened again when its file type is `text`. -/
def reopenedAsText : List RegistryOp :=
  [.newBuffer 1 (some [99]), .destroyBuffer 1, .newBuffer 1 (some [116, 101, 120, 116])]

/-- The entry of a buffer that is opened again with an unknown file type dangles. -/
theorem reopenedAsText_dangles :
    ¬ (registrySystem onlyC).Throughout (RegistryOk onlyC) (registrySystem onlyC).init
      reopenedAsText := by
  intro h
  exact (h.last rfl).alive 0 (by decide) rfl

end TagHighlight
