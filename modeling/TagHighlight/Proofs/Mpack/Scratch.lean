/-
The scratch memory of `mpack_encode_fmt` is large enough for a format with few containers.

Both passes keep the number of counters in use and the heights of their stacks in step with
the brackets they have passed: `opens` and `closes` of the labels so far.  How these can be is
a matter of the nesting alone.  In front of any label of a format there are no more closing
brackets than opening ones, no more opening ones than there are containers, and the difference
is how deep that place is nested.

So it is enough to know of a format how many containers it has and how deep it is.  That the
passes keep to what is proved of the brackets is an induction over the labels in front of a place,
in which the state of the pass is what these numbers say.
-/
import TagHighlight.Mpack.Scratch
import TagHighlight.Proofs.Mpack.Fmt
import Mathlib.Data.List.Induction

namespace TagHighlight

/-! ### Brackets -/

/-- The opening brackets among the labels. -/
def opens (ts : List Token) : Nat := ts.countP Token.isOpen

/-- The closing brackets among the labels. -/
def closes (ts : List Token) : Nat := ts.count .close

theorem opens_append (ts us : List Token) : opens (ts ++ us) = opens ts + opens us :=
  List.countP_append

theorem closes_append (ts us : List Token) : closes (ts ++ us) = closes ts + closes us :=
  List.count_append

theorem opens_cons (t : Token) (ts : List Token) :
    opens (t :: ts) = opens ts + if t.isOpen then 1 else 0 := List.countP_cons

theorem closes_cons (t : Token) (ts : List Token) :
    closes (t :: ts) = closes ts + if t = .close then 1 else 0 := by
  rw [closes, List.count_cons]
  simp [closes]

/-! What one more label adds. -/

section Last

variable (passed : List Token) {t : Token}

theorem opened_last (ht : t = .openArray ∨ t = .openDict) :
    opens (passed ++ [t]) = opens passed + 1 ∧ closes (passed ++ [t]) = closes passed := by
  rw [opens_append, closes_append]
  rcases ht with rfl | rfl <;> exact ⟨rfl, rfl⟩

theorem closed_last :
    opens (passed ++ [.close]) = opens passed ∧ closes (passed ++ [.close]) = closes passed + 1 :=
  ⟨opens_append _ _, closes_append _ _⟩

theorem same_last (hopen : t.isOpen = false) (hclose : t ≠ .close) :
    opens (passed ++ [t]) = opens passed ∧ closes (passed ++ [t]) = closes passed := by
  rw [opens_append, closes_append, opens_cons, closes_cons, hopen, if_neg hclose]
  exact ⟨rfl, rfl⟩

end Last

/-- The labels in front of a place in a format. -/
structure Nested (f : Format) (before : List Token) : Prop where
  closed : closes before ≤ opens before
  deep : opens before ≤ closes before + f.depth
  opened : opens before ≤ f.lens.length

theorem nested_nil (f : Format) : Nested f [] :=
  ⟨Nat.le_refl _, Nat.zero_le _, Nat.zero_le _⟩

/-- A label that is no bracket. -/
theorem Nested.cons {f rest : Format} {t : Token} {before : List Token} (h : Nested rest before)
    (hopen : t.isOpen = false) (hclose : t ≠ .close) (hdepth : f.depth = rest.depth)
    (hlens : f.lens = rest.lens) : Nested f (t :: before) := by
  obtain ⟨hclosed, hdeep, hopened⟩ := h
  have hopens : opens (t :: before) = opens before := by
    rw [opens_cons, hopen]
    rfl
  have hcloses : closes (t :: before) = closes before := by
    rw [closes_cons, if_neg hclose, Nat.add_zero]
  have hlens' := congrArg List.length hlens
  exact ⟨by omega, by omega, by omega⟩

/-- A format has as many closing brackets as containers. -/
theorem closes_labels (f : Format) : closes f.labels = f.lens.length := by
  induction f with
  | nil => rfl
  | value k rest ih => simpa [Format.labels, Format.lens, closes_cons] using ih
  | aside a rest ih => simpa [Format.labels, Format.lens, closes_cons] using ih
  | array body rest ihb ih =>
      simp only [Format.labels, Format.lens, closes_cons, closes_append, ihb, ih, List.length_cons,
        List.length_append]
      rfl
  | dict body rest ihb ih =>
      simp only [Format.labels, Format.lens, closes_cons, closes_append, ihb, ih, List.length_cons,
        List.length_append]
      rfl

/-- In a container, or behind it. -/
theorem nested_container {f body rest : Format} {t : Token} (ht : t.isOpen = true)
    (hdepth : f.depth = max (body.depth + 1) rest.depth)
    (hlens : f.lens.length = body.lens.length + rest.lens.length + 1)
    (hbody : ∀ before after, body.labels = before ++ after → Nested body before)
    (hrest : ∀ before after, rest.labels = before ++ after → Nested rest before)
    {before after : List Token} (h : t :: (body.labels ++ .close :: rest.labels) = before ++ after) :
    Nested f before := by
  have hne : ¬t = .close := fun hc => by simp [hc, Token.isOpen] at ht
  rcases List.cons_eq_append_iff.mp h with ⟨rfl, -⟩ | ⟨inner, rfl, hinner⟩
  · exact nested_nil f
  have hopen : opens (t :: inner) = opens inner + 1 := by rw [opens_cons, if_pos ht]
  have hclose : closes (t :: inner) = closes inner := by rw [closes_cons, if_neg hne, Nat.add_zero]
  have hinside : Nested body inner → Nested f (t :: inner) := fun hn => by
    obtain ⟨hclosed, hdeep, hopened⟩ := hn
    exact ⟨by omega, by omega, by omega⟩
  rcases List.append_eq_append_iff.mp hinner with ⟨behind, rfl, hbehind⟩ | ⟨left, hleft, -⟩
  · rcases List.cons_eq_append_iff.mp hbehind with ⟨rfl, -⟩ | ⟨behind, rfl, hrest'⟩
    · rw [List.append_nil]
      rw [List.append_nil] at hinside
      exact hinside (hbody _ [] (List.append_nil _).symm)
    · -- The container has been closed.
      obtain ⟨hclosed, hdeep, hopened⟩ := hrest _ _ hrest'
      have hb := countP_isOpen body
      have hopens : opens (t :: (body.labels ++ .close :: behind)) =
          body.lens.length + opens behind + 1 := by
        rw [opens_cons, opens_append, opens_cons, if_pos ht, opens, hb]
        rfl
      have hcloses : closes (t :: (body.labels ++ .close :: behind)) =
          body.lens.length + closes behind + 1 := by
        rw [closes_cons, closes_append, closes_cons, closes_labels, if_neg hne, if_pos rfl]
        rfl
      exact ⟨by omega, by omega, by omega⟩
  · exact hinside (hbody _ _ hleft)

theorem nested : ∀ (f : Format) (before after : List Token), f.labels = before ++ after →
    Nested f before := by
  intro f
  induction f with
  | nil =>
      intro before after h
      obtain ⟨rfl, -⟩ := List.append_eq_nil_iff.mp h.symm
      exact nested_nil _
  | value k rest ih =>
      intro before after h
      rcases List.cons_eq_append_iff.mp h with ⟨rfl, -⟩ | ⟨before, rfl, hrest⟩
      · exact nested_nil _
      · exact (ih before after hrest).cons rfl Token.noConfusion rfl rfl
  | aside a rest ih =>
      intro before after h
      rcases List.cons_eq_append_iff.mp h with ⟨rfl, -⟩ | ⟨before, rfl, hrest⟩
      · exact nested_nil _
      · exact (ih before after hrest).cons rfl Token.noConfusion rfl rfl
  | array body rest ihb ih =>
      intro before after h
      exact nested_container rfl rfl (by simp [Format.lens, Nat.add_assoc]) ihb ih h
  | dict body rest ihb ih =>
      intro before after h
      exact nested_container rfl rfl (by simp [Format.lens, Nat.add_assoc]) ihb ih h

/-! ### The first pass

The number of counters in use is the number of brackets that were opened, and one for the whole;
the height of the stack is the difference.  Each access of a step is at one of these, and they are
bounded by the numbers of containers and levels.
-/

/-- The counters of the first pass, once it has passed these labels. -/
structure Count.After (st : Count) (passed : List Token) : Prop where
  used : st.subLengths.length = opens passed + 1
  cur : st.curLen < st.subLengths.length
  stack : ∀ k ∈ st.lenStack, k < st.subLengths.length
  height : st.lenStack.length + closes passed = opens passed

theorem Count.after_start : Count.start.After [] :=
  ⟨rfl, Nat.zero_lt_one, fun _ h => absurd h List.not_mem_nil, rfl⟩

/-- A place in a format, with a label after it, and the bounds the format keeps. -/
structure Place (size : Nat) (f : Format) (passed : List Token) (t : Token) : Prop where
  before : Nested f passed
  behind : Nested f (passed ++ [t])
  deep : f.depth < 127
  few : f.lens.length < size

section Place

variable {size : Nat} {f : Format} {passed : List Token} {t : Token}

/-- Where a bracket opens, the format has one more container, and one level more. -/
theorem Place.opening (h : Place size f passed t) (ht : t = .openArray ∨ t = .openDict) :
    opens (passed ++ [t]) = opens passed + 1 ∧ closes (passed ++ [t]) = closes passed ∧
      opens passed + 1 ≤ f.lens.length ∧ opens passed < closes passed + 127 := by
  obtain ⟨hopens, hcloses⟩ := opened_last passed ht
  have hdeep := h.behind.deep
  have hopened := h.behind.opened
  have hsmall := h.deep
  exact ⟨hopens, hcloses, by omega, by omega⟩

/-- Where a bracket closes, one is open. -/
theorem Place.closing (h : Place size f passed .close) :
    opens (passed ++ [.close]) = opens passed ∧ closes (passed ++ [.close]) = closes passed + 1 ∧
      closes passed < opens passed := by
  obtain ⟨hopens, hcloses⟩ := closed_last passed
  have hclosed := h.behind.closed
  exact ⟨hopens, hcloses, by omega⟩

variable {st : Count}

theorem Count.After.opening (h : st.After passed) (hplace : Place size f passed t)
    (ht : t = .openArray ∨ t = .openDict) :
    ∃ st', countToken size st t = .ok st' ∧ st'.After (passed ++ [t]) := by
  obtain ⟨hopens, hcloses, hopened, hdeep⟩ := hplace.opening ht
  have hfew := hplace.few
  have hused := h.used
  have hheight := h.height
  refine ⟨_, countToken_open (by omega) (by omega) ht, ?_, ?_, ?_, ?_⟩
  · simp only [List.length_append, addTo_length, List.length_singleton]
    omega
  · simp
  · intro k hk
    simp only [List.length_append, addTo_length, List.length_singleton]
    rcases List.mem_cons.mp hk with rfl | hk
    · exact Nat.lt_succ_of_lt h.cur
    · exact Nat.lt_succ_of_lt (h.stack k hk)
  · simp only [List.length_cons]
    omega

/-- A label that is no bracket. -/
theorem Count.After.same {st' : Count} (h : st.After passed) (hopen : t.isOpen = false)
    (hclose : t ≠ .close) (hused : st'.subLengths.length = st.subLengths.length)
    (hcur : st'.curLen = st.curLen) (hstack : st'.lenStack = st.lenStack) :
    st'.After (passed ++ [t]) := by
  obtain ⟨hopens, hcloses⟩ := same_last passed hopen hclose
  exact
    { used := by rw [hused, hopens]; exact h.used
      cur := by rw [hcur, hused]; exact h.cur
      stack := by rw [hstack, hused]; exact h.stack
      height := by rw [hstack, hopens, hcloses]; exact h.height }

/-- A step of the first pass. -/
theorem Count.After.step (h : st.After passed) (hplace : Place size f passed t) :
    ∃ st', countToken size st t = .ok st' ∧ st'.After (passed ++ [t]) := by
  cases t with
  | openArray => exact h.opening hplace (Or.inl rfl)
  | openDict => exact h.opening hplace (Or.inr rfl)
  | value k =>
      exact ⟨_, rfl, h.same rfl Token.noConfusion (addTo_length st.subLengths st.curLen 1) rfl rfl⟩
  | aside a => exact ⟨_, rfl, h.same rfl Token.noConfusion rfl rfl rfl⟩
  | close =>
      obtain ⟨hopens, hcloses, hlt⟩ := hplace.closing
      have hheight := h.height
      cases hstack : st.lenStack with
      | nil =>
          rw [hstack, List.length_nil] at hheight
          omega
      | cons cur stack =>
          rw [hstack, List.length_cons] at hheight
          have hmem : ∀ k ∈ cur :: stack, k < st.subLengths.length := hstack ▸ h.stack
          refine ⟨{ st with curLen := cur, lenStack := stack }, ?_, ?_, ?_, ?_, ?_⟩
          · rw [countToken, hstack]
            rfl
          · rw [hopens]
            exact h.used
          · exact hmem cur List.mem_cons_self
          · exact fun k hk => hmem k (List.mem_cons_of_mem _ hk)
          · show stack.length + _ = _
            omega

/-- What the first pass accesses there. -/
theorem Count.After.accesses (h : st.After passed) (hplace : Place size f passed t) :
    ∀ a ∈ st.accesses size t, a.Ok := by
  have hused := h.used
  have hheight := h.height
  have hcur := h.cur
  have hopened := hplace.before.opened
  have hfew := hplace.few
  have hopen : t = .openArray ∨ t = .openDict → ∀ a ∈ [Access.element st.curLen size,
      .push st.lenStack.length, .element st.subLengths.length size], a.Ok := fun ht => by
    obtain ⟨-, -, hopened, hdeep⟩ := hplace.opening ht
    refine List.forall_mem_cons.mpr ⟨?_, List.forall_mem_cons.mpr ⟨?_,
      List.forall_mem_singleton.mpr ?_⟩⟩
    · show st.curLen < size
      omega
    · show st.lenStack.length < 128
      omega
    · show st.subLengths.length < size
      omega
  cases t with
  | value k => exact List.forall_mem_singleton.mpr (by show st.curLen < size; omega)
  | aside k => exact fun a ha => absurd ha List.not_mem_nil
  | close =>
      obtain ⟨-, -, hlt⟩ := hplace.closing
      exact List.forall_mem_singleton.mpr (by show 0 < st.lenStack.length; omega)
  | openArray => exact hopen (Or.inl rfl)
  | openDict => exact hopen (Or.inr rfl)

end Place

/-- The places of a format. -/
theorem place {size : Nat} {f : Format} {before after : List Token} {t : Token}
    (h : f.labels = before ++ t :: after) (hdepth : f.depth < 127) (hsize : f.lens.length < size) :
    Place size f before t :=
  { before := nested f before (t :: after) h
    behind := nested f (before ++ [t]) after (by simpa using h)
    deep := hdepth
    few := hsize }

/-- The first pass gets to every place of a format. -/
theorem count_after {size : Nat} {f : Format} (hdepth : f.depth < 127) (hsize : f.lens.length < size) :
    ∀ {before after : List Token}, f.labels = before ++ after →
    ∃ st, before.foldlM (countToken size) .start = .ok st ∧ st.After before := by
  intro before
  induction before using List.reverseRecOn with
  | nil => intro after _; exact ⟨_, rfl, Count.after_start⟩
  | append_singleton before t ih =>
      intro after h
      rw [List.append_assoc] at h
      obtain ⟨st, hrun, hst⟩ := ih h
      obtain ⟨st', hstep, hst'⟩ := hst.step (place h hdepth hsize)
      refine ⟨st', ?_, hst'⟩
      rw [List.foldlM_append, hrun, Fault.ok_bind, List.foldlM_cons, hstep]
      rfl

/-! ### The second pass

It takes the counts of the first pass in order, one for each bracket that opens, so it never takes
more than were put down.  Its two stacks are as high as each other, and one higher than that of
the first pass.
-/

/-- The counters of the second pass, once it has passed these labels. -/
structure Emit.After (st : Emit) (passed : List Token) : Prop where
  lenCtr : st.lenCtr = opens passed + 1
  used : st.subCtrs.length = opens passed + 1
  cur : st.curCtr < st.subCtrs.length
  stack : ∀ k ∈ st.lenStack, k < st.subCtrs.length
  height : st.lenStack.length + closes passed = opens passed + 1
  heights : st.dictStack.length = st.lenStack.length

theorem Emit.after_start (src : Source) : (Emit.start src).After [] :=
  { lenCtr := rfl, used := rfl, cur := Nat.zero_lt_one
    stack := fun k hk => by rw [List.mem_singleton.mp hk]; exact Nat.zero_lt_one
    height := rfl, heights := rfl }

/-- A container is opened, once its header has been encoded. -/
theorem Emit.After.openContainer {st st' : Emit} {passed : List Token} {t : Token} {size : Nat}
    {isDict : Bool} (h : st.After passed) (ht : t = .openArray ∨ t = .openDict)
    (hrun : openContainer size isDict st = .ok st') : st'.After (passed ++ [t]) := by
  obtain ⟨hopens, hcloses⟩ := opened_last passed ht
  obtain ⟨dictStack, hdict, hrun⟩ := Fault.bind_eq_ok.mp hrun
  obtain ⟨lenStack, hlen, hrun⟩ := Fault.bind_eq_ok.mp hrun
  obtain rfl := push_eq_ok hdict
  obtain rfl := push_eq_ok hlen
  split at hrun
  · obtain rfl := Except.ok.inj hrun
    have hused : (bump (st.subCtrs ++ [0]) st.subCtrs.length).length = st.subCtrs.length + 1 := by
      rw [bump_eq, addTo_length, List.length_append, List.length_singleton]
    have hheight := h.height
    exact
      { lenCtr := by rw [hopens, ← h.lenCtr]
        used := by rw [hopens, ← h.used]; exact hused
        cur := Nat.lt_of_lt_of_eq (Nat.lt_succ_self _) hused.symm
        stack := by
          intro k hk
          refine Nat.lt_of_lt_of_eq ?_ hused.symm
          rcases List.mem_cons.mp hk with rfl | hk
          · exact Nat.lt_succ_of_lt h.cur
          · exact Nat.lt_succ_of_lt (h.stack k hk)
        height := by simp only [List.length_cons]; omega
        heights := congrArg (· + 1) h.heights }
  · cases hrun

theorem pop_eq_ok {α : Type} {stack : List α} {r : α × List α} (h : pop stack = .ok r) :
    stack = r.1 :: r.2 := by
  cases stack with
  | nil => cases h
  | cons val stack =>
      obtain rfl := Except.ok.inj h
      rfl

/-- A container is closed, and the one around it has one more element. -/
theorem Emit.After.closeContainer {lib : BStringLib} {subLengths : List Nat} {st st' : Emit}
    {passed : List Token} (h : st.After passed)
    (hrun : emitToken lib subLengths st .close = .ok st') : st'.After (passed ++ [.close]) := by
  obtain ⟨⟨isDict, dictStack⟩, hdict, hrun⟩ := Fault.bind_eq_ok.mp hrun
  obtain ⟨⟨cur, lenStack⟩, hlen, hrun⟩ := Fault.bind_eq_ok.mp hrun
  obtain rfl := Except.ok.inj hrun
  obtain ⟨hopens, hcloses⟩ := closed_last passed
  have hused : (bump st.subCtrs cur).length = st.subCtrs.length := addTo_length _ _ _
  have hdicts := congrArg List.length (pop_eq_ok hdict)
  have hlens := congrArg List.length (pop_eq_ok hlen)
  simp only [List.length_cons] at hdicts hlens
  have hmem : ∀ k ∈ cur :: lenStack, k < st.subCtrs.length := pop_eq_ok hlen ▸ h.stack
  have hheight := h.height
  have hheights := h.heights
  exact
    { lenCtr := hopens ▸ h.lenCtr
      used := by rw [hopens, ← h.used]; exact hused
      cur := Nat.lt_of_lt_of_eq (hmem cur List.mem_cons_self) hused.symm
      stack := fun k hk => Nat.lt_of_lt_of_eq (hmem k (List.mem_cons_of_mem _ hk)) hused.symm
      height := by show lenStack.length + _ = _; omega
      heights := by show dictStack.length = lenStack.length; omega }

/-- A label that is no bracket. -/
theorem Emit.After.same {st st' : Emit} {passed : List Token} {t : Token} (h : st.After passed)
    (hopen : t.isOpen = false) (hclose : t ≠ .close) (hctr : st'.lenCtr = st.lenCtr)
    (hused : st'.subCtrs.length = st.subCtrs.length) (hcur : st'.curCtr = st.curCtr)
    (hlen : st'.lenStack = st.lenStack) (hdict : st'.dictStack = st.dictStack) :
    st'.After (passed ++ [t]) := by
  obtain ⟨hopens, hcloses⟩ := same_last passed hopen hclose
  exact
    { lenCtr := by rw [hctr, hopens]; exact h.lenCtr
      used := by rw [hused, hopens]; exact h.used
      cur := by rw [hcur, hused]; exact h.cur
      stack := by rw [hlen, hused]; exact h.stack
      height := by rw [hlen, hopens, hcloses]; exact h.height
      heights := by rw [hdict, hlen]; exact h.heights }

/-- A step of the second pass, if it gets through. -/
theorem Emit.After.step {lib : BStringLib} {subLengths : List Nat} {st st' : Emit}
    {passed : List Token} {t : Token} (h : st.After passed)
    (hrun : emitToken lib subLengths st t = .ok st') : st'.After (passed ++ [t]) := by
  cases t with
  | openArray =>
      obtain ⟨len, -, hrun⟩ := Fault.bind_eq_ok.mp hrun
      obtain ⟨pack, -, hrun⟩ := Fault.bind_eq_ok.mp hrun
      have hst : Emit.After { st with pack := pack } passed := { h with }
      exact hst.openContainer (Or.inl rfl) hrun
  | openDict =>
      obtain ⟨len, -, hrun⟩ := Fault.bind_eq_ok.mp hrun
      split at hrun
      · cases hrun
      obtain ⟨pack, -, hrun⟩ := Fault.bind_eq_ok.mp hrun
      have hst : Emit.After { st with pack := pack } passed := { h with }
      exact hst.openContainer (Or.inr rfl) hrun
  | value k =>
      obtain ⟨v, -, hrun⟩ := Fault.bind_eq_ok.mp hrun
      obtain ⟨pack, -, hrun⟩ := Fault.bind_eq_ok.mp hrun
      obtain rfl := Except.ok.inj hrun
      exact h.same rfl Token.noConfusion rfl (addTo_length st.subCtrs st.curCtr 1) rfl rfl rfl
  | aside a =>
      obtain ⟨src, -, hrun⟩ := Fault.bind_eq_ok.mp hrun
      obtain rfl := Except.ok.inj hrun
      exact h.same rfl Token.noConfusion rfl rfl rfl rfl rfl
  | close => exact h.closeContainer hrun

theorem emit_after {lib : BStringLib} {subLengths : List Nat} {src : Source} :
    ∀ {passed : List Token} {st : Emit},
    passed.foldlM (emitToken lib subLengths) (.start src) = .ok st → st.After passed := by
  intro passed
  induction passed using List.reverseRecOn with
  | nil =>
      intro st hrun
      obtain rfl := Except.ok.inj hrun
      exact Emit.after_start src
  | append_singleton passed t ih =>
      intro st hrun
      rw [List.foldlM_append] at hrun
      obtain ⟨st1, hrun1, hstep⟩ := Fault.bind_eq_ok.mp hrun
      rw [List.foldlM_cons] at hstep
      obtain ⟨st2, htoken, hnil⟩ := Fault.bind_eq_ok.mp hstep
      obtain rfl := Except.ok.inj hnil
      exact (ih hrun1).step htoken

/-- What the second pass accesses at a place, after a first pass over the same format. -/
theorem Emit.After.accesses {size : Nat} {f : Format} {st : Emit} {passed : List Token} {t : Token}
    (h : st.After passed) (hplace : Place size f passed t) :
    ∀ a ∈ st.accesses (f.items :: f.lens) t, a.Ok := by
  have hused := h.used
  have hcur := h.cur
  have hheight := h.height
  have hheights := h.heights
  have hctr := h.lenCtr
  have hopened := hplace.before.opened
  have hlength : (f.items :: f.lens).length = f.lens.length + 1 := List.length_cons
  have hopen : t = .openArray ∨ t = .openDict →
      ∀ a ∈ [Access.element st.lenCtr (f.items :: f.lens).length, .push st.dictStack.length,
        .push st.lenStack.length, .element st.subCtrs.length ((f.items :: f.lens).length + 1)],
      a.Ok := fun ht => by
    obtain ⟨-, -, hopened, hdeep⟩ := hplace.opening ht
    refine List.forall_mem_cons.mpr ⟨?_, List.forall_mem_cons.mpr ⟨?_, List.forall_mem_cons.mpr
      ⟨?_, List.forall_mem_singleton.mpr ?_⟩⟩⟩
    · show st.lenCtr < _
      omega
    · show st.dictStack.length < 128
      omega
    · show st.lenStack.length < 128
      omega
    · show st.subCtrs.length < _
      omega
  cases t with
  | value k => exact List.forall_mem_singleton.mpr (by show st.curCtr < _; omega)
  | aside k => exact fun a ha => absurd ha List.not_mem_nil
  | close =>
      obtain ⟨-, -, hlt⟩ := hplace.closing
      refine List.forall_mem_cons.mpr ⟨?_, List.forall_mem_cons.mpr ⟨?_,
        List.forall_mem_singleton.mpr ?_⟩⟩
      · show 0 < st.dictStack.length
        omega
      · show 0 < st.lenStack.length
        omega
      · -- The counter on top of the stack is one in use.
        show st.lenStack.headD 0 < _
        cases hstack : st.lenStack with
        | nil =>
            rw [hstack, List.length_nil] at hheight
            omega
        | cons cur stack =>
            have := h.stack cur (hstack ▸ List.mem_cons_self)
            show cur < _
            omega
  | openArray => exact hopen (Or.inl rfl)
  | openDict => exact hopen (Or.inr rfl)

/-! ### The characters of a format

The bounds have been shown for labels.  Each character of a format that has been accepted is a
label, so at every character the state is that of the labels in front of it.
-/

/-- The labels in front of a character and behind it. -/
theorem tokens_split : ∀ {before after : List Char} {ch : Char} {t : Token} {ts : List Token},
    tokens? (before ++ ch :: after) = some ts → token? ch = some t →
    ∃ pre post, tokens? before = some pre ∧ ts = pre ++ t :: post := by
  intro before
  induction before with
  | nil =>
      intro after ch t ts h ht
      obtain ⟨t', ht', h⟩ := Option.bind_eq_some_iff.mp h
      obtain ⟨post, -, h⟩ := Option.bind_eq_some_iff.mp h
      obtain rfl := Option.some.inj h
      obtain rfl := Option.some.inj (ht.symm.trans ht')
      exact ⟨[], post, rfl, rfl⟩
  | cons c before ih =>
      intro after ch t ts h ht
      obtain ⟨t', ht', h⟩ := Option.bind_eq_some_iff.mp h
      obtain ⟨rest, hrest, h⟩ := Option.bind_eq_some_iff.mp h
      obtain rfl := Option.some.inj h
      obtain ⟨pre, post, hpre, rfl⟩ := ih hrest ht
      refine ⟨t' :: pre, post, ?_, rfl⟩
      rw [tokens?, ht', hpre]
      rfl

/-- A format that is nested less than 127 deep, with few containers, keeps all bounds. -/
theorem inBounds_of_tokens {size : Nat} {fmt : List Char} {f : Format}
    (h : tokens? fmt = some f.labels) (hdepth : f.depth < 127) (hsize : f.lens.length < size) :
    CountInBounds size fmt ∧ ∀ lib src, EmitInBounds lib (f.items :: f.lens) fmt src := by
  constructor
  · rintro before ch after t rfl ht
    obtain ⟨pre, post, hpre, hlabels⟩ := tokens_split h ht
    obtain ⟨st, hrun, hst⟩ := count_after hdepth hsize hlabels
    exact ⟨st, (countLoop_eq size hpre _).trans hrun, hst.accesses (place hlabels hdepth hsize)⟩
  · rintro lib src before ch after t st rfl ht hrun
    obtain ⟨pre, post, hpre, hlabels⟩ := tokens_split h ht
    rw [emitLoop_eq lib _ hpre] at hrun
    exact (emit_after hrun).accesses (place hlabels hdepth hsize)

end TagHighlight
