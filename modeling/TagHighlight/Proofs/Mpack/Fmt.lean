/-
`mpack_encode_fmt` encodes what its format denotes.

Both passes run over the labels of the format; what is proved about them follows its
nesting.  Each pass has one lemma, for a stretch of elements in the middle of a format,
which says in what state the pass leaves the stretch.  The first pass leaves the counts
`lens` behind, in the order in which the second one, at each container it opens, takes
one away; that is why the two agree.

Where the arguments come from is not looked into here.  What the caller has supplied is said in
`Supplies`, and `Proofs/Mpack/Supply` shows that the second pass takes just that; so in this
module a stretch of the format has its values, in order, and the question is only what tree they
make.
-/
import TagHighlight.Proofs.Mpack.Room
import TagHighlight.Proofs.Mpack.Supply

namespace TagHighlight

/-! ### Elements and their labels

The source has no parser: it reads labels, and keeps its place with counters.  A `Format` is the
nesting that these counters stand for.  It has the labels it was read from, and the parser gives
it back for them, so nothing is lost in going from the one to the other.
-/

namespace Format

/-- The labels of a format. -/
def labels : Format → List Token
  | nil => []
  | value k rest => .value k :: rest.labels
  | aside a rest => .aside a :: rest.labels
  | array body rest => .openArray :: (body.labels ++ .close :: rest.labels)
  | dict body rest => .openDict :: (body.labels ++ .close :: rest.labels)

theorem labels_append (f g : Format) : (f.append g).labels = f.labels ++ g.labels := by
  induction f with
  | nil => rfl
  | value k rest ih => simp [append, labels, ih]
  | aside a rest ih => simp [append, labels, ih]
  | array body rest _ ih => simp [append, labels, ih]
  | dict body rest _ ih => simp [append, labels, ih]

end Format

/-- The labels up to the innermost container that is open. -/
def openLabels : List (Bool × Format) → List Token
  | [] => []
  | (isDict, before) :: outer =>
      openLabels outer ++ before.labels ++ [if isDict then .openDict else .openArray]

namespace Format

theorem append_nil (f : Format) : f.append nil = f := by
  induction f with
  | nil => rfl
  | value k rest ih => rw [append, ih]
  | aside a rest ih => rw [append, ih]
  | array body rest _ ih => rw [append, ih]
  | dict body rest _ ih => rw [append, ih]

theorem append_assoc (f g h : Format) : (f.append g).append h = f.append (g.append h) := by
  induction f with
  | nil => rfl
  | value k rest ih => simp only [append, ih]
  | aside a rest ih => simp only [append, ih]
  | array body rest _ ih => simp only [append, ih]
  | dict body rest _ ih => simp only [append, ih]

end Format

/-- The labels of a format are read as that format. -/
theorem parseTokens_labels (f : Format) : ∀ (ts : List Token) (outer : List (Bool × Format))
    (cur : Format), parseTokens (f.labels ++ ts) outer cur = parseTokens ts outer (cur.append f) := by
  induction f with
  | nil =>
      intro ts outer cur
      rw [Format.append_nil]
      rfl
  | value k rest ih =>
      intro ts outer cur
      rw [Format.labels, List.cons_append, parseTokens, ih, Format.append_assoc]
      rfl
  | aside a rest ih =>
      intro ts outer cur
      rw [Format.labels, List.cons_append, parseTokens, ih, Format.append_assoc]
      rfl
  | array body rest ihb ih =>
      intro ts outer cur
      rw [Format.labels, List.cons_append, parseTokens, List.append_assoc, ihb, List.cons_append,
        parseTokens, ih, Format.append_assoc]
      rfl
  | dict body rest ihb ih =>
      intro ts outer cur
      rw [Format.labels, List.cons_append, parseTokens, List.append_assoc, ihb, List.cons_append,
        parseTokens, ih, Format.append_assoc]
      rfl

theorem parseFmt_of_tokens {fmt : List Char} {body : Format} (h : tokens? fmt = some body.labels) :
    parseFmt fmt = some body := by
  have hparse := parseTokens_labels body [] [] .nil
  rw [List.append_nil] at hparse
  rw [parseFmt, h]
  exact hparse

theorem tokens_append {fmt fmt' : List Char} {ts ts' : List Token} (h : tokens? fmt = some ts)
    (h' : tokens? fmt' = some ts') : tokens? (fmt ++ fmt') = some (ts ++ ts') := by
  induction fmt generalizing ts with
  | nil =>
      obtain rfl := Option.some.inj h
      exact h'
  | cons ch fmt ih =>
      obtain ⟨t, ht, h⟩ := Option.bind_eq_some_iff.mp h
      obtain ⟨rest, hrest, h⟩ := Option.bind_eq_some_iff.mp h
      obtain rfl := Option.some.inj h
      rw [List.cons_append, tokens?, ht, ih hrest]
      rfl

theorem labels_parseTokens : ∀ {ts : List Token} {outer : List (Bool × Format)}
    {cur body : Format}, parseTokens ts outer cur = some body →
    body.labels = openLabels outer ++ cur.labels ++ ts := by
  intro ts
  induction ts with
  | nil =>
      intro outer cur body h
      cases outer with
      | nil =>
          obtain rfl := Option.some.inj h
          simp [openLabels]
      | cons o outer => simp [parseTokens] at h
  | cons t ts ih =>
      intro outer cur body h
      cases t with
      | value k => simpa [Format.labels_append, Format.labels] using ih h
      | aside a => simpa [Format.labels_append, Format.labels] using ih h
      | openArray => simpa [openLabels, Format.labels] using ih h
      | openDict => simpa [openLabels, Format.labels] using ih h
      | close =>
          cases outer with
          | nil => simp [parseTokens] at h
          | cons o outer =>
              obtain ⟨isDict, before⟩ := o
              cases isDict with
              | false =>
                  simpa [openLabels, Format.labels_append, Format.labels, Format.container] using ih h
              | true =>
                  simpa [openLabels, Format.labels_append, Format.labels, Format.container] using ih h

/-- A format is the labels of its elements. -/
theorem tokens_of_parseFmt {fmt : List Char} {body : Format} (h : parseFmt fmt = some body) :
    tokens? fmt = some body.labels := by
  cases hts : tokens? fmt with
  | none => simp [parseFmt, hts] at h
  | some ts =>
      have hparse : parseTokens ts [] .nil = some body := by simpa [parseFmt, hts] using h
      have := labels_parseTokens hparse
      simp only [openLabels, Format.labels, List.nil_append] at this
      rw [this]

/-! ### The loops, on labels -/

/-- A loop that does the same step for each character goes over the labels. -/
theorem foldlM_of_tokens {σ : Type} {loop : List Char → σ → Except Fault σ}
    {step : σ → Token → Except Fault σ} (hnil : ∀ st, loop [] st = .ok st)
    (hcons : ∀ {ch t}, token? ch = some t → ∀ fmt st, loop (ch :: fmt) st = step st t >>= loop fmt)
    {fmt : List Char} {ts : List Token} (h : tokens? fmt = some ts) (st : σ) :
    loop fmt st = ts.foldlM step st := by
  induction fmt generalizing ts st with
  | nil =>
      obtain rfl := Option.some.inj h
      exact hnil st
  | cons ch fmt ih =>
      cases ht : token? ch with
      | none => simp [tokens?, ht] at h
      | some t =>
          cases hts : tokens? fmt with
          | none => simp [tokens?, ht, hts] at h
          | some rest =>
              obtain rfl : t :: rest = ts := by simpa [tokens?, ht, hts] using h
              rw [hcons ht, List.foldlM_cons]
              exact bind_congr fun st' => ih hts st'

theorem countLoop_eq (size : Nat) {fmt : List Char} {ts : List Token} (h : tokens? fmt = some ts)
    (st : Count) : countLoop size fmt st = ts.foldlM (countToken size) st := by
  refine foldlM_of_tokens (fun _ => rfl) (fun ht fmt st => ?_) h st
  rw [countLoop, ht]

theorem emitLoop_eq (lib : BStringLib) (L : List Nat) {fmt : List Char} {ts : List Token}
    (h : tokens? fmt = some ts) (st : Emit) :
    emitLoop lib L fmt st = ts.foldlM (emitToken lib L) st := by
  refine foldlM_of_tokens (fun _ => rfl) (fun ht fmt st => ?_) h st
  rw [emitLoop, ht]

/-! ### The first pass

The first pass adds every item to the counter on the top of its stack and gives every container a
counter of its own.  So a stretch of a format changes one counter that was there before, and puts
new ones behind all of them, in pre-order.
-/

/-- `n` more elements for the counter `cur`. -/
def addTo (counters : List Nat) (cur n : Nat) : List Nat := counters.modify cur (· + n)

@[simp] theorem addTo_length (counters : List Nat) (cur n : Nat) :
    (addTo counters cur n).length = counters.length := by
  simp [addTo]

theorem bump_eq (counters : List Nat) (cur : Nat) : bump counters cur = addTo counters cur 1 := rfl

theorem addTo_zero (counters : List Nat) (cur : Nat) : addTo counters cur 0 = counters := by
  simp only [addTo, Nat.add_zero]
  exact List.modify_id cur counters

theorem addTo_addTo (counters : List Nat) (cur a b : Nat) :
    addTo (addTo counters cur a) cur b = addTo counters cur (a + b) := by
  simp only [addTo, List.modify_modify_eq]
  congr 1
  funext x
  simp only [Function.comp_apply]
  omega

theorem addTo_append : ∀ {counters : List Nat} {cur : Nat}, cur < counters.length →
    ∀ (more : List Nat) (n : Nat), addTo (counters ++ more) cur n = addTo counters cur n ++ more := by
  intro counters
  induction counters with
  | nil => intro cur h; simp at h
  | cons a counters ih =>
      intro cur h more n
      cases cur with
      | zero => simp [addTo]
      | succ cur =>
          have := ih (by simpa using h) more n
          simpa [addTo] using this

theorem addTo_last (counters : List Nat) (a n : Nat) :
    addTo (counters ++ [a]) counters.length n = counters ++ [a + n] := by
  induction counters with
  | nil => simp [addTo]
  | cons b counters ih => simpa [addTo] using ih

theorem push_of_lt {α : Type} {stack : List α} (h : stack.length < 128) (val : α) :
    push stack val = .ok (val :: stack) := if_pos h

theorem push_eq_ok {α : Type} {stack stack' : List α} {val : α} (h : push stack val = .ok stack') :
    stack' = val :: stack := by
  rw [push] at h
  split at h
  · exact (Except.ok.inj h).symm
  · cases h

/-- The first pass opens arrays and dictionaries alike. -/
theorem countToken_open {size : Nat} {st : Count} (hstack : st.lenStack.length < 128)
    (hsize : st.subLengths.length < size) {t : Token} (ht : t = .openArray ∨ t = .openDict) :
    countToken size st t = .ok
      { subLengths := addTo st.subLengths st.curLen 1 ++ [0], curLen := st.subLengths.length
        lenStack := st.curLen :: st.lenStack } := by
  rcases ht with rfl | rfl <;>
    simp [countToken, push_of_lt hstack, bump_eq, hsize]

theorem lenStack_open {size : Nat} {st st' : Count} {t : Token} (ht : t = .openArray ∨ t = .openDict)
    (h : countToken size st t = .ok st') : st'.lenStack = st.curLen :: st.lenStack := by
  rcases ht with rfl | rfl <;>
  · obtain ⟨lenStack, hpush, h⟩ := Fault.bind_eq_ok.mp h
    split at h
    · obtain rfl := Except.ok.inj h
      exact push_eq_ok hpush
    · cases h

/--
What the first pass does to a stretch of a format: its items are added to the current
counter, and the counts of its containers come after those already there.
-/
def Counted (size : Nat) (f : Format) : Prop :=
  ∀ st : Count, st.lenStack.length + f.depth ≤ 128 → st.subLengths.length + f.lens.length ≤ size →
    st.curLen < st.subLengths.length →
    f.labels.foldlM (countToken size) st =
      .ok { st with subLengths := addTo st.subLengths st.curLen f.items ++ f.lens }

theorem counted_container {size : Nat} {body rest : Format} {t : Token}
    (ht : t = .openArray ∨ t = .openDict) (hbody : Counted size body) (hrest : Counted size rest)
    (st : Count) (hdepth : st.lenStack.length + max (body.depth + 1) rest.depth ≤ 128)
    (hsize : st.subLengths.length + (body.lens.length + rest.lens.length + 1) ≤ size)
    (hcur : st.curLen < st.subLengths.length) :
    (t :: (body.labels ++ .close :: rest.labels)).foldlM (countToken size) st =
      .ok { st with subLengths := addTo st.subLengths st.curLen (rest.items + 1) ++
              body.items :: (body.lens ++ rest.lens) } := by
  rw [List.foldlM_cons, countToken_open (by omega) (by omega) ht, Fault.ok_bind, List.foldlM_append,
    hbody _ (by simp only [List.length_cons]; omega)
      (by simp only [List.length_append, addTo_length, List.length_singleton]; omega)
      (by simp), Fault.ok_bind, List.foldlM_cons]
  have hlast : addTo (addTo st.subLengths st.curLen 1 ++ [0]) st.subLengths.length body.items =
      addTo st.subLengths st.curLen 1 ++ [body.items] := by
    have := addTo_last (addTo st.subLengths st.curLen 1) 0 body.items
    simpa using this
  simp only [countToken, pop, Fault.ok_bind, hlast]
  rw [hrest _ (by simp only; omega)
    (by simp only [List.length_append, addTo_length, List.length_singleton]; omega)
    (by simp only [List.length_append, addTo_length, List.length_singleton]; omega)]
  rw [List.append_assoc, addTo_append (by simpa using hcur), addTo_addTo, Nat.add_comm 1]
  simp

theorem counted (size : Nat) (f : Format) : Counted size f := by
  induction f with
  | nil => intro st _ _ _; simp [Format.labels, Format.items, Format.lens, addTo_zero]
  | value k rest ih =>
      intro st hdepth hsize hcur
      simp only [Format.labels, List.foldlM_cons, countToken, Fault.ok_bind, bump_eq]
      rw [ih { st with subLengths := addTo st.subLengths st.curLen 1 } hdepth
        (by simpa [Format.lens] using hsize) (by simpa using hcur)]
      simp [addTo_addTo, Format.items, Format.lens, Nat.add_comm]
  | aside a rest ih =>
      intro st hdepth hsize hcur
      simp only [Format.labels, List.foldlM_cons, countToken, Fault.ok_bind]
      exact ih st hdepth hsize hcur
  | array body rest ihb ih =>
      intro st hdepth hsize hcur
      exact counted_container (Or.inl rfl) ihb ih st hdepth
        (by simpa [Format.lens, Nat.add_assoc] using hsize) hcur
  | dict body rest ihb ih =>
      intro st hdepth hsize hcur
      exact counted_container (Or.inr rfl) ihb ih st hdepth
        (by simpa [Format.lens, Nat.add_assoc] using hsize) hcur

/-! ### What the first pass accepts

It fails when a bracket is closed that was not opened, or when one is left open, or when its
arrays have no room.  Conversely a format it gets through has matching brackets, and fewer
containers than the array has places: both are read off the heights of its stack.
-/

/-- The brackets of a format the first pass gets through match. -/
theorem parseTokens_of_count (size : Nat) : ∀ {ts : List Token} {st st' : Count}
    {outer : List (Bool × Format)} (cur : Format), ts.foldlM (countToken size) st = .ok st' →
    st'.lenStack = [] → st.lenStack.length = outer.length → (parseTokens ts outer cur).isSome := by
  intro ts
  induction ts with
  | nil =>
      intro st st' outer cur hrun hnil hlen
      obtain rfl : st = st' := Except.ok.inj hrun
      cases outer with
      | nil => rfl
      | cons o outer => simp [hnil] at hlen
  | cons t ts ih =>
      intro st st' outer cur hrun hnil hlen
      rw [List.foldlM_cons] at hrun
      obtain ⟨st1, hstep, hrest⟩ := Fault.bind_eq_ok.mp hrun
      cases t with
      | value k =>
          obtain rfl := Except.ok.inj hstep
          exact ih _ hrest hnil hlen
      | aside a =>
          obtain rfl := Except.ok.inj hstep
          exact ih _ hrest hnil hlen
      | openArray =>
          exact ih _ hrest hnil (by simp [lenStack_open (Or.inl rfl) hstep, hlen])
      | openDict =>
          exact ih _ hrest hnil (by simp [lenStack_open (Or.inr rfl) hstep, hlen])
      | close =>
          obtain ⟨x, hpop, hstep⟩ := Fault.bind_eq_ok.mp hstep
          obtain rfl := Except.ok.inj hstep
          cases hstack : st.lenStack with
          | nil => simp [hstack, pop] at hpop
          | cons c stack =>
              rw [hstack] at hpop hlen
              obtain rfl := Except.ok.inj hpop
              cases outer with
              | nil => simp at hlen
              | cons o outer => exact ih _ hrest hnil (by simpa using hlen)

theorem tokens_of_countLoop (size : Nat) : ∀ {fmt : List Char} {st st' : Count},
    countLoop size fmt st = .ok st' → ∃ ts, tokens? fmt = some ts := by
  intro fmt
  induction fmt with
  | nil => intro st st' _; exact ⟨[], rfl⟩
  | cons ch fmt ih =>
      intro st st' h
      rw [countLoop] at h
      cases ht : token? ch with
      | none => simp [ht] at h
      | some t =>
          rw [ht] at h
          obtain ⟨st1, -, hrest⟩ := Fault.bind_eq_ok.mp h
          obtain ⟨ts, hts⟩ := ih hrest
          exact ⟨t :: ts, by simp [tokens?, ht, hts]⟩

/-- What the first pass accepts has matching brackets. -/
theorem parseFmt_of_countFmt {size : Nat} {fmt : List Char} {L : List Nat}
    (h : countFmt size fmt = .ok L) : ∃ body, parseFmt fmt = some body := by
  obtain ⟨st, hrun, htests⟩ := Fault.bind_eq_ok.mp h
  obtain ⟨ts, hts⟩ := tokens_of_countLoop size hrun
  rw [countLoop_eq size hts] at hrun
  have hnil : st.lenStack = [] := by
    by_contra hne
    rw [if_pos (by simpa using hne)] at htests
    cases htests
  have hparse : (parseTokens ts [] .nil).isSome := parseTokens_of_count size .nil hrun hnil rfl
  obtain ⟨body, hbody⟩ := Option.isSome_iff_exists.mp hparse
  exact ⟨body, by simp [parseFmt, hts, hbody]⟩

/-- A format with one item whose containers fit is accepted. -/
theorem countFmt_of_parseFmt {size : Nat} {fmt : List Char} {body : Format}
    (hparse : parseFmt fmt = some body) (hone : body.items = 1) (hdepth : body.depth ≤ 128)
    (hsize : body.lens.length < size) : countFmt size fmt = .ok (body.items :: body.lens) := by
  have hrun := counted size body { subLengths := [0], curLen := 0, lenStack := [] }
    (by simpa using hdepth) (by simp only [List.length_singleton]; omega) (by simp)
  rw [countFmt, countLoop_eq size (tokens_of_parseFmt hparse), hrun, Fault.ok_bind,
    if_neg (by simp), if_neg (by simp [addTo, hone])]
  simp [addTo]

def Token.isOpen (t : Token) : Bool := t = .openArray || t = .openDict

theorem countP_isOpen (f : Format) : f.labels.countP Token.isOpen = f.lens.length := by
  induction f with
  | nil => rfl
  | value k rest ih => simpa [Format.labels, Format.lens, Token.isOpen] using ih
  | aside a rest ih => simpa [Format.labels, Format.lens, Token.isOpen] using ih
  | array body rest ihb ih =>
      simp only [Format.labels, Format.lens, List.countP_cons, List.countP_append, ihb, ih,
        List.length_cons, List.length_append]
      rfl
  | dict body rest ihb ih =>
      simp only [Format.labels, Format.lens, List.countP_cons, List.countP_append, ihb, ih,
        List.length_cons, List.length_append]
      rfl

/-- Every container that is opened takes a place in the scratch array. -/
theorem length_of_countToken {size : Nat} {st st' : Count} {t : Token}
    (h : countToken size st t = .ok st') :
    st'.subLengths.length = st.subLengths.length + (if t.isOpen then 1 else 0) ∧
      st'.subLengths.length ≤ max size st.subLengths.length := by
  have hopen : t = .openArray ∨ t = .openDict →
      st'.subLengths.length = st.subLengths.length + 1 ∧
        st'.subLengths.length ≤ max size st.subLengths.length := by
    rintro (rfl | rfl)
    all_goals
      obtain ⟨lenStack, -, h⟩ := Fault.bind_eq_ok.mp h
      split at h
      · rename_i hlt
        obtain rfl := Except.ok.inj h
        rw [bump_eq, addTo_length] at hlt
        rw [List.length_append, bump_eq, addTo_length, List.length_singleton]
        exact ⟨rfl, Nat.le_trans hlt (Nat.le_max_left ..)⟩
      · cases h
  cases t with
  | value k =>
      obtain rfl := Except.ok.inj h
      rw [bump_eq, addTo_length]
      exact ⟨rfl, Nat.le_max_right ..⟩
  | openArray => exact hopen (Or.inl rfl)
  | openDict => exact hopen (Or.inr rfl)
  | close =>
      obtain ⟨x, -, h⟩ := Fault.bind_eq_ok.mp h
      obtain rfl := Except.ok.inj h
      exact ⟨rfl, Nat.le_max_right ..⟩
  | aside a =>
      obtain rfl := Except.ok.inj h
      exact ⟨rfl, Nat.le_max_right ..⟩

theorem length_of_count {size : Nat} {ts : List Token} : ∀ {st st' : Count},
    ts.foldlM (countToken size) st = .ok st' →
    st.subLengths.length + ts.countP Token.isOpen ≤ max size st.subLengths.length := by
  induction ts with
  | nil => intro st st' _; exact Nat.le_max_right ..
  | cons t ts ih =>
      intro st st' h
      rw [List.foldlM_cons] at h
      obtain ⟨st1, hstep, hrest⟩ := Fault.bind_eq_ok.mp h
      obtain ⟨hlen, hle⟩ := length_of_countToken hstep
      have hall := ih hrest
      rw [List.countP_cons]
      omega

/-- What the first pass accepts has fewer containers than the scratch array holds. -/
theorem lens_lt_of_countFmt {size : Nat} {fmt : List Char} {body : Format} {L : List Nat}
    (hparse : parseFmt fmt = some body) (hopen : 0 < body.lens.length)
    (h : countFmt size fmt = .ok L) : body.lens.length < size := by
  obtain ⟨st, hrun, -⟩ := Fault.bind_eq_ok.mp h
  rw [countLoop_eq size (tokens_of_parseFmt hparse)] at hrun
  have hle := length_of_count hrun
  rw [countP_isOpen] at hle
  simp only [List.length_singleton] at hle
  omega

/-! ### The second pass

For each opening bracket it takes the next of the counts.  Those were put down in pre-order, and
in pre-order it comes to the brackets, so the count is the one of the container whose header is
written.  A dictionary has half as many entries as items.
-/

/-- A container, and the function that writes its header. -/
def Tree.container (isDict : Bool) (sub : List Tree) : Tree :=
  if isDict then .dictionary (pairs sub) else .array sub

def encodeHeader (lib : BStringLib) (isDict : Bool) (root : Packed) (len : Nat) :
    Except Fault Packed :=
  if isDict then mpackEncodeDictionary lib root (len / 2) else mpackEncodeArray lib root len

theorem pairs_emit (lib : BStringLib) : ∀ {sub : List Tree}, sub.length % 2 = 0 →
    (pairs sub).length = sub.length / 2 ∧
      ∀ root, emitEntries lib (pairs sub) root = emitItems lib sub root
  | [], _ => ⟨rfl, fun _ => rfl⟩
  | [_], h => by simp at h
  | k :: v :: rest, h => by
      have heven : rest.length % 2 = 0 := by
        simp only [List.length_cons] at h
        omega
      obtain ⟨hlen, hemit⟩ := pairs_emit lib heven
      refine ⟨by simp only [pairs, List.length_cons, hlen]; omega, fun root => ?_⟩
      simp only [pairs, emitEntries, emitItems, hemit]

theorem container_emit (lib : BStringLib) {isDict : Bool} {sub : List Tree}
    (h : isDict = true → sub.length % 2 = 0) (root : Packed) :
    (Tree.container isDict sub).emit lib root =
      (do emitItems lib sub (← encodeHeader lib isDict root sub.length)) := by
  cases isDict with
  | false => rfl
  | true =>
      obtain ⟨hlen, hemit⟩ := pairs_emit lib (h rfl)
      simp only [Tree.container, encodeHeader, if_true, Tree.emit, hlen, hemit]

/-- Opening a container of `len` items. -/
theorem emitToken_open (lib : BStringLib) {L : List Nat} (st : Emit) {len : Nat} {isDict : Bool}
    (hlen : L[st.lenCtr]? = some len) (heven : isDict = true → len % 2 = 0)
    (hlenStack : st.lenStack.length < 128) (hdictStack : st.dictStack.length < 128)
    (hctrs : st.subCtrs.length < L.length + 1) :
    emitToken lib L st (if isDict then .openDict else .openArray) = (do
      let pack ← encodeHeader lib isDict st.pack len
      .ok { st with
              pack := pack, dictStack := isDict :: st.dictStack
              lenStack := st.curCtr :: st.lenStack, lenCtr := st.lenCtr + 1
              subCtrs := bump (st.subCtrs ++ [0]) st.subCtrs.length
              curCtr := st.subCtrs.length }) := by
  have hopen : ∀ pack, openContainer (L.length + 1) isDict { st with pack := pack } = .ok
      { st with
          pack := pack, dictStack := isDict :: st.dictStack
          lenStack := st.curCtr :: st.lenStack, lenCtr := st.lenCtr + 1
          subCtrs := bump (st.subCtrs ++ [0]) st.subCtrs.length
          curCtr := st.subCtrs.length } := by
    intro pack
    simp [openContainer, push_of_lt hlenStack, push_of_lt hdictStack, hctrs]
  cases isDict with
  | false => simp [emitToken, hlen, expected, hopen, encodeHeader]
  | true => simp [emitToken, hlen, expected, hopen, encodeHeader, heven rfl]

/--
What the second pass does to a stretch of a format, given the counts of its containers
and the arguments for it: it emits the trees that the stretch denotes.
-/
def Emitted (lib : BStringLib) (L : List Nat) (f : Format) : Prop :=
  ∀ (st : Emit) (vs : List Value) (src' : Source) (more : List Nat),
    drawTokens f.labels st.src = .ok (vs, src') → f.EvenDicts →
    st.lenStack.length + f.depth ≤ 128 → st.dictStack.length + f.depth ≤ 128 →
    L.drop st.lenCtr = f.lens ++ more → st.subCtrs.length + f.lens.length ≤ L.length + 1 →
    ∃ ts ctrs, (∀ ws, f.denotes (vs ++ ws) = some (ts, ws)) ∧ ts.length = f.items ∧
      ctrs.length = st.subCtrs.length + f.lens.length ∧
      ∀ pack, f.labels.foldlM (emitToken lib L) { st with pack := pack } = (do
        let pack ← emitItems lib ts pack
        .ok { st with
                pack := pack, src := src', lenCtr := st.lenCtr + f.lens.length, subCtrs := ctrs })

theorem emitted_container {lib : BStringLib} {L : List Nat} {body rest : Format} (isDict : Bool)
    (hbody : Emitted lib L body) (hrest : Emitted lib L rest) {st : Emit} {vs : List Value}
    {src' : Source} {more : List Nat}
    (hdraw : drawTokens (body.labels ++ .close :: rest.labels) st.src = .ok (vs, src'))
    (heven : isDict = true → body.items % 2 = 0) (hevenb : body.EvenDicts)
    (hevenr : rest.EvenDicts)
    (hdepth : st.lenStack.length + max (body.depth + 1) rest.depth ≤ 128)
    (hdepth' : st.dictStack.length + max (body.depth + 1) rest.depth ≤ 128)
    (hlens : L.drop st.lenCtr = body.items :: (body.lens ++ rest.lens) ++ more)
    (hctrs : st.subCtrs.length + (body.lens.length + rest.lens.length + 1) ≤ L.length + 1) :
    ∃ sub ts vsb vsr ctrs, vs = vsb ++ vsr ∧ (∀ ws, body.denotes (vsb ++ ws) = some (sub, ws)) ∧
      (∀ ws, rest.denotes (vsr ++ ws) = some (ts, ws)) ∧ ts.length = rest.items ∧
      ctrs.length = st.subCtrs.length + (body.lens.length + rest.lens.length + 1) ∧
      ∀ pack, ((if isDict then .openDict else .openArray) ::
          (body.labels ++ .close :: rest.labels)).foldlM (emitToken lib L) { st with pack := pack } = (do
        let pack ← emitItems lib (Tree.container isDict sub :: ts) pack
        .ok { st with
                pack := pack, src := src'
                lenCtr := st.lenCtr + (body.lens.length + rest.lens.length + 1), subCtrs := ctrs }) := by
  obtain ⟨vsb, src1, vsr, hdrawb, hdrawr, rfl⟩ := drawTokens_append_iff.mp hdraw
  have hcount : L[st.lenCtr]? = some body.items := by
    have := congrArg List.head? hlens
    simpa using this
  have hlens1 : L.drop (st.lenCtr + 1) = body.lens ++ (rest.lens ++ more) := by
    have := congrArg List.tail hlens
    simpa using this
  -- The state inside the container, and the one after its closing bracket.
  obtain ⟨sub, ctrsb, hdenb, hitemsb, hlenb, hrunb⟩ := hbody
    { st with
        dictStack := isDict :: st.dictStack, lenStack := st.curCtr :: st.lenStack
        lenCtr := st.lenCtr + 1, subCtrs := bump (st.subCtrs ++ [0]) st.subCtrs.length
        curCtr := st.subCtrs.length }
    vsb src1 (rest.lens ++ more) hdrawb hevenb (by simp only [List.length_cons]; omega)
    (by simp only [List.length_cons]; omega) hlens1
    (by simp only [bump, List.length_modify, List.length_append, List.length_singleton]; omega)
  simp only [bump, List.length_modify, List.length_append, List.length_singleton] at hlenb
  have hlens2 : L.drop (st.lenCtr + 1 + body.lens.length) = rest.lens ++ more := by
    rw [← List.drop_drop, hlens1, List.drop_left]
  obtain ⟨ts, ctrs, hdenr, hitemsr, hlenr, hrunr⟩ := hrest
    { st with
        src := src1, lenCtr := st.lenCtr + 1 + body.lens.length, subCtrs := bump ctrsb st.curCtr }
    vsr src' more hdrawr hevenr (by simp only; omega) (by simp only; omega) hlens2
    (by simp only [bump, List.length_modify]; omega)
  simp only [bump, List.length_modify] at hlenr
  refine ⟨sub, ts, vsb, vsr, ctrs, rfl, hdenb, hdenr, hitemsr, by omega, fun pack => ?_⟩
  have hopen := emitToken_open lib { st with pack := pack } hcount heven
    (by simp only; omega) (by simp only; omega) (by simp only; omega)
  rw [List.foldlM_cons, hopen, emitItems, container_emit lib (by rw [hitemsb]; exact heven), hitemsb]
  cases encodeHeader lib isDict pack body.items with
  | error e => rfl
  | ok p1 =>
      simp only [Fault.ok_bind, List.foldlM_append, hrunb p1]
      cases emitItems lib sub p1 with
      | error e => rfl
      | ok p2 =>
          simp only [Fault.ok_bind, List.foldlM_cons, emitToken, pop]
          have hrun := hrunr p2
          have hctr : st.lenCtr + (body.lens.length + rest.lens.length + 1) =
              st.lenCtr + 1 + body.lens.length + rest.lens.length := by omega
          rw [hctr]
          exact hrun

theorem emitted (lib : BStringLib) (L : List Nat) (f : Format) : Emitted lib L f := by
  induction f with
  | nil =>
      intro st vs src' more hdraw _ _ _ _ _
      obtain ⟨rfl, rfl⟩ : [] = vs ∧ st.src = src' := by
        simpa [Format.labels, drawTokens] using hdraw
      exact ⟨[], st.subCtrs, fun ws => rfl, rfl, rfl, fun pack => rfl⟩
  | value k rest ih =>
      intro st vs src' more hdraw heven hdepth hdepth' hlens hctrs
      obtain ⟨⟨v, src1⟩, hv, hdraw⟩ := Fault.bind_eq_ok.mp hdraw
      obtain ⟨⟨vs1, src2⟩, hvs, hdraw⟩ := Fault.bind_eq_ok.mp hdraw
      simp only [Except.ok.injEq, Prod.mk.injEq] at hdraw
      obtain ⟨rfl, rfl⟩ := hdraw
      obtain ⟨ts, ctrs, hden, hitems, hlen, hrun⟩ :=
        ih { st with src := src1, subCtrs := bump st.subCtrs st.curCtr } vs1 src2 more hvs heven
          hdepth hdepth' hlens (by simpa [bump, Format.lens] using hctrs)
      refine ⟨v.toTree :: ts, ctrs, fun ws => ?_, by simp [Format.items, hitems],
        by simpa [bump, Format.lens] using hlen, fun pack => ?_⟩
      · simp [Format.denotes, hden]
      · have hvalue : v.toTree.emit lib pack = encodeValue lib pack v := by
          cases v <;> rfl
        simp only [Format.labels, List.foldlM_cons, emitToken, hv, Fault.ok_bind, emitItems, hvalue]
        cases encodeValue lib pack v with
        | error e => rfl
        | ok p => exact hrun p
  | aside a rest ih =>
      intro st vs src' more hdraw heven hdepth hdepth' hlens hctrs
      obtain ⟨src1, ha, hdraw⟩ := Fault.bind_eq_ok.mp hdraw
      obtain ⟨ts, ctrs, hden, hitems, hlen, hrun⟩ :=
        ih { st with src := src1 } vs src' more hdraw heven hdepth hdepth' hlens hctrs
      refine ⟨ts, ctrs, hden, hitems, hlen, fun pack => ?_⟩
      simp only [Format.labels, List.foldlM_cons, emitToken, ha, Fault.ok_bind]
      exact hrun pack
  | array body rest ihb ih =>
      intro st vs src' more hdraw heven hdepth hdepth' hlens hctrs
      obtain ⟨sub, ts, vsb, vsr, ctrs, rfl, hdenb, hdenr, hitems, hlen, hrun⟩ :=
        emitted_container false ihb ih hdraw (by simp) heven.1 heven.2 hdepth hdepth' hlens
          (by simpa [Format.lens] using hctrs)
      refine ⟨.array sub :: ts, ctrs, fun ws => ?_, by simp [Format.items, hitems],
        by simpa [Format.lens] using hlen, fun pack => ?_⟩
      · simp [Format.denotes, List.append_assoc, hdenb, hdenr]
      · simp only [Format.lens, List.length_cons, List.length_append]
        exact hrun pack
  | dict body rest ihb ih =>
      intro st vs src' more hdraw heven hdepth hdepth' hlens hctrs
      obtain ⟨sub, ts, vsb, vsr, ctrs, rfl, hdenb, hdenr, hitems, hlen, hrun⟩ :=
        emitted_container true ihb ih hdraw (fun _ => heven.1) heven.2.1 heven.2.2 hdepth hdepth'
          hlens (by simpa [Format.lens] using hctrs)
      refine ⟨.dictionary (pairs sub) :: ts, ctrs, fun ws => ?_, by simp [Format.items, hitems],
        by simpa [Format.lens] using hlen, fun pack => ?_⟩
      · simp [Format.denotes, List.append_assoc, hdenb, hdenr]
      · simp only [Format.lens, List.length_cons, List.length_append]
        exact hrun pack

/-! ### The whole function

What comes out of the second pass is the emission of the tree, so it is sound just if the tree has
room.  That is the condition, in both directions, and `nilsFmt` is a format whose arguments are
all right and whose tree has none.
-/

/-- The conditions on a format, beyond its brackets matching. -/
structure FormatOk (sizeHint : Nat) (body : Format) : Prop where
  /-- There is exactly one item at the top level. -/
  oneItem : body.items = 1
  /-- Every dictionary has an even number of direct elements. -/
  evenDicts : body.EvenDicts
  /-- Brackets are nested less than 127 deep. -/
  depth : body.depth < 127
  /-- There are fewer containers than the scratch array holds. -/
  containers : body.lens.length < arrSize sizeHint

/-- The whole function, on a format whose nesting is known. -/
theorem mpackEncodeFmt_of_parseFmt (lib : BStringLib) {sizeHint : Nat} {fmt : List Char}
    {src src' : Source} {body : Format} {vs : List Value} (hparse : parseFmt fmt = some body)
    (hok : FormatOk sizeHint body) (hdraw : drawTokens body.labels src = .ok (vs, src')) :
    ∃ t, body.denotes vs = some ([t], []) ∧
      mpackEncodeFmt lib sizeHint fmt src = (do .ok (some (← t.emit lib mpackMakeNew))) := by
  obtain ⟨hone, heven, hdepth, hcontainers⟩ := hok
  have haccept := countFmt_of_parseFmt hparse hone (by omega) hcontainers
  obtain ⟨trees, ctrs, hden, hitems, -, hrun⟩ := emitted lib (body.items :: body.lens) body
    { pack := mpackMakeNew, src := src, lenCtr := 1, subCtrs := [1], curCtr := 0, lenStack := [0]
      dictStack := [false] } vs src' [] hdraw heven (by simp only [List.length_singleton]; omega)
    (by simp only [List.length_singleton]; omega) (by simp)
    (by simp only [List.length_cons, List.length_nil]; omega)
  obtain ⟨t, rfl⟩ : ∃ t, trees = [t] := List.length_eq_one_iff.mp (hitems.trans hone)
  refine ⟨t, by simpa using hden [], ?_⟩
  have hne : fmt ≠ [] := by
    intro heq
    subst heq
    obtain rfl : body = .nil := by simpa [parseFmt, tokens?, parseTokens] using hparse.symm
    simp [Format.items] at hone
  rw [mpackEncodeFmt, if_neg hne, haccept]
  have hhead : ¬(body.items :: body.lens).headD 0 = 0 := by simp [hone]
  simp only [Fault.ok_bind, if_neg hhead, emitLoop_eq lib _ (tokens_of_parseFmt hparse), hrun,
    emitItems]
  cases t.emit lib mpackMakeNew <;> rfl

/-- The call packs this tree, and no byte goes outside the buffer. -/
def EncodesFmt (lib : BStringLib) (sizeHint : Nat) (fmt : List Char) (src : Source) (t : Tree) : Prop :=
  ∃ root, mpackEncodeFmt lib sizeHint fmt src = .ok (some root) ∧
    t.emit lib mpackMakeNew = .ok root ∧ root.Sound

theorem Source.reads_start (own : List Arg) (valists : Nat → List Arg) :
    (Source.start own valists).Reads none (callLists own valists) :=
  { own := rfl, valists := rfl, ref := nofun, type := rfl }

/--
**What `mpack_encode_fmt` encodes.**  If the first pass accepts the format, and the arguments
have the values `vs` wherever they come from, then the format denotes a tree with these values,
and just if that tree has room is it what is packed inside the buffer.
-/
theorem mpackEncodeFmt_denotes_iff {lib : BStringLib} (hlib : lib.Grows) (sizeHint : Nat)
    (fmt : List Char) (own : List Arg) (valists : Nat → List Arg) (vs : List Value) {L : List Nat}
    (haccept : countFmt (arrSize sizeHint) fmt = .ok L)
    (hok : ∀ body, parseFmt fmt = some body → FormatOk sizeHint body)
    (hsupply : Supplies none (callLists own valists) fmt vs) :
    ∃ body t, parseFmt fmt = some body ∧ body.denotes vs = some ([t], []) ∧
      (EncodesFmt lib sizeHint fmt (.start own valists) t ↔ t.HasRoom lib) := by
  obtain ⟨body, hparse⟩ := parseFmt_of_countFmt haccept
  obtain ⟨ts, hts, hfrom⟩ := hsupply
  obtain rfl : ts = body.labels := Option.some.inj (hts.symm.trans (tokens_of_parseFmt hparse))
  obtain ⟨src', hdraw⟩ := hfrom.drawTokens (Source.reads_start own valists)
  obtain ⟨t, hden, hrun⟩ := mpackEncodeFmt_of_parseFmt lib hparse (hok body hparse) hdraw
  refine ⟨body, t, hparse, hden, ?_⟩
  rw [← Tree.hasRoom_iff hlib, EncodesFmt, hrun]
  refine exists_congr fun root => ⟨fun h => h.2, fun h => ⟨?_, h⟩⟩
  rw [h.1]
  rfl

/-- `[d,!{s:b}@[s*d]]`: a number, a list elsewhere with a key and its value, and two arrays. -/
def mixedFmt : List Char :=
  ['[', 'd', ',', '!', '\x7b', 's', ':', 'b', '\x7d', '@', '[', 's', '*', 'd', ']', ']']

/-- The other list. -/
def mixedList (ref : Nat) : List Arg :=
  if ref = 3 then
    [.bstring (some [107]), .int 1, .argArrays [some [.str (some [120]), .num 9], some [.num (-5)]]]
  else []

theorem mixedFmt_supplied : Supplies none (callLists [.int 7, .valist 3] mixedList) mixedFmt
    [.integer 7, .string (some [107]), .boolean true, .string (some [120]), .integer (-5)] := by
  refine ⟨_, rfl, ?_⟩
  have hown : Takes Arg.Is [.openArray, .value .d, .aside .separator] [.int 7, .valist 3]
      [.integer 7] [.valist 3] := .mark trivial (.value (.int 7) (.mark trivial (.nil _)))
  have hlist : Takes Arg.Is [.openDict, .value .s, .aside .separator, .value .b, .close]
      (mixedList 3) [.string (some [107]), .boolean true]
      [.argArrays [some [.str (some [120]), .num 9], some [.num (-5)]]] :=
    .mark trivial (.value (.bstring _) (.mark trivial (.value (.boolean 1) (.mark trivial (.nil _)))))
  -- What is left of the first array is passed over.
  have hfirst : Takes Argument.Is [.openArray, .value .s] [.str (some [120]), .num 9]
      [.string (some [120])] [.num 9] := .mark trivial (.value (.str _) (.nil _))
  have hlast : FromArrays [.value .d, .close, .close] [some [.num (-5)]] [.integer (-5)] :=
    .last (.value (.int (-5)) (.mark trivial (.mark trivial (.nil _))))
  have harrays : FromArrays ([.openArray, .value .s] ++ .aside .nextArray :: [.value .d, .close, .close])
      [some [.str (some [120]), .num 9], some [.num (-5)]]
      ([.string (some [120])] ++ [.integer (-5)]) := .next hfirst hlast
  refine @FromLists.valist _ _ none (callLists [.int 7, .valist 3] mixedList) _ _ 3 [] hown ?_
  exact @FromLists.arrays _ _ (some 3)
    (fun list => if list = none then [] else callLists [.int 7, .valist 3] mixedList list) _ _ _ _ []
    hlist harrays

theorem mpackEncodeFmt_denotes_iff_mixed : ∃ body t, parseFmt mixedFmt = some body ∧
    body.denotes [.integer 7, .string (some [107]), .boolean true, .string (some [120]),
      .integer (-5)] = some ([t], []) ∧
    (EncodesFmt exactLib 0 mixedFmt (.start [.int 7, .valist 3] mixedList) t ↔
      t.HasRoom exactLib) := by
  refine mpackEncodeFmt_denotes_iff exactLib_grows 0 mixedFmt _ _ _ (L := [1, 3, 2, 2]) rfl ?_
    mixedFmt_supplied
  intro body h
  obtain rfl : _ = body := Option.some.inj h
  exact ⟨rfl, ⟨⟨rfl, trivial, ⟨trivial, trivial⟩⟩, trivial⟩, by decide, by decide⟩

/-- `[nn…ns]` with 124 nils: 127 bytes are in the buffer when the header of the string comes. -/
def nilsFmt : List Char := '[' :: List.replicate 124 'n' ++ ['s', ']']

def nilsArgs : List Arg := [.bstring (some (List.replicate 200 97))]

/-- So many nils, and the string. -/
def nilsBody : Nat → Format
  | 0 => .value .s .nil
  | n + 1 => .value .n (nilsBody n)

theorem evenDicts_nilsBody (n : Nat) : (nilsBody n).EvenDicts := by
  induction n with
  | zero => trivial
  | succ n ih => exact ih

theorem takes_nils {ts : List Token} {args rest : List Arg} {vs : List Value}
    (h : Takes Arg.Is ts args vs rest) (n : Nat) :
    Takes Arg.Is (List.replicate n (.value .n) ++ ts) args (List.replicate n .nil ++ vs) rest := by
  induction n with
  | zero => exact h
  | succ n ih => exact .null ih

/-- The format is accepted and the argument matches, but the header of the string does not fit. -/
theorem mpackEncodeFmt_nils_overruns :
    countFmt (arrSize 0) nilsFmt = .ok [1, 125] ∧
      (parseFmt nilsFmt = some (.array (nilsBody 124) .nil) ∧ FormatOk 0 (.array (nilsBody 124) .nil)) ∧
      Supplies none (callLists nilsArgs fun _ => []) nilsFmt
        (List.replicate 124 .nil ++ [.string (some (List.replicate 200 97))]) ∧
      ¬ ∃ root, mpackEncodeFmt exactLib 0 nilsFmt (.start nilsArgs fun _ => []) = .ok (some root) ∧
        root.Sound := by
  have htokens : tokens? nilsFmt = some
      (.openArray :: (List.replicate 124 (.value .n) ++ [.value .s, .close])) := by decide +kernel
  have hover : (mpackEncodeFmt exactLib 0 nilsFmt (.start nilsArgs fun _ => [])).map
      (Option.map Packed.overrun) = .ok (some true) := by decide +kernel
  have htakes : Takes Arg.Is [.value .s, .close] nilsArgs [.string (some (List.replicate 200 97))] [] :=
    .value (.bstring _) (.mark trivial (.nil _))
  refine ⟨by decide +kernel, ⟨by decide +kernel, ?_⟩,
    ⟨_, htokens, .last (.mark trivial (takes_nils htakes 124))⟩, ?_⟩
  · exact { oneItem := rfl, evenDicts := ⟨evenDicts_nilsBody 124, trivial⟩,
            depth := by decide +kernel, containers := by decide +kernel }
  · rintro ⟨root, hrun, hsound⟩
    rw [hrun] at hover
    have hroot : root.overrun = true := Option.some.inj (Except.ok.inj hover)
    rw [hsound.inside] at hroot
    cases hroot

end TagHighlight
