/-
The second pass takes the arguments that were meant.

It takes an argument at a time from wherever its source stands: the function's own list, another
one, or an array, with a position in each.  A caller knows nothing of positions.  For him a
stretch of the format has its arguments at the front of a list or of an array, and `Supplies`
says no more than that.  What the pass takes for a whole stretch is `drawTokens`, and
`FromLists.drawTokens` shows that these are the caller's values, with a relation between the
source and what is left of the lists, kept one argument at a time.
-/
import TagHighlight.Mpack.Format

namespace TagHighlight

/-! ### A stretch of the format

The pass goes on where it stands, so the values for two stretches are those for the first and
then, from the source that is left, those for the second.
-/

/-- The values the second pass takes for the letters of a stretch, and the source after it. -/
def drawTokens : List Token → Source → Except Fault (List Value × Source)
  | [], src => .ok ([], src)
  | .value k :: ts, src => do
      let (v, src) ← nextValue k src
      let (vs, src) ← drawTokens ts src
      .ok (v :: vs, src)
  | .aside a :: ts, src => do drawTokens ts (← takeAside a src)
  | _ :: ts, src => drawTokens ts src

theorem drawTokens_mark {t : Token} (h : t.IsMark) (ts : List Token) (src : Source) :
    drawTokens (t :: ts) src = drawTokens ts src := by
  cases t with
  | value k => exact h.elim
  | aside a =>
      cases a with
      | separator => rfl
      | _ => exact h.elim
  | _ => rfl

/-- The arguments for two stretches of a format, one after the other. -/
theorem drawTokens_append_iff : ∀ {ts us : List Token} {src src' : Source} {vs : List Value},
    drawTokens (ts ++ us) src = .ok (vs, src') ↔ ∃ vs1 src1 vs2,
      drawTokens ts src = .ok (vs1, src1) ∧ drawTokens us src1 = .ok (vs2, src') ∧
        vs = vs1 ++ vs2 := by
  intro ts
  induction ts with
  | nil =>
      intro us src src' vs
      refine ⟨fun h => ⟨[], src, vs, rfl, h, rfl⟩, ?_⟩
      rintro ⟨vs1, src1, vs2, h1, h2, rfl⟩
      obtain ⟨rfl, rfl⟩ := Prod.mk.inj (Except.ok.inj h1)
      exact h2
  | cons t ts ih =>
      intro us src src' vs
      cases t with
      | value k =>
          simp only [List.cons_append, drawTokens, Fault.bind_eq_ok, Prod.exists, ih]
          constructor
          · rintro ⟨v, src1, hv, vs', src2, ⟨vs1, src3, vs2, h1, h2, rfl⟩, h⟩
            obtain ⟨rfl, rfl⟩ := Prod.mk.inj (Except.ok.inj h)
            exact ⟨v :: vs1, src3, vs2, ⟨v, src1, hv, vs1, src3, h1, rfl⟩, h2, rfl⟩
          · rintro ⟨vs1, src3, vs2, ⟨v, src1, hv, vs3, src4, h1, h⟩, h2, rfl⟩
            obtain ⟨rfl, rfl⟩ := Prod.mk.inj (Except.ok.inj h)
            exact ⟨v, src1, hv, vs3 ++ vs2, src', ⟨vs3, src4, vs2, h1, h2, rfl⟩, rfl⟩
      | aside a =>
          simp only [List.cons_append, drawTokens, Fault.bind_eq_ok, ih]
          constructor
          · rintro ⟨src1, ha, vs1, src3, vs2, h1, h2, rfl⟩
            exact ⟨vs1, src3, vs2, ⟨src1, ha, h1⟩, h2, rfl⟩
          · rintro ⟨vs1, src3, vs2, ⟨src1, ha, h1⟩, h2, rfl⟩
            exact ⟨src1, ha, vs1, src3, vs2, h1, h2, rfl⟩
      | openArray => exact ih
      | openDict => exact ih
      | close => exact ih

/-! ### Lists of arguments

What is left of the lists is carried along, since a list that is left by `!` may be come back to.
Nothing of it changes but the list in use, and that from the front.
-/

/-- The source stands in this list, and these are what is left of the lists. -/
structure Source.Reads (src : Source) (cur : Option Nat) (lists : Option Nat → List Arg) : Prop where
  own : src.own = lists none
  valists : src.valists = fun ref => lists (some ref)
  ref : ∀ ref, cur = some ref → src.ref = some ref
  type : src.nextType = if cur = none then .ownValist else .otherValist

/-- What is left of the lists when one of them has been read up to here. -/
def leave (cur : Option Nat) (rest : List Arg) (lists : Option Nat → List Arg) :
    Option Nat → List Arg :=
  fun list => if list = cur then rest else lists list

theorem leave_self (cur : Option Nat) (lists : Option Nat → List Arg) :
    leave cur (lists cur) lists = lists := by
  funext list
  unfold leave
  split
  · rename_i heq
    rw [heq]
  · rfl

theorem leave_leave (cur : Option Nat) (rest rest' : List Arg) (lists : Option Nat → List Arg) :
    leave cur rest (leave cur rest' lists) = leave cur rest lists := by
  funext list
  unfold leave
  split <;> rfl

section Lists

variable {src : Source} {cur : Option Nat} {lists : Option Nat → List Arg}

theorem Source.Reads.not_array (h : src.Reads cur lists) : src.nextType ≠ .argArray := by
  rw [h.type]
  split <;> exact NextType.noConfusion

theorem Source.Reads.nextValistOnly (h : src.Reads cur lists) {arg : Arg} {rest : List Arg}
    (hcur : lists cur = arg :: rest) :
    ∃ src', nextValistOnly src = .ok (arg, src') ∧ src'.Reads cur (leave cur rest lists) := by
  cases cur with
  | none =>
      have htype : src.nextType = .ownValist := h.type
      have hown : src.own = arg :: rest := h.own.trans hcur
      refine ⟨{ src with own := rest }, ?_, ?_⟩
      · rw [TagHighlight.nextValistOnly, htype, hown]
      · exact { own := rfl, valists := h.valists, ref := h.ref, type := h.type }
  | some ref =>
      have htype : src.nextType = .otherValist := h.type
      have hlist : src.valists ref = arg :: rest := (congrFun h.valists ref).trans hcur
      refine ⟨{ src with valists := fun r => if r = ref then rest else src.valists r }, ?_, ?_⟩
      · simp only [TagHighlight.nextValistOnly, htype, h.ref ref rfl, hlist]
      · refine { own := h.own, valists := ?_, ref := h.ref, type := h.type }
        funext r
        simp only [leave, Option.some.injEq, h.valists]

/-- An argument is taken for what it is. -/
theorem Arg.Is.nextValue {arg : Arg} {k : Kind} {v : Value} (hv : arg.Is k v) {src' : Source}
    (h : nextValistOnly src = .ok (arg, src')) (htype : src.nextType ≠ .argArray) :
    nextValue k src = .ok (v, src') := by
  have hnext : ∀ {β : Type} (typeName : Arg → Option β) (member : Argument → Option β),
      next typeName member src = (do .ok (← expected (typeName arg), src')) := by
    intro β typeName member
    cases hsrc : src.nextType with
    | argArray => exact absurd hsrc htype
    | _ => simp only [next, hsrc, h, Fault.ok_bind]
  cases hv <;> simp only [TagHighlight.nextValue, hnext, expected, Fault.ok_bind]

theorem Takes.drawTokens {ts : List Token} {args rest : List Arg} {vs : List Value}
    (htakes : Takes Arg.Is ts args vs rest) (h : src.Reads cur lists) (hcur : lists cur = args) :
    ∃ src', drawTokens ts src = .ok (vs, src') ∧ src'.Reads cur (leave cur rest lists) := by
  induction htakes generalizing src lists with
  | nil args =>
      refine ⟨src, rfl, ?_⟩
      rwa [← hcur, leave_self]
  | null _ ih =>
      obtain ⟨src', hdraw, hreads⟩ := ih h hcur
      refine ⟨src', ?_, hreads⟩
      simp only [TagHighlight.drawTokens, TagHighlight.nextValue, hdraw, Fault.ok_bind]
  | value first _ ih =>
      obtain ⟨src1, hnext, hreads⟩ := h.nextValistOnly hcur
      obtain ⟨src', hdraw, hreads'⟩ := ih hreads (if_pos rfl)
      rw [leave_leave] at hreads'
      refine ⟨src', ?_, hreads'⟩
      simp only [TagHighlight.drawTokens, first.nextValue hnext h.not_array, hdraw, Fault.ok_bind]
  | mark hmark _ ih =>
      obtain ⟨src', hdraw, hreads⟩ := ih h hcur
      exact ⟨src', (drawTokens_mark hmark _ _).trans hdraw, hreads⟩

end Lists

/-! ### Arrays of arguments

Once `@` has been read there is no way back to a list, so only the position in the arrays counts.
An array is not looked at before an argument is taken from it: one that is not there does no harm
to a stretch that has no letters.
-/

/-- The source stands in an array of arguments. -/
structure Source.ReadsArray (src : Source) (args : ArgArrays) (i j : Nat) : Prop where
  args : src.aArgs = some args
  ctr : src.aArgCtr = i
  subctr : src.aArgSubctr = j
  type : src.nextType = .argArray

section Arrays

variable {src : Source} {args : ArgArrays} {i j : Nat}

theorem Source.ReadsArray.nextArgument (h : src.ReadsArray args i j) {arg : Argument}
    {more : List Argument} (hmore : (elements args[i]?).drop j = arg :: more) :
    ∃ src', nextArgument src = .ok (arg, src') ∧ src'.ReadsArray args i (j + 1) := by
  obtain ⟨array, harray, harg⟩ : ∃ array, args[i]? = some (some array) ∧ array[j]? = some arg := by
    have hhead : (elements args[i]?)[j]? = some arg := by
      rw [← List.head?_drop, hmore, List.head?_cons]
    cases helem : args[i]? with
    | none => simp [elements, helem] at hhead
    | some array =>
        cases array with
        | none => simp [elements, helem] at hhead
        | some array => exact ⟨array, rfl, by simpa [elements, helem] using hhead⟩
  refine ⟨{ src with aArgSubctr := src.aArgSubctr + 1 }, ?_, ?_⟩
  · simp only [TagHighlight.nextArgument, h.args, h.ctr, h.subctr, harray, harg]
  · exact { args := h.args, ctr := h.ctr, subctr := congrArg (· + 1) h.subctr, type := h.type }

theorem Argument.Is.nextValue {arg : Argument} {k : Kind} {v : Value} (hv : arg.Is k v) {src' : Source}
    (h : nextArgument src = .ok (arg, src')) (htype : src.nextType = .argArray) :
    nextValue k src = .ok (v, src') := by
  have hnext : ∀ {β : Type} (typeName : Arg → Option β) (member : Argument → Option β),
      next typeName member src = (do .ok (← expected (member arg), src')) := by
    intro β typeName member
    simp only [next, htype, h, Fault.ok_bind]
  cases hv <;>
    simp only [TagHighlight.nextValue, hnext, expected, Fault.ok_bind, Int32.toInt32_toInt64]

theorem Takes.drawTokens_array {ts : List Token} {more rest : List Argument} {vs : List Value}
    (htakes : Takes Argument.Is ts more vs rest) (h : src.ReadsArray args i j)
    (hmore : (elements args[i]?).drop j = more) :
    ∃ src' j', TagHighlight.drawTokens ts src = .ok (vs, src') ∧ src'.ReadsArray args i j' := by
  induction htakes generalizing src j with
  | nil => exact ⟨src, j, rfl, h⟩
  | null _ ih =>
      obtain ⟨src', j', hdraw, hreads⟩ := ih h hmore
      refine ⟨src', j', ?_, hreads⟩
      simp only [TagHighlight.drawTokens, TagHighlight.nextValue, hdraw, Fault.ok_bind]
  | value first _ ih =>
      obtain ⟨src1, hnext, hreads⟩ := h.nextArgument hmore
      have htail := congrArg List.tail hmore
      rw [List.tail_drop, List.tail_cons] at htail
      obtain ⟨src', j', hdraw, hreads'⟩ := ih hreads htail
      refine ⟨src', j', ?_, hreads'⟩
      simp only [TagHighlight.drawTokens, first.nextValue hnext h.type, hdraw, Fault.ok_bind]
  | mark hmark _ ih =>
      obtain ⟨src', j', hdraw, hreads⟩ := ih h hmore
      exact ⟨src', j', (drawTokens_mark hmark _ _).trans hdraw, hreads⟩

/-- `*` goes on to the front of the next array. -/
theorem FromArrays.drawTokens {ts : List Token} {more : ArgArrays} {vs : List Value}
    (hfrom : FromArrays ts more vs) (h : src.ReadsArray args i 0) (hmore : args.drop i = more) :
    ∃ src', TagHighlight.drawTokens ts src = .ok (vs, src') := by
  induction hfrom generalizing src i with
  | last htakes =>
      rw [← hmore, List.head?_drop] at htakes
      obtain ⟨src', -, hdraw, -⟩ := htakes.drawTokens_array h rfl
      exact ⟨src', hdraw⟩
  | next htakes _ ih =>
      rw [← hmore, List.head?_drop] at htakes
      obtain ⟨src1, j, hdraw, hreads⟩ := htakes.drawTokens_array h rfl
      have haside : takeAside .nextArray src1 =
          .ok { src1 with aArgCtr := src1.aArgCtr + 1, aArgSubctr := 0 } := if_pos hreads.type
      have hreads' : Source.ReadsArray { src1 with aArgCtr := src1.aArgCtr + 1, aArgSubctr := 0 }
          args (i + 1) 0 :=
        { args := hreads.args, ctr := congrArg (· + 1) hreads.ctr, subctr := rfl, type := hreads.type }
      obtain ⟨src', hdraw'⟩ := ih hreads' (by rw [← List.tail_drop, hmore])
      refine ⟨src', drawTokens_append_iff.mpr ⟨_, src1, _, hdraw, ?_, rfl⟩⟩
      rw [TagHighlight.drawTokens, haside, Fault.ok_bind, hdraw']

end Arrays

/-! ### The whole supply

By induction over the supply, with a case for the list in use, for a change to another one, and
for the change to the arrays.  After that change only the arrays are looked at.
-/

/-- The second pass takes the values that the caller has supplied. -/
theorem FromLists.drawTokens {ts : List Token} {cur : Option Nat} {lists : Option Nat → List Arg}
    {vs : List Value} (hfrom : FromLists ts cur lists vs) {src : Source} (h : src.Reads cur lists) :
    ∃ src', TagHighlight.drawTokens ts src = .ok (vs, src') := by
  induction hfrom generalizing src with
  | last htakes =>
      obtain ⟨src', hdraw, -⟩ := htakes.drawTokens h rfl
      exact ⟨src', hdraw⟩
  | @valist front ts cur lists vs ws ref rest htakes _ ih =>
      obtain ⟨src1, hdraw, hreads⟩ := htakes.drawTokens h rfl
      obtain ⟨src2, hnext, hreads2⟩ := hreads.nextValistOnly (if_pos rfl)
      rw [leave_leave] at hreads2
      have haside : takeAside .otherValist src1 =
          .ok { src2 with ref := some ref, nextType := .otherValist } := by
        rw [takeAside, useValist, hnext]
        rfl
      have hreads' : Source.Reads { src2 with ref := some ref, nextType := .otherValist } (some ref)
          (leave cur rest lists) :=
        { own := hreads2.own, valists := hreads2.valists, ref := fun r hr => hr ▸ rfl, type := rfl }
      obtain ⟨src', hdraw'⟩ := ih hreads'
      refine ⟨src', drawTokens_append_iff.mpr ⟨_, src1, _, hdraw, ?_, rfl⟩⟩
      rw [TagHighlight.drawTokens, haside, Fault.ok_bind, hdraw']
  | @arrays front ts cur lists vs ws first args rest htakes after =>
      obtain ⟨src1, hdraw, hreads⟩ := htakes.drawTokens h rfl
      obtain ⟨src2, hnext, -⟩ := hreads.nextValistOnly (if_pos rfl)
      have haside : takeAside .argArray src1 = .ok { src2 with
          aArgs := some (some first :: args), aArgCtr := 0, aArgSubctr := 0, nextType := .argArray } := by
        rw [takeAside, useArgArrays, hnext]
        rfl
      have hreads' : Source.ReadsArray { src2 with
          aArgs := some (some first :: args), aArgCtr := 0, aArgSubctr := 0, nextType := .argArray }
          (some first :: args) 0 0 := { args := rfl, ctr := rfl, subctr := rfl, type := rfl }
      obtain ⟨src', hdraw'⟩ := after.drawTokens hreads' rfl
      refine ⟨src', drawTokens_append_iff.mpr ⟨_, src1, _, hdraw, ?_, rfl⟩⟩
      rw [TagHighlight.drawTokens, haside, Fault.ok_bind, hdraw']

end TagHighlight
