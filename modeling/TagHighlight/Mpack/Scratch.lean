/-
The scratch memory of `mpack_encode_fmt`.

There is `sub_lengths`, an array whose size comes from the hint of the caller, `sub_ctrlist`,
whose size comes from the first pass, and three stacks of 128 elements, one for the first pass
and two for the second.  What a character of the format makes a pass do with them depends on
the counters at that point; here it is written down, with the bounds it is to keep.
-/
import TagHighlight.Mpack.Fmt

namespace TagHighlight

/-- An access to the scratch memory. -/
inductive Access where
  /-- Element `i` of an array of `n`. -/
  | element (i n : Nat)
  /-- `PUSH`, with `ctr` elements on the stack. -/
  | push (ctr : Nat)
  /-- `POP`. -/
  | pop (ctr : Nat)
  deriving DecidableEq, Repr

/-- The access is within its array, or within the stack. -/
def Access.Ok : Access → Prop
  | .element i n => i < n
  | .push ctr => ctr < 128
  | .pop ctr => 0 < ctr

/-- The counters `countFmt` starts with. -/
def Count.start : Count := { subLengths := [0], curLen := 0, lenStack := [] }

/-- What the first pass accesses; `sub_lengths` has `size` elements. -/
def Count.accesses (size : Nat) (st : Count) : Token → List Access
  | .value _ => [.element st.curLen size]
  | .openArray | .openDict =>
      [.element st.curLen size, .push st.lenStack.length, .element st.subLengths.length size]
  | .close => [.pop st.lenStack.length]
  | .aside _ => []

/-- What the second pass of `mpackEncodeFmt` starts with. -/
def Emit.start (src : Source) : Emit :=
  { pack := mpackMakeNew, src := src, lenCtr := 1, subCtrs := [1], curCtr := 0
    lenStack := [0], dictStack := [false] }

/--
What the second pass accesses.  Of `sub_lengths` there are the elements the first pass has
written, and `sub_ctrlist` has one more.  A counter is increased after its character; after an
opening bracket that is the new one.
-/
def Emit.accesses (subLengths : List Nat) (st : Emit) : Token → List Access
  | .value _ => [.element st.curCtr (subLengths.length + 1)]
  | .openArray | .openDict =>
      [.element st.lenCtr subLengths.length, .push st.dictStack.length, .push st.lenStack.length,
        .element st.subCtrs.length (subLengths.length + 1)]
  | .close =>
      [.pop st.dictStack.length, .pop st.lenStack.length,
        .element (st.lenStack.headD 0) (subLengths.length + 1)]
  | .aside _ => []

/-- The first pass gets to every character of the format, and all its accesses are fine. -/
def CountInBounds (size : Nat) (fmt : List Char) : Prop :=
  ∀ before ch after t, fmt = before ++ ch :: after → token? ch = some t →
    ∃ st, countLoop size before .start = .ok st ∧ ∀ a ∈ st.accesses size t, a.Ok

/-- At every character the second pass gets to, its accesses are fine. -/
def EmitInBounds (lib : BStringLib) (subLengths : List Nat) (fmt : List Char) (src : Source) : Prop :=
  ∀ before ch after t st, fmt = before ++ ch :: after → token? ch = some t →
    emitLoop lib subLengths before (.start src) = .ok st → ∀ a ∈ st.accesses subLengths t, a.Ok

end TagHighlight
