/-
What an atomic request says.

The format string is taken apart with the calls it was put together from: each call brings
a stretch of the format, and its own array supplies the arguments for that stretch.  So the
encoder gets the tree of the request, and the decoder reads it back.  Without any call
there is no list of calls in it.

There are three things that can go wrong, and each has a condition.  If nothing was collected, the
list of calls is left out of the format, and the request has no parameter at all.  If an integer
is one of those that the decoder loses, it is not read back.  And if the encoder has no room for
one of its bytes, the packed string is no longer in its buffer.  In every other case what is
decoded is what was collected, and in each of these it is not.
-/
import TagHighlight.NvimApi.Atomic
import TagHighlight.Proofs.Mpack.Fmt
import TagHighlight.Proofs.Mpack.RoundTrip
import TagHighlight.Proofs.Mpack.Scratch
import Mathlib.Data.List.Induction

namespace TagHighlight

/-! ### Stretches of a format

A format is read from the front, and what a stretch of it stands for depends on the source of the
arguments.  `Stands` has both the trees and the source that is left for what comes behind, so that
the meaning of a whole format is put together from its stretches.
-/

/-- With the arguments of a source, a stretch of a format stands for these trees. -/
def Stands (f : Format) (src : Source) (ts : List Tree) (src' : Source) : Prop :=
  ∃ vs, drawTokens f.labels src = .ok (vs, src') ∧ ∀ ws, f.denotes (vs ++ ws) = some (ts, ws)

namespace Stands

variable {f rest body : Format} {src src1 src' : Source} {ts sub : List Tree}

theorem nil (src : Source) : Stands .nil src [] src := ⟨[], rfl, fun _ => rfl⟩

theorem value {k : Kind} {v : Value} (h : nextValue k src = .ok (v, src1))
    (hrest : Stands rest src1 ts src') : Stands (.value k rest) src (v.toTree :: ts) src' := by
  obtain ⟨vs, hdraw, hden⟩ := hrest
  refine ⟨v :: vs, ?_, fun ws => ?_⟩
  · simp only [Format.labels, drawTokens, h, hdraw, Fault.ok_bind]
  · rw [List.cons_append, Format.denotes, hden]
    rfl

theorem aside {a : Aside} (h : takeAside a src = .ok src1) (hrest : Stands rest src1 ts src') :
    Stands (.aside a rest) src ts src' := by
  obtain ⟨vs, hdraw, hden⟩ := hrest
  refine ⟨vs, ?_, hden⟩
  rw [Format.labels, drawTokens, h, Fault.ok_bind, hdraw]

theorem separator (hrest : Stands rest src ts src') :
    Stands (.aside .separator rest) src ts src' := aside rfl hrest

theorem array (hbody : Stands body src sub src1) (hrest : Stands rest src1 ts src') :
    Stands (.array body rest) src (.array sub :: ts) src' := by
  obtain ⟨vs, hdraw, hden⟩ := hbody
  obtain ⟨ws, hdraw', hden'⟩ := hrest
  refine ⟨vs ++ ws, drawTokens_append_iff.mpr ⟨vs, src1, ws, hdraw, ?_, rfl⟩, fun us => ?_⟩
  · exact hdraw'
  rw [List.append_assoc, Format.denotes, hden]
  simp only [Option.bind_eq_bind, Option.bind_some, hden']

end Stands

namespace Atomic

/-! ### Collecting the calls

The array of calls starts with room for 128 and is doubled when there is one place left.  Its room
is a power of two all the time, so doubling it fails only when the result is 2 ^ 32, and that is
when the number of calls would come to 2 ^ 31.
-/

def Op.fmt : Op → List Char
  | .addHl _ _ _ _ => hlFmt
  | .addClr _ _ _ _ => clrFmt

def Op.args : Op → List Argument
  | .addHl bufnum hlId group data => hlArgs bufnum hlId group data
  | .addClr bufnum hlId line stop => clrArgs bufnum hlId line stop

theorem Op.add_eq (calls : MpackArgArray) (op : Op) : op.add calls = addCall calls op.fmt op.args := by
  cases op <;> rfl

/-- The calls that were collected, and a room for more that is a power of two. -/
structure Collected (ops : List Op) (calls : MpackArgArray) : Prop where
  fmt : calls.fmt = ops.map Op.fmt
  args : calls.args = ops.map fun op => some op.args
  room : ∃ k ≤ 24, calls.mlen = 128 * 2 ^ k ∧ ops.length < calls.mlen

theorem collected_new : Collected [] newArgArray where
  fmt := rfl
  args := rfl
  room := ⟨0, by decide, rfl, by decide⟩

theorem mlen_le {k : Nat} (hk : k ≤ 24) : 128 * 2 ^ k ≤ 2 ^ 31 := by
  have hpow := Nat.pow_le_pow_right Nat.two_pos hk
  omega

/-- One more call, as long as their number is below `2 ^ 31`. -/
theorem Collected.add {ops : List Op} {calls : MpackArgArray} (h : Collected ops calls) (op : Op)
    (hlen : ops.length + 1 < 2 ^ 31) :
    ∃ calls', op.add calls = .ok calls' ∧ Collected (ops ++ [op]) calls' := by
  obtain ⟨k, hk, hmlen, hroom⟩ := h.room
  have hle := mlen_le hk
  have hqty : calls.qty = ops.length := by rw [MpackArgArray.qty, h.fmt, List.length_map]
  -- There is room left, or twice as much can be had.
  have hgrow : ∃ k ≤ 24, grow calls = 128 * 2 ^ k ∧ (ops ++ [op]).length < grow calls := by
    rw [List.length_append, List.length_singleton]
    unfold grow
    rw [hqty]
    split
    · rename_i hfull
      have hlt : k < 24 := by
        refine Nat.lt_of_le_of_ne hk fun heq => ?_
        subst heq
        omega
      have hdouble := mlen_le (show k + 1 ≤ 24 from hlt)
      rw [Nat.pow_succ] at hdouble
      refine ⟨k + 1, hlt, ?_, ?_⟩
      · rw [Nat.pow_succ]
        omega
      · omega
    · exact ⟨k, hk, hmlen, by omega⟩
  have hroom' : calls.qty < grow calls := by
    obtain ⟨k', -, -, hroom'⟩ := hgrow
    rw [List.length_append] at hroom'
    omega
  rw [Op.add_eq, addCall]
  generalize grow calls = mlen at hgrow hroom'
  refine ⟨{ fmt := calls.fmt ++ [op.fmt], args := calls.args ++ [some op.args], mlen := mlen },
    if_pos hroom', ?_⟩
  exact { fmt := by simp [h.fmt], args := by simp [h.args], room := hgrow }

/-- Then `mlen` overflows. -/
theorem Collected.not_add {ops : List Op} {calls : MpackArgArray} (h : Collected ops calls) (op : Op)
    (hlen : ops.length + 1 = 2 ^ 31) : op.add calls = .error .undefined := by
  obtain ⟨k, hk, hmlen, hroom⟩ := h.room
  have hle := mlen_le hk
  have hqty : calls.qty = ops.length := by rw [MpackArgArray.qty, h.fmt, List.length_map]
  have hgrow : grow calls = 0 := by
    unfold grow
    rw [hqty, if_pos (by omega)]
    omega
  rw [Op.add_eq, addCall, hgrow, if_neg (Nat.not_lt_zero _)]

theorem collect {ops : List Op} (h : ops.length < 2 ^ 31) :
    ∃ calls, ops.foldlM Op.add newArgArray = .ok calls ∧ Collected ops calls := by
  induction ops using List.reverseRecOn with
  | nil => exact ⟨newArgArray, rfl, collected_new⟩
  | append_singleton ops op ih =>
      rw [List.length_append, List.length_singleton] at h
      obtain ⟨calls, hrun, hcalls⟩ := ih (by omega)
      obtain ⟨calls', hadd, hcalls'⟩ := hcalls.add op h
      refine ⟨calls', ?_, hcalls'⟩
      rw [List.foldlM_append, hrun, Fault.ok_bind, List.foldlM_cons, hadd]
      rfl

theorem length_of_collect {ops : List Op} {calls : MpackArgArray}
    (h : ops.foldlM Op.add newArgArray = .ok calls) : ops.length < 2 ^ 31 := by
  by_contra hge
  obtain ⟨before, op, after, rfl, hbefore⟩ : ∃ before op after, ops = before ++ op :: after ∧
      before.length + 1 = 2 ^ 31 := by
    have hlt : 2 ^ 31 - 1 < ops.length := by omega
    refine ⟨ops.take (2 ^ 31 - 1), ops[2 ^ 31 - 1], ops.drop (2 ^ 31 - 1 + 1), ?_, ?_⟩
    · rw [List.getElem_cons_drop, List.take_append_drop]
    · rw [List.length_take]
      omega
  have hlt : before.length < 2 ^ 31 := by omega
  obtain ⟨calls1, hrun, hcalls⟩ := collect hlt
  rw [List.foldlM_append, hrun, Fault.ok_bind, List.foldlM_cons, hcalls.not_add op hbefore] at h
  cases h

theorem collected {ops : List Op} {calls : MpackArgArray}
    (h : ops.foldlM Op.add newArgArray = .ok calls) : Collected ops calls := by
  obtain ⟨calls', hrun, hcalls⟩ := collect (length_of_collect h)
  obtain rfl : calls' = calls := Except.ok.inj (hrun.symm.trans h)
  exact hcalls

/-! ### The format string

Each call brings its own bracketed stretch, the first behind `@` and the others behind `*`.  The
brackets match, so the string parses, and what is counted of it (containers, levels, the lengths
of containers) is counted call by call.
-/

/-- The nesting of the format of a call. -/
def Op.format : Op → Format
  | .addHl _ _ _ _ =>
      .value .s <| .array (.value .d <| .value .d <| .aside .separator <| .value .s <|
        .aside .separator <| .value .d <| .value .d <| .value .d .nil) .nil
  | .addClr _ _ _ _ =>
      .value .s <| .array (.value .d <| .value .d <| .value .d <| .value .d .nil) .nil

/-- All calls but the first, and the blank after them. -/
def restFormat : List Op → Format
  | [] => .aside .separator .nil
  | op :: ops =>
      .array (.aside .nextArray op.format) <| .aside .separator <| restFormat ops

/-- The list of calls, which is only there if there is one. -/
def callsFormat : List Op → Format
  | [] => .aside .separator .nil
  | op :: ops =>
      .array (.aside .separator <| .aside .argArray <| .array op.format <|
        .aside .separator <| restFormat ops) <| .aside .separator .nil

def requestFormat (ops : List Op) : Format :=
  .array (.value .d <| .aside .separator <| .value .d <| .aside .separator <| .value .s <|
    .aside .separator <| .array (.aside .separator <| callsFormat ops) .nil) .nil

theorem tokens_fmt (op : Op) : tokens? op.fmt = some op.format.labels := by
  cases op <;> rfl

theorem tokens_restFmt (ops : List Op) :
    tokens? (restFmt (ops.map Op.fmt) ++ [' ']) = some (restFormat ops).labels := by
  induction ops with
  | nil => rfl
  | cons op ops ih =>
      have hopen : tokens? ['[', '*'] = some [.openArray, .aside .nextArray] := rfl
      have hclose : tokens? [']', ','] = some [.close, .aside .separator] := rfl
      have htokens := tokens_append (tokens_append (tokens_append hopen (tokens_fmt op)) hclose) ih
      simpa [restFmt, restFormat, Format.labels] using htokens

theorem tokens_atomicFmt {ops : List Op} {calls : MpackArgArray} (h : Collected ops calls) :
    tokens? (atomicFmt calls) = some (requestFormat ops).labels := by
  have hstart : tokens? ['[', 'd', ',', 'd', ',', 's', ':', '[', ':'] =
      some [.openArray, .value .d, .aside .separator, .value .d, .aside .separator, .value .s,
        .aside .separator, .openArray, .aside .separator] := rfl
  have hstop : tokens? [':', ']', ']'] = some [.aside .separator, .close, .close] := rfl
  unfold atomicFmt
  rw [h.fmt]
  cases ops with
  | nil => rfl
  | cons op ops =>
      have hopen : tokens? ['[', ' ', '@', '['] =
          some [.openArray, .aside .separator, .aside .argArray, .openArray] := rfl
      have hclose : tokens? [']', ','] = some [.close, .aside .separator] := rfl
      have hend : tokens? [']'] = some [.close] := rfl
      have hcalls := tokens_append (tokens_append (tokens_append (tokens_append hopen
        (tokens_fmt op)) hclose) (tokens_restFmt ops)) hend
      have htokens := tokens_append (tokens_append hstart hcalls) hstop
      simpa [requestFormat, callsFormat, Format.labels] using htokens

theorem lens_format (op : Op) : op.format.lens.length = 1 := by
  cases op <;> rfl

theorem lens_restFormat (ops : List Op) : (restFormat ops).lens.length = 2 * ops.length := by
  induction ops with
  | nil => rfl
  | cons op ops ih =>
      simp only [restFormat, Format.lens, List.length_cons, List.length_append, ih, lens_format]
      omega

theorem lens_requestFormat {ops : List Op} (h : ops ≠ []) :
    (requestFormat ops).lens.length = 3 + 2 * ops.length := by
  cases ops with
  | nil => exact absurd rfl h
  | cons op ops =>
      simp only [requestFormat, callsFormat, Format.lens, List.length_cons, List.length_append,
        List.length_nil, lens_restFormat, lens_format]
      omega

theorem depth_format (op : Op) : op.format.depth = 1 := by
  cases op <;> rfl

theorem depth_restFormat (ops : List Op) : (restFormat ops).depth ≤ 2 := by
  induction ops with
  | nil => exact Nat.zero_le _
  | cons op ops ih =>
      simp only [restFormat, Format.depth, depth_format]
      omega

theorem depth_requestFormat (ops : List Op) : (requestFormat ops).depth < 127 := by
  cases ops with
  | nil => decide
  | cons op ops =>
      have hrest := depth_restFormat ops
      simp only [requestFormat, callsFormat, Format.depth, depth_format]
      omega

theorem evenDicts_format (op : Op) : op.format.EvenDicts := by
  cases op <;> simp [Op.format, Format.EvenDicts]

theorem evenDicts_restFormat (ops : List Op) : (restFormat ops).EvenDicts := by
  induction ops with
  | nil => trivial
  | cons op ops ih => exact ⟨evenDicts_format op, ih⟩

theorem evenDicts_requestFormat (ops : List Op) : (requestFormat ops).EvenDicts := by
  cases ops with
  | nil => simp [requestFormat, callsFormat, Format.EvenDicts]
  | cons op ops =>
      simp [requestFormat, callsFormat, Format.EvenDicts, evenDicts_format, evenDicts_restFormat]

/-! ### The arguments

Argument `j` of call `i` is the next one that is drawn, when `j` arguments were drawn of the
present array.  A call draws all that it has, and the `*` of the next call goes on to the next
array.  So the values that the encoder gets are those of the calls, in their order.
-/

/-- The arguments come from the arrays: argument `j` of call `i` is the next one. -/
def callSource (args : ArgArrays) (i j : Nat) : Source :=
  { own := [], valists := fun _ => [], ref := none, aArgs := some args, aArgCtr := i,
    aArgSubctr := j, nextType := .argArray }

section Call

variable {args : ArgArrays} {i j : Nat} {argv : List Argument}

theorem nextArgument_call (hargv : args[i]? = some (some argv)) {arg : Argument}
    (harg : argv[j]? = some arg) :
    nextArgument (callSource args i j) = .ok (arg, callSource args i (j + 1)) := by
  simp [nextArgument, callSource, hargv, harg]

theorem nextValue_string (hargv : args[i]? = some (some argv)) {s : Option BString}
    (harg : argv[j]? = some (.str s)) :
    nextValue .s (callSource args i j) = .ok (.string s, callSource args i (j + 1)) := by
  simp only [nextValue, next, callSource, expected]
  have h := nextArgument_call hargv harg
  unfold callSource at h
  rw [h]
  rfl

theorem nextValue_int (hargv : args[i]? = some (some argv)) {v : Int64}
    (harg : argv[j]? = some (.num v)) (hv : v.toInt32.toInt64 = v) :
    nextValue .d (callSource args i j) = .ok (.integer v, callSource args i (j + 1)) := by
  simp only [nextValue, next, callSource, expected]
  have h := nextArgument_call hargv harg
  unfold callSource at h
  rw [h]
  simp only [Fault.ok_bind, hv]

theorem numOfUnsigned_int {n : UInt32} (h : n.toNat < 2 ^ 31) :
    (numOfUnsigned n).toInt32.toInt64 = numOfUnsigned n := by
  have hvalue : (numOfUnsigned n).toInt = n.toNat :=
    Int64.toInt_ofInt_of_le (by omega) (by omega)
  rw [← Int64.toInt_inj, Int32.toInt_toInt64, Int64.toInt_toInt32, hvalue]
  exact Int.bmod_eq_of_le (by omega) (by omega)

/-- A call that was collected stands for its name and its arguments. -/
theorem stands_call {op : Op} (hargs : args[i]? = some (some op.args)) (hok : op.Ok) :
    ∃ ts, op.tree = .array ts ∧
      Stands op.format (callSource args i 0) ts (callSource args i op.args.length) := by
  cases op with
  | addHl bufnum hlId group data =>
      obtain ⟨-, hline, hstart, hstop⟩ := hok
      refine ⟨_, rfl, ?_⟩
      refine Stands.value (nextValue_string hargs rfl) ?_
      refine Stands.array ?_ (Stands.nil _)
      refine Stands.value (nextValue_int hargs rfl (by simp)) ?_
      refine Stands.value (nextValue_int hargs rfl (by simp)) ?_
      refine Stands.separator (Stands.value (nextValue_string hargs rfl) (Stands.separator ?_))
      refine Stands.value (nextValue_int hargs rfl (numOfUnsigned_int hline)) ?_
      refine Stands.value (nextValue_int hargs rfl (numOfUnsigned_int hstart)) ?_
      refine Stands.value (nextValue_int hargs rfl (numOfUnsigned_int hstop)) ?_
      exact Stands.nil _
  | addClr bufnum hlId line stop =>
      refine ⟨_, rfl, ?_⟩
      refine Stands.value (nextValue_string hargs rfl) ?_
      refine Stands.array ?_ (Stands.nil _)
      refine Stands.value (nextValue_int hargs rfl (by simp)) ?_
      refine Stands.value (nextValue_int hargs rfl (by simp)) ?_
      refine Stands.value (nextValue_int hargs rfl (by simp)) ?_
      refine Stands.value (nextValue_int hargs rfl (by simp)) ?_
      exact Stands.nil _

end Call

theorem drop_succ_of_cons {α : Type} {l tail : List α} {i : Nat} {a : α}
    (h : l.drop i = a :: tail) : l[i]? = some a ∧ l.drop (i + 1) = tail := by
  refine ⟨?_, ?_⟩
  · rw [← List.head?_drop, h]
    rfl
  · rw [← List.tail_drop, h]
    rfl

/-- The calls after number `i`, whose arguments follow in the array. -/
theorem stands_rest {args : ArgArrays} {ops : List Op} (hops : ∀ op ∈ ops, op.Ok) {i j : Nat}
    (hargs : args.drop (i + 1) = ops.map fun op => some op.args) :
    ∃ src', Stands (restFormat ops) (callSource args i j) (ops.map Op.tree) src' := by
  induction ops generalizing i j with
  | nil => exact ⟨_, Stands.separator (Stands.nil _)⟩
  | cons op ops ih =>
      obtain ⟨hhead, htail⟩ := drop_succ_of_cons hargs
      obtain ⟨ts, htree, hcall⟩ := stands_call hhead (hops op List.mem_cons_self)
      obtain ⟨src', hrest⟩ := ih (fun op' hop' => hops op' (List.mem_cons_of_mem _ hop'))
        (j := op.args.length) htail
      refine ⟨src', ?_⟩
      rw [List.map_cons, htree]
      refine Stands.array (Stands.aside ?_ hcall) (Stands.separator hrest)
      rfl

/-- The tree of what is encoded.  It is not `requestTree` if there is no call. -/
def encodedTree (count : Int32) (ops : List Op) : Tree :=
  .array [.integer 0, .integer count.toInt64, .string (some (bt "nvim_call_atomic")),
    .array (if ops = [] then [] else [.array (ops.map Op.tree)])]

theorem stands_calls {ops : List Op} (hops : ∀ op ∈ ops, op.Ok) :
    ∃ src', Stands (callsFormat ops)
      (.start [.argArrays (ops.map fun op => some op.args)] fun _ => [])
      (if ops = [] then [] else [.array (ops.map Op.tree)]) src' := by
  cases ops with
  | nil => exact ⟨_, Stands.separator (Stands.nil _)⟩
  | cons op ops =>
      let args : ArgArrays := (op :: ops).map fun op => some op.args
      have hhead : args[0]? = some (some op.args) := rfl
      have htail : args.drop (0 + 1) = ops.map fun op => some op.args := rfl
      obtain ⟨ts, htree, hcall⟩ := stands_call hhead (hops op List.mem_cons_self)
      obtain ⟨src', hrest⟩ := stands_rest (fun op' hop' => hops op' (List.mem_cons_of_mem _ hop'))
        (j := op.args.length) htail
      refine ⟨src', ?_⟩
      rw [if_neg (List.cons_ne_nil _ _)]
      simp only [List.map_cons, htree]
      refine Stands.array (Stands.separator (Stands.aside ?_ (Stands.array hcall
        (Stands.separator hrest)))) (Stands.separator (Stands.nil _))
      rfl

theorem stands_request {ops : List Op} (hops : ∀ op ∈ ops, op.Ok) (count : Int32) :
    ∃ src', Stands (requestFormat ops)
      (.start [.int 0, .int count, .bstring (some (bt "nvim_call_atomic")),
        .argArrays (ops.map fun op => some op.args)] fun _ => [])
      [encodedTree count ops] src' := by
  obtain ⟨src', hcalls⟩ := stands_calls hops
  refine ⟨src', Stands.array ?_ (Stands.nil _)⟩
  refine Stands.value (v := .integer 0) rfl (Stands.separator ?_)
  refine Stands.value (v := .integer count.toInt64) rfl (Stands.separator ?_)
  refine Stands.value (v := .string _) rfl (Stands.separator ?_)
  exact Stands.array (Stands.separator hcalls) (Stands.nil _)

/-! ### What is read back

The decoder of the program reads the tree that was encoded, but for the integers that it spoils.
Whether any integer of the request is one of these can be seen from the arguments, and if none is,
the object that is read back is the one the request should be.
-/

/-- The object a call is read back as. -/
def Op.obj : Op → Obj
  | .addHl bufnum hlId group data =>
      .array [.string (bt "nvim_buf_add_highlight"),
        .array [readBack bufnum.toInt64, readBack hlId.toInt64, .string group,
          readBack (numOfUnsigned data.line), readBack (numOfUnsigned data.start),
          readBack (numOfUnsigned data.stop)]]
  | .addClr bufnum hlId line stop =>
      .array [.string (bt "nvim_buf_clear_highlight"),
        .array [readBack bufnum.toInt64, readBack hlId.toInt64, readBack line.toInt64,
          readBack stop.toInt64]]

def encodedObj (count : Int32) (ops : List Op) : Obj :=
  .array [readBack 0, readBack count.toInt64, .string (bt "nvim_call_atomic"),
    .array (if ops = [] then [] else [.array (ops.map Op.obj)])]

theorem emits_call (lib : BStringLib) {op : Op} (hok : op.Ok) : EmitsAs lib op.tree op.obj := by
  cases op with
  | addHl bufnum hlId group data =>
      refine .array (by simp) (.cons (.string (by decide)) (.cons (.array (by simp) ?_) .nil))
      exact .cons (.integer _) <| .cons (.integer _) <| .cons (.string hok.1) <|
        .cons (.integer _) <| .cons (.integer _) <| .cons (.integer _) .nil
  | addClr bufnum hlId line stop =>
      refine .array (by simp) (.cons (.string (by decide)) (.cons (.array (by simp) ?_) .nil))
      exact .cons (.integer _) <| .cons (.integer _) <| .cons (.integer _) <|
        .cons (.integer _) .nil

theorem emits_request (lib : BStringLib) (count : Int32) {ops : List Op} (hops : ∀ op ∈ ops, op.Ok)
    (hlen : ops.length < 2 ^ 31) : EmitsAs lib (encodedTree count ops) (encodedObj count ops) := by
  have hcalls : List.Forall₂ (EmitsAs lib) (ops.map Op.tree) (ops.map Op.obj) := by
    rw [List.forall₂_map_left_iff, List.forall₂_map_right_iff, List.forall₂_same]
    exact fun op hop => emits_call lib (hops op hop)
  have hparams : EmitsAs lib (.array (if ops = [] then [] else [.array (ops.map Op.tree)]))
      (.array (if ops = [] then [] else [.array (ops.map Op.obj)])) := by
    split
    · exact .array (by decide) .nil
    · refine .array (by simp) (.cons (.array ?_ hcalls) .nil)
      rw [List.length_map]
      omega
  exact .array (by simp) <| .cons (.integer _) <| .cons (.integer _) <|
    .cons (.string (by decide)) <| .cons hparams .nil

theorem readBack_iff (value : Int64) :
    readBack value = (Tree.integer value).toObj ↔ ¬(-127 ≤ value.toInt ∧ value.toInt ≤ -33) := by
  refine ⟨fun h => ?_, readBack_of_fits⟩
  rw [← readBack_num_iff, h, Tree.toObj]
  split <;> rfl

theorem obj_iff (op : Op) : op.obj = op.tree.toObj ↔
    ∀ value ∈ op.ints, ¬(-127 ≤ value.toInt ∧ value.toInt ≤ -33) := by
  cases op
  all_goals
    simp only [Op.obj, Op.tree, Op.ints, Tree.toObj, objItems, Obj.array.injEq, List.cons.injEq,
      List.forall_mem_cons, List.not_mem_nil, false_implies, implies_true, ← readBack_iff,
      Option.getD_some, and_true, true_and]

theorem objItems_eq_map (ts : List Tree) : objItems ts = ts.map Tree.toObj := by
  induction ts with
  | nil => rfl
  | cons t ts ih => rw [objItems, ih, List.map_cons]

/-- What is read back is the request, if it has calls and none of its integers is lost. -/
theorem encodedObj_iff (count : Int32) (ops : List Op) :
    encodedObj count ops = (requestTree count ops).toObj ↔
      ops ≠ [] ∧ ∀ value ∈ count.toInt64 :: ops.flatMap Op.ints,
        ¬(-127 ≤ value.toInt ∧ value.toInt ≤ -33) := by
  have hzero : readBack 0 = (Tree.integer 0).toObj := (readBack_iff 0).mpr (by decide)
  have hcalls : ops.map Op.obj = (ops.map Op.tree).map Tree.toObj ↔
      ∀ value ∈ ops.flatMap Op.ints, ¬(-127 ≤ value.toInt ∧ value.toInt ≤ -33) := by
    rw [List.map_map, List.map_inj_left, List.forall_mem_flatMap]
    exact forall₂_congr fun op _ => obj_iff op
  rw [List.forall_mem_cons, ← readBack_iff, ← hcalls]
  simp only [encodedObj, requestTree, callsTree, hzero, Tree.toObj, objItems, objItems_eq_map,
    Option.getD_some, Obj.array.injEq, List.cons.injEq, true_and, and_true]
  by_cases hnone : ops = []
  · simp [hnone]
  · simp [hnone]

/-! ### The whole request

The calls take bytes, so a request that `slen` has the bits for has few enough of them for
everything else: the arrays they are collected in, and the scratch memory of the encoder.  What
is left to ask for is that the encoder has room.
-/

theorem itemCalls_size_le {α : Type} (f : α → Tree) {n : Nat} {l : List α}
    (h : ∀ x ∈ l, n ≤ encodedSize (f x).calls) :
    n * l.length ≤ encodedSize (itemCalls (l.map f)) := by
  induction l with
  | nil => exact Nat.zero_le _
  | cons x l ih =>
      have hx := h x List.mem_cons_self
      have hl := ih fun y hy => h y (List.mem_cons_of_mem _ hy)
      rw [List.map_cons, itemCalls, encodedSize_append, List.length_cons, Nat.mul_succ]
      omega

/-- A call takes its name at least. -/
theorem Op.size_le (op : Op) : 8 ≤ encodedSize op.tree.calls := by
  cases op with
  | addHl bufnum hlId group data =>
      simp only [Op.tree, Tree.calls, itemCalls, encodedSize_cons, encodedSize_append]
      have hname : 8 ≤ (EncodeOp.string (some (bt "nvim_buf_add_highlight"))).size := by decide
      omega
  | addClr bufnum hlId line stop =>
      simp only [Op.tree, Tree.calls, itemCalls, encodedSize_cons, encodedSize_append]
      have hname : 8 ≤ (EncodeOp.string (some (bt "nvim_buf_clear_highlight"))).size := by decide
      omega

theorem callsTree_size (count : Int32) (calls : List Tree) :
    encodedSize (itemCalls calls) ≤ encodedSize (callsTree count calls).calls := by
  simp only [callsTree, Tree.calls, itemCalls, encodedSize_cons, encodedSize_append]
  omega

theorem length_of_hasRoom {lib : BStringLib} {count : Int32} {ops : List Op}
    (h : (requestTree count ops).HasRoom lib) : ops.length < 2 ^ 29 := by
  have hsize := itemCalls_size_le Op.tree (n := 8) (l := ops) fun op _ => op.size_le
  have hle := callsTree_size count (ops.map Op.tree)
  have hshort := h.short
  rw [requestTree] at hshort
  omega

/-- The calls are collected, and the bytes are packed inside the buffer and decode to the request. -/
def Decodes (lib : BStringLib) (count : Int32) (ops : List Op) : Prop :=
  ∃ calls root, ops.foldlM Op.add newArgArray = .ok calls ∧
    nvimCallAtomic lib count calls = .ok (some root) ∧ root.Sound ∧
    doDecode root.data = .ok ((requestTree count ops).toObj, [])

theorem parseFmt_atomicFmt {ops : List Op} {calls : MpackArgArray} (h : Collected ops calls) :
    parseFmt (atomicFmt calls) = some (requestFormat ops) := parseFmt_of_tokens (tokens_atomicFmt h)

theorem qty_collected {ops : List Op} {calls : MpackArgArray} (h : Collected ops calls) :
    calls.qty = ops.length := by
  rw [MpackArgArray.qty, h.fmt, List.length_map]

theorem nvimCallAtomic_decodes (lib : BStringLib) (count : Int32) {ops : List Op}
    (hops : ∀ op ∈ ops, op.Ok) {calls : MpackArgArray} (h : Collected ops calls)
    (hroom : (requestFormat ops).lens.length < arrSize ops.length) (hlen : ops.length < 2 ^ 31) :
    ∃ root, nvimCallAtomic lib count calls = .ok (some root) ∧
      (encodedTree count ops).emit lib mpackMakeNew = .ok root ∧
      doDecode root.data = .ok (encodedObj count ops, []) := by
  obtain ⟨src', vs, hdraw, hden⟩ := stands_request hops count
  have hok : FormatOk calls.qty (requestFormat ops) :=
    { oneItem := rfl, evenDicts := evenDicts_requestFormat ops, depth := depth_requestFormat ops,
      containers := by rwa [qty_collected h] }
  rw [← h.args] at hdraw
  obtain ⟨t, ht, hrun⟩ := mpackEncodeFmt_of_parseFmt lib (parseFmt_atomicFmt h) hok hdraw
  have hden' := hden []
  rw [List.append_nil, ht] at hden'
  obtain rfl : t = encodedTree count ops := by simpa using hden'
  obtain ⟨root, bs, hemit, hdata, hread⟩ := emits_request lib count hops hlen mpackMakeNew
  refine ⟨root, ?_, hemit, ?_⟩
  · rw [nvimCallAtomic, hrun, hemit]
    rfl
  · rw [hdata]
    exact ReadsAll.doDecode hread

/-- The first pass of the encoder has accepted the format. -/
theorem accepted_of_some {lib : BStringLib} {sizeHint : Nat} {fmt : List Char} {src : Source}
    {pack : Option Packed} (h : mpackEncodeFmt lib sizeHint fmt src = .ok pack) :
    ∃ L, countFmt (arrSize sizeHint) fmt = .ok L := by
  unfold mpackEncodeFmt at h
  split at h
  · cases h
  · obtain ⟨L, hL, -⟩ := Fault.bind_eq_ok.mp h
    exact ⟨L, hL⟩

theorem encodedTree_eq {ops : List Op} (h : ops ≠ []) (count : Int32) :
    encodedTree count ops = requestTree count ops := by
  rw [encodedTree, if_neg h]
  rfl

/-- A call brings two containers, and room for six. -/
theorem containers_lt (ops : List Op) (h : 128 + 6 * ops.length < 2 ^ 32) :
    (requestFormat ops).lens.length < arrSize ops.length := by
  cases ops with
  | nil => decide
  | cons op ops =>
      have hlens := lens_requestFormat (List.cons_ne_nil op ops)
      have hsize : arrSize (op :: ops).length = (128 + (op :: ops).length * 6) % 2 ^ 32 :=
        if_neg (Nat.succ_ne_zero _)
      rw [hlens, hsize, Nat.mod_eq_of_lt (by omega)]
      omega

/--
**What an atomic request says.**  The bytes are all inside the buffer and decode to the request,
with the calls in the order in which they were added, exactly if there is a call, the encoder has
room for the request, and the decoder loses none of the integers.
-/
theorem decodes_iff {lib : BStringLib} (hlib : lib.Grows) (count : Int32) {ops : List Op}
    (hops : ∀ op ∈ ops, op.Ok) : Decodes lib count ops ↔ Readable lib count ops := by
  refine ⟨?_, fun h => ?_⟩
  · rintro ⟨calls, root, hcollect, hcall, hsound, hdecode⟩
    have hlen := length_of_collect hcollect
    have h := collected hcollect
    obtain ⟨L, hL⟩ := accepted_of_some hcall
    rw [qty_collected h] at hL
    have hscratch := lens_lt_of_countFmt (parseFmt_atomicFmt h) (Nat.succ_pos _) hL
    obtain ⟨root', hcall', hemit, hdecode'⟩ := nvimCallAtomic_decodes lib count hops h hscratch hlen
    obtain rfl : root' = root := Option.some.inj (Except.ok.inj (hcall'.symm.trans hcall))
    have heq : encodedObj count ops = (requestTree count ops).toObj :=
      (Prod.mk.inj (Except.ok.inj (hdecode'.symm.trans hdecode))).1
    obtain ⟨hsome, hints⟩ := (encodedObj_iff count ops).mp heq
    rw [encodedTree_eq hsome] at hemit
    exact { some := hsome, room := (Tree.sound_iff hlib hemit).mp hsound, ints := hints }
  · have hlen := length_of_hasRoom h.room
    obtain ⟨calls, hcollect, hcalls⟩ := collect (show ops.length < 2 ^ 31 by omega)
    obtain ⟨root, hcall, hemit, hdecode⟩ :=
      nvimCallAtomic_decodes lib count hops hcalls (containers_lt ops (by omega)) (by omega)
    rw [encodedTree_eq h.some] at hemit
    refine ⟨calls, root, hcollect, hcall, (Tree.sound_iff hlib hemit).mpr h.room, ?_⟩
    rw [hdecode, (encodedObj_iff count ops).mpr ⟨h.some, h.ints⟩]

/-! ### Requests that always have room

Names of groups are short, and then only the length of the whole counts.
-/

/-- The group that a call names. -/
def Op.group : Op → BString
  | .addHl _ _ group _ => group
  | .addClr _ _ _ _ => []

theorem Op.Ok.group {op : Op} (h : op.Ok) : op.group.length < 4294967295 := by
  cases op with
  | addHl bufnum hlId group data => exact h.1
  | addClr bufnum hlId line stop => exact (by decide : 0 < 4294967295)

theorem Op.sized_tree {op : Op} (h : op.group.length < 4294967295) : op.tree.Sized := by
  cases op with
  | addHl bufnum hlId group data =>
      exact ⟨by simp, (by decide : (bt "nvim_buf_add_highlight").length < 4294967295),
        ⟨by simp, trivial, trivial, h, trivial, trivial, trivial, trivial⟩, trivial⟩
  | addClr bufnum hlId line stop =>
      exact ⟨by simp, (by decide : (bt "nvim_buf_clear_highlight").length < 4294967295),
        ⟨by simp, trivial, trivial, trivial, trivial, trivial⟩, trivial⟩

/-- What a call with a short name has the encoder do. -/
theorem Op.calls_of_short {op : Op} (h : op.group.length ≤ 123) :
    (∀ c ∈ op.tree.calls, c.Short) ∧ encodedSize op.tree.calls ≤ 200 := by
  cases op with
  | addHl bufnum hlId group data =>
      have hgroup : group.length ≤ 123 := h
      have hint := integer_size_le
      have hname : (EncodeOp.string (some (bt "nvim_buf_add_highlight"))).size = 23 := by decide
      have htext : (EncodeOp.string (some group)).size ≤ 125 := by
        simp only [EncodeOp.size, EncodeOp.direct, Option.getD_some]
        split_ifs <;> omega
      constructor
      · simp [Op.tree, Tree.calls, itemCalls, EncodeOp.Short, hgroup, bt]
      · have h1 := hint bufnum.toInt64
        have h2 := hint hlId.toInt64
        have h3 := hint (numOfUnsigned data.line)
        have h4 := hint (numOfUnsigned data.start)
        have h5 := hint (numOfUnsigned data.stop)
        have hhead : (EncodeOp.array (UInt32.ofNat 2)).size = 1 := rfl
        have hargs : (EncodeOp.array (UInt32.ofNat 6)).size = 1 := rfl
        simp only [Op.tree, Tree.calls, itemCalls, List.length_cons, List.length_nil,
          encodedSize_cons, encodedSize_append, hname, Nat.reduceAdd, hhead, hargs]
        simp only [encodedSize, List.map_nil, List.sum_nil]
        omega
  | addClr bufnum hlId line stop =>
      have hint := integer_size_le
      have hname : (EncodeOp.string (some (bt "nvim_buf_clear_highlight"))).size = 25 := by decide
      constructor
      · simp [Op.tree, Tree.calls, itemCalls, EncodeOp.Short, bt]
      · have h1 := hint bufnum.toInt64
        have h2 := hint hlId.toInt64
        have h3 := hint line.toInt64
        have h4 := hint stop.toInt64
        have hhead : (EncodeOp.array (UInt32.ofNat 2)).size = 1 := rfl
        have hargs : (EncodeOp.array (UInt32.ofNat 4)).size = 1 := rfl
        simp only [Op.tree, Tree.calls, itemCalls, List.length_cons, List.length_nil,
          encodedSize_cons, encodedSize_append, hname, Nat.reduceAdd, hhead, hargs]
        simp only [encodedSize, List.map_nil, List.sum_nil]
        omega

theorem itemCalls_short {α : Type} {f : α → Tree} {n : Nat} {l : List α}
    (h : ∀ x ∈ l, (∀ c ∈ (f x).calls, c.Short) ∧ encodedSize (f x).calls ≤ n) :
    (∀ c ∈ itemCalls (l.map f), c.Short) ∧ encodedSize (itemCalls (l.map f)) ≤ n * l.length := by
  induction l with
  | nil => exact ⟨nofun, Nat.zero_le _⟩
  | cons x l ih =>
      obtain ⟨hx, hsize⟩ := h x List.mem_cons_self
      obtain ⟨hl, hsizes⟩ := ih fun y hy => h y (List.mem_cons_of_mem _ hy)
      rw [List.map_cons, itemCalls, encodedSize_append, List.length_cons, Nat.mul_succ]
      refine ⟨fun c hc => ?_, by omega⟩
      exact (List.mem_append.mp hc).elim (hx c) (hl c)

/-- The encoder has room for ten million calls with short names. -/
theorem requestTree_hasRoom {lib : BStringLib} (hlib : lib.Grows) (count : Int32) {ops : List Op}
    (hops : ∀ op ∈ ops, op.group.length ≤ 123) (hlen : ops.length ≤ 10000000) :
    (requestTree count ops).HasRoom lib := by
  obtain ⟨hcalls, hsize⟩ := itemCalls_short (f := Op.tree) fun op hop => Op.calls_of_short (hops op hop)
  have hsized : SizedItems (ops.map Op.tree) := by
    refine sizedItems_of_forall fun t ht => ?_
    obtain ⟨op, hop, rfl⟩ := List.mem_map.mp ht
    have hgroup := hops op hop
    exact Op.sized_tree (by omega)
  have hname : (EncodeOp.string (some (bt "nvim_call_atomic"))).size = 17 := by decide
  have hzero := integer_size_le 0
  have hcount := integer_size_le count.toInt64
  have hhead : (EncodeOp.array (UInt32.ofNat 4)).size = 1 := rfl
  have hparams : (EncodeOp.array (UInt32.ofNat 1)).size = 1 := rfl
  have hlist : (EncodeOp.array (UInt32.ofNat (ops.map Op.tree).length)).size ≤ 5 := by
    simp only [EncodeOp.size, EncodeOp.direct, seqWidth]
    split_ifs <;> omega
  refine Tree.hasRoom_of_short hlib ⟨by simp, trivial, trivial,
    (by decide : (bt "nvim_call_atomic").length < 4294967295), ⟨by simp, ⟨?_, hsized⟩, trivial⟩,
    trivial⟩ ?_ ?_
  · rw [List.length_map]
    omega
  · simpa [requestTree, callsTree, Tree.calls, itemCalls, EncodeOp.Short, bt] using hcalls
  · simp only [requestTree, callsTree, Tree.calls, itemCalls, List.length_cons, List.length_nil,
      encodedSize_cons, encodedSize_append, hname, Nat.reduceAdd, hhead, hparams]
    simp only [encodedSize, List.map_nil, List.sum_nil] at hsize ⊢
    omega

/-- A highlight and a cleared line. -/
theorem decodes_iff_two : Decodes exactLib 7
    [.addHl 1 2 (bt "Function") { line := 3, start := 4, stop := 300 }, .addClr 1 (-1) 3 (-1)] :=
  (decodes_iff exactLib_grows 7 (by simp [Op.Ok, bt])).mpr
    { some := by simp
      room := requestTree_hasRoom exactLib_grows 7 (by simp [Op.group, bt]) (by simp)
      ints := fun value hmem => by
        -- One value after the other, and not every `Int64`.
        let p (value : Int64) := decide ¬(-127 ≤ value.toInt ∧ value.toInt ≤ -33)
        refine of_decide_eq_true ((List.all_eq_true (p := p)).mp ?_ value hmem)
        rfl }

/-- Without a call, the list of parameters is empty. -/
theorem decodes_none_not :
    (∃ root, nvimCallAtomic exactLib 7 newArgArray = .ok (some root) ∧ doDecode root.data =
      .ok (.array [.unsigned 0, .unsigned 7, .string (bt "nvim_call_atomic"), .array []], [])) ∧
    ¬ Decodes exactLib 7 [] := by
  obtain ⟨root, hcall, -, hdecode⟩ := nvimCallAtomic_decodes exactLib 7 (List.forall_mem_nil _)
    collected_new (by decide) (by decide)
  refine ⟨⟨root, hcall, hdecode⟩, ?_⟩
  rintro ⟨calls, root', hcollect, hcall', -, hdecode'⟩
  obtain rfl : newArgArray = calls := Except.ok.inj hcollect
  obtain rfl : root = root' := Option.some.inj (Except.ok.inj (hcall.symm.trans hcall'))
  have heq := (Prod.mk.inj (Except.ok.inj (hdecode.symm.trans hdecode'))).1
  exact ((encodedObj_iff 7 []).mp heq).1 rfl

/-! ### The scratch memory

The two passes keep the lengths of the containers and a stack of the open ones in memory that is
reserved before.  For an atomic request there are two containers for each call and two levels
below the list of calls, so the memory that `size_hint` asks for is enough as long as its size
fits 32 bits.
-/

/--
**The scratch memory is enough for an atomic request.**  The first pass gets through its
format, and neither pass leaves the arrays or the stacks, wherever in the format it is.
-/
theorem atomic_inBounds {ops : List Op} {calls : MpackArgArray}
    (hcollect : ops.foldlM Op.add newArgArray = .ok calls) (hqty : 128 + 6 * calls.qty < 2 ^ 32) :
    CountInBounds (arrSize calls.qty) (atomicFmt calls) ∧
      ∃ subLengths, countFmt (arrSize calls.qty) (atomicFmt calls) = .ok subLengths ∧
        subLengths.length ≤ arrSize calls.qty ∧
        ∀ lib src, EmitInBounds lib subLengths (atomicFmt calls) src := by
  have h := collected hcollect
  rw [qty_collected h] at hqty ⊢
  have hroom := containers_lt ops hqty
  have hdepth := depth_requestFormat ops
  obtain ⟨hcount, hemit⟩ := inBounds_of_tokens (tokens_atomicFmt h) hdepth hroom
  have hone : (requestFormat ops).items = 1 := rfl
  exact ⟨hcount, _, countFmt_of_parseFmt (parseFmt_atomicFmt h) hone (by omega) hroom,
    Nat.succ_le_of_lt hroom, hemit⟩

/-- A cleared line and a highlight. -/
def twoOps : List Op :=
  [.addClr 1 (-1) 3 (-1), .addHl 1 2 (bt "Function") { line := 3, start := 4, stop := 300 }]

theorem atomic_inBounds_two : ∃ calls, twoOps.foldlM Op.add newArgArray = .ok calls ∧
    CountInBounds (arrSize calls.qty) (atomicFmt calls) ∧
      ∃ subLengths, countFmt (arrSize calls.qty) (atomicFmt calls) = .ok subLengths ∧
        subLengths.length ≤ arrSize calls.qty ∧
        ∀ lib src, EmitInBounds lib subLengths (atomicFmt calls) src := by
  have hlen : twoOps.length = 2 := rfl
  obtain ⟨calls, hcollect, hcalls⟩ := collect (show twoOps.length < 2 ^ 31 by omega)
  exact ⟨calls, hcollect, atomic_inBounds hcollect (by rw [qty_collected hcalls]; omega)⟩

end Atomic

end TagHighlight
