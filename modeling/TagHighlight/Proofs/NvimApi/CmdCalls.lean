/-
What an atomic request says to Neovim.

Highlights and commands are collected alike, so the requests are taken apart for any sort of
call: an `Entry` is a call with its stretch of the format and the trees it stands for.  The
decoder of the program would lose some integers of a request, and Neovim does not.

What Neovim hears is said in terms of messages, which have all integers as they are.  So the only
condition is that there is room, and the theorems hold for every sequence of calls, of whatever
sort.
-/
import TagHighlight.NvimApi.CmdCalls
import TagHighlight.Proofs.NvimApi.Call

namespace TagHighlight.Atomic

/-- A call that can be collected. -/
structure Entry where
  fmt : List Char
  args : List Argument
  format : Format
  trees : List Tree
  tokens : tokens? fmt = some format.labels
  depth : format.depth ≤ 1
  lens : format.lens.length = 1
  evenDicts : format.EvenDicts
  stands : ∀ {argv : ArgArrays} {i : Nat}, argv[i]? = some (some args) →
    Stands format (callSource argv i 0) trees (callSource argv i args.length)

namespace Entry

/-- The format of a command. -/
def commandFormat : Format := .value .s <| .array (.value .s .nil) .nil

theorem evenDicts_commandFormat : commandFormat.EvenDicts := ⟨trivial, trivial⟩

/-- A command. -/
def command (cmd : BString) : Entry where
  fmt := ['s', '[', 's', ']']
  args := [.str (some (bt "nvim_command")), .str (some cmd)]
  format := commandFormat
  trees := [.string (some (bt "nvim_command")), .array [.string (some cmd)]]
  tokens := rfl
  depth := Nat.le_of_eq rfl
  lens := rfl
  evenDicts := evenDicts_commandFormat
  stands h := Stands.value (nextValue_string h rfl)
    (Stands.array (Stands.value (nextValue_string h rfl) (Stands.nil _)) (Stands.nil _))

/-- A highlight, or a line that is cleared. -/
def highlight (op : Op) (hok : op.Ok) (ts : List Tree) (htree : op.tree = .array ts) : Entry where
  fmt := op.fmt
  args := op.args
  format := op.format
  trees := ts
  tokens := tokens_fmt op
  depth := Nat.le_of_eq (depth_format op)
  lens := lens_format op
  evenDicts := evenDicts_format op
  stands h := by
    obtain ⟨ts', htree', hstands⟩ := stands_call h hok
    obtain rfl : ts' = ts := Tree.array.inj (htree'.symm.trans htree)
    exact hstands

def tree (e : Entry) : Tree := .array e.trees

end Entry

/-! ### The format

The format of a request is the same for all sorts of calls but for the stretches that the calls
bring.  So it is put together from a list of entries, and each count of it, of containers, levels
and lengths, is a sum or a maximum over the list.
-/

variable {es : List Entry}

/-- All calls but the first, and the blank after them. -/
def restNesting : List Entry → Format
  | [] => .aside .separator .nil
  | e :: es => .array (.aside .nextArray e.format) <| .aside .separator <| restNesting es

/-- A request for a first call and others. -/
def requestNesting (e : Entry) (es : List Entry) : Format :=
  .array (.value .d <| .aside .separator <| .value .d <| .aside .separator <| .value .s <|
    .aside .separator <| .array (.aside .separator <| .array (.aside .separator <|
      .aside .argArray <| .array e.format <| .aside .separator <| restNesting es) <|
        .aside .separator .nil) .nil) .nil

theorem tokens_restNesting (es : List Entry) :
    tokens? (restFmt (es.map Entry.fmt) ++ [' ']) = some (restNesting es).labels := by
  induction es with
  | nil => rfl
  | cons e es ih =>
      have hopen : tokens? ['[', '*'] = some [.openArray, .aside .nextArray] := rfl
      have hclose : tokens? [']', ','] = some [.close, .aside .separator] := rfl
      have htokens := tokens_append (tokens_append (tokens_append hopen e.tokens) hclose) ih
      simpa [restFmt, restNesting, Format.labels] using htokens

theorem tokens_requestNesting {calls : MpackArgArray} {e : Entry}
    (h : calls.fmt = (e :: es).map Entry.fmt) :
    tokens? (atomicFmt calls) = some (requestNesting e es).labels := by
  have hstart : tokens? ['[', 'd', ',', 'd', ',', 's', ':', '[', ':'] =
      some [.openArray, .value .d, .aside .separator, .value .d, .aside .separator, .value .s,
        .aside .separator, .openArray, .aside .separator] := rfl
  have hopen : tokens? ['[', ' ', '@', '['] =
      some [.openArray, .aside .separator, .aside .argArray, .openArray] := rfl
  have hclose : tokens? [']', ','] = some [.close, .aside .separator] := rfl
  have hend : tokens? [']'] = some [.close] := rfl
  have hstop : tokens? [':', ']', ']'] = some [.aside .separator, .close, .close] := rfl
  have hcalls := tokens_append (tokens_append (tokens_append (tokens_append hopen
    e.tokens) hclose) (tokens_restNesting es)) hend
  have htokens := tokens_append (tokens_append hstart hcalls) hstop
  rw [atomicFmt, h]
  simpa [requestNesting, Format.labels] using htokens

theorem lens_restNesting (es : List Entry) : (restNesting es).lens.length = 2 * es.length := by
  induction es with
  | nil => rfl
  | cons e es ih =>
      simp only [restNesting, Format.lens, List.length_cons, List.length_append, ih, e.lens]
      omega

theorem depth_restNesting (es : List Entry) : (restNesting es).depth ≤ 2 := by
  induction es with
  | nil => exact Nat.zero_le _
  | cons e es ih =>
      have he := e.depth
      simp only [restNesting, Format.depth]
      omega

theorem evenDicts_restNesting (es : List Entry) : (restNesting es).EvenDicts := by
  induction es with
  | nil => trivial
  | cons e es ih => exact ⟨e.evenDicts, ih⟩

/-- There is room for the containers of few enough calls. -/
theorem formatOk_requestNesting (e : Entry) (h : (e :: es).length < 2 ^ 29) :
    FormatOk (e :: es).length (requestNesting e es) where
  oneItem := rfl
  evenDicts := by
    simp [requestNesting, Format.EvenDicts, e.evenDicts, evenDicts_restNesting]
  depth := by
    have he := e.depth
    have hes := depth_restNesting es
    simp only [requestNesting, Format.depth]
    omega
  containers := by
    have hsize : arrSize (e :: es).length = 128 + (e :: es).length * 6 := by
      rw [arrSize, if_neg (by simp), Nat.mod_eq_of_lt (by omega)]
    rw [hsize]
    simp only [requestNesting, Format.lens, List.length_cons, List.length_append, List.length_nil,
      lens_restNesting, e.lens]
    omega

/-! ### The arguments -/

theorem stands_restNesting {args : ArgArrays} {i j : Nat}
    (hargs : args.drop (i + 1) = es.map fun e => some e.args) :
    ∃ src', Stands (restNesting es) (callSource args i j) (es.map Entry.tree) src' := by
  induction es generalizing i j with
  | nil => exact ⟨_, Stands.separator (Stands.nil _)⟩
  | cons e es ih =>
      obtain ⟨hhead, htail⟩ := drop_succ_of_cons hargs
      obtain ⟨src', hrest⟩ := ih (j := e.args.length) htail
      exact ⟨src', Stands.array (Stands.aside rfl (e.stands hhead)) (Stands.separator hrest)⟩

theorem stands_requestNesting (e : Entry) (es : List Entry) (count : Int32) :
    ∃ src', Stands (requestNesting e es)
      (.start [.int 0, .int count, .bstring (some (bt "nvim_call_atomic")),
        .argArrays ((e :: es).map fun e => some e.args)] fun _ => [])
      [callsTree count ((e :: es).map Entry.tree)] src' := by
  let argv : ArgArrays := (e :: es).map fun e => some e.args
  have hcall := e.stands (show argv[0]? = some (some e.args) from rfl)
  obtain ⟨src', hrest⟩ := stands_restNesting (j := e.args.length)
    (show argv.drop (0 + 1) = es.map fun e => some e.args from rfl)
  refine ⟨src', Stands.array ?_ (Stands.nil _)⟩
  refine Stands.value (v := .integer 0) rfl (Stands.separator ?_)
  refine Stands.value (v := .integer count.toInt64) rfl (Stands.separator ?_)
  refine Stands.value (v := .string _) rfl (Stands.separator ?_)
  refine Stands.array (Stands.separator ?_) (Stands.nil _)
  refine Stands.array (Stands.separator ?_) (Stands.separator (Stands.nil _))
  exact Stands.aside rfl (Stands.array hcall (Stands.separator hrest))

theorem treeMessages_map {α : Type} (f : α → Tree) (l : List α) :
    treeMessages (l.map f) = l.map fun x => (f x).message := by
  induction l with
  | nil => rfl
  | cons x l ih => rw [List.map_cons, treeMessages, ih, List.map_cons]

/-- The calls that an array holds are what its request says, if the encoder has room. -/
theorem entries_heard {lib : BStringLib} (hlib : lib.Grows) {count : Int32} {calls : MpackArgArray}
    (hfmt : calls.fmt = es.map Entry.fmt) (hargs : calls.args = es.map fun e => some e.args)
    (hne : es ≠ []) (hlen : es.length < 2 ^ 29)
    (hroom : (callsTree count (es.map Entry.tree)).HasRoom lib) :
    SaysCalls lib count calls (es.map fun e => e.tree.message) := by
  cases es with
  | nil => exact absurd rfl hne
  | cons e es =>
      obtain ⟨src', hstands⟩ := stands_requestNesting e es count
      have hqty : calls.qty = (e :: es).length := by rw [MpackArgArray.qty, hfmt, List.length_map]
      have hok := formatOk_requestNesting e hlen
      rw [← hqty] at hok
      rw [← hargs] at hstands
      obtain ⟨root, hrun, hsound, hhear⟩ := (Api.heard_iff_of_stands hlib
        (parseFmt_of_tokens (tokens_requestNesting hfmt)) hok hstands).mpr hroom
      refine ⟨root, hrun, hsound, fun rest => ?_⟩
      rw [hhear rest]
      simp [callsTree, Tree.message, treeMessages, atomicMessage, Api.requestMessage,
        treeMessages_map]

/-! ### Highlights -/

/-- The entries of highlights that fit. -/
theorem entries_of_ops {ops : List Op} (hops : ∀ op ∈ ops, op.Ok) :
    ∃ es : List Entry, es.map Entry.fmt = ops.map Op.fmt ∧
      (es.map fun e => some e.args) = (ops.map fun op => some op.args) ∧
      es.map Entry.tree = ops.map Op.tree := by
  induction ops with
  | nil => exact ⟨[], rfl, rfl, rfl⟩
  | cons op ops ih =>
      obtain ⟨es, hfmt, hargs, htrees⟩ := ih fun op' hop' => hops op' (List.mem_cons_of_mem _ hop')
      have hok := hops op List.mem_cons_self
      obtain ⟨ts, htree⟩ : ∃ ts, op.tree = .array ts := by
        cases op with
        | addHl bufnum hlId group data => exact ⟨_, rfl⟩
        | addClr bufnum hlId line stop => exact ⟨_, rfl⟩
      refine ⟨Entry.highlight op hok ts htree :: es, ?_, ?_, ?_⟩
      · rw [List.map_cons, List.map_cons, hfmt]
        rfl
      · rw [List.map_cons, List.map_cons, hargs]
        rfl
      · rw [List.map_cons, List.map_cons, htrees, htree]
        rfl

/-- Neovim hears the highlights that were collected. -/
theorem highlights_heard {lib : BStringLib} (hlib : lib.Grows) {count : Int32} {ops : List Op}
    {calls : MpackArgArray} (hcollect : ops.foldlM Op.add newArgArray = .ok calls)
    (hops : ∀ op ∈ ops, op.Ok) (hne : ops ≠ []) (hroom : (requestTree count ops).HasRoom lib) :
    SaysCalls lib count calls (ops.map fun op => op.tree.message) := by
  have hcalls := collected hcollect
  have hlen := length_of_hasRoom hroom
  obtain ⟨es, hfmt, hargs, htrees⟩ := entries_of_ops hops
  have hcount : es.length = ops.length := by
    have := congrArg List.length hfmt
    rwa [List.length_map, List.length_map] at this
  have hnil : es ≠ [] := by
    rintro rfl
    exact hne (List.length_eq_zero_iff.mp hcount.symm)
  rw [requestTree, ← htrees] at hroom
  have hheard := entries_heard hlib (hcalls.fmt.trans hfmt.symm) (hcalls.args.trans hargs.symm) hnil
    (by omega) hroom
  have hmessages := congrArg (List.map Tree.message) htrees
  rw [List.map_map, List.map_map] at hmessages
  exact hmessages ▸ hheard

/-! ### Commands

The array for commands starts with room for 16, and otherwise is filled as the one for highlights.
A command takes eight bytes at least, for the name of its call, so a request whose size fits 32
bits has too few commands for the array to be the thing that fails.
-/

/-- The commands that were collected, with room for one more. -/
structure CmdsCollected (cmds : List BString) (calls : MpackArgArray) : Prop where
  fmt : calls.fmt = (cmds.map Entry.command).map Entry.fmt
  args : calls.args = (cmds.map Entry.command).map fun e => some e.args
  room : cmds.length < calls.mlen
  bound : calls.mlen ≤ 16 + 2 * cmds.length

theorem cmdsCollected_new : CmdsCollected [] newCmdArray :=
  ⟨rfl, rfl, by decide, by decide⟩

theorem CmdsCollected.add {cmds : List BString} {calls : Option MpackArgArray}
    (h : CmdsCollected cmds (calls.getD newCmdArray)) (cmd : BString)
    (hlen : cmds.length < 2 ^ 29) :
    ∃ calls', addCmdCall calls cmd = .ok calls' ∧ CmdsCollected (cmds ++ [cmd]) calls' := by
  generalize hold : calls.getD newCmdArray = old at h
  have hqty : old.qty = cmds.length := by
    rw [MpackArgArray.qty, h.fmt, List.length_map, List.length_map]
  have hroom := h.room
  have hbound := h.bound
  have hgrow : cmds.length + 1 < grow old ∧ grow old ≤ 16 + 2 * (cmds.length + 1) := by
    unfold grow
    rw [hqty]
    split <;> omega
  refine ⟨{ fmt := old.fmt ++ [['s', '[', 's', ']']],
            args := old.args ++ [some [.str (some (bt "nvim_command")), .str (some cmd)]],
            mlen := grow old }, ?_, ?_⟩
  · rw [addCmdCall, hold, addCall, hqty]
    exact if_pos (by omega)
  · generalize grow old = mlen at hgrow
    refine ⟨?_, ?_, ?_, ?_⟩
    · simp [h.fmt, Entry.command]
    · simp [h.args, Entry.command]
    · rw [List.length_append, List.length_singleton]
      exact hgrow.1
    · rw [List.length_append, List.length_singleton]
      exact hgrow.2

/-- Any number of commands can be collected, up to where the array would be too large. -/
theorem collectCommands_ok {cmds : List BString} (h : cmds.length ≤ 2 ^ 29) :
    ∃ calls, collectCommands cmds = .ok calls ∧ CmdsCollected cmds (calls.getD newCmdArray) := by
  induction cmds using List.reverseRecOn with
  | nil => exact ⟨none, rfl, cmdsCollected_new⟩
  | append_singleton cmds cmd ih =>
      rw [List.length_append, List.length_singleton] at h
      obtain ⟨calls, hrun, hcalls⟩ := ih (by omega)
      obtain ⟨calls', hadd, hcalls'⟩ := hcalls.add cmd (by omega)
      refine ⟨some calls', ?_, hcalls'⟩
      rw [collectCommands] at hrun ⊢
      rw [List.foldlM_append, hrun, Fault.ok_bind, List.foldlM_cons, hadd]
      rfl

/-- A command takes the name of the call at least. -/
theorem commandTree_size (cmd : BString) : 8 ≤ encodedSize (commandTree cmd).calls := by
  have hname : 8 ≤ (EncodeOp.string (some (bt "nvim_command"))).size := by decide
  simp only [commandTree, Tree.calls, itemCalls, encodedSize_cons, encodedSize_append]
  omega

theorem length_of_commands {lib : BStringLib} {count : Int32} {cmds : List BString}
    (h : (commandRequest count cmds).HasRoom lib) : cmds.length < 2 ^ 29 := by
  have hsize := itemCalls_size_le commandTree (n := 8) (l := cmds) fun cmd _ => commandTree_size cmd
  have hle := callsTree_size count (cmds.map commandTree)
  have hshort := h.short
  rw [commandRequest] at hshort
  omega

/-- Neovim hears the commands that were collected, in their order. -/
theorem commands_heard {lib : BStringLib} (hlib : lib.Grows) {count : Int32} {cmds : List BString}
    {calls : MpackArgArray} (hcollect : collectCommands cmds = .ok (some calls))
    (hroom : (commandRequest count cmds).HasRoom lib) :
    SaysCalls lib count calls (cmds.map commandMessage) := by
  have hlen := length_of_commands hroom
  obtain ⟨calls', hrun, hcalls⟩ := collectCommands_ok (Nat.le_of_lt hlen)
  obtain rfl : calls' = some calls := Except.ok.inj (hrun.symm.trans hcollect)
  have hne : cmds ≠ [] := by
    rintro rfl
    cases hcollect
  have htrees : (cmds.map Entry.command).map Entry.tree = cmds.map commandTree := List.map_map
  rw [commandRequest, ← htrees] at hroom
  have hheard := entries_heard hlib hcalls.fmt hcalls.args (by simpa using hne)
    (by rwa [List.length_map]) hroom
  rwa [List.map_map] at hheard

theorem collectCommands_some {cmds : List BString} (hne : cmds ≠ []) (hlen : cmds.length ≤ 2 ^ 29) :
    ∃ calls, collectCommands cmds = .ok (some calls) := by
  obtain ⟨calls, hrun, hcalls⟩ := collectCommands_ok hlen
  cases calls with
  | some calls => exact ⟨calls, hrun⟩
  | none =>
      have hfmt := hcalls.fmt
      cases cmds with
      | nil => exact absurd rfl hne
      | cons cmd cmds => cases hfmt

/--
**Neovim hears every call of an atomic request.**  Whatever is collected, highlights or commands,
in the order it was, with every line, column and buffer number as it is, even those that the
program itself would not read back, if the encoder has room for the request.
-/
theorem atomic_heard {lib : BStringLib} (hlib : lib.Grows) (count : Int32) :
    (∀ ops : List Op, ops ≠ [] → (∀ op ∈ ops, op.Ok) → (requestTree count ops).HasRoom lib →
      ∃ calls, ops.foldlM Op.add newArgArray = .ok calls ∧
        SaysCalls lib count calls (ops.map fun op => op.tree.message)) ∧
    ∀ cmds : List BString, cmds ≠ [] → (commandRequest count cmds).HasRoom lib →
      ∃ calls, collectCommands cmds = .ok (some calls) ∧
        SaysCalls lib count calls (cmds.map commandMessage) := by
  refine ⟨fun ops hne hops hroom => ?_, fun cmds hne hroom => ?_⟩
  · have hlen := length_of_hasRoom hroom
    obtain ⟨calls, hcollect, -⟩ := collect (show ops.length < 2 ^ 31 by omega)
    exact ⟨calls, hcollect, highlights_heard hlib hcollect hops hne hroom⟩
  · obtain ⟨calls, hcollect⟩ := collectCommands_some hne (Nat.le_of_lt (length_of_commands hroom))
    exact ⟨calls, hcollect, commands_heard hlib hcollect hroom⟩

theorem atomic_heard_two :
    (∃ calls, twoOps.foldlM Op.add newArgArray = .ok calls ∧
      SaysCalls exactLib 7 calls (twoOps.map fun op => op.tree.message)) ∧
    ∃ calls, collectCommands [bt "ownsyntax", bt "syntax clear"] = .ok (some calls) ∧
      SaysCalls exactLib 7 calls ([bt "ownsyntax", bt "syntax clear"].map commandMessage) := by
  refine ⟨(atomic_heard exactLib_grows 7).1 _ (by decide) (fun op hop => ?_) ?_,
    (atomic_heard exactLib_grows 7).2 _ (by decide) ⟨?_, by decide +kernel, by decide +kernel⟩⟩
  · simp only [twoOps, List.mem_cons, List.not_mem_nil, or_false] at hop
    rcases hop with rfl | rfl
    · trivial
    · exact ⟨by decide, by decide, by decide, by decide⟩
  · exact requestTree_hasRoom exactLib_grows 7 (by simp [twoOps, Op.group, bt]) (by decide)
  · simp [commandRequest, callsTree, commandTree, Tree.Sized, SizedItems, bt]

end TagHighlight.Atomic
