/-
What the requests of the wrappers say.

The format of a request is that of its parameters between brackets, so it parses if that one
does, and the arguments behind `!` are those of the wrapper.  Then the encoder gets the tree of
the request, and a peer hears it.  For each wrapper there is only its own format to parse.

Whether the encoder has room is not decided here.  It depends on the lengths of the names and
strings that are passed, and a name of a hundred bytes with a long string behind it is enough to
find the buffer full at the wrong moment.  So the theorem says of every wrapper and of all
arguments: the bytes are the request, and inside of the buffer, exactly if there is room for the
request.
-/
import TagHighlight.NvimApi.Call
import TagHighlight.Proofs.Mpack.Message
import TagHighlight.Proofs.NvimApi.Atomic

namespace TagHighlight.Api

/-! ### The format

`snprintf` puts the wrapper's own format between the brackets of the request.  No label is a NUL,
so all of it is copied, and the buffer was made for its length.  The nesting is then that of the
wrapper's format, one level deeper.
-/

/-- A character that is a label is no NUL. -/
theorem takeWhile_of_tokens {fmt : List Char} {ts : List Token} (h : tokens? fmt = some ts) :
    fmt.takeWhile (· ≠ Char.ofNat 0) = fmt := by
  induction fmt generalizing ts with
  | nil => rfl
  | cons ch fmt ih =>
      obtain ⟨t, ht, h⟩ := Option.bind_eq_some_iff.mp h
      obtain ⟨rest, hrest, -⟩ := Option.bind_eq_some_iff.mp h
      have hch : ch ≠ Char.ofNat 0 := by
        rintro rfl
        cases ht
      rw [List.takeWhile_cons, if_pos (decide_eq_true hch), ih hrest]

instance decidableEvenDicts : (f : Format) → Decidable f.EvenDicts
  | .nil => isTrue trivial
  | .value _ rest => decidableEvenDicts rest
  | .aside _ rest => decidableEvenDicts rest
  | .array body rest =>
      @instDecidableAnd _ _ (decidableEvenDicts body) (decidableEvenDicts rest)
  | .dict body rest =>
      @instDecidableAnd _ _ inferInstance
        (@instDecidableAnd _ _ (decidableEvenDicts body) (decidableEvenDicts rest))

/-- The buffer is large enough for the text. -/
theorem genericFmt_eq {fmt : List Char} {ts : List Token} (h : tokens? fmt = some ts)
    (hlen : fmt.length + 16 < 2 ^ 32) :
    genericFmt fmt = ['[', 'd', ',', 'd', ',', 's', ':', '[', '!'] ++ fmt ++ [']', ']'] := by
  rw [genericFmt, snprintf, takeWhile_of_tokens h, Nat.mod_eq_of_lt hlen]
  refine List.take_of_length_le ?_
  simp only [List.length_append, List.length_cons, List.length_nil]
  omega

/-- The format of a request. -/
def requestBody (body : Format) : Format :=
  .array (.value .d <| .aside .separator <| .value .d <| .aside .separator <| .value .s <|
    .aside .separator <| .array (.aside .otherValist body) .nil) .nil

theorem parseFmt_genericFmt {fmt : List Char} {body : Format} (h : parseFmt fmt = some body)
    (hlen : fmt.length + 16 < 2 ^ 32) : parseFmt (genericFmt fmt) = some (requestBody body) := by
  have htokens := tokens_of_parseFmt h
  have hstart : tokens? ['[', 'd', ',', 'd', ',', 's', ':', '[', '!'] =
      some [.openArray, .value .d, .aside .separator, .value .d, .aside .separator, .value .s,
        .aside .separator, .openArray, .aside .otherValist] := rfl
  have hstop : tokens? [']', ']'] = some [.close, .close] := rfl
  rw [genericFmt_eq htokens hlen]
  refine parseFmt_of_tokens ?_
  simpa [requestBody, Format.labels] using tokens_append (tokens_append hstart htokens) hstop

theorem formatOk_requestBody {body : Format} (heven : body.EvenDicts) (hdepth : body.depth < 125)
    (hcontainers : body.lens.length < 126) : FormatOk 0 (requestBody body) where
  oneItem := rfl
  evenDicts := ⟨⟨heven, trivial⟩, trivial⟩
  depth := by
    simp only [requestBody, Format.depth]
    omega
  containers := by
    simp only [requestBody, Format.lens, List.length_cons, List.length_append, List.length_nil,
      arrSize, if_true]
    omega

/-- What is left over after the values of a format makes no difference to it. -/
theorem denotes_append {f : Format} : ∀ {vs rest : List Value} {ts : List Tree},
    f.denotes vs = some (ts, rest) → ∀ ws, f.denotes (vs ++ ws) = some (ts, rest ++ ws) := by
  induction f with
  | nil =>
      intro vs rest ts h ws
      obtain ⟨rfl, rfl⟩ := Prod.mk.inj (Option.some.inj h)
      rfl
  | value k f ih =>
      intro vs rest ts h ws
      cases vs with
      | nil => cases h
      | cons v vs =>
          obtain ⟨⟨us, mid⟩, hmid, h⟩ := Option.bind_eq_some_iff.mp h
          obtain ⟨rfl, rfl⟩ := Prod.mk.inj (Option.some.inj h)
          rw [List.cons_append, Format.denotes, ih hmid ws]
          rfl
  | aside a f ih => exact ih
  | array body f ihb ih =>
      intro vs rest ts h ws
      obtain ⟨⟨sub, mid⟩, hsub, h⟩ := Option.bind_eq_some_iff.mp h
      obtain ⟨⟨us, mid'⟩, hmid, h⟩ := Option.bind_eq_some_iff.mp h
      obtain ⟨rfl, rfl⟩ := Prod.mk.inj (Option.some.inj h)
      simp only [Format.denotes, ihb hsub ws, ih hmid ws, Option.bind_eq_bind, Option.bind_some]
  | dict body f ihb ih =>
      intro vs rest ts h ws
      obtain ⟨⟨sub, mid⟩, hsub, h⟩ := Option.bind_eq_some_iff.mp h
      obtain ⟨⟨us, mid'⟩, hmid, h⟩ := Option.bind_eq_some_iff.mp h
      obtain ⟨rfl, rfl⟩ := Prod.mk.inj (Option.some.inj h)
      simp only [Format.denotes, ihb hsub ws, ih hmid ws, Option.bind_eq_bind, Option.bind_some]

/-! ### Any call

What a format stands for does not depend on what comes behind its arguments.  So a wrapper's
arguments can be passed as an address behind the count and the name, and the request is the list
of the four things it is made of.
-/

theorem stands_request {call : Call} {body : Format} {ts : List Tree} {src' : Source}
    (h : Stands body (otherSource call.lists 0) ts src') (count : Int32) :
    Stands (requestBody body)
      (.start [.int 0, .int count, .bstring (some call.fn), .valist 0] call.lists)
      [.array [.integer 0, .integer count.toInt64, .string (some call.fn), .array ts]] src' := by
  refine Stands.array ?_ (Stands.nil _)
  refine Stands.value (v := .integer 0) rfl (Stands.separator ?_)
  refine Stands.value (v := .integer count.toInt64) rfl (Stands.separator ?_)
  refine Stands.value (v := .string (some call.fn)) rfl (Stands.separator ?_)
  exact Stands.array (Stands.aside rfl h) (Stands.nil _)

/-- What a format stands for is packed inside the buffer and heard, exactly if it has room. -/
theorem heard_iff_of_stands {lib : BStringLib} (hlib : lib.Grows) {sizeHint : Nat} {fmt : List Char}
    {body : Format} {src src' : Source} {t : Tree} (hparse : parseFmt fmt = some body)
    (hok : FormatOk sizeHint body) (hstands : Stands body src [t] src') :
    (∃ root, mpackEncodeFmt lib sizeHint fmt src = .ok (some root) ∧ root.Sound ∧
      ∀ rest, hear (root.data ++ rest) = some (t.message, rest)) ↔ t.HasRoom lib := by
  obtain ⟨vs, hdraw, hden⟩ := hstands
  obtain ⟨t', ht', hrun⟩ := mpackEncodeFmt_of_parseFmt lib hparse hok hdraw
  have hden' := hden []
  rw [List.append_nil, ht'] at hden'
  obtain rfl : t' = t := by simpa using hden'
  rw [← Tree.hasRoom_iff hlib, hrun]
  constructor
  · rintro ⟨root, hroot, hsound, -⟩
    obtain ⟨root', hemit, hroot⟩ := Fault.bind_eq_ok.mp hroot
    obtain rfl : root' = root := Option.some.inj (Except.ok.inj hroot)
    exact ⟨root', hemit, hsound⟩
  · rintro ⟨root, hemit, hsound⟩
    have hsized := (Tree.sized_of_emit hemit hsound.short).1
    exact ⟨root, by rw [hemit]; rfl, hsound, Tree.hear_of_emit hsized hemit⟩

theorem message_requestTree (count : Int32) (fn : BString) (params : List Tree) :
    (requestTree count fn params).message = requestMessage count fn (treeMessages params) := by
  simp [requestTree, Tree.message, treeMessages, requestMessage]

/--
A call says its parameters, if its format stands for them with the arguments behind the
wrapper's own address, and just if the encoder has room.
-/
theorem request_says_iff {lib : BStringLib} (hlib : lib.Grows) {call : Call} {fmt : List Char}
    {body : Format} {ts : List Tree} {src' : Source} (hfmt : call.fmt = some fmt)
    (hparse : parseFmt fmt = some body)
    (hstands : Stands body (otherSource call.lists 0) ts src') (hlen : fmt.length + 16 < 2 ^ 32)
    (hok : FormatOk 0 (requestBody body)) (count : Int32) :
    call.Says lib count (treeMessages ts) ↔ (requestTree count call.fn ts).HasRoom lib := by
  have hheard := heard_iff_of_stands hlib (parseFmt_genericFmt hparse hlen) hok
    (stands_request hstands count)
  rw [← requestTree, message_requestTree] at hheard
  rw [Call.Says, Call.request, hfmt]
  exact hheard

/-- The format of a request without parameters. -/
def plainBody : Format :=
  .array (.value .d <| .aside .separator <| .value .d <| .aside .separator <| .value .s <|
    .aside .separator <| .array .nil .nil) .nil

/-- A call without parameters says that there are none. -/
theorem plainCall_says_iff {lib : BStringLib} (hlib : lib.Grows) (fn : String) (count : Int32) :
    (plainCall fn).Says lib count (treeMessages []) ↔ (requestTree count (bt fn) []).HasRoom lib := by
  have hparse : parseFmt ['[', 'd', ',', 'd', ',', 's', ':', '[', ']', ']'] = some plainBody := rfl
  have hok : FormatOk 0 plainBody := ⟨rfl, by simp [plainBody, Format.EvenDicts], by decide, by decide⟩
  have hstands : Stands plainBody (.start [.int 0, .int count, .bstring (some (bt fn))] fun _ => [])
      [.array [.integer 0, .integer count.toInt64, .string (some (bt fn)), .array []]]
      (.start [] fun _ => []) := by
    refine Stands.array ?_ (Stands.nil _)
    refine Stands.value (v := .integer 0) rfl (Stands.separator ?_)
    refine Stands.value (v := .integer count.toInt64) rfl (Stands.separator ?_)
    refine Stands.value (v := .string (some (bt fn))) rfl (Stands.separator ?_)
    exact Stands.array (Stands.nil _) (Stands.nil _)
  have hheard := heard_iff_of_stands hlib hparse hok hstands
  rw [← requestTree, message_requestTree] at hheard
  exact hheard

/-- There is room for a name. -/
theorem plainCall_says {lib : BStringLib} (hlib : lib.Grows) (fn : String) (count : Int32)
    (hshort : (bt fn).length ≤ 123) : (plainCall fn).Says lib count (treeMessages []) := by
  refine (plainCall_says_iff hlib fn count).mpr (Tree.hasRoom_of_short hlib ?_ ?_ ?_)
  · refine ⟨by simp, trivial, trivial, ?_, ⟨by simp, trivial⟩, trivial⟩
    exact Nat.lt_of_le_of_lt hshort (by decide)
  · intro op hop
    simp only [requestTree, Tree.calls, itemCalls, List.append_nil, List.mem_cons,
      List.mem_append, List.not_mem_nil, or_false] at hop
    rcases hop with rfl | rfl | rfl | rfl | rfl
    · trivial
    · trivial
    · trivial
    · exact hshort
    · trivial
  · have hcount := integer_size_le count.toInt64
    have hname : (EncodeOp.string (some (bt fn))).size ≤ 125 := by
      simp only [EncodeOp.size, EncodeOp.direct, Option.getD_some]
      split_ifs <;> omega
    have hfour : (EncodeOp.array (UInt32.ofNat 4)).size = 1 := rfl
    have hnone : (EncodeOp.array (UInt32.ofNat 0)).size = 1 := rfl
    have hzero : (EncodeOp.integer 0).size = 1 := rfl
    simp only [encodedSize, requestTree, Tree.calls, itemCalls, List.length_cons, List.length_nil,
      Nat.zero_add, List.nil_append, List.append_nil, List.cons_append, List.map_cons, List.map_nil,
      List.sum_cons, List.sum_nil, hfour, hnone, hzero]
    omega

/-! ### Every wrapper

Most wrappers pass values for a format of their own, which is short and parses by computation.
The two with a format of the caller go on reading the caller's list where the wrapper's arguments
end; for them the format and its arguments are a parameter, with what it has to satisfy in
`Arguments`.
-/

/-- A wrapper with values only, and few of them. -/
theorem genericCall_says_iff {lib : BStringLib} (hlib : lib.Grows) {blocking : Bool} {fn fmt : String}
    {args : List Arg} {body : Format} {ts : List Tree} {src' : Source}
    (hparse : parseFmt fmt.toList = some body)
    (hstands : Stands body (otherSource (genericCall blocking fn fmt args).lists 0) ts src')
    (heven : body.EvenDicts) (hsmall : body.depth < 10 ∧ body.lens.length < 10)
    (hshort : fmt.toList.length < 100) (count : Int32) :
    (genericCall blocking fn fmt args).Says lib count (treeMessages ts) ↔
      (requestTree count (bt fn) ts).HasRoom lib := by
  have hok := formatOk_requestBody heven (show body.depth < 125 by omega) (by omega)
  exact request_says_iff hlib rfl hparse hstands (by omega) hok count

/-- The arguments of a wrapper are read behind their own address. -/
theorem Arguments.stands (a : Arguments) :
    ∃ src', Stands a.body (otherSource a.valists a.ref) a.params src' := by
  have hreads : (otherSource a.valists a.ref).Reads (some a.ref) (callLists [] a.valists) :=
    { own := rfl, valists := rfl, ref := fun _ h => h, type := rfl }
  obtain ⟨ts, hts, hfrom⟩ := a.supplies
  obtain rfl : ts = a.body.labels := Option.some.inj (hts.symm.trans (tokens_of_parseFmt a.parse))
  obtain ⟨src', hdraw⟩ := hfrom.drawTokens hreads
  exact ⟨src', a.vs, hdraw, fun ws => denotes_append a.denotes ws⟩

/-- What is left of the lists once the wrapper's own arguments are taken. -/
theorem Arguments.lists_of_taken (a : Arguments) (lists : Nat → List Arg)
    (h : ∀ ref, lists ref = if ref = 0 then [] else a.valists ref) : lists = a.valists := by
  funext ref
  rw [h ref]
  split
  · rename_i hzero
    rw [hzero, a.unused]
  · rfl

/-- A first argument, and then the address of the others. -/
theorem Arguments.stands_behind (a : Arguments) (call : Call) (name : BString)
    (hargs : call.args = [strArg name, a.arg]) (hvalists : call.valists = a.valists) :
    ∃ src1 src2 src', nextValue .s (otherSource call.lists 0) = .ok (.string (some name), src1) ∧
      takeAside .otherValist src1 = .ok src2 ∧ Stands a.body src2 a.params src' := by
  obtain ⟨src', hstands⟩ := a.stands
  have hzero : call.lists 0 = [strArg name, a.arg] := by rw [Call.lists, if_pos rfl, hargs]
  have hlists : (fun r => if r = 0 then ([] : List Arg)
      else if r = 0 then [a.arg] else call.lists r) = a.valists := by
    refine a.lists_of_taken _ fun ref => ?_
    by_cases href : ref = 0
    · rw [if_pos href, if_pos href]
    · rw [if_neg href, if_neg href, if_neg href, Call.lists, if_neg href, hvalists]
  refine ⟨{ otherSource call.lists 0 with
      valists := fun r => if r = 0 then [a.arg] else call.lists r }, otherSource a.valists a.ref,
    src', ?_, ?_, hstands⟩
  · simp [nextValue, next, nextValistOnly, otherSource, hzero, strArg, expected, Fault.ok_bind]
  · exact congrArg (fun lists => Except.ok { otherSource lists a.ref with ref := some a.ref }) hlists

theorem callFunctionFmt_says_iff {lib : BStringLib} (hlib : lib.Grows) (function : BString)
    (a : Arguments) (count : Int32) :
    (nvimextCallFunctionFmt function a).Says lib count
        (treeMessages [.string (some function), .array a.params]) ↔
      (requestTree count (bt "nvim_call_function") [.string (some function), .array a.params]).HasRoom
        lib := by
  have hparse : parseFmt (['s', ',', '[', '!'] ++ a.fmt ++ [']']) =
      some (.value .s <| .aside .separator <| .array (.aside .otherValist a.body) .nil) := by
    have hstart : tokens? ['s', ',', '[', '!'] =
        some [.value .s, .aside .separator, .openArray, .aside .otherValist] := rfl
    refine parseFmt_of_tokens ?_
    simpa [Format.labels] using tokens_append (tokens_append hstart (tokens_of_parseFmt a.parse))
      (show tokens? [']'] = some [.close] from rfl)
  obtain ⟨src1, src2, src', hname, haside, hstands⟩ :=
    a.stands_behind (nvimextCallFunctionFmt function a) function rfl rfl
  have heven : Format.EvenDicts (.value .s <| .aside .separator <|
      .array (.aside .otherValist a.body) .nil) := ⟨a.evenDicts, trivial⟩
  have hok := formatOk_requestBody heven
    (by have := a.depth; simp only [Format.depth]; omega)
    (by have := a.containers; simp only [Format.lens, List.length_cons, List.length_append,
          List.length_nil]; omega)
  have hwhole := Stands.value hname <| Stands.separator <|
    Stands.array (Stands.aside haside hstands) (Stands.nil _)
  have hlen : (['s', ',', '[', '!'] ++ a.fmt ++ [']']).length + 16 < 2 ^ 32 := by
    have := a.short
    simp only [List.length_append, List.length_cons, List.length_nil]
    omega
  exact request_says_iff hlib rfl hparse hwhole hlen hok count

theorem setVar_says_iff {lib : BStringLib} (hlib : lib.Grows) (varname : BString) (a : Arguments)
    (count : Int32) :
    (nvimSetVar varname a).Says lib count
        (treeMessages [.array (.string (some varname) :: a.params)]) ↔
      (requestTree count (bt "nvim_set_var") [.array (.string (some varname) :: a.params)]).HasRoom
        lib := by
  have hparse : parseFmt (['[', 's', ',', '!'] ++ a.fmt ++ [']']) =
      some (.array (.value .s <| .aside .separator <| .aside .otherValist a.body) .nil) := by
    have hstart : tokens? ['[', 's', ',', '!'] =
        some [.openArray, .value .s, .aside .separator, .aside .otherValist] := rfl
    refine parseFmt_of_tokens ?_
    simpa [Format.labels] using tokens_append (tokens_append hstart (tokens_of_parseFmt a.parse))
      (show tokens? [']'] = some [.close] from rfl)
  obtain ⟨src1, src2, src', hname, haside, hstands⟩ :=
    a.stands_behind (nvimSetVar varname a) varname rfl rfl
  have heven : Format.EvenDicts (.array (.value .s <| .aside .separator <|
      .aside .otherValist a.body) .nil) := ⟨a.evenDicts, trivial⟩
  have hok := formatOk_requestBody heven
    (by have := a.depth; simp only [Format.depth]; omega)
    (by have := a.containers; simp only [Format.lens, List.length_cons, List.length_append,
          List.length_nil]; omega)
  have hwhole := Stands.array
    (Stands.value hname <| Stands.separator <| Stands.aside haside hstands) (Stands.nil src')
  have hlen : (['[', 's', ',', '!'] ++ a.fmt ++ [']']).length + 16 < 2 ^ 32 := by
    have := a.short
    simp only [List.length_append, List.length_cons, List.length_nil]
    omega
  exact request_says_iff hlib rfl hparse hwhole hlen hok count

/--
**What a wrapper packs is its request.**  Whatever function of Neovim is asked for and with
whatever arguments, the message is `[0, count, fn, params]`, and Neovim hears just that, exactly if
the encoder has room for it.
-/
theorem api_heard_iff {lib : BStringLib} (hlib : lib.Grows) (c : ApiCall) (count : Int32) :
    c.call.Says lib count (treeMessages c.params) ↔
      (requestTree count c.call.fn c.params).HasRoom lib := by
  cases c with
  | write type mes =>
      cases type
      all_goals
        exact genericCall_says_iff hlib rfl ⟨_, rfl, fun _ => rfl⟩ (by decide) (by decide) (by decide)
          count
  | listBufs => exact plainCall_says_iff hlib _ count
  | getCurrentBuf => exact plainCall_says_iff hlib _ count
  | getCurrentLine => exact plainCall_says_iff hlib _ count
  | getApiInfo => exact plainCall_says_iff hlib _ count
  | callFunctionFmt function a => exact callFunctionFmt_says_iff hlib function a count
  | setVar varname a => exact setVar_says_iff hlib varname a count
  | exec src output =>
      cases output
      all_goals
        exact genericCall_says_iff hlib rfl ⟨_, rfl, fun _ => rfl⟩ (by decide) (by decide) (by decide)
          count
  | getHlByName name rgb =>
      cases rgb
      all_goals
        exact genericCall_says_iff hlib rfl ⟨_, rfl, fun _ => rfl⟩ (by decide) (by decide) (by decide)
          count
  | getHlById hlid rgb =>
      cases rgb
      all_goals
        exact genericCall_says_iff hlib rfl ⟨_, rfl, fun _ => rfl⟩ (by decide) (by decide) (by decide)
          count
  | _ =>
      exact genericCall_says_iff hlib rfl ⟨_, rfl, fun _ => rfl⟩ (by decide) (by decide) (by decide)
        count

/-- A number and a list with a string, `"d,[s]"`. -/
def sampleArguments : Arguments where
  fmt := ['d', ',', '[', 's', ']']
  ref := 1
  valists := fun ref => if ref = 1 then [.int (-100), strArg [0x61]] else []
  ref_pos := Nat.one_pos
  unused := rfl
  body := .value .d <| .aside .separator <| .array (.value .s .nil) .nil
  parse := rfl
  vs := [.integer (-100), .string (some [0x61])]
  supplies := ⟨_, rfl, .last (.value (.int (-100)) (.mark trivial (.mark trivial
    (.value (.bstring (some [0x61])) (.mark trivial (.nil []))))))⟩
  params := [.integer (-100), .array [.string (some [0x61])]]
  denotes := rfl
  evenDicts := ⟨trivial, trivial⟩
  depth := by decide
  containers := by decide
  short := by decide

theorem api_heard_iff_sample :
    (ApiCall.callFunctionFmt [0x66] sampleArguments).call.Says exactLib 7
      (treeMessages [.string (some [0x66]), .array sampleArguments.params]) := by
  refine (api_heard_iff exactLib_grows (.callFunctionFmt [0x66] sampleArguments) 7).mpr
    ⟨?_, by decide +kernel, by decide +kernel⟩
  simp [requestTree, ApiCall.call, nvimextCallFunctionFmt, ApiCall.params, sampleArguments, Tree.Sized,
    SizedItems, bt]

end TagHighlight.Api
