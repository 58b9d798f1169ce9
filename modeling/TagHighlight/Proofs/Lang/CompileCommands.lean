/-
What the filter of compile arguments keeps.

What a round appends depends on the argument and on the one that it is taken for the operand
of.  There are four cases (`Made`), and in each what is appended tells which case it is.  So
the arguments that are appended as they should be are just those that the filter reads as the
compiler does.

The compiler has a reading of its own of the same arguments, `items`, with all options that take
an operand; the filter knows of some.  So the two are compared item by item, and where they differ
it is an argument that one takes for an operand and the other does not.
-/
import TagHighlight.Lang.CompileCommands

namespace TagHighlight.CompileCommands

open Ascii CtagsScan

/-! ### The flag

The filter keeps one flag from one round to the next, which says what the next argument may be.
So what a round appends depends on its own argument and on what stands before this one; together
they are an `Arg`.
-/

/-- `arg_allow` for an argument that is taken for the operand of `before`. -/
def baseOf : Option BString → NextArg
  | none => .normal
  | some opt =>
      if opt = bt "I" then .fileAllowI
      else if opt = bt "isystem" ∨ opt = bt "include" then .fileAllow
      else if opt = bt "x" then .langAllow
      else .disallow

def Arg.allow (a : Arg) : Allow := { base := baseOf a.before, xclang := a.xclang }

/-- What the round for an argument appends. -/
def Arg.made (directory : BString) (a : Arg) : List BString :=
  (filterArg directory a.allow a.text).1

theorem byteAt_one (text : BString) : byteAt text 1 = byteAt (text.drop 1) 0 := by
  simp [byteAt, List.getD_eq_getElem?_getD]

/-- What the round for an option appends, and the flag after it. -/
theorem filterOption_eq (directory : BString) (argAllow : Allow) (text : BString) :
    filterOption directory argAllow text =
      (if Arg.ignored text then []
        else if byteAt text 1 = letterI then
          [handleIncludeCompileCommand (text.drop 2) directory true]
        else clangArgAppend text argAllow,
        baseOf (if operandNames.contains (text.drop 1) then some (text.drop 1) else none)) := by
  simp only [filterOption, Arg.ignored, byteAt_one]
  generalize text.drop 1 = opt
  by_cases hI : opt = bt "I"
  · rw [if_pos hI, hI]; rfl
  by_cases hfile : opt = bt "isystem" ∨ opt = bt "include"
  · rw [if_neg hI, if_pos hfile]
    rcases hfile with h | h <;> (rw [h]; rfl)
  by_cases hpch : opt = bt "include-pch"
  · rw [if_neg hI, if_neg hfile, if_pos hpch, hpch]; rfl
  by_cases hx : opt = bt "x"
  · rw [if_neg hI, if_neg hfile, if_neg hpch, if_pos hx, hx]; rfl
  by_cases hskip : opt = bt "o" ∨ opt = bt "c" ∨ opt = bt "fvect-cost-model"
  · rw [if_neg hI, if_neg hfile, if_neg hpch, if_neg hx, if_pos hskip]
    rcases hskip with h | h | h <;> (rw [h]; rfl)
  have hnone : operandNames.contains opt = false := by
    simp only [not_or] at hfile hskip
    simp [operandNames, hI, hfile, hpch, hx, hskip]
  rw [if_neg hI, if_neg hfile, if_neg hpch, if_neg hx, if_neg hskip, hnone,
    if_neg Bool.false_ne_true]
  by_cases hdep : opt = bt "MMD" ∨ opt = bt "MP" ∨ opt = bt "MD" ∨ opt = bt "MT" ∨
      opt = bt "MF" ∨ (bt "fvect-cost-model=").isPrefixOf opt
  · rw [if_pos hdep, if_pos]
    · rfl
    rcases hdep with h | h | h | h | h | h <;> simp [h]
  · rw [if_neg hdep]
    simp only [not_or, Bool.not_eq_true] at hskip hdep
    have hlist : [bt "I", bt "include-pch", bt "o", bt "c", bt "fvect-cost-model", bt "MMD",
        bt "MP", bt "MD", bt "MT", bt "MF"].contains opt = false := by
      simp [hI, hpch, hskip, hdep]
    rw [hlist, hdep.2.2.2.2.2, Bool.false_or, Bool.false_or]
    simp only [beq_iff_eq]
    split
    · rfl
    · split <;> rfl

/-- The flag after a round. -/
theorem filterArg_snd (directory : BString) (before : Option BString) (xclang : Bool)
    (text : BString) :
    (filterArg directory { base := baseOf before, xclang := xclang } text).2 =
      if text = bt "-Xclang" then { base := baseOf before, xclang := true }
      else
        { base := baseOf (if before = none ∧ isOption text ∧
            operandNames.contains (text.drop 1) then some (text.drop 1) else none)
          xclang := false } := by
  unfold filterArg
  split
  · rfl
  · cases before with
    | none =>
        simp only [baseOf, true_and]
        by_cases hoption : isOption text = true
        · simp [hoption, filterOption_eq, baseOf]
        · simp [hoption]
    | some opt =>
        simp only [baseOf, reduceCtorEq, false_and, if_false]
        repeat' split
        all_goals first | rfl | simp_all

/-- The rounds, by the arguments. -/
theorem rounds_eq (directory : BString) (last : Bool) (texts : List BString) :
    ∀ (before : Option BString) (xclang : Bool),
      rounds directory { base := baseOf before, xclang := xclang } texts =
        (argsFrom last before xclang texts).map (Arg.made directory) := by
  induction texts with
  | nil => intro before xclang; rfl
  | cons text texts ih =>
      intro before xclang
      rw [rounds, argsFrom, List.map_cons, filterArg_snd]
      congr 1
      split
      · exact ih before true
      · exact ih _ false

/-! ### What a round appends

An argument is left out, or copied, or its path is made absolute, which happens to the operand of
a lone `-I` and to what is written together with one.  There is no other case.
-/

/-- The four things that can become of an argument. -/
inductive Made (directory : BString) (a : Arg) : Prop where
  | nothing (homitted : a.omitted = true) (hcopied : a.copied = false) (hpath : a.asPath = false)
      (hfree : a.before = none → Arg.isPath a.text = false) (h : a.made directory = [])
  | path (homitted : a.omitted = false) (hpath : a.asPath = false) (hbefore : a.before = none)
      (hfree : Arg.isPath a.text = true)
      (hcopied : a.copied = (!a.xclang && byteAt a.text 2 == slash))
      (h : a.made directory = [handleIncludeCompileCommand (a.text.drop 2) directory true])
  | operand (homitted : a.omitted = false) (hcopied : a.copied = false) (hpath : a.asPath = true)
      (hfree : a.before ≠ none)
      (h : a.made directory = [handleIncludeCompileCommand a.text directory true])
  | copy (homitted : a.omitted = false) (hcopied : a.copied = true) (hpath : a.asPath = false)
      (hfree : a.before = none → Arg.isPath a.text = false) (h : a.made directory = spelled a)

theorem made_of_free {a : Arg} (directory : BString) (htext : a.text ≠ bt "-Xclang")
    (hbefore : a.before = none) : Made directory a := by
  have hmade : a.made directory = if isOption a.text then
      (filterOption directory a.allow a.text).1 else [] := by
    unfold Arg.made filterArg
    rw [if_neg htext]
    simp only [Arg.allow, hbefore, baseOf]
    split <;> rfl
  have hasPath : a.asPath = false := by simp [Arg.asPath, hbefore]
  by_cases hoption : isOption a.text = true
  · rw [if_pos hoption, filterOption_eq] at hmade
    by_cases hignored : Arg.ignored a.text = true
    · rw [if_pos hignored] at hmade
      apply Made.nothing _ _ hasPath _ hmade
      · simp [Arg.omitted, hbefore, hignored]
      · simp [Arg.copied, hbefore, hignored]
      · simp [Arg.isPath, hignored]
    · rw [if_neg hignored] at hmade
      rw [Bool.not_eq_true] at hignored
      have homitted : a.omitted = false := by
        simp [Arg.omitted, hbefore, hignored, hoption, htext]
      by_cases hI : byteAt a.text 1 = letterI
      · have hisPath : Arg.isPath a.text = true := by
          simp [Arg.isPath, hignored, hoption, hI]
        rw [if_pos hI] at hmade
        apply Made.path homitted hasPath hbefore hisPath _ hmade
        simp [Arg.copied, hbefore, hignored, hoption, htext, hisPath]
      · have hisPath : Arg.isPath a.text = false := by
          simp [Arg.isPath, hI]
        rw [if_neg hI] at hmade
        apply Made.copy homitted _ hasPath (fun _ => hisPath) hmade
        simp [Arg.copied, hbefore, hignored, hoption, htext, hisPath]
  · rw [if_neg hoption] at hmade
    rw [Bool.not_eq_true] at hoption
    apply Made.nothing _ _ hasPath _ hmade
    · simp [Arg.omitted, hbefore, hoption]
    · simp [Arg.copied, hbefore, hoption]
    · simp [Arg.isPath, hoption]

theorem baseOf_some_ne (opt : BString) : baseOf (some opt) ≠ .normal := by
  simp only [baseOf]
  repeat' split
  all_goals decide

theorem made_of_operand {a : Arg} {opt : BString} (directory : BString)
    (htext : a.text ≠ bt "-Xclang") (hbefore : a.before = some opt) : Made directory a := by
  have hfree : a.before = none → Arg.isPath a.text = false := by simp [hbefore]
  have hmade : a.made directory = (match baseOf (some opt) with
      | .fileAllowI => [handleIncludeCompileCommand a.text directory true]
      | .fileAllow | .langAllow => spelled a
      | _ => []) := by
    unfold Arg.made filterArg
    rw [if_neg htext, show a.allow.base = baseOf (some opt) by rw [Arg.allow, hbefore]]
    cases hbase : baseOf (some opt) with
    | normal => exact absurd hbase (baseOf_some_ne opt)
    | disallow => rfl
    | langAllow => rfl
    | fileAllow => rfl
    | fileAllowI => rfl
  by_cases hI : opt = bt "I"
  · subst hI
    apply Made.operand _ _ _ (by simp [hbefore]) hmade
    · simp [Arg.omitted, hbefore, htext]
    · simp only [Arg.copied, hbefore]
      rw [show [bt "isystem", bt "include", bt "x"].contains (bt "I") = false by decide,
        Bool.and_false]
    · simp [Arg.asPath, hbefore, htext]
  have hpath : a.asPath = false := by simp [Arg.asPath, hbefore, hI]
  by_cases hcopy : [bt "isystem", bt "include", bt "x"].contains opt = true
  · apply Made.copy _ _ hpath hfree
    · rw [hmade]
      simp only [List.contains_cons, List.contains_nil, Bool.or_false, Bool.or_eq_true,
        beq_iff_eq] at hcopy
      rcases hcopy with rfl | rfl | rfl <;> rfl
    · simp only [Arg.omitted, hbefore]
      rw [List.contains_cons, hcopy]
      simp [htext]
    · simp only [Arg.copied, hbefore, hcopy]
      simp [htext]
  · rw [Bool.not_eq_true] at hcopy
    apply Made.nothing _ _ hpath hfree
    · rw [hmade]
      simp only [List.contains_cons, List.contains_nil, Bool.or_false, Bool.or_eq_false_iff,
        beq_eq_false_iff_ne] at hcopy
      simp [baseOf, hI, hcopy]
    · simp only [Arg.omitted, hbefore]
      rw [List.contains_cons, hcopy]
      simp [hI]
    · simp only [Arg.copied, hbefore, hcopy]
      simp

/-- What is appended for an argument is one of the four. -/
theorem made_cases (directory : BString) (a : Arg) : Made directory a := by
  by_cases htext : a.text = bt "-Xclang"
  · apply Made.nothing
    · simp [Arg.omitted, htext]
    · simp [Arg.copied, htext]
    · simp [Arg.asPath, htext]
    · intro _
      rw [htext]
      decide
    · simp [Arg.made, filterArg, htext]
  · cases hbefore : a.before with
    | none => exact made_of_free directory htext hbefore
    | some opt => exact made_of_operand directory htext hbefore

/-! ### Telling the four apart

A path that was made absolute has something in front of it that it did not have, so it is not the
copy of an argument, but for a path that was absolute before.  With this one exception, what was
appended tells which case it was.
-/

theorem length_handleInclude (text directory : BString) :
    text.length + 2 ≤ (handleIncludeCompileCommand text directory true).length := by
  unfold handleIncludeCompileCommand
  split
  · rw [if_pos rfl, List.length_append, Nat.add_comm]
    exact Nat.le_refl _
  · rw [if_pos rfl]
    simp only [List.length_append, show (bt "-I").length = 2 from rfl]
    omega

theorem spelled_ne_nil (a : Arg) : spelled a ≠ [] := by
  unfold spelled
  split <;> exact List.cons_ne_nil _ _

theorem spelled_ne_handleInclude (a : Arg) (directory : BString) :
    spelled a ≠ [handleIncludeCompileCommand a.text directory true] := by
  intro h
  unfold spelled at h
  split at h
  · simp at h
  · have hlen := length_handleInclude a.text directory
    rw [← List.singleton_inj.mp h] at hlen
    omega

/-- An argument that `-I` and a path is, and the path. -/
theorem isPath_text {text : BString} (h : Arg.isPath text = true) :
    text = bt "-I" ++ text.drop 2 := by
  simp only [Arg.isPath, isOption, byteAt, Bool.and_eq_true, beq_iff_eq] at h
  match text, h with
  | [], h => simp [dash] at h
  | [b], h => simp [letterI] at h
  | b :: c :: rest, h =>
      simp only [List.getD_cons_zero, List.getD_cons_succ] at h
      rw [h.1.1.1, h.2]
      rfl

theorem made_path_eq {a : Arg} (directory : BString) (h : Arg.isPath a.text = true) :
    [handleIncludeCompileCommand (a.text.drop 2) directory true] = spelled a ↔
      (!a.xclang && byteAt a.text 2 == slash) = true := by
  have htext := isPath_text h
  generalize a.text.drop 2 = path at htext ⊢
  have hbyte : byteAt a.text 2 = byteAt path 0 := by rw [htext]; rfl
  unfold spelled
  rw [hbyte, htext]
  cases a.xclang with
  | true => simp
  | false =>
      unfold handleIncludeCompileCommand
      by_cases hslash : byteAt path 0 = slash
      · simp [hslash]
      · rw [if_neg hslash, if_pos rfl]
        have hne : [bt "-I" ++ directory ++ bt "/" ++ path] ≠ [bt "-I" ++ path] := by
          intro heq
          have hlen := congrArg List.length (List.singleton_inj.mp heq)
          simp only [List.length_append, show (bt "/").length = 1 from rfl] at hlen
          omega
        rw [if_neg Bool.false_ne_true, beq_eq_false_iff_ne.mpr hslash]
        exact ⟨fun heq => absurd heq hne, fun hfalse => Bool.noConfusion hfalse⟩

theorem made_eq_nil_iff (directory : BString) (a : Arg) :
    a.made directory = [] ↔ a.omitted = true := by
  cases made_cases directory a with
  | nothing homitted _ _ _ h => simp [homitted, h]
  | path homitted _ _ _ _ h => simp [homitted, h]
  | operand homitted _ _ _ h => simp [homitted, h]
  | copy homitted _ _ _ h => simp [homitted, h, spelled_ne_nil]

theorem made_eq_spelled_iff (directory : BString) (a : Arg) :
    a.made directory = spelled a ↔ a.copied = true := by
  cases made_cases directory a with
  | nothing _ hcopied _ _ h => simp [hcopied, h, (spelled_ne_nil a).symm]
  | path _ _ _ hfree hcopied h => rw [h, hcopied, made_path_eq directory hfree]
  | operand _ hcopied _ _ h => simp [hcopied, h, (spelled_ne_handleInclude a directory).symm]
  | copy _ hcopied _ _ h => simp [hcopied, h]

/-- No path is as long as itself with more before it. -/
theorem handleInclude_ne {text : BString} (directory : BString)
    (htext : text = bt "-I" ++ text.drop 2) :
    handleIncludeCompileCommand (text.drop 2) directory true ≠
      handleIncludeCompileCommand text directory true := by
  generalize text.drop 2 = path at htext ⊢
  intro heq
  have hslash : ¬byteAt text 0 = slash := by
    rw [htext]
    intro hbyte
    cases hbyte
  have hrel : handleIncludeCompileCommand text directory true =
      bt "-I" ++ directory ++ bt "/" ++ text := by
    unfold handleIncludeCompileCommand
    rw [if_neg hslash, if_pos rfl]
  rw [hrel] at heq
  have hlen := congrArg List.length heq
  have htextLen := congrArg List.length htext
  have hI : (bt "-I").length = 2 := rfl
  unfold handleIncludeCompileCommand at hlen
  split at hlen
  · simp only [if_true, List.length_append, show (bt "/").length = 1 from rfl] at hlen htextLen
    omega
  · simp only [if_true, List.length_append, show (bt "/").length = 1 from rfl] at hlen htextLen
    omega

theorem text_of_isPrefixOf {text : BString} (h : (bt "-I").isPrefixOf text = true) :
    text = bt "-I" ++ text.drop 2 := by
  obtain ⟨path, rfl⟩ := List.isPrefixOf_iff_prefix.mp h
  rfl

theorem made_eq_operand_iff (directory : BString) (a : Arg) :
    a.made directory = [handleIncludeCompileCommand a.text directory true] ↔
      a.asPath = true := by
  cases made_cases directory a with
  | nothing _ _ hpath _ h => simp [hpath, h]
  | path _ hpath _ hfree _ h => simp [hpath, h, handleInclude_ne directory (isPath_text hfree)]
  | operand _ _ hpath _ h => simp [hpath, h]
  | copy _ _ hpath _ h => simp [hpath, h, spelled_ne_handleInclude]

/-- The path alone: it can only be what the option was made into, or the option itself. -/
theorem made_eq_path {directory : BString} {a : Arg} (hpath : (bt "-I").isPrefixOf a.text = true)
    (h : a.made directory = [handleIncludeCompileCommand (a.text.drop 2) directory true]) :
    a.copied = true ∨ a.before = none ∧ Arg.isPath a.text = true := by
  cases made_cases directory a with
  | nothing _ _ _ _ hmade =>
      rw [hmade] at h
      cases h
  | path _ _ hbefore hfree _ _ => exact .inr ⟨hbefore, hfree⟩
  | operand _ _ _ _ hmade =>
      rw [hmade] at h
      exact absurd (List.singleton_inj.mp h).symm
        (handleInclude_ne directory (text_of_isPrefixOf hpath))
  | copy _ hcopied _ _ _ => exact .inl hcopied

/-! ### The `--` that is popped

At the end a `--` is popped from the vector, and it is not looked at where it came from.  It can
only have come from an argument that was copied, and from the last one that anything stands for.
-/

theorem byteAt_handleInclude (text directory : BString) :
    byteAt (handleIncludeCompileCommand text directory true) 1 = letterI := by
  unfold handleIncludeCompileCommand
  split <;> rfl

theorem handleInclude_ne_dashes (text directory : BString) :
    handleIncludeCompileCommand text directory true ≠ bt "--" := by
  intro h
  have hbyte := byteAt_handleInclude text directory
  rw [h] at hbyte
  cases hbyte

theorem popDashes_spelled {a : Arg} (htext : a.text = bt "--") :
    popDashes (spelled a) = if a.xclang then [bt "-Xclang"] else [] := by
  unfold spelled
  rw [htext]
  cases a.xclang <;> rfl

/-- A `--` at the end of a round is an argument that was copied. -/
theorem popDashes_made {directory : BString} {a : Arg}
    (h : ¬(a.copied = true ∧ a.text = bt "--")) :
    popDashes (a.made directory) = a.made directory := by
  unfold popDashes
  apply if_neg
  intro hlast
  cases made_cases directory a with
  | nothing _ _ _ _ hmade =>
      rw [hmade] at hlast
      cases hlast
  | path _ _ _ _ _ hmade =>
      rw [hmade, List.getLast?_singleton] at hlast
      exact handleInclude_ne_dashes _ _ (Option.some.inj hlast)
  | operand _ _ _ _ hmade =>
      rw [hmade, List.getLast?_singleton] at hlast
      exact handleInclude_ne_dashes _ _ (Option.some.inj hlast)
  | copy _ hcopied _ _ hmade =>
      have htext : a.text = bt "--" := by
        rw [hmade, spelled] at hlast
        split at hlast
        · simpa using hlast
        · simpa using hlast
      exact h ⟨hcopied, htext⟩

/-- What stands in the vector for an argument. -/
def Arg.out (directory : BString) (a : Arg) : List BString :=
  if a.popped then popDashes (a.made directory) else a.made directory

/-- What is known of an argument that is popped. -/
structure Arg.PoppedRight (last : Bool) (a : Arg) : Prop where
  last : a.popped = true → last = true
  copied : a.popped = true → a.copied = true
  text : a.popped = true → a.text = bt "--"

theorem poppedRight_of_mem {last : Bool} (texts : List BString) :
    ∀ (before : Option BString) (xclang : Bool), ∀ a ∈ argsFrom last before xclang texts,
      a.PoppedRight last := by
  induction texts with
  | nil =>
      intro before xclang a ha
      cases ha
  | cons text texts ih =>
      intro before xclang a ha
      rw [argsFrom] at ha
      rcases List.mem_cons.mp ha with rfl | hmem
      · constructor <;> simp only [Bool.and_eq_true, beq_iff_eq] <;> intro hpopped
        · exact hpopped.1.1.1
        · exact hpopped.1.1.2
        · exact hpopped.1.2
      · split at hmem
        · exact ih before true a hmem
        · exact ih _ false a hmem

theorem not_popped_of_omitted {last : Bool} {a : Arg} (directory : BString)
    (hright : a.PoppedRight last) (homitted : a.omitted = true) : a.popped = false := by
  by_contra hpopped
  rw [Bool.not_eq_false] at hpopped
  have hspelled := (made_eq_spelled_iff directory a).mpr (hright.copied hpopped)
  rw [(made_eq_nil_iff directory a).mpr homitted] at hspelled
  exact spelled_ne_nil a hspelled.symm

theorem all_made_isEmpty (directory : BString) (args : List Arg) :
    ((args.map (Arg.made directory)).all (·.isEmpty)) = args.all Arg.omitted := by
  rw [List.all_map]
  congr 1
  funext a
  rw [Bool.eq_iff_iff, Function.comp_apply, List.isEmpty_iff]
  exact made_eq_nil_iff directory a

theorem popRounds_cons {directory : BString} {a : Arg} {args : List Arg}
    (hpopped : a.popped = (a.copied && a.text == bt "--" && args.all Arg.omitted))
    (hright : ∀ b ∈ args, b.PoppedRight true)
    (ih : popRounds (args.map (Arg.made directory)) = args.map (Arg.out directory)) :
    popRounds ((a :: args).map (Arg.made directory)) =
      (a :: args).map (Arg.out directory) := by
  rw [List.map_cons, List.map_cons, popRounds, all_made_isEmpty]
  by_cases hall : args.all Arg.omitted = true
  · have hrest : args.map (Arg.made directory) = args.map (Arg.out directory) := by
      apply List.map_congr_left
      intro b hb
      have hb' := not_popped_of_omitted directory (hright b hb) (List.all_eq_true.mp hall b hb)
      rw [Arg.out, hb', if_neg Bool.false_ne_true]
    rw [if_pos hall, hrest]
    congr 1
    unfold Arg.out
    split
    · rfl
    next hne =>
      apply popDashes_made
      rintro ⟨hcopied, htext⟩
      apply hne
      rw [hpopped, hcopied, htext, hall]
      rfl
  · rw [if_neg hall, ih]
    rw [Bool.not_eq_true] at hall
    rw [Arg.out, hpopped, hall, Bool.and_false, if_neg Bool.false_ne_true]

/-- Popping takes the `--` from the last argument that something stands for. -/
theorem popRounds_eq (directory : BString) (texts : List BString) :
    ∀ (before : Option BString) (xclang : Bool),
      popRounds ((argsFrom true before xclang texts).map (Arg.made directory)) =
        (argsFrom true before xclang texts).map (Arg.out directory) := by
  induction texts with
  | nil => intro before xclang; rfl
  | cons text texts ih =>
      intro before xclang
      rw [argsFrom]
      split
      · exact popRounds_cons rfl (poppedRight_of_mem texts _ _) (ih before true)
      · exact popRounds_cons rfl (poppedRight_of_mem texts _ _) (ih _ false)

theorem kept_eq (command : Command) (last : Bool) :
    command.kept last = (command.argList last).map (Arg.out command.directory) := by
  have hrounds : command.rounds =
      (command.argList last).map (Arg.made command.directory) :=
    rounds_eq command.directory last command.args none false
  unfold Command.kept
  rw [hrounds]
  cases last with
  | true => exact popRounds_eq command.directory command.args none false
  | false =>
      rw [if_neg Bool.false_ne_true]
      apply List.map_congr_left
      intro a ha
      unfold Arg.out
      split
      next hpopped => exact Bool.noConfusion ((poppedRight_of_mem _ _ _ a ha).last hpopped)
      next => rfl

/-! ### Items -/

section Items

variable {α β : Type} {text : β → BString} {takes : BString → Bool}

def Item.map (f : α → β) : Item α → Item β
  | .input a => .input (f a)
  | .single a => .single (f a)
  | .pair a b => .pair (f a) (f b)
  | .dangling a => .dangling (f a)

def Reading.map (f : α → β) : Reading α → Reading β
  | .free => .free
  | .operandOf a => .operandOf (f a)
  | .ended => .ended

theorem items_map (f : α → β) (as : List α) : ∀ reading : Reading α,
    items text takes (reading.map f) (as.map f) =
      (items (fun a => text (f a)) takes reading as).map (Item.map f) := by
  induction as with
  | nil =>
      intro reading
      cases reading <;> rfl
  | cons a as ih =>
      intro reading
      cases reading with
      | free =>
          simp only [Reading.map, List.map_cons, items]
          split
          · exact ih .free
          split
          · rw [List.map_cons, ← ih .ended]; rfl
          split
          · rw [List.map_cons, ← ih .free]; rfl
          split
          · exact ih (.operandOf a)
          · rw [List.map_cons, ← ih .free]; rfl
      | operandOf o =>
          simp only [Reading.map, List.map_cons, items]
          split
          · exact ih (.operandOf o)
          · rw [List.map_cons, ← ih .free]; rfl
      | ended =>
          simp only [Reading.map, List.map_cons, items]
          rw [← ih .ended]
          rfl

end Items

/-! ### One item

An item is an input, an option by itself, or an option with its operand.  For each of these there
is a statement of what should stand in the vector, and by the cases above it is a statement about
how the filter reads the arguments of the item.
-/

section One

variable (directory : BString) {last : Bool} {a : Arg} (hright : a.PoppedRight last)

include hright

theorem out_of_popped (hpopped : a.popped = true) :
    a.out directory = if a.xclang then [bt "-Xclang"] else [] := by
  rw [Arg.out, if_pos hpopped, (made_eq_spelled_iff directory a).mpr (hright.copied hpopped),
    popDashes_spelled (hright.text hpopped)]

theorem out_eq_spelled_iff : a.out directory = spelled a ↔ a.stays = true := by
  cases hpopped : a.popped with
  | true =>
      rw [out_of_popped directory hright hpopped, Arg.stays, hpopped, Bool.not_true,
        Bool.and_false]
      unfold spelled
      cases a.xclang <;> simp
  | false =>
      rw [Arg.out, hpopped, if_neg Bool.false_ne_true, made_eq_spelled_iff, Arg.stays, hpopped,
        Bool.not_false, Bool.and_true]

theorem out_eq_nil_iff : a.out directory = [] ↔ a.goes = true := by
  cases hpopped : a.popped with
  | true =>
      have hcopied := (made_eq_spelled_iff directory a).mpr (hright.copied hpopped)
      have homitted : a.omitted = false := by
        by_contra h
        rw [Bool.not_eq_false, ← made_eq_nil_iff directory, hcopied] at h
        exact spelled_ne_nil a h
      rw [out_of_popped directory hright hpopped, Arg.goes, hpopped, homitted]
      cases a.xclang <;> simp
  | false =>
      rw [Arg.out, hpopped, if_neg Bool.false_ne_true, made_eq_nil_iff, Arg.goes, hpopped,
        Bool.false_and, Bool.or_false]

theorem out_ne_handleInclude (hpopped : a.popped = true) (text : BString) :
    a.out directory ≠ [handleIncludeCompileCommand text directory true] := by
  rw [out_of_popped directory hright hpopped]
  cases a.xclang with
  | false => exact (List.cons_ne_nil _ _).symm
  | true =>
      intro h
      have hbyte := byteAt_handleInclude text directory
      rw [← List.singleton_inj.mp h] at hbyte
      cases hbyte

theorem out_eq_operand_iff :
    a.out directory = [handleIncludeCompileCommand a.text directory true] ↔
      a.asPath = true := by
  cases hpopped : a.popped with
  | true =>
      have hcopied := (made_eq_spelled_iff directory a).mpr (hright.copied hpopped)
      constructor
      · intro h
        exact absurd h (out_ne_handleInclude directory hright hpopped a.text)
      · intro h
        rw [← made_eq_operand_iff directory, hcopied] at h
        exact absurd h (spelled_ne_handleInclude a directory)
  | false => rw [Arg.out, hpopped, if_neg Bool.false_ne_true, made_eq_operand_iff]

/-- An option that is kept with its operand in the same argument. -/
theorem out_single_iff :
    (a.out directory = spelled a ∨
      (bt "-I").isPrefixOf a.text = true ∧
        a.out directory = [handleIncludeCompileCommand (a.text.drop 2) directory true]) ↔
      a.stays = true ∨ a.before = none ∧ Arg.isPath a.text = true := by
  rw [out_eq_spelled_iff directory hright]
  constructor
  · rintro (h | ⟨hfront, hout⟩)
    · exact .inl h
    · cases hpopped : a.popped with
      | true => exact absurd hout (out_ne_handleInclude directory hright hpopped _)
      | false =>
          rw [Arg.out, hpopped, if_neg Bool.false_ne_true] at hout
          rcases made_eq_path hfront hout with hcopied | hfree
          · exact .inl (by rw [Arg.stays, hcopied, hpopped]; rfl)
          · exact .inr hfree
  · rintro (h | ⟨hbefore, hpath⟩)
    · exact .inl h
    · have htext := isPath_text hpath
      have hfront : (bt "-I").isPrefixOf a.text = true :=
        List.isPrefixOf_iff_prefix.mpr ⟨_, htext.symm⟩
      have hpopped : ¬a.popped = true := by
        intro h
        have hbyte := congrArg (byteAt · 1) (hright.text h)
        rw [htext] at hbyte
        cases hbyte
      refine .inr ⟨hfront, ?_⟩
      rw [Arg.out, if_neg hpopped]
      cases made_cases directory a with
      | nothing _ _ _ hfree _ => exact absurd hpath (by simp [hfree hbefore])
      | path _ _ _ _ _ hmade => exact hmade
      | operand _ _ _ hfree _ => exact absurd hbefore hfree
      | copy _ _ _ hfree _ => exact absurd hpath (by simp [hfree hbefore])

end One

/-- The arguments of an item. -/
def Item.elems {α : Type} : Item α → List α
  | .input a => [a]
  | .single a => [a]
  | .pair a b => [a, b]
  | .dangling a => [a]

theorem isRight_iff_fits (directory : BString) {last : Bool} (item : Item Arg)
    (hright : ∀ a ∈ item.elems, a.PoppedRight last) :
    IsRight directory (item.map fun a => (a, a.out directory)) ↔ Fits item := by
  cases item with
  | input a => exact out_eq_nil_iff directory (hright a List.mem_cons_self)
  | dangling a => exact out_eq_nil_iff directory (hright a List.mem_cons_self)
  | single a =>
      have ha := hright a List.mem_cons_self
      simp only [IsRight, Item.map, Fits]
      split
      · exact out_single_iff directory ha
      split
      · exact out_eq_nil_iff directory ha
      · rw [out_eq_nil_iff directory ha, out_eq_spelled_iff directory ha]
  | pair a b =>
      have ha := hright a List.mem_cons_self
      have hb := hright b (List.mem_cons_of_mem _ List.mem_cons_self)
      simp only [IsRight, Item.map, Fits]
      rw [out_eq_nil_iff directory ha, out_eq_nil_iff directory hb,
        out_eq_spelled_iff directory ha, out_eq_spelled_iff directory hb,
        out_eq_operand_iff directory hb]

/-- The arguments of the items are those that are read, with the one that waits for its operand. -/
theorem mem_of_mem_elems {α : Type} {text : α → BString} {takes : BString → Bool}
    (as : List α) : ∀ (reading : Reading α) (item : Item α),
      item ∈ items text takes reading as → ∀ a ∈ item.elems,
        a ∈ as ∨ reading = .operandOf a := by
  induction as with
  | nil =>
      intro reading item hitem a ha
      cases reading with
      | free => cases hitem
      | operandOf o =>
          rw [items, List.mem_singleton] at hitem
          rw [hitem, Item.elems, List.mem_singleton] at ha
          exact .inr (by rw [ha])
      | ended => cases hitem
  | cons b as ih =>
      intro reading item hitem a ha
      have hrest : ∀ next : Reading α, item ∈ items text takes next as →
          (next = .operandOf a → a ∈ b :: as ∨ reading = .operandOf a) →
            a ∈ b :: as ∨ reading = .operandOf a := by
        intro next hmem hnext
        rcases ih next item hmem a ha with h | h
        · exact .inl (List.mem_cons_of_mem _ h)
        · exact hnext h
      have hskip : ∀ next : Reading α, (next = .free ∨ next = .ended) →
          item ∈ items text takes next as → a ∈ b :: as ∨ reading = .operandOf a := by
        intro next hnext hmem
        apply hrest next hmem
        intro h
        rcases hnext with rfl | rfl
        · cases h
        · cases h
      have hone : ∀ (first : Item α) (next : Reading α), first.elems = [b] →
          (next = .free ∨ next = .ended) → item ∈ first :: items text takes next as →
            a ∈ b :: as ∨ reading = .operandOf a := by
        intro first next hfirst hnext hmem
        rcases List.mem_cons.mp hmem with rfl | hmem
        · rw [hfirst, List.mem_singleton] at ha
          exact .inl (by rw [ha]; exact List.mem_cons_self)
        · exact hskip next hnext hmem
      cases reading with
      | free =>
          rw [items] at hitem
          split at hitem
          · exact hskip .free (.inl rfl) hitem
          split at hitem
          · exact hone (.single b) .ended rfl (.inr rfl) hitem
          split at hitem
          · exact hone (.input b) .free rfl (.inl rfl) hitem
          split at hitem
          · apply hrest (.operandOf b) hitem
            intro h
            injection h with h
            exact .inl (by rw [h]; exact List.mem_cons_self)
          · exact hone (.single b) .free rfl (.inl rfl) hitem
      | operandOf o =>
          rw [items] at hitem
          split at hitem
          · exact hrest (.operandOf o) hitem fun h => .inr h
          · rcases List.mem_cons.mp hitem with rfl | hmem
            · rcases List.mem_cons.mp ha with rfl | hb
              · exact .inr rfl
              · exact .inl (by rw [List.mem_singleton.mp hb]; exact List.mem_cons_self)
            · exact hskip .free (.inl rfl) hmem
      | ended =>
          rw [items] at hitem
          exact hone (.input b) .ended rfl (.inr rfl) hitem

/-! ### The vector

The vector is put together from the rounds in their order, so it holds what it should if each item
does.  The items are those of the compiler, which knows of more options with operands than the
filter does.
-/

theorem popDashes_append (front : List BString) {back : List BString} (hback : back ≠ []) :
    popDashes (front ++ back) = front ++ popDashes back := by
  unfold popDashes
  rw [List.getLast?_append_of_ne_nil _ hback]
  split
  · rw [List.dropLast_append_of_ne_nil hback]
  · rfl

theorem flatten_eq_nil_of_all {outs : List (List BString)}
    (h : (outs.all (·.isEmpty)) = true) : outs.flatten = [] := by
  rw [List.flatten_eq_nil_iff]
  exact fun out hout => List.isEmpty_iff.mp (List.all_eq_true.mp h out hout)

theorem flatten_popRounds (outs : List (List BString)) :
    (popRounds outs).flatten = popDashes outs.flatten := by
  induction outs with
  | nil => rfl
  | cons out outs ih =>
      rw [popRounds]
      by_cases hall : (outs.all (·.isEmpty)) = true
      · rw [if_pos hall, List.flatten_cons, List.flatten_cons, flatten_eq_nil_of_all hall,
          List.append_nil, List.append_nil]
      · have hne : outs.flatten ≠ [] := by
          intro h
          apply hall
          rw [List.all_eq_true]
          exact fun out hout => List.isEmpty_iff.mpr (List.flatten_eq_nil_iff.mp h out hout)
        rw [if_neg hall, List.flatten_cons, List.flatten_cons, ih, popDashes_append _ hne]

/--
**The vector is what was kept of each command behind its compiler, and a few options more.**
-/
theorem getCompileCommands_eq (gccSysDirs : List BString) (path : BString) (cmds : List Command)
    (command : Command) (hcompiler : command.compiler ≠ bt "--") :
    getCompileCommands gccSysDirs path (cmds ++ [command]) =
      .ok ((cmds.flatMap fun cmd => cmd.compiler :: (cmd.kept false).flatten) ++
        command.compiler :: (command.kept true).flatten ++ [bt "-D__TAG_HIGHLIGHT__"] ++
        gccSysDirs ++ [bt "-ferror-limit=0", bt "-I", path]) := by
  have hlast : popDashes (command.compiler :: command.rounds.flatten) =
      command.compiler :: (popRounds command.rounds).flatten := by
    rw [flatten_popRounds]
    cases command.rounds.flatten with
    | nil => exact if_neg fun h => hcompiler (Option.some.inj h)
    | cons s ret =>
        exact popDashes_append [command.compiler] (List.cons_ne_nil s ret)
  unfold getCompileCommands
  rw [List.flatMap_append, List.flatMap_singleton, if_neg (by simp),
    popDashes_append _ (List.cons_ne_nil _ _), hlast]
  rfl

/-- `-c` has no operand, but the argument after it is left out. -/
def compileOnly : Command where
  directory := bt "/d"
  compiler := bt "cc"
  args := [bt "-c", bt "-DFOO", bt "-D", bt "BAR", bt "main.c"]

end TagHighlight.CompileCommands
