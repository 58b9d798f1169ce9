/-
The arguments for libclang: `get_compile_commands` of `lang/clang/clang.c`.

The compilation database has commands for a file.  Their arguments are gone through from left
to right with a flag that says what is to become of the next one.  What is appended in a round
is kept apart here, so that it can be said which argument it is for.

The compiler reads the same arguments as options, some of which have their operand in the next
argument, and as input files.  `-Xclang` passes the argument after it on to the compiler
proper, so it goes with that argument.  Which of the options that are not named here have an
operand in the next argument is the business of the compiler, and a parameter.
-/
import TagHighlight.Lib.Fault
import TagHighlight.Lang.CtagsScan
import TagHighlight.Util.Ascii

namespace TagHighlight.CompileCommands

open Ascii CtagsScan

/-- `-`. -/
abbrev dash : UInt8 := 45
/-- `I`. -/
abbrev letterI : UInt8 := 73
/-- `W`. -/
abbrev letterW : UInt8 := 87

/-- `enum allow_next_arg`. -/
inductive NextArg where
  | normal
  | disallow
  | langAllow
  | fileAllow
  | fileAllowI
  deriving DecidableEq, Repr

/-- `arg_allow`: the low bits, and `NE_MASK_XCLANG`. -/
structure Allow where
  base : NextArg
  xclang : Bool
  deriving DecidableEq, Repr

/-- What `handle_include_compile_command` appends. -/
def handleIncludeCompileCommand (cstr directory : BString) (isI : Bool) : BString :=
  if byteAt cstr 0 = slash then if isI then bt "-I" ++ cstr else cstr
  else if isI then bt "-I" ++ directory ++ bt "/" ++ cstr
  else directory ++ bt "/" ++ cstr

/-- What `clang_arg_append` appends. -/
def clangArgAppend (str : BString) (flags : Allow) : List BString :=
  if flags.xclang then [bt "-Xclang", str] else [str]

/-- `cstr[0] == '-' && cstr[1]`. -/
def isOption (cstr : BString) : Bool := byteAt cstr 0 == dash && byteAt cstr 1 != 0

/-- The branch for options: what is appended, and `next_arg_allow`. -/
def filterOption (directory : BString) (argAllow : Allow) (cstr : BString) :
    List BString × NextArg :=
  let opt := cstr.drop 1
  if opt = bt "I" then ([], .fileAllowI)
  else if opt = bt "isystem" ∨ opt = bt "include" then
    (clangArgAppend cstr argAllow, .fileAllow)
  else if opt = bt "include-pch" then ([], .disallow)
  else if opt = bt "x" then (clangArgAppend cstr argAllow, .langAllow)
  else if opt = bt "o" ∨ opt = bt "c" ∨ opt = bt "fvect-cost-model" then ([], .disallow)
  else if opt = bt "MMD" ∨ opt = bt "MP" ∨ opt = bt "MD" ∨ opt = bt "MT" ∨ opt = bt "MF" ∨
      (bt "fvect-cost-model=").isPrefixOf opt then ([], .normal)
  else if byteAt cstr 1 = letterW then ([], .normal)
  else if byteAt cstr 1 = letterI then
    ([handleIncludeCompileCommand (cstr.drop 2) directory true], .normal)
  else (clangArgAppend cstr argAllow, .normal)

/-- A round of the inner loop. -/
def filterArg (directory : BString) (argAllow : Allow) (cstr : BString) :
    List BString × Allow :=
  if cstr = bt "-Xclang" then ([], { argAllow with xclang := true })
  else
    let out : List BString × NextArg :=
      match argAllow.base with
      | .fileAllow | .langAllow => (clangArgAppend cstr argAllow, .normal)
      | .fileAllowI => ([handleIncludeCompileCommand cstr directory true], .normal)
      | .disallow => ([], .normal)
      | .normal =>
          if isOption cstr then filterOption directory argAllow cstr else ([], .normal)
    (out.1, { base := out.2, xclang := false })

/-- The inner loop: what each round appends. -/
def rounds (directory : BString) : Allow → List BString → List (List BString)
  | _, [] => []
  | argAllow, cstr :: args =>
      let out := filterArg directory argAllow cstr
      out.1 :: rounds directory out.2 args

/-- A command of the database. -/
structure Command where
  directory : BString
  compiler : BString
  args : List BString

def Command.rounds (command : Command) : List (List BString) :=
  CompileCommands.rounds command.directory { base := .normal, xclang := false } command.args

/-- `argv_pop`, if the last string is `--`. -/
def popDashes (ret : List BString) : List BString :=
  if ret.getLast? = some (bt "--") then ret.dropLast else ret

/-- `get_compile_commands`, when the database has been found. -/
def getCompileCommands (gccSysDirs : List BString) (path : BString) (cmds : List Command) :
    Except Fault (List BString) :=
  let ret := cmds.flatMap fun command => command.compiler :: command.rounds.flatten
  if ret = [] then .error .undefined
  else .ok (popDashes ret ++ [bt "-D__TAG_HIGHLIGHT__"] ++ gccSysDirs ++
    [bt "-ferror-limit=0", bt "-I", path])

/-! ### What was appended for an argument, in the end -/

/-- The rounds without the `--` that is popped. -/
def popRounds : List (List BString) → List (List BString)
  | [] => []
  | out :: outs =>
      if outs.all (·.isEmpty) then popDashes out :: outs else out :: popRounds outs

/-- The rounds of a command as they stand in the vector; the last command's are popped from. -/
def Command.kept (command : Command) (last : Bool) : List (List BString) :=
  if last then popRounds command.rounds else command.rounds

/-! ### How the compiler reads the arguments -/

/-- The options in question that have an operand. -/
def operandOptions : List BString :=
  [bt "-D", bt "-U", bt "-I", bt "-isystem", bt "-iquote", bt "-include"]

/-- One of them, with its operand in the same or in the next argument. -/
def isKept (text : BString) : Bool :=
  (operandOptions.any fun opt => opt.isPrefixOf text) &&
    text != bt "-include-pch" && text != bt "-isystem-after"

/-- An option for the output of dependencies. -/
def isDependency (text : BString) : Bool :=
  [bt "-M", bt "-MM", bt "-MD", bt "-MMD", bt "-MG", bt "-MP", bt "-MV"].contains text ||
    [bt "-MF", bt "-MT", bt "-MQ", bt "-MJ"].any fun opt => opt.isPrefixOf text

/-- An option that is to be absent. -/
def isDropped (text : BString) : Bool :=
  [bt "-c", bt "-o", bt "-include-pch"].contains text || isDependency text

/-- The operand is in the next argument; `other` says so of the options not named here. -/
def takesOperand (other : BString → Bool) (text : BString) : Bool :=
  operandOptions.contains text ||
    [bt "-include-pch", bt "-o", bt "-x", bt "-MF", bt "-MT", bt "-MQ", bt "-MJ"].contains text ||
    !isKept text && !isDropped text && other text

/-- What a command line consists of. -/
inductive Item (α : Type) where
  | input (a : α)
  | single (a : α)
  | pair (a b : α)
  /-- An option at the end whose operand is missing. -/
  | dangling (a : α)
  deriving DecidableEq, Repr

/-- What comes next in a command line. -/
inductive Reading (α : Type) where
  | free
  | operandOf (a : α)
  /-- After `--` there are only input files. -/
  | ended

section Items

variable {α : Type} (text : α → BString) (takes : BString → Bool)

def items : Reading α → List α → List (Item α)
  | .free, [] => []
  | .operandOf a, [] => [.dangling a]
  | .ended, [] => []
  | .ended, a :: as => .input a :: items .ended as
  | .operandOf a, b :: as =>
      if text b = bt "-Xclang" then items (.operandOf a) as else .pair a b :: items .free as
  | .free, a :: as =>
      if text a = bt "-Xclang" then items .free as
      else if text a = bt "--" then .single a :: items .ended as
      else if !isOption (text a) then .input a :: items .free as
      else if takes (text a) then items (.operandOf a) as
      else .single a :: items .free as

end Items

/-! ### How the filter reads them -/

/-- The names of the options that the filter takes the next argument for the operand of. -/
def operandNames : List BString :=
  [bt "I", bt "isystem", bt "include", bt "include-pch", bt "x", bt "o", bt "c",
    bt "fvect-cost-model"]

/-- An argument, and how the filter reads it. -/
structure Arg where
  text : BString
  /-- The argument before it is `-Xclang`. -/
  xclang : Bool
  /-- The option that it is taken for the operand of. -/
  before : Option BString
  /-- It is the last one that is copied, and will be popped. -/
  popped : Bool
  deriving DecidableEq, Repr

namespace Arg

/-- An option that the filter leaves out. -/
def ignored (text : BString) : Bool :=
  [bt "I", bt "include-pch", bt "o", bt "c", bt "fvect-cost-model", bt "MMD", bt "MP", bt "MD",
      bt "MT", bt "MF"].contains (text.drop 1) ||
    (bt "fvect-cost-model=").isPrefixOf (text.drop 1) ||
    byteAt text 1 == letterW

/-- `-I` with a path. -/
def isPath (text : BString) : Bool :=
  isOption text && !ignored text && byteAt text 1 == letterI

/-- The filter copies it: as an option, or as the operand of one that it copies. -/
def copied (a : Arg) : Bool :=
  a.text != bt "-Xclang" &&
    match a.before with
    | none =>
        isOption a.text && !ignored a.text &&
          (!isPath a.text || !a.xclang && byteAt a.text 2 == slash)
    | some opt => [bt "isystem", bt "include", bt "x"].contains opt

/-- The filter leaves it out. -/
def omitted (a : Arg) : Bool :=
  a.text == bt "-Xclang" ||
    match a.before with
    | none => !isOption a.text || ignored a.text
    | some opt => !([bt "I", bt "isystem", bt "include", bt "x"].contains opt)

/-- The filter makes an include path of it. -/
def asPath (a : Arg) : Bool := a.text != bt "-Xclang" && a.before == some (bt "I")

/-- It stands in the vector as it is. -/
def stays (a : Arg) : Bool := a.copied && !a.popped

/-- Nothing of it stands in the vector. -/
def goes (a : Arg) : Bool := a.omitted || a.popped && !a.xclang

end Arg

/-- The arguments from one on that follows `before` and, perhaps, `-Xclang`. -/
def argsFrom (last : Bool) : (before : Option BString) → (xclang : Bool) → List BString → List Arg
  | _, _, [] => []
  | before, xclang, text :: texts =>
      let args :=
        if text = bt "-Xclang" then argsFrom last before true texts
        else
          let opt := text.drop 1
          argsFrom last
            (if before = none ∧ isOption text ∧ operandNames.contains opt then some opt else none)
            false texts
      let arg : Arg := { text := text, xclang := xclang, before := before, popped := false }
      { arg with
          popped := last && arg.copied && text == bt "--" && args.all Arg.omitted } :: args

def Command.argList (command : Command) (last : Bool) : List Arg :=
  argsFrom last none false command.args

/-! ### What is asked of the filter -/

/-- The argument as it was, with its `-Xclang`. -/
def spelled (a : Arg) : List BString := if a.xclang then [bt "-Xclang", a.text] else [a.text]

/--
What is to stand in the vector for an item.  An argument comes with what was appended for it.
-/
def IsRight (directory : BString) : Item (Arg × List BString) → Prop
  | .input a => a.2 = []
  | .dangling a => a.2 = []
  | .single a =>
      if isKept a.1.text then
        a.2 = spelled a.1 ∨
          (bt "-I").isPrefixOf a.1.text ∧
            a.2 = [handleIncludeCompileCommand (a.1.text.drop 2) directory true]
      else if isDropped a.1.text then a.2 = []
      else a.2 = [] ∨ a.2 = spelled a.1
  | .pair a b =>
      if isKept a.1.text then
        a.2 = spelled a.1 ∧ b.2 = spelled b.1 ∨
          a.1.text = bt "-I" ∧ a.2 = [] ∧
            b.2 = [handleIncludeCompileCommand b.1.text directory true]
      else if isDropped a.1.text then a.2 = [] ∧ b.2 = []
      else a.2 = [] ∧ b.2 = [] ∨ a.2 = spelled a.1 ∧ b.2 = spelled b.1

/--
Options with an operand are in the vector with this operand, other options with theirs or not at
all, and what is to be absent is.
-/
def Command.IsFiltered (command : Command) (other : BString → Bool) (last : Bool) : Prop :=
  ∀ item ∈ items (fun a : Arg × List BString => a.1.text) (takesOperand other) .free
      ((command.argList last).zip (command.kept last)),
    IsRight command.directory item

/-- The filter reads an item as the compiler does, or it makes no difference. -/
def Fits : Item Arg → Prop
  | .input a => a.goes = true
  | .dangling a => a.goes = true
  | .single a =>
      if isKept a.text then a.stays = true ∨ a.before = none ∧ Arg.isPath a.text = true
      else if isDropped a.text then a.goes = true
      else a.goes = true ∨ a.stays = true
  | .pair a b =>
      if isKept a.text then
        a.stays = true ∧ b.stays = true ∨
          a.text = bt "-I" ∧ a.goes = true ∧ b.asPath = true
      else if isDropped a.text then a.goes = true ∧ b.goes = true
      else a.goes = true ∧ b.goes = true ∨ a.stays = true ∧ b.stays = true

def Command.Agrees (command : Command) (other : BString → Bool) (last : Bool) : Prop :=
  ∀ item ∈ items Arg.text (takesOperand other) .free (command.argList last), Fits item

end TagHighlight.CompileCommands
