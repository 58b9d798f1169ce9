/-
`mpack_encode_fmt` of `mpack/mpack.c`, as release builds have it.

The function goes over the format string twice.  The first pass counts the elements of
every array and dictionary, in the order in which they are opened; the second one encodes,
taking the count of each container it opens from the first.

The arguments come from one of three sources, which the format can switch between: the
function's own `va_list`, another `va_list`, or an array of argument arrays.  A `va_list`
that is passed by its address keeps its position there, so those lists have names here
and live in the state.  Pointers into the arrays of counters are indices.
-/
import TagHighlight.Mpack.Encode

namespace TagHighlight

/-! ### The format string -/

/-- The letters that stand for one value. -/
inductive Kind where
  | b | d | l | u | s | c | n
  deriving DecidableEq, Repr

/-- The characters that are no part of the object. -/
inductive Aside where
  | separator
  | otherValist
  | argArray
  | nextArray
  deriving DecidableEq, Repr

/-- The `case` labels, as both passes group them. -/
inductive Token where
  | value (k : Kind)
  | openArray
  | openDict
  | close
  | aside (a : Aside)
  deriving DecidableEq, Repr

/-- The label a character falls under.  Letters may be upper case. -/
def token? : Char → Option Token
  | 'b' | 'B' => some (.value .b)
  | 'l' | 'L' => some (.value .l)
  | 'd' | 'D' => some (.value .d)
  | 's' | 'S' => some (.value .s)
  | 'n' | 'N' => some (.value .n)
  | 'c' | 'C' => some (.value .c)
  | 'u' | 'U' => some (.value .u)
  | '[' => some .openArray
  | '{' => some .openDict
  | ']' | '}' => some .close
  | ';' | ':' | '.' | ' ' | ',' => some (.aside .separator)
  | '!' => some (.aside .otherValist)
  | '@' => some (.aside .argArray)
  | '*' => some (.aside .nextArray)
  | _ => none

/-! ### The first pass -/

/-- The counters of the first pass.  `subLengths` has the elements that are in use. -/
structure Count where
  subLengths : List Nat
  curLen : Nat
  lenStack : List Nat
  deriving Repr

/-- The number of elements of `sub_lengths`. -/
def arrSize (sizeHint : Nat) : Nat :=
  if sizeHint = 0 then 128 else (128 + sizeHint * 6) % 2 ^ 32

/-- `++*cur_len`. -/
def bump (counters : List Nat) (cur : Nat) : List Nat := counters.modify cur (· + 1)

/-- `PUSH`, on a stack of 128 elements. -/
def push {α : Type} (stack : List α) (val : α) : Except Fault (List α) :=
  if stack.length < 128 then .ok (val :: stack) else .error .undefined

/-- `POP`. -/
def pop {α : Type} (stack : List α) : Except Fault (α × List α) :=
  match stack with
  | [] => .error .abort
  | val :: stack => .ok (val, stack)

/-- The `switch` of the first loop. -/
def countToken (size : Nat) (st : Count) : Token → Except Fault Count
  | .value _ => .ok { st with subLengths := bump st.subLengths st.curLen }
  | .openArray | .openDict => do
      let subLengths := bump st.subLengths st.curLen
      let lenStack ← push st.lenStack st.curLen
      if subLengths.length < size then
        .ok { subLengths := subLengths ++ [0], curLen := subLengths.length, lenStack := lenStack }
      else .error .undefined
  | .close => do
      let (curLen, lenStack) ← pop st.lenStack
      .ok { st with curLen := curLen, lenStack := lenStack }
  | .aside _ => .ok st

def countLoop (size : Nat) : List Char → Count → Except Fault Count
  | [], st => .ok st
  | ch :: fmt, st => match token? ch with
    | some t => do countLoop size fmt (← countToken size st t)
    | none =>
        .error (.errx 1 ("Illegal character \"" ++ String.singleton ch ++ "\" found in format."))

/-- The first pass and the tests after it; returns `sub_lengths`. -/
def countFmt (size : Nat) (fmt : List Char) : Except Fault (List Nat) := do
  let st ← countLoop size fmt { subLengths := [0], curLen := 0, lenStack := [] }
  if st.lenStack.length ≠ 0 then
    .error (.errx 1 ("Invalid encode format string: undetermined array/dictionary.\n\"" ++
      String.ofList fmt ++ "\""))
  else if st.subLengths.headD 0 > 1 then
    .error (.errx 1 ("Invalid encode format string: Cannot encode multiple items at the top " ++
      "level. Put them in an array.\n\"" ++ String.ofList fmt ++ "\""))
  else .ok st.subLengths

/-! ### The arguments -/

/-- `mpack_argument`, by the member that was stored. -/
inductive Argument where
  | boolean (v : Bool)
  | num (v : Int64)
  | uint (v : UInt64)
  | str (s : Option BString)
  | cStr (s : BString)

/-- A pointer to an array of argument arrays, `mpack_argument **`. -/
abbrev ArgArrays := List (Option (List Argument))

/-- A variadic argument, by its type. -/
inductive Arg where
  | int (v : Int32)
  | int64 (v : Int64)
  | uint64 (v : UInt64)
  | bstring (s : Option BString)
  | cString (s : BString)
  | valist (ref : Nat)
  | argArrays (args : ArgArrays)

/-- `enum encode_fmt_next_type`. -/
inductive NextType where
  | ownValist | otherValist | argArray
  deriving DecidableEq, Repr

/-- Where the arguments come from, and how far they have been taken. -/
structure Source where
  own : List Arg
  /-- The other `va_list`s, by address. -/
  valists : Nat → List Arg
  ref : Option Nat
  aArgs : Option ArgArrays
  aArgCtr : Nat
  aArgSubctr : Nat
  nextType : NextType

/-- The sources when the function is entered. -/
def Source.start (own : List Arg) (valists : Nat → List Arg) : Source :=
  { own := own, valists := valists, ref := none, aArgs := none, aArgCtr := 0, aArgSubctr := 0
    nextType := .ownValist }

/-- `NEXT_VALIST_ONLY`: an argument of whatever type. -/
def nextValistOnly (src : Source) : Except Fault (Arg × Source) :=
  match src.nextType with
  | .ownValist => match src.own with
    | [] => .error .undefined
    | arg :: own => .ok (arg, { src with own := own })
  | .otherValist => match src.ref with
    | none => .error (.assertion "ref != NULL")
    | some ref => match src.valists ref with
      | [] => .error .undefined
      | arg :: args =>
          .ok (arg, { src with valists := fun r => if r = ref then args else src.valists r })
  | .argArray => .error .abort

/-- An argument from the arrays, `a_args[a_arg_ctr][a_arg_subctr]`. -/
def nextArgument (src : Source) : Except Fault (Argument × Source) :=
  match src.aArgs with
  | none => .error (.assertion "a_args")
  | some aArgs => match aArgs[src.aArgCtr]? with
    | none => .error .undefined
    | some none => .error (.assertion "a_args[a_arg_ctr]")
    | some (some args) => match args[src.aArgSubctr]? with
      | none => .error .undefined
      | some arg => .ok (arg, { src with aArgSubctr := src.aArgSubctr + 1 })

/-- An argument of another type than the one asked for. -/
def expected {β : Type} (v : Option β) : Except Fault β :=
  match v with
  | none => .error .undefined
  | some v => .ok v

/-- `NEXT (VAR, TYPE_NAME, MEMBER)`. -/
def next {β : Type} (typeName : Arg → Option β) (member : Argument → Option β) (src : Source) :
    Except Fault (β × Source) :=
  match src.nextType with
  | .ownValist | .otherValist => do
      let (arg, src) ← nextValistOnly src
      .ok (← expected (typeName arg), src)
  | .argArray => do
      let (arg, src) ← nextArgument src
      .ok (← expected (member arg), src)

/-- What is encoded for a letter, once its argument has been taken. -/
inductive Value where
  | boolean (v : Bool)
  | integer (v : Int64)
  | unsigned (v : UInt64)
  | string (s : Option BString)
  | nil

/-- `bt_fromcstr`: the bytes before the terminator. -/
def btFromcstr (s : BString) : BString := s.takeWhile (· ≠ 0)

/-- The argument of a letter. -/
def nextValue (k : Kind) (src : Source) : Except Fault (Value × Source) :=
  match k with
  | .b => do
      let (arg, src) ← next (fun | .int v => some (decide (v ≠ 0)) | _ => none)
        (fun | .boolean v => some v | _ => none) src
      .ok (.boolean arg, src)
  | .d => do
      -- The variable is an `int`, so a number from an array is cut to 32 bits.
      let (arg, src) ← next (fun | .int v => some v | _ => none)
        (fun | .num v => some v.toInt32 | _ => none) src
      .ok (.integer arg.toInt64, src)
  | .l => do
      let (arg, src) ← next (fun | .int64 v => some v | _ => none)
        (fun | .num v => some v | _ => none) src
      .ok (.integer arg, src)
  | .u => do
      let (arg, src) ← next (fun | .uint64 v => some v | _ => none)
        (fun | .uint v => some v | _ => none) src
      .ok (.unsigned arg, src)
  | .s => do
      let (arg, src) ← next (fun | .bstring s => some s | _ => none)
        (fun | .str s => some s | _ => none) src
      .ok (.string arg, src)
  | .c => do
      let (arg, src) ← next (fun | .cString s => some s | _ => none)
        (fun | .cStr s => some s | _ => none) src
      .ok (.string (some (btFromcstr arg)), src)
  | .n => .ok (.nil, src)

/-- The encoding function a letter calls. -/
def encodeValue (lib : BStringLib) (pack : Packed) : Value → Except Fault Packed
  | .boolean v => mpackEncodeBoolean lib pack v
  | .integer v => mpackEncodeInteger lib pack v
  | .unsigned v => mpackEncodeUnsigned lib pack v
  | .string s => mpackEncodeString lib pack s
  | .nil => mpackEncodeNil lib pack

/-- `!`: all arguments after it come from another `va_list`. -/
def useValist (src : Source) : Except Fault Source := do
  let (arg, src) ← nextValistOnly src
  match arg with
  | .valist ref => .ok { src with ref := some ref, nextType := .otherValist }
  | _ => .error .undefined

/-- `@`: all arguments after it come from argument arrays. -/
def useArgArrays (src : Source) : Except Fault Source := do
  let (arg, src) ← nextValistOnly src
  match arg with
  | .argArrays args => match args with
    | [] => .error .undefined
    | none :: _ => .error (.assertion "a_args[a_arg_ctr]")
    | some _ :: _ =>
        .ok { src with aArgs := some args, aArgCtr := 0, aArgSubctr := 0, nextType := .argArray }
  | _ => .error .undefined

/-- `*`: on to the next argument array. -/
def nextArgArray (src : Source) : Except Fault Source :=
  if src.nextType = .argArray then
    .ok { src with aArgCtr := src.aArgCtr + 1, aArgSubctr := 0 }
  else .error (.assertion "next_type == ARG_ARRAY")

/-- The source after one of the characters that are not encoded. -/
def takeAside : Aside → Source → Except Fault Source
  | .separator, src => .ok src
  | .otherValist, src => useValist src
  | .argArray, src => useArgArrays src
  | .nextArray, src => nextArgArray src

/-! ### The second pass -/

/-- The state of the second pass.  `subCtrs` has the elements of `sub_ctrlist` in use. -/
structure Emit where
  pack : Packed
  src : Source
  lenCtr : Nat
  subCtrs : List Nat
  curCtr : Nat
  lenStack : List Nat
  dictStack : List Bool

/-- Opening a container, once its header is encoded; the counter it gets is 1 already. -/
def openContainer (size : Nat) (isDict : Bool) (st : Emit) : Except Fault Emit := do
  let dictStack ← push st.dictStack isDict
  let lenStack ← push st.lenStack st.curCtr
  if st.subCtrs.length < size then
    .ok { st with
            dictStack := dictStack, lenStack := lenStack, lenCtr := st.lenCtr + 1
            subCtrs := bump (st.subCtrs ++ [0]) st.subCtrs.length, curCtr := st.subCtrs.length }
  else .error .undefined

/-- The `switch` of the second loop, and the count after it. -/
def emitToken (lib : BStringLib) (subLengths : List Nat) (st : Emit) : Token → Except Fault Emit
  | .value k => do
      let (v, src) ← nextValue k st.src
      let pack ← encodeValue lib st.pack v
      .ok { st with pack := pack, src := src, subCtrs := bump st.subCtrs st.curCtr }
  | .openArray => do
      let len ← expected subLengths[st.lenCtr]?
      let pack ← mpackEncodeArray lib st.pack len
      openContainer (subLengths.length + 1) false { st with pack := pack }
  | .openDict => do
      let len ← expected subLengths[st.lenCtr]?
      if len % 2 ≠ 0 then .error (.assertion "(sub_lengths[len_ctr] & 1) == 0")
      let pack ← mpackEncodeDictionary lib st.pack (len / 2)
      openContainer (subLengths.length + 1) true { st with pack := pack }
  | .close => do
      let (_, dictStack) ← pop st.dictStack
      let (curCtr, lenStack) ← pop st.lenStack
      .ok { st with
              dictStack := dictStack, lenStack := lenStack, curCtr := curCtr
              subCtrs := bump st.subCtrs curCtr }
  | .aside a => do .ok { st with src := ← takeAside a st.src }

def emitLoop (lib : BStringLib) (subLengths : List Nat) : List Char → Emit → Except Fault Emit
  | [], st => .ok st
  | ch :: fmt, st => match token? ch with
    | some t => do emitLoop lib subLengths fmt (← emitToken lib subLengths st t)
    | none =>
        .error (.errx 1 "Somehow (?!) found an invalid character in an mpack format string.")

/-- `mpack_encode_fmt`.  A format without any item gives NULL. -/
def mpackEncodeFmt (lib : BStringLib) (sizeHint : Nat) (fmt : List Char) (src : Source) :
    Except Fault (Option Packed) := do
  if fmt = [] then .error (.assertion "fmt != NULL && *fmt != '\\0'")
  let subLengths ← countFmt (arrSize sizeHint) fmt
  if subLengths.headD 0 = 0 then
    .ok none
  else
    let st ← emitLoop lib subLengths fmt
      { pack := mpackMakeNew, src := src, lenCtr := 1, subCtrs := [1], curCtr := 0
        lenStack := [0], dictStack := [false] }
    .ok (some st.pack)

end TagHighlight
