/-
The content of an atomic request: `new_arg_array`, `add_hl_call` and `add_clr_call` of
`lang/lang.c`, and `nvim_call_atomic` of `nvim_api/api.c`.

The calls to be made are collected as a format string and an argument array for each.
`nvim_call_atomic` writes one format string out of theirs, in which `@` switches to the
array of argument arrays and `*` goes on to the next of them.

`qty` and `mlen` have 32 bits.  The length of the format string has no bound here.
-/
import TagHighlight.Mpack.Capacity
import TagHighlight.Mpack.Fmt
import TagHighlight.Mpack.Decode

namespace TagHighlight.Atomic

/-- `struct mpack_arg_array`; `fmt` and `args` have the elements that are in use. -/
structure MpackArgArray where
  fmt : List (List Char)
  args : ArgArrays
  mlen : Nat

/-- The field `qty`. -/
def MpackArgArray.qty (calls : MpackArgArray) : Nat := calls.fmt.length

/-- `struct line_data`. -/
structure LineData where
  line : UInt32
  start : UInt32
  stop : UInt32
  deriving DecidableEq, Repr

def newArgArray : MpackArgArray := { fmt := [], args := [], mlen := 128 }

/-- Twice the room when `qty >= mlen - 1`. -/
def grow (calls : MpackArgArray) : Nat :=
  if calls.qty ≥ (calls.mlen + 2 ^ 32 - 1) % 2 ^ 32 then calls.mlen * 2 % 2 ^ 32 else calls.mlen

/-- One more call, with its format and its arguments. -/
def addCall (calls : MpackArgArray) (fmt : List Char) (arg : List Argument) :
    Except Fault MpackArgArray :=
  let mlen := grow calls
  if calls.qty < mlen then
    .ok { fmt := calls.fmt ++ [fmt], args := calls.args ++ [some arg], mlen := mlen }
  else .error .undefined

/-- The conversion of an `unsigned` to the `int64_t` of `mpack_argument`. -/
def numOfUnsigned (n : UInt32) : Int64 := Int64.ofInt n.toNat

/-- The format `add_hl_call` stores, and the arguments. -/
def hlFmt : List Char := ['s', '[', 'd', 'd', ',', 's', ',', 'd', 'd', 'd', ']']

def hlArgs (bufnum hlId : Int32) (group : BString) (data : LineData) : List Argument :=
  [ .str (some (bt "nvim_buf_add_highlight")), .num bufnum.toInt64, .num hlId.toInt64,
    .str (some group), .num (numOfUnsigned data.line), .num (numOfUnsigned data.start),
    .num (numOfUnsigned data.stop) ]

def addHlCall (calls : MpackArgArray) (bufnum hlId : Int32) (group : BString) (data : LineData) :
    Except Fault MpackArgArray :=
  addCall calls hlFmt (hlArgs bufnum hlId group data)

/-- The same of `add_clr_call`. -/
def clrFmt : List Char := ['s', '[', 'd', 'd', 'd', 'd', ']']

def clrArgs (bufnum hlId line stop : Int32) : List Argument :=
  [ .str (some (bt "nvim_buf_clear_highlight")), .num bufnum.toInt64, .num hlId.toInt64,
    .num line.toInt64, .num stop.toInt64 ]

def addClrCall (calls : MpackArgArray) (bufnum hlId line stop : Int32) :
    Except Fault MpackArgArray :=
  addCall calls clrFmt (clrArgs bufnum hlId line stop)

/-- The formats of all calls but the first, `"[*%n],"`. -/
def restFmt : List (List Char) → List Char
  | [] => []
  | fmt :: fmts => ['[', '*'] ++ fmt ++ [']', ','] ++ restFmt fmts

/-- The format string of `nvim_call_atomic`. -/
def atomicFmt (calls : MpackArgArray) : List Char :=
  ['[', 'd', ',', 'd', ',', 's', ':', '[', ':'] ++
    (match calls.fmt with
    | [] => []
    | fmt :: fmts => ['[', ' ', '@', '['] ++ fmt ++ [']', ','] ++ restFmt fmts ++ [' ', ']']) ++
    [':', ']', ']']

/-- `nvim_call_atomic`, up to the packed request; `count` is what `INC_COUNT` returns. -/
def nvimCallAtomic (lib : BStringLib) (count : Int32) (calls : MpackArgArray) :
    Except Fault (Option Packed) :=
  -- `MES_REQUEST` is 0.
  mpackEncodeFmt lib calls.qty (atomicFmt calls)
    (.start [.int 0, .int count, .bstring (some (bt "nvim_call_atomic")), .argArrays calls.args]
      fun _ => [])

/-! ### Sequences of calls -/

inductive Op where
  | addHl (bufnum hlId : Int32) (group : BString) (data : LineData)
  | addClr (bufnum hlId line stop : Int32)
  deriving DecidableEq, Repr

def Op.add (calls : MpackArgArray) : Op → Except Fault MpackArgArray
  | .addHl bufnum hlId group data => addHlCall calls bufnum hlId group data
  | .addClr bufnum hlId line stop => addClrCall calls bufnum hlId line stop

/-- What there is to be read of a call: its name, and its arguments. -/
def Op.tree : Op → Tree
  | .addHl bufnum hlId group data =>
      .array [.string (some (bt "nvim_buf_add_highlight")),
        .array [.integer bufnum.toInt64, .integer hlId.toInt64, .string (some group),
          .integer (numOfUnsigned data.line), .integer (numOfUnsigned data.start),
          .integer (numOfUnsigned data.stop)]]
  | .addClr bufnum hlId line stop =>
      .array [.string (some (bt "nvim_buf_clear_highlight")),
        .array [.integer bufnum.toInt64, .integer hlId.toInt64, .integer line.toInt64,
          .integer stop.toInt64]]

/-- `[0, count, "nvim_call_atomic", [calls]]`. -/
def callsTree (count : Int32) (calls : List Tree) : Tree :=
  .array [.integer 0, .integer count.toInt64, .string (some (bt "nvim_call_atomic")),
    .array [.array calls]]

def requestTree (count : Int32) (ops : List Op) : Tree := callsTree count (ops.map Op.tree)

/-- Line and column numbers are below `2 ^ 31`, and a group is a `bstring`. -/
def Op.Ok : Op → Prop
  | .addHl _ _ group data =>
      group.length < 4294967295 ∧ data.line.toNat < 2 ^ 31 ∧ data.start.toNat < 2 ^ 31 ∧
        data.stop.toNat < 2 ^ 31
  -- The others are of type `int`.
  | .addClr _ _ _ _ => True

/-- The integers among the arguments of a call. -/
def Op.ints : Op → List Int64
  | .addHl bufnum hlId _ data =>
      [bufnum.toInt64, hlId.toInt64, numOfUnsigned data.line, numOfUnsigned data.start,
        numOfUnsigned data.stop]
  | .addClr bufnum hlId line stop =>
      [bufnum.toInt64, hlId.toInt64, line.toInt64, stop.toInt64]

/-- The requests that are read back as what was asked for. -/
structure Readable (lib : BStringLib) (count : Int32) (ops : List Op) : Prop where
  some : ops ≠ []
  /-- The encoder has room, so the arrays of the calls have, and the scratch memory. -/
  room : (requestTree count ops).HasRoom lib
  /-- No integer is among those the decoder loses. -/
  ints : ∀ value ∈ count.toInt64 :: ops.flatMap Op.ints, ¬(-127 ≤ value.toInt ∧ value.toInt ≤ -33)

end TagHighlight.Atomic
