/-
What a format string denotes.

The passes of `mpack_encode_fmt` see a format as a string of labels and keep counters.
What its caller means is a nesting of arrays and dictionaries, with the argument values
at the leaves.  `parseFmt` gives the nesting, `Supplies` says which values the arguments
have for it, and `denotes` puts the two together into a tree.

The values are those a caller puts into the lists and arrays, read off these and not off the
positions that the second pass keeps: a stretch of the format takes its arguments from the front
of one list, `!` names the list for what comes after it, and behind `@` each stretch up to a `*`
has an array of its own.
-/
import TagHighlight.Mpack.Fmt

namespace TagHighlight

/-! ### Nesting -/

/-- The elements of a format, or of a container in it; `rest` is what comes after one. -/
inductive Format where
  | nil
  | value (k : Kind) (rest : Format)
  | aside (a : Aside) (rest : Format)
  | array (body rest : Format)
  | dict (body rest : Format)
  deriving DecidableEq, Repr

namespace Format

/-- One format after another. -/
def append : Format → Format → Format
  | nil, f => f
  | value k rest, f => value k (rest.append f)
  | aside a rest, f => aside a (rest.append f)
  | array body rest, f => array body (rest.append f)
  | dict body rest, f => dict body (rest.append f)

/-- A container that has just been closed. -/
def container (isDict : Bool) (body : Format) : Format :=
  if isDict then dict body nil else array body nil

/-- The number of items; the characters that are not encoded do not count. -/
def items : Format → Nat
  | nil => 0
  | value _ rest => rest.items + 1
  | aside _ rest => rest.items
  | array _ rest => rest.items + 1
  | dict _ rest => rest.items + 1

/-- The items of every container, in the order in which they are opened. -/
def lens : Format → List Nat
  | nil => []
  | value _ rest => rest.lens
  | aside _ rest => rest.lens
  | array body rest => body.items :: (body.lens ++ rest.lens)
  | dict body rest => body.items :: (body.lens ++ rest.lens)

/-- How deep containers are nested. -/
def depth : Format → Nat
  | nil => 0
  | value _ rest => rest.depth
  | aside _ rest => rest.depth
  | array body rest => max (body.depth + 1) rest.depth
  | dict body rest => max (body.depth + 1) rest.depth

/-- Every dictionary has as many keys as values. -/
def EvenDicts : Format → Prop
  | nil => True
  | value _ rest => rest.EvenDicts
  | aside _ rest => rest.EvenDicts
  | array body rest => body.EvenDicts ∧ rest.EvenDicts
  | dict body rest => body.items % 2 = 0 ∧ body.EvenDicts ∧ rest.EvenDicts

end Format

/--
The nesting of a string of labels.  `outer` holds, for every container that is open, its
kind and what stands before it; `cur` is what stands in the innermost one.
-/
def parseTokens : List Token → (outer : List (Bool × Format)) → (cur : Format) → Option Format
  | [], [], cur => some cur
  | [], _ :: _, _ => none
  | .value k :: ts, outer, cur => parseTokens ts outer (cur.append (.value k .nil))
  | .aside a :: ts, outer, cur => parseTokens ts outer (cur.append (.aside a .nil))
  | .openArray :: ts, outer, cur => parseTokens ts ((false, cur) :: outer) .nil
  | .openDict :: ts, outer, cur => parseTokens ts ((true, cur) :: outer) .nil
  | .close :: _, [], _ => none
  | .close :: ts, (isDict, before) :: outer, cur =>
      parseTokens ts outer (before.append (.container isDict cur))

/-- The labels of a format, if every character has one. -/
def tokens? : List Char → Option (List Token)
  | [] => some []
  | ch :: fmt => do .some ((← token? ch) :: (← tokens? fmt))

/-- The elements of a format string, if its brackets match. -/
def parseFmt (fmt : List Char) : Option Format := do parseTokens (← tokens? fmt) [] .nil

/-! ### Values -/

/-- A variadic argument, the letter it is given for, and the value it is. -/
inductive Arg.Is : Arg → Kind → Value → Prop where
  | boolean (v : Int32) : Is (.int v) .b (.boolean (decide (v ≠ 0)))
  | int (v : Int32) : Is (.int v) .d (.integer v.toInt64)
  | int64 (v : Int64) : Is (.int64 v) .l (.integer v)
  | uint64 (v : UInt64) : Is (.uint64 v) .u (.unsigned v)
  | bstring (s : Option BString) : Is (.bstring s) .s (.string s)
  | cString (s : BString) : Is (.cString s) .c (.string (some (btFromcstr s)))

/-- The same of an argument in an array.  What is given for `d` is an `int` there as well. -/
inductive Argument.Is : Argument → Kind → Value → Prop where
  | boolean (v : Bool) : Is (.boolean v) .b (.boolean v)
  | int (v : Int32) : Is (.num v.toInt64) .d (.integer v.toInt64)
  | num (v : Int64) : Is (.num v) .l (.integer v)
  | uint (v : UInt64) : Is (.uint v) .u (.unsigned v)
  | str (s : Option BString) : Is (.str s) .s (.string s)
  | cStr (s : BString) : Is (.cStr s) .c (.string (some (btFromcstr s)))

/-- A bracket or a separator. -/
def Token.IsMark : Token → Prop
  | .openArray | .openDict | .close | .aside .separator => True
  | .value _ | .aside _ => False

/--
A stretch of the format has its arguments at the front of a list, which stand for `vs`, and
leaves `rest`.  A nil takes none.
-/
inductive Takes {α : Type} (is : α → Kind → Value → Prop) :
    List Token → List α → (vs : List Value) → (rest : List α) → Prop where
  | nil (args : List α) : Takes is [] args [] args
  | null {ts : List Token} {args rest : List α} {vs : List Value} (h : Takes is ts args vs rest) :
      Takes is (.value .n :: ts) args (.nil :: vs) rest
  | value {ts : List Token} {args rest : List α} {vs : List Value} {k : Kind} {arg : α} {v : Value}
      (first : is arg k v) (h : Takes is ts args vs rest) :
      Takes is (.value k :: ts) (arg :: args) (v :: vs) rest
  | mark {ts : List Token} {args rest : List α} {vs : List Value} {t : Token} (mark : t.IsMark)
      (h : Takes is ts args vs rest) : Takes is (t :: ts) args vs rest

/-- An array of arguments; one that is not there has none. -/
def elements (array : Option (Option (List Argument))) : List Argument := array.join.getD []

/-- Behind `@`, the stretches between one `*` and the next have an array each. -/
inductive FromArrays : List Token → ArgArrays → (vs : List Value) → Prop where
  | last {ts : List Token} {args : ArgArrays} {vs : List Value} {rest : List Argument}
      (h : Takes Argument.Is ts (elements args.head?) vs rest) : FromArrays ts args vs
  | next {front ts : List Token} {args : ArgArrays} {vs ws : List Value} {rest : List Argument}
      (h : Takes Argument.Is front (elements args.head?) vs rest) (after : FromArrays ts args.tail ws) :
      FromArrays (front ++ .aside .nextArray :: ts) args (vs ++ ws)

/--
The arguments that lists of them have for a format, the one that is in use first.  No address is
that of the function's own list.  Whichever list is left behind goes on later where it was left.
-/
inductive FromLists : List Token → (cur : Option Nat) → (lists : Option Nat → List Arg) →
    (vs : List Value) → Prop where
  | last {ts : List Token} {cur : Option Nat} {lists : Option Nat → List Arg} {vs : List Value}
      {rest : List Arg} (h : Takes Arg.Is ts (lists cur) vs rest) : FromLists ts cur lists vs
  | valist {front ts : List Token} {cur : Option Nat} {lists : Option Nat → List Arg}
      {vs ws : List Value} {ref : Nat} {rest : List Arg}
      (h : Takes Arg.Is front (lists cur) vs (.valist ref :: rest))
      (after : FromLists ts (some ref) (fun list => if list = cur then rest else lists list) ws) :
      FromLists (front ++ .aside .otherValist :: ts) cur lists (vs ++ ws)
  | arrays {front ts : List Token} {cur : Option Nat} {lists : Option Nat → List Arg}
      {vs ws : List Value} {first : List Argument} {args : ArgArrays} {rest : List Arg}
      (h : Takes Arg.Is front (lists cur) vs (.argArrays (some first :: args) :: rest))
      (after : FromArrays ts (some first :: args) ws) :
      FromLists (front ++ .aside .argArray :: ts) cur lists (vs ++ ws)

/-- The lists of a call, its own and those that some of its arguments point to. -/
def callLists (own : List Arg) (valists : Nat → List Arg) : Option Nat → List Arg
  | none => own
  | some ref => valists ref

/-- The arguments match the format, and have the values `vs`. -/
def Supplies (cur : Option Nat) (lists : Option Nat → List Arg) (fmt : List Char) (vs : List Value) :
    Prop :=
  ∃ ts, tokens? fmt = some ts ∧ FromLists ts cur lists vs

/-- A value as a leaf. -/
def Value.toTree : Value → Tree
  | .boolean v => .boolean v
  | .integer v => .integer v
  | .unsigned v => .unsigned v
  | .string s => .string s
  | .nil => .nil

/-- Keys and values, alternating. -/
def pairs {α : Type} : List α → List (α × α)
  | k :: v :: rest => (k, v) :: pairs rest
  | _ => []

/-- The trees a format denotes, with the values from the front of `vs`. -/
def Format.denotes : Format → List Value → Option (List Tree × List Value)
  | nil, vs => some ([], vs)
  | value _ _, [] => none
  | value _ rest, v :: vs => do
      let (ts, vs) ← rest.denotes vs
      some (v.toTree :: ts, vs)
  | aside _ rest, vs => rest.denotes vs
  | array body rest, vs => do
      let (sub, vs) ← body.denotes vs
      let (ts, vs) ← rest.denotes vs
      some (.array sub :: ts, vs)
  | dict body rest, vs => do
      let (sub, vs) ← body.denotes vs
      let (ts, vs) ← rest.denotes vs
      some (.dictionary (pairs sub) :: ts, vs)

end TagHighlight
