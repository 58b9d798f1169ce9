/-
MessagePack as a sender may write it, and a stream of it.

The encoder always takes the shortest form; another sender need not.  A `Wire` is an object
together with the form chosen for each of its parts, and `Wire.bytes` is what then goes over
the connection, lengths and numbers in network byte order.  What a receiver must recover is
the object's `Shape`: numbers are left out of it, and so is the form.

The stream has no separators.  Where one message ends and the next begins is known to the
decoder alone.
-/
import TagHighlight.Mpack.Decode

namespace TagHighlight

open Bytes

/-! ### Shapes -/

/-- An object without the values of its numbers. -/
inductive Shape where
  | nil
  | boolean (b : Bool)
  | signed
  | unsigned
  | ext (e : Ext)
  | string (str : BString)
  | array (lst : List Shape)
  | dict (lst : List (Shape × Shape))

mutual

def Obj.shape : Obj → Shape
  | .nil => .nil
  | .boolean b => .boolean b
  | .signed _ => .signed
  | .unsigned _ => .unsigned
  | .ext e => .ext e
  | .string str => .string str
  | .array lst => .array (objShapes lst)
  | .dict lst => .dict (entryShapes lst)

def objShapes : List Obj → List Shape
  | [] => []
  | obj :: objs => obj.shape :: objShapes objs

def entryShapes : List (Obj × Obj) → List (Shape × Shape)
  | [] => []
  | (key, value) :: entries => (key.shape, value.shape) :: entryShapes entries

end

/-! ### Forms -/

/-- The widths of numbers, and of the payload of a `fixext`. -/
inductive Width where
  | w8 | w16 | w32 | w64
  deriving DecidableEq, Repr

def Width.size : Width → Nat
  | .w8 => 1
  | .w16 => 2
  | .w32 => 4
  | .w64 => 8

def Width.uintCode : Width → UInt8
  | .w8 => 0xCC
  | .w16 => 0xCD
  | .w32 => 0xCE
  | .w64 => 0xCF

def Width.intCode : Width → UInt8
  | .w8 => 0xD0
  | .w16 => 0xD1
  | .w32 => 0xD2
  | .w64 => 0xD3

/-- The bits of a number in a signed form, as `decode_integer` leaves them. -/
def receivedInt (w : Width) (n : Nat) : UInt64 :=
  UInt64.ofNat <| match w with
    | .w8 => 0xFFFFFFFFFFFFFF00
    | .w16 => n % 256 ^ 2 ||| 0xFFFFFFFFFFFF0000
    | .w32 => n % 256 ^ 4 ||| 0xFFFFFFFF00000000
    | .w64 => n % 256 ^ 8

def Width.fixextCode : Width → UInt8
  | .w8 => 0xD4
  | .w16 => 0xD5
  | .w32 => 0xD6
  | .w64 => 0xD7

/-- How the length of a string is written. -/
inductive StrForm where
  | fix | str8 | str16 | str32
  deriving DecidableEq, Repr

/-- Strings of `2 ^ 32 - 1` bytes are not among those the decoder has room for. -/
def StrForm.Holds (len : Nat) : StrForm → Prop
  | .fix => len < 32
  | .str8 => len < 256
  | .str16 => len < 65536
  | .str32 => len < 4294967295

def StrForm.header (len : Nat) : StrForm → List UInt8
  | .fix => [0xA0 ||| UInt8.ofNat len]
  | .str8 => 0xD9 :: beBytes 1 len
  | .str16 => 0xDA :: beBytes 2 len
  | .str32 => 0xDB :: beBytes 4 len

/-- How the number of elements of an array or a map is written. -/
inductive SeqForm where
  | fix | seq16 | seq32
  deriving DecidableEq, Repr

def SeqForm.Holds (len : Nat) : SeqForm → Prop
  | .fix => len < 16
  | .seq16 => len < 65536
  | .seq32 => len < 4294967296

def SeqForm.arrayHeader (len : Nat) : SeqForm → List UInt8
  | .fix => [0x90 ||| UInt8.ofNat len]
  | .seq16 => 0xDC :: beBytes 2 len
  | .seq32 => 0xDD :: beBytes 4 len

def SeqForm.mapHeader (len : Nat) : SeqForm → List UInt8
  | .fix => [0x80 ||| UInt8.ofNat len]
  | .seq16 => 0xDE :: beBytes 2 len
  | .seq32 => 0xDF :: beBytes 4 len

/-! ### Objects on the wire -/

/-- An object and the form of each of its parts.  Numbers are given by their bit patterns. -/
inductive Wire where
  | nil
  | boolean (b : Bool)
  | posFixint (n : Fin 128)
  | negFixint (n : Fin 32)
  | uint (w : Width) (n : Nat)
  | int (w : Width) (n : Nat)
  | fixext (w : Width) (type : UInt8) (payload : List UInt8)
  | ext8 (type : UInt8) (payload : List UInt8)
  | string (form : StrForm) (str : BString)
  | array (form : SeqForm) (items : List Wire)
  | map (form : SeqForm) (entries : List (Wire × Wire))

mutual

/-- The bytes a sender writes. -/
def Wire.bytes : Wire → BString
  | .nil => [0xC0]
  | .boolean b => [if b then 0xC3 else 0xC2]
  | .posFixint n => [UInt8.ofNat n]
  | .negFixint n => [UInt8.ofNat (n + 224)]
  | .uint w n => w.uintCode :: beBytes w.size n
  | .int w n => w.intCode :: beBytes w.size n
  | .fixext w type payload => w.fixextCode :: type :: payload
  | .ext8 type payload => 0xC7 :: UInt8.ofNat payload.length :: type :: payload
  | .string form str => form.header str.length ++ str
  | .array form items => form.arrayHeader items.length ++ itemBytes items
  | .map form entries => form.mapHeader entries.length ++ entryBytes entries

def itemBytes : List Wire → BString
  | [] => []
  | w :: ws => w.bytes ++ itemBytes ws

def entryBytes : List (Wire × Wire) → BString
  | [] => []
  | (key, value) :: entries => key.bytes ++ value.bytes ++ entryBytes entries

end

mutual

/-- Every form has room for what it is used for. -/
def Wire.Ok : Wire → Prop
  | .nil | .boolean _ | .posFixint _ | .negFixint _ | .uint _ _ | .int _ _ => True
  | .fixext w _ payload => payload.length = w.size
  | .ext8 _ payload => payload.length ≤ 8
  | .string form str => form.Holds str.length
  | .array form items => form.Holds items.length ∧ ItemsOk items
  | .map form entries => form.Holds entries.length ∧ EntriesOk entries

def ItemsOk : List Wire → Prop
  | [] => True
  | w :: ws => w.Ok ∧ ItemsOk ws

def EntriesOk : List (Wire × Wire) → Prop
  | [] => True
  | (key, value) :: entries => key.Ok ∧ value.Ok ∧ EntriesOk entries

end

mutual

/-- What a receiver has to recover. -/
def Wire.shape : Wire → Shape
  | .nil => .nil
  | .boolean b => .boolean b
  | .posFixint _ => .unsigned
  | .negFixint _ => .signed
  | .uint _ _ => .unsigned
  | .int _ _ => .signed
  | .fixext _ type payload => .ext ⟨type, UInt8.ofNat payload.length, payload⟩
  | .ext8 type payload => .ext ⟨type, UInt8.ofNat payload.length, payload⟩
  | .string _ str => .string str
  | .array _ items => .array (itemShapes items)
  | .map _ entries => .dict (wireEntryShapes entries)

def itemShapes : List Wire → List Shape
  | [] => []
  | w :: ws => w.shape :: itemShapes ws

def wireEntryShapes : List (Wire × Wire) → List (Shape × Shape)
  | [] => []
  | (key, value) :: entries => (key.shape, value.shape) :: wireEntryShapes entries

end

/-! ### Streams -/

/-- Messages one after the other. -/
def stream (ws : List Wire) : BString := ws.flatMap Wire.bytes

/-- `count` calls of `do_decode`: what each returned, and what it left unread. -/
def decodeCalls : (count : Nat) → BString → Except Fault (List (Obj × BString))
  | 0, _ => .ok []
  | count + 1, buf => do
      let (obj, buf) ← doDecode buf
      let calls ← decodeCalls count buf
      .ok ((obj, buf) :: calls)

end TagHighlight
