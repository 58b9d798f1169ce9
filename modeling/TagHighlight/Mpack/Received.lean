/-
What the decoder makes of a message that somebody else has written.

`Wire.message` is what the sender means.  `Wire.obj` is what `do_decode` returns for it: the
same, but for numbers in the signed forms, where the bits above the ones that were read are
set and those of a byte are not read at all.
-/
import TagHighlight.Mpack.Message

namespace TagHighlight

mutual

/-- What a call of the decoder returns. -/
def Wire.obj : Wire → Obj
  | .nil => .nil
  | .boolean b => .boolean b
  | .posFixint n => .unsigned (UInt64.ofNat n)
  | .negFixint n => .signed (UInt64.ofNat (n ||| 0xFFFFFFFFFFFFFFE0))
  | .uint w n => .unsigned (UInt64.ofNat (n % 256 ^ w.size))
  | .int w n => .signed (receivedInt w n)
  | .fixext _ type payload => .ext ⟨type, UInt8.ofNat payload.length, payload⟩
  | .ext8 type payload => .ext ⟨type, UInt8.ofNat payload.length, payload⟩
  | .string _ str => .string str
  | .array _ items => .array (itemObjs items)
  | .map _ entries => .dict (entryObjs entries)

def itemObjs : List Wire → List Obj
  | [] => []
  | w :: ws => w.obj :: itemObjs ws

def entryObjs : List (Wire × Wire) → List (Obj × Obj)
  | [] => []
  | (key, value) :: entries => (key.obj, value.obj) :: entryObjs entries

end

mutual

/-- What an object stands for in the program. -/
def Obj.message : Obj → Message
  | .nil => .nil
  | .boolean b => .boolean b
  | .signed n => .integer n.toInt64.toInt
  | .unsigned n => .integer n.toNat
  | .ext e => .ext e.type e.payload
  | .string str => .string str
  | .array lst => .array (objMessages lst)
  | .dict lst => .dictionary (dictMessages lst)

def objMessages : List Obj → List Message
  | [] => []
  | obj :: objs => obj.message :: objMessages objs

def dictMessages : List (Obj × Obj) → List (Message × Message)
  | [] => []
  | (key, value) :: entries => (key.message, value.message) :: dictMessages entries

end

mutual

/-- No number is in a signed form that the decoder spoils: no byte, and nothing positive. -/
def Wire.Kept : Wire → Prop
  | .nil | .boolean _ | .posFixint _ | .negFixint _ | .uint _ _ | .fixext _ _ _ | .ext8 _ _
  | .string _ _ => True
  | .int .w8 _ => False
  | .int .w16 n => 2 ^ 15 ≤ n % 2 ^ 16
  | .int .w32 n => 2 ^ 31 ≤ n % 2 ^ 32
  | .int .w64 _ => True
  | .array _ items => ItemsKept items
  | .map _ entries => EntriesKept entries

def ItemsKept : List Wire → Prop
  | [] => True
  | w :: ws => w.Kept ∧ ItemsKept ws

def EntriesKept : List (Wire × Wire) → Prop
  | [] => True
  | (key, value) :: entries => key.Kept ∧ value.Kept ∧ EntriesKept entries

end

end TagHighlight
