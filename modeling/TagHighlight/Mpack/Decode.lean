/-
The decoder, `mpack/decode.c`, reading from a string (`obj_read`).

`do_decode` calls itself for the elements of arrays and dictionaries.  Here the depth of
that recursion is bounded by `fuel`.  Every level of nesting has read a byte of its own
before it goes on, so a message is never deeper than it is long, and `doDecode` starts
with fuel enough for any.
-/
import TagHighlight.Mpack.Types
import TagHighlight.Lib.Fault

namespace TagHighlight

open Bytes

/-- A decoding step: the bytes before, and those left unread. -/
abbrev Decoder (α : Type) := BString → Except Fault (α × BString)

/-- `obj_read`. -/
def objRead (nbytes : Nat) : Decoder BString := fun buf =>
  if buf.length < nbytes then
    .error (.errx 1 ("Buffer does not contain a complete msgpack object. Since this code " ++
      "is written terribly, this is fatal. (available: " ++ toString buf.length ++ ", need " ++
      toString nbytes ++ ")"))
  else .ok (buf.take nbytes, buf.drop nbytes)

/-- `READ (src, &ch, 1)`. -/
def readByte : Decoder UInt8 := fun buf => do
  let (bytes, buf) ← objRead 1 buf
  .ok (bytes.headD 0, buf)

/-- Read `width` bytes into an unsigned variable and swap them: `decode_int16` and so on. -/
def readSwapped (width : Nat) : Decoder Nat := fun buf => do
  let (bytes, buf) ← objRead width buf
  .ok (bswap width (ofLE bytes), buf)

/-- The mask describes the format byte `ch`. -/
def Mask.describes (mask : Mask) (ch : UInt8) : Bool :=
  if mask.fixed then ch >>> mask.shift == mask.val >>> mask.shift else ch == mask.val

/--
`id_pack_type`.  For a byte the table does not have, the C function returns what `mask`
was initialised with, the talloc context of the decoder, which the callers then read as a
mask.  Its own error message is behind a test for NULL, and `main` has set the context.
-/
def idPackType (ch : UInt8) : Except Fault Mask :=
  match mMasks.find? (·.describes ch) with
  | some mask => .ok mask
  | none => .error .undefined

/-- `ERRMSG ()`, without the line number. -/
def errmsg (mask : Mask) (func : String) : Fault :=
  .errx 1 ("Default (" ++ mask.repr ++ ") reached in function " ++ func)

/-- The low bits of a fixed format byte, `ch ^ mask->val`. -/
def Mask.low (mask : Mask) (ch : UInt8) : Nat := (ch ^^^ mask.val).toNat

/-- The size in the header of an array. -/
def arraySize (ch : UInt8) (mask : Mask) : Decoder Nat := fun buf =>
  if mask.fixed then .ok (mask.low ch, buf)
  else match mask.type with
    | .array16 => readSwapped 2 buf
    | .array32 => readSwapped 4 buf
    | _ => .error (errmsg mask "decode_array")

/-- The size in the header of a dictionary. -/
def dictionarySize (ch : UInt8) (mask : Mask) : Decoder Nat := fun buf =>
  if mask.fixed then .ok (mask.low ch, buf)
  else match mask.type with
    | .map16 => readSwapped 2 buf
    | .map32 => readSwapped 4 buf
    | _ => .error (errmsg mask "decode_dictionary")

/-- The size in the header of a string. -/
def stringSize (ch : UInt8) (mask : Mask) : Decoder Nat := fun buf =>
  if mask.fixed then .ok (mask.low ch, buf)
  else match mask.type with
    | .str8 => do
        let (b, buf) ← readByte buf
        .ok (b.toNat, buf)
    | .str16 => readSwapped 2 buf
    | .str32 => readSwapped 4 buf
    | _ => .error (errmsg mask "decode_string")

def decodeString (ch : UInt8) (mask : Mask) : Decoder Obj := fun buf => do
  let (size, buf) ← stringSize ch mask buf
  -- `size + 1` is unsigned: the largest size is allocated as none at all.
  if (size + 1) % 2 ^ 32 = 0 then .error .undefined
  let (bytes, buf) ← objRead size buf
  .ok (.string bytes, buf)

/-- The value `decode_integer` reads: the bits above the ones read are set. -/
def integerValue (ch : UInt8) (mask : Mask) : Decoder Nat := fun buf =>
  if mask.fixed then .ok (mask.low ch ||| 0xFFFFFFFFFFFFFFE0, buf)
  else match mask.type with
    | .int8 => do
        let (_, buf) ← readByte buf
        .ok (0 ||| 0xFFFFFFFFFFFFFF00, buf)
    | .int16 => do
        let (tmp, buf) ← readSwapped 2 buf
        .ok (tmp ||| 0xFFFFFFFFFFFF0000, buf)
    | .int32 => do
        let (tmp, buf) ← readSwapped 4 buf
        .ok (tmp ||| 0xFFFFFFFF00000000, buf)
    | .int64 => readSwapped 8 buf
    | _ => .error (errmsg mask "decode_integer")

def decodeInteger (ch : UInt8) (mask : Mask) : Decoder Obj := fun buf => do
  let (value, buf) ← integerValue ch mask buf
  .ok (.signed (UInt64.ofNat value), buf)

/-- The value `decode_unsigned` reads. -/
def unsignedValue (ch : UInt8) (mask : Mask) : Decoder Nat := fun buf =>
  if mask.fixed then .ok (mask.low ch, buf)
  else match mask.type with
    | .uint8 => do
        let (b, buf) ← readByte buf
        .ok (b.toNat, buf)
    | .uint16 => readSwapped 2 buf
    | .uint32 => readSwapped 4 buf
    | .uint64 => readSwapped 8 buf
    | _ => .error (errmsg mask "decode_unsigned")

def decodeUnsigned (ch : UInt8) (mask : Mask) : Decoder Obj := fun buf => do
  let (value, buf) ← unsignedValue ch mask buf
  .ok (.unsigned (UInt64.ofNat value), buf)

/-- An extension object of `len` payload bytes, its type before them. -/
def readExt (len : Nat) : Decoder Obj := fun buf => do
  let (type, buf) ← readByte buf
  let (payload, buf) ← objRead len buf
  .ok (.ext { type := type, len := UInt8.ofNat len, payload := payload }, buf)

def decodeExt (mask : Mask) : Decoder Obj := fun buf =>
  match mask.type with
  | .fixext1 => readExt 1 buf
  | .fixext2 => readExt 2 buf
  | .fixext4 => readExt 4 buf
  | .fixext8 => readExt 8 buf
  | .ext8 => do
      let (len, buf) ← readByte buf
      let (type, buf) ← readByte buf
      if len > 8 then
        .error (.errx 1 ("Got an msgpack ext object with a specified length greater than 8 " ++
          "bytes (" ++ toString len.toNat ++ "). Type: (" ++ toString (type.toInt8.toInt % 4294967296) ++ ")."))
      let (payload, buf) ← objRead len.toNat buf
      .ok (.ext { type := type, len := len, payload := payload }, buf)
  | _ => .error (errmsg mask "decode_ext")

def decodeBool (mask : Mask) : Except Fault Obj :=
  match mask.type with
  | .bTrue => .ok (.boolean true)
  | .bFalse => .ok (.boolean false)
  | _ => .error (errmsg mask "decode_bool")

/-- `count` objects, one after the other. -/
def decodeItems (decode : Decoder Obj) : (count : Nat) → Decoder (List Obj)
  | 0, buf => .ok ([], buf)
  | count + 1, buf => do
      let (item, buf) ← decode buf
      let (items, buf) ← decodeItems decode count buf
      .ok (item :: items, buf)

/-- `count` keys and values. -/
def decodeEntries (decode : Decoder Obj) : (count : Nat) → Decoder (List (Obj × Obj))
  | 0, buf => .ok ([], buf)
  | count + 1, buf => do
      let (key, buf) ← decode buf
      let (value, buf) ← decode buf
      let (entries, buf) ← decodeEntries decode count buf
      .ok ((key, value) :: entries, buf)

/-- The `switch` of `do_decode`, with the function that decodes what is nested inside. -/
def decodeGroup (decode : Decoder Obj) (ch : UInt8) (mask : Mask) : Decoder Obj := fun buf =>
  match mask.group with
  | .nil => .ok (.nil, buf)
  | .bool => do .ok (← decodeBool mask, buf)
  | .array => do
      let (size, buf) ← arraySize ch mask buf
      let (lst, buf) ← decodeItems decode size buf
      .ok (.array lst, buf)
  | .map => do
      let (size, buf) ← dictionarySize ch mask buf
      let (lst, buf) ← decodeEntries decode size buf
      .ok (.dict lst, buf)
  | .string => decodeString ch mask buf
  | .ext => decodeExt mask buf
  | .nlint => decodeInteger ch mask buf
  | .int => decodeInteger ch mask buf
  | .plint => decodeUnsigned ch mask buf
  | .uint => decodeUnsigned ch mask buf
  | .bin => .error (.errx 2 "ERROR: Bin format is not implemented.")

/-- `do_decode`, nested at most `fuel` deep. -/
def decodeFuel : (fuel : Nat) → Decoder Obj
  | 0, _ => .error .undefined
  | fuel + 1, buf => do
      let (ch, buf) ← readByte buf
      decodeGroup (decodeFuel fuel) ch (← idPackType ch) buf

/-- `do_decode` on a string. -/
def doDecode : Decoder Obj := fun buf => decodeFuel (buf.length + 1) buf

/-- The first object is the second one or stands somewhere in it. -/
inductive Obj.Part : Obj → Obj → Prop where
  | self (obj : Obj) : Part obj obj
  | item {part obj : Obj} {lst : List Obj} (mem : obj ∈ lst) (h : Part part obj) :
      Part part (.array lst)
  | key {part key value : Obj} {lst : List (Obj × Obj)} (mem : (key, value) ∈ lst)
      (h : Part part key) : Part part (.dict lst)
  | value {part key value : Obj} {lst : List (Obj × Obj)} (mem : (key, value) ∈ lst)
      (h : Part part value) : Part part (.dict lst)

/-- The object came out of a message, as a whole or as a part. -/
def Decoded (obj : Obj) : Prop := ∃ buf top rest, doDecode buf = .ok (top, rest) ∧ obj.Part top

end TagHighlight
