/-
MessagePack objects and the table of format bytes, from `mpack/mpack.h`,
`mpack/intern.h` and `mpack/data.c`.

An `mpack_obj` is a type tag and a union; `Obj` has one constructor for each tag.  Signed
and unsigned numbers share the union's `num`, a 64-bit pattern.  The flags that say how an
object is stored are left out, nothing reads them here.
-/
import TagHighlight.Util.BString
import TagHighlight.Lib.Bytes

namespace TagHighlight

/-- `mpack_ext`: the payload is read as an integer of `len` bytes in host order. -/
structure Ext where
  type : UInt8
  len : UInt8
  payload : List UInt8
  deriving DecidableEq, Repr

/-- The union `u64` of an extension object, which was zeroed before it was read. -/
def Ext.u64 (e : Ext) : Nat := Bytes.ofLE e.payload

/-- A decoded object. -/
inductive Obj where
  | nil
  | boolean (b : Bool)
  | signed (num : UInt64)
  | unsigned (num : UInt64)
  | ext (e : Ext)
  | string (str : BString)
  | array (lst : List Obj)
  | dict (lst : List (Obj × Obj))

/-- The field `num` of a number object. -/
def Obj.num? : Obj → Option UInt64
  | .signed num => some num
  | .unsigned num => some num
  | _ => none

/-- `enum m_groups`. -/
inductive Group where
  | nil | bool | array | map | string | bin | int | uint | plint | nlint | ext
  deriving DecidableEq, Repr

/-- `enum m_types`, as far as the table of masks has them. -/
inductive PackType where
  | nil | bTrue | bFalse | str8 | str16 | str32 | array16 | array32 | map16 | map32
  | bin8 | bin16 | bin32 | int8 | int16 | int32 | int64 | uint8 | uint16 | uint32 | uint64
  | ext8 | fixext1 | fixext2 | fixext4 | fixext8 | fixstr | arrayF | fixmap | posInt | negInt
  deriving DecidableEq, Repr

/-- `mpack_mask`: a format byte, or the bits above `shift` of one. -/
structure Mask where
  group : Group
  type : PackType
  fixed : Bool
  val : UInt8
  shift : UInt8
  repr : String
  deriving DecidableEq, Repr

/-- `m_masks`. -/
def mMasks : List Mask :=
  [ { group := .nil,    type := .nil,     fixed := false, val := 0xC0, shift := 0, repr := "M_NIL" },
    { group := .bool,   type := .bTrue,   fixed := false, val := 0xC3, shift := 0, repr := "M_TRUE" },
    { group := .bool,   type := .bFalse,  fixed := false, val := 0xC2, shift := 0, repr := "M_FALSE" },
    { group := .string, type := .str8,    fixed := false, val := 0xD9, shift := 0, repr := "M_STR_8" },
    { group := .string, type := .str16,   fixed := false, val := 0xDA, shift := 0, repr := "M_STR_16" },
    { group := .string, type := .str32,   fixed := false, val := 0xDB, shift := 0, repr := "M_STR_32" },
    { group := .array,  type := .array16, fixed := false, val := 0xDC, shift := 0, repr := "M_ARRAY_16" },
    { group := .array,  type := .array32, fixed := false, val := 0xDD, shift := 0, repr := "M_ARRAY_32" },
    { group := .map,    type := .map16,   fixed := false, val := 0xDE, shift := 0, repr := "M_MAP_16" },
    { group := .map,    type := .map32,   fixed := false, val := 0xDF, shift := 0, repr := "M_MAP_32" },
    { group := .bin,    type := .bin8,    fixed := false, val := 0xC4, shift := 0, repr := "M_BIN_8" },
    { group := .bin,    type := .bin16,   fixed := false, val := 0xC5, shift := 0, repr := "M_BIN_16" },
    { group := .bin,    type := .bin32,   fixed := false, val := 0xC6, shift := 0, repr := "M_BIN_32" },
    { group := .int,    type := .int8,    fixed := false, val := 0xD0, shift := 0, repr := "M_INT_8" },
    { group := .int,    type := .int16,   fixed := false, val := 0xD1, shift := 0, repr := "M_INT_16" },
    { group := .int,    type := .int32,   fixed := false, val := 0xD2, shift := 0, repr := "M_INT_32" },
    { group := .int,    type := .int64,   fixed := false, val := 0xD3, shift := 0, repr := "M_INT_64" },
    { group := .uint,   type := .uint8,   fixed := false, val := 0xCC, shift := 0, repr := "M_UINT_8" },
    { group := .uint,   type := .uint16,  fixed := false, val := 0xCD, shift := 0, repr := "M_UINT_16" },
    { group := .uint,   type := .uint32,  fixed := false, val := 0xCE, shift := 0, repr := "M_UINT_32" },
    { group := .uint,   type := .uint64,  fixed := false, val := 0xCF, shift := 0, repr := "M_UINT_64" },
    { group := .ext,    type := .ext8,    fixed := false, val := 0xC7, shift := 0, repr := "M_EXT_8" },
    { group := .ext,    type := .fixext1, fixed := false, val := 0xD4, shift := 0, repr := "M_FIXEXT_1" },
    { group := .ext,    type := .fixext2, fixed := false, val := 0xD5, shift := 0, repr := "M_FIXEXT_2" },
    { group := .ext,    type := .fixext4, fixed := false, val := 0xD6, shift := 0, repr := "M_FIXEXT_4" },
    { group := .ext,    type := .fixext8, fixed := false, val := 0xD7, shift := 0, repr := "M_FIXEXT_8" },
    { group := .string, type := .fixstr,  fixed := true,  val := 0xA0, shift := 5, repr := "M_FIXSTR_F" },
    { group := .array,  type := .arrayF,  fixed := true,  val := 0x90, shift := 4, repr := "M_ARRAY_F" },
    { group := .map,    type := .fixmap,  fixed := true,  val := 0x80, shift := 4, repr := "M_FIXMAP_F" },
    { group := .plint,  type := .posInt,  fixed := true,  val := 0x00, shift := 7, repr := "M_POS_INT_F" },
    { group := .nlint,  type := .negInt,  fixed := true,  val := 0xE0, shift := 5, repr := "M_NEG_INT_F" } ]

end TagHighlight
