/-
`mpack_expect` of `mpack/mpack.c`: what a caller gets out of an object.

The caller says what it expects by a flag, and by more flags what else would do.  The type
of an object is not a flag but a number from one to eight.  When the first try fails the
function tries again with that number in place of the flag, and reads the bits of the
number as if they were flags.

A payload is read through a member of the object's union.  What comes out of a member that
is not the one that was set is kept apart here, as `misread`: it is a pointer to nothing
of the kind.  The flag `destroy` and the freeing of objects are left out.
-/
import TagHighlight.Mpack.Decode

namespace TagHighlight

open Bytes

/-! ### Types and flags -/

/-- `mpack_type`, a number of `enum mpack_types`. -/
def Obj.mpackType : Obj → UInt32
  | .boolean _ => 1
  | .nil => 2
  | .signed _ => 3
  | .unsigned _ => 4
  | .ext _ => 5
  | .string _ => 6
  | .array _ => 7
  | .dict _ => 8

/-- The flags of `enum mpack_expect_t`. -/
inductive Expect where
  | mpackExt | mpackArray | mpackDict | mpackNil | bool | num | string | strlist | dict2arr
  | wstring
  deriving DecidableEq, Repr

def Expect.flag : Expect → UInt32
  | .mpackExt => 0x0001
  | .mpackArray => 0x0002
  | .mpackDict => 0x0004
  | .mpackNil => 0x0008
  | .bool => 0x0010
  | .num => 0x0020
  | .string => 0x0040
  | .strlist => 0x0080
  | .dict2arr => 0x0100
  | .wstring => 0x0200

/-- The order in which `mpack_expect` looks at the flags. -/
def expectOrder : List Expect :=
  [.mpackArray, .mpackDict, .mpackExt, .bool, .num, .string, .wstring, .strlist, .dict2arr, .mpackNil]

/-! ### Payloads -/

/-- `mpack_retval`. -/
inductive Retval where
  | null
  | num (n : UInt64)
  | arr (lst : List Obj)
  | dict (lst : List (Obj × Obj))
  | ext (e : Ext)
  | str (str : BString)
  | wstr (str : BString)
  | strlist (strs : List BString)
  /-- What the union of `obj` holds, read through a member of another type. -/
  | misread (obj : Obj)

/--
`attempt_to_interpret_ext`.  A length above eight gets to `handle_invalid_ext_length`, which
has no case for it.
-/
def attemptToInterpretExt (obj : Ext) : Except Fault UInt64 :=
  let u8 := obj.u64 % 2 ^ 8
  let u16 := obj.u64 % 2 ^ 16
  let u32 := obj.u64 % 2 ^ 32
  match obj.len.toNat with
  | 0 => .ok (UInt64.ofNat obj.u64)
  | 1 => .ok (UInt64.ofNat u8)
  | 2 => .ok (UInt64.ofNat (bswap 2 u16 &&& 0x00FF))
  | 3 => .ok (UInt64.ofNat (bswap 2 (u32 >>> 8)))
  | 4 => .ok (UInt64.ofNat (bswap 4 (u32 &&& 0xFFFFFF00)))
  | 5 => .ok (UInt64.ofNat (bswap 8 (obj.u64 &&& 0xFFFFFFFF00000000)))
  | 6 => .ok (UInt64.ofNat (bswap 8 (obj.u64 &&& 0xFFFFFFFFFF000000)))
  | 7 => .ok (UInt64.ofNat (bswap 8 (obj.u64 &&& 0xFFFFFFFFFFFF0000)))
  | 8 => .ok (UInt64.ofNat (bswap 8 (obj.u64 &&& 0xFFFFFFFFFFFFFF00)))
  | _ => .error .abort

/-- The member `str` of a string. -/
def Obj.str? : Obj → Option BString
  | .string str => some str
  | _ => none

/-- `mpack_array_to_blist`: it takes every element for a string. -/
def mpackArrayToBlist (lst : List Obj) : Retval :=
  match lst.mapM Obj.str? with
  | some strs => .strlist strs
  | none => .misread (.array lst)

/-! ### The function -/

/-- The branch of `mpack_expect` for one flag; `none` where it goes to `error`. -/
def Expect.branch : Expect → Obj → Option (Except Fault Retval)
  -- There is no test of the type here.
  | .mpackArray, .array lst => some (.ok (.arr lst))
  | .mpackArray, obj => some (.ok (.misread obj))
  | .mpackDict, .dict lst => some (.ok (.dict lst))
  | .mpackExt, .ext e => some (.ok (.ext e))
  | .bool, .boolean b => some (.ok (.num (if b then 1 else 0)))
  | .bool, .signed n => some (.ok (.num n))
  | .bool, .unsigned n => some (.ok (.num n))
  | .num, .signed n => some (.ok (.num n))
  | .num, .unsigned n => some (.ok (.num n))
  | .num, .ext e => some (do .ok (.num (← attemptToInterpretExt e)))
  | .string, .string str => some (.ok (.str str))
  | .wstring, .string str => some (.ok (.wstr str))
  | .strlist, .array lst => some (.ok (mpackArrayToBlist lst))
  | .dict2arr, _ => some (.error .abort)
  | .mpackNil, .nil => some (.ok .null)
  | _, _ => none

/--
From `retry` on, for `fuel` rounds: `none` if the function is still trying after that.
Every branch takes its own flag out of the alternatives.
-/
def expectLoop (obj : Obj) : (fuel : Nat) → (type alternatives : UInt32) →
    Option (Except Fault Retval)
  | 0, _, _ => none
  | fuel + 1, type, alternatives =>
      match expectOrder.find? fun e => type &&& e.flag != 0 with
      | none => some (.error (.errx 1 "Invalid type given to mpack_expect()\n"))
      | some e =>
          match e.branch obj with
          | some ret => some ret
          | none =>
              let alternatives := alternatives &&& ~~~e.flag
              if alternatives ≠ 0 then expectLoop obj fuel obj.mpackType alternatives
              else some (.ok .null)

/--
`mpack_expect`.  A second round that fails is followed by one just like it, so `none` stands
for a call that never returns.
-/
def mpackExpect (obj : Option Obj) (type alternatives : UInt32) : Option (Except Fault Retval) :=
  match obj with
  | none => some (.ok .null)
  | some obj => expectLoop obj 2 type alternatives

/-! ### What a caller relies on -/

/-- Objects that meet an expectation. -/
def Expect.accepts : Expect → Obj → Bool
  | .mpackArray, .array _ => true
  | .mpackDict, .dict _ => true
  | .mpackExt, .ext _ => true
  | .mpackNil, .nil => true
  | .bool, .boolean _ => true
  | .bool, .signed _ => true
  | .bool, .unsigned _ => true
  | .num, .signed _ => true
  | .num, .unsigned _ => true
  | .num, .ext _ => true
  | .string, .string _ => true
  | .wstring, .string _ => true
  | .strlist, .array _ => true
  | _, _ => false

/-- The object's own payload, in the form in which it is expected. -/
def Expect.payload : Expect → Obj → Option Retval
  | .mpackArray, .array lst => some (.arr lst)
  | .mpackDict, .dict lst => some (.dict lst)
  | .mpackExt, .ext e => some (.ext e)
  | .mpackNil, .nil => some .null
  | .bool, .boolean b => some (.num (if b then 1 else 0))
  | .bool, .signed n => some (.num n)
  | .bool, .unsigned n => some (.num n)
  | .num, .signed n => some (.num n)
  | .num, .unsigned n => some (.num n)
  | .num, .ext e => (attemptToInterpretExt e).toOption.map .num
  | .string, .string str => some (.str str)
  | .wstring, .string str => some (.wstr str)
  | .strlist, .array lst => (lst.mapM Obj.str?).map .strlist
  | _, _ => none

/-- The expected type and the alternatives. -/
def Expected (type : Expect) (alternatives : UInt32) (e : Expect) : Prop :=
  e = type ∨ alternatives &&& e.flag ≠ 0

/-- The payload of an object that meets an expectation, and NULL for any other. -/
def Delivered (type : Expect) (alternatives : UInt32) (obj : Obj) (ret : Retval) : Prop :=
  (∃ e, Expected type alternatives e ∧ e.accepts obj ∧ e.payload obj = some ret) ∨
    ((∀ e, Expected type alternatives e → ¬ e.accepts obj) ∧ ret = .null)

/-- No alternative but these flags. -/
def OnlyAlternatives (alternatives flags : UInt32) : Prop := alternatives &&& ~~~flags = 0

instance (alternatives flags : UInt32) : Decidable (OnlyAlternatives alternatives flags) :=
  inferInstanceAs (Decidable (_ = _))

/-- The flag that the second try takes the type of the object for. -/
def Obj.retry : Obj → Expect
  | .boolean _ => .mpackExt
  | .nil => .mpackArray
  | .signed _ => .mpackArray
  | .unsigned _ => .mpackDict
  | .ext _ => .mpackDict
  | .string _ => .mpackArray
  | .array _ => .mpackArray
  | .dict _ => .mpackNil

/-- Every element of an array is a string. -/
def Obj.AllStrings : Obj → Prop
  | .array lst => ∀ obj ∈ lst, obj.str?.isSome
  | _ => True

/--
The expectation is met at the first try; or it is not, and there is no second try; or that
does no harm: a number that is no flag of the alternatives is left, or the object is an
array and one is among them.
-/
def ExpectOk (type : Expect) (alternatives : UInt32) (obj : Obj) : Prop :=
  (type.accepts obj ∧ (type = .strlist → obj.AllStrings)) ∨
  (¬ type.accepts obj ∧ type ≠ .mpackArray ∧ (OnlyAlternatives alternatives type.flag ∨
    (obj.retry ≠ .mpackArray ∧ OnlyAlternatives alternatives (type.flag ||| obj.retry.flag)) ∨
    (Expect.mpackArray.accepts obj ∧ alternatives &&& Expect.mpackArray.flag ≠ 0)))

end TagHighlight
