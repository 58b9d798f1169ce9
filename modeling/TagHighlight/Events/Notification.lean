/-
From a message to the handler of an event: `handle_nvim_message` and what it calls, of
`event_handlers.c`.

The functions take a message apart by index.  Some go through `mpack_index`, which compares
the index with the number of elements; most read `arr->lst` directly.  The array itself is
what `mpack_expect` gave out, and that need not be an array.  So an access has three ways to
go wrong here, and `Stop` keeps them apart from the faults of the rest of the program.

The message is freed at the end, and handlers that run in threads of their own are left
out; an `Outcome` says which one is started.
-/
import TagHighlight.Mpack.Expect
import TagHighlight.Events.LineEvent

namespace TagHighlight.Notification

/-- How the path ends, if it does not get to its end. -/
inductive Stop where
  /-- The process stops, or is undefined for a reason other than the next two. -/
  | fault (f : Fault)
  /-- An element is read at an index that is not below `qty`. -/
  | outOfRange (index qty : Nat)
  /-- An element is read of something that is not an array. -/
  | wild
  /-- `mpack_expect` does not return. -/
  | hang
  deriving DecidableEq

/-- What the bytes of a message do not determine. -/
structure Memory where
  /-- The member `num` of a `mpack_retval` that was not set as a number. -/
  word : Retval → UInt64
  /-- The union of an object read as its member `boolean`, if it holds something else. -/
  truthy : Obj → Bool
  /-- `decode_nil` sets the 16 bits of the member `nil`; the others are as they were. -/
  word_nil : word (.misread .nil) % 65536 = 0xC0

/-- `.num` of a result. -/
def Memory.num (mem : Memory) : Retval → UInt64
  | .null => 0
  | .num n => n
  | ret => mem.word ret

/-- `->boolean` of an object. -/
def Memory.boolean (mem : Memory) : Obj → Bool
  | .boolean b => b
  | obj => mem.truthy obj

/-! ### Elements -/

/-- `lst[index]`. -/
def element (lst : List Obj) (index : Nat) : Except Stop Obj :=
  match lst[index]? with
  | some obj => .ok obj
  | none => .error (.outOfRange index lst.length)

/-- `arr->lst[index]`, of a result taken for an array. -/
def elementOf (arr : Retval) (index : Nat) : Except Stop Obj :=
  match arr with
  | .arr lst => element lst index
  | .null => .error (.fault .undefined)
  | _ => .error .wild

/-- `mpack_index`. -/
def mpackIndex (obj : Obj) (index : Nat) : Except Stop (Option Obj) :=
  match obj with
  | .array lst => if lst.length ≥ index then return some (← element lst index) else return none
  | _ => return none

/-- A call of `mpack_expect`. -/
def expect (obj : Option Obj) (type : Expect) (alternatives : UInt32) : Except Stop Retval :=
  match mpackExpect obj type.flag alternatives with
  | none => .error .hang
  | some (.ok ret) => .ok ret
  | some (.error f) => .error (.fault f)

/-! ### Events -/

/-- `enum event_types`. -/
inductive EventType where
  | bufLines | bufChangedTick | bufDetach | vimUpdate
  deriving DecidableEq, Repr

/-- The names in `event_list`. -/
def EventType.name : EventType → BString
  | .bufLines => bt "nvim_buf_lines_event"
  | .bufChangedTick => bt "nvim_buf_changedtick_event"
  | .bufDetach => bt "nvim_buf_detach_event"
  | .vimUpdate => bt "vim_event_update"

/-- `event_list`. -/
def eventList : List EventType := [.bufLines, .bufChangedTick, .bufDetach, .vimUpdate]

/-- `id_event`, for an event that is an array. -/
def idEvent (event : List Obj) : Except Stop EventType := do
  match ← element event 1 with
  | .string typename =>
      match eventList.find? (·.name == typename) with
      | some id => .ok id
      | none => .error (.fault (.errx 1 "Failed to identify event type"))
  -- What is compared with the names is no string.
  | _ => .error (.fault .undefined)

/-! ### The handlers -/

/-- A `Buffer` with its tick. -/
structure Bufdata where
  buffer : Buffer
  ctick : UInt32

/-- The list of strings that `handle_line_event` goes on with. -/
def newStrings : Retval → Except Stop (BList BString)
  | .strlist strs => .ok (strs.map some)
  | _ => .error (.fault .undefined)

/-- A number converted to `int`. -/
def toInt (num : UInt64) : Int := num.toUInt32.toInt32.toInt

/-- `handle_line_event` from where it takes the lock. -/
def applyLineEvent (mem : Memory) (bdata : Bufdata) (arr : List Obj) : Except Stop Bufdata := do
  let first ← expect (some (← element arr 2)) .num 0
  let last ← expect (some (← element arr 3)) .num 0
  let strs ← newStrings (← expect (some (← element arr 4)) .strlist 0)
  let ev : LineEvent :=
    { first := toInt (mem.num first), last := toInt (mem.num last), newStrings := strs, more := false }
  match TagHighlight.handleLineEvent bdata.buffer ev with
  | .ok (buffer, _) => .ok { bdata with buffer := buffer }
  | .error f => .error (.fault f)

/-- `handle_line_event`. -/
def handleLineEvent (mem : Memory) (bdata : Bufdata) (arr : List Obj) : Except Stop Bufdata :=
  if arr.length < 5 then
    .error (.fault (.errx 1 ("Received an array from neovim that is too small. This " ++
      "shouldn't be possible.")))
  else do
    if mem.boolean (← element arr 5) then
      .error (.fault (.errx 1 ("Error: Continuation condition is unexpectedly true, " ++
        "cannot continue.")))
    else applyLineEvent mem bdata arr

/-- The tick after `handle_buffer_update` has looked at the element it is in. -/
def exchangeTick (ctick : UInt32) (newTick : UInt64) : UInt32 :=
  if newTick ≠ 0 then newTick.toUInt32 else ctick

/-- `handle_buffer_update`. -/
def handleBufferUpdate (mem : Memory) (bdata : Bufdata) (arr : Retval) (type : EventType) :
    Except Stop Bufdata := do
  let newTick ← expect (some (← elementOf arr 1)) .num Expect.mpackNil.flag
  let bdata := { bdata with ctick := exchangeTick bdata.ctick (mem.num newTick) }
  match type, arr with
  | .bufLines, .arr lst => handleLineEvent mem bdata lst
  | .bufLines, _ => .error .wild
  | _, _ => .ok bdata

/-- What a message led to. -/
inductive Outcome where
  | updated (bufnum : UInt32) (bdata : Bufdata)
  | detach (bufnum : UInt32)
  | autocmd (num : UInt64)
  | response

/-- `handle_nvim_notification` from the answer of `find_buffer` on. -/
def notify (mem : Memory) (arr : Retval) (type : EventType) (bufnum : UInt32) :
    Option Bufdata → Except Stop Outcome
  | none => .error (.fault (.errx 1 "Update called on uninitialized buffer."))
  | some bdata =>
      if type = .bufDetach then .ok (.detach bufnum)
      else do .ok (.updated bufnum (← handleBufferUpdate mem bdata arr type))

/-- `handle_nvim_notification` once the type is known; `find` is `find_buffer`. -/
def dispatch (mem : Memory) (find : UInt32 → Option Bufdata) (arr : Retval) (type : EventType) :
    Except Stop Outcome := do
  let num := mem.num (← expect (some (← elementOf arr 0)) .num 0)
  if type = .vimUpdate then .ok (.autocmd num)
  else notify mem arr type num.toUInt32 (find num.toUInt32)

/-- `handle_nvim_notification`, for an event that is an array. -/
def handleNvimNotification (mem : Memory) (find : UInt32 → Option Bufdata) (event : List Obj) :
    Except Stop Outcome := do
  let arr ← expect (← mpackIndex (.array event) 2) .mpackArray 0
  dispatch mem find arr (← idEvent event)

/-- `handle_nvim_message`, for a message that is an array. -/
def handleNvimMessage (mem : Memory) (find : UInt32 → Option Bufdata) (obj : List Obj) :
    Except Stop Outcome := do
  let mtype := (mem.num (← expect (← mpackIndex (.array obj) 0) .num 0)).toUInt32
  if mtype = 2 then handleNvimNotification mem find obj
  else if mtype = 1 then .ok .response
  else if mtype = 0 then
    .error (.fault (.errx 1 ("Recieved request in handle_nvim_message somehow. This should be " ++
      "\"impossible\"?\n")))
  else
    .error (.fault (.errx 1 ("Recieved invalid object type from neovim. " ++
      "This should be \"impossible\"?\n")))

/-! ### Safety -/

/-- No element was read that is not there. -/
def InRange {α : Type} (result : Except Stop α) : Prop :=
  ∀ stop, result = .error stop → stop ≠ .wild ∧ ∀ index qty, stop ≠ .outOfRange index qty

/-- As far as the message goes, it is a notification of this type. -/
structure Announces (mem : Memory) (event : List Obj) (type : EventType) : Prop where
  /-- The first element is `MES_NOTIFICATION`. -/
  mtype : ∀ obj, event[0]? = some obj →
    ∃ ret, expect (some obj) .num 0 = .ok ret ∧ (mem.num ret).toUInt32 = 2
  /-- The second element is the name. -/
  name : ∀ obj, event[1]? = some obj → obj = .string type.name

/-- The buffer that the first parameter names. -/
def target (mem : Memory) (find : UInt32 → Option Bufdata) (obj : Obj) : Option Bufdata :=
  match expect (some obj) .num 0 with
  | .ok ret => find (mem.num ret).toUInt32
  | .error _ => none

/--
The message has a third element, which is an array and not empty.  If the buffer it names is
known, the array has a second element, and it has not five elements in all if the event is
one about lines, unless its second element is a boolean, which `mpack_expect` hangs on.
-/
def WellSized (mem : Memory) (find : UInt32 → Option Bufdata) (event : List Obj)
    (type : EventType) : Prop :=
  ∃ params bufnum, event[2]? = some (.array params) ∧ params[0]? = some bufnum ∧
    ((target mem find bufnum).isSome →
      ∃ tick, params[1]? = some tick ∧
        (type = .bufLines → (∀ b, tick ≠ .boolean b) → params.length ≠ 5))

end TagHighlight.Notification
