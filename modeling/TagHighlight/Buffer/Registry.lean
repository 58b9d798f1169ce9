/-
The registry of buffers: `new_buffer`, `find_buffer` and `destroy_buffer` of `buffer.c`.

`buffer_list` holds one `buffer_node` for each buffer number that was ever opened.  A
node outlives its `Buffer`: closing a buffer frees the `Buffer` and leaves the node,
marked as not open, for the next time.

Nodes and `Buffer`s lie in memory that can be freed, so an entry of the list is an
address and may dangle; reading through one that does is a fault.  Addresses are not
handed out twice.  `new_buffer` asks Neovim for the file type in the middle of its work
and is cut there into two halves, for a model in which other threads run meanwhile.
-/
import TagHighlight.Lib.Fault
import TagHighlight.Lib.TransitionSystem
import TagHighlight.Util.BString
import Mathlib.Logic.Function.Basic

namespace TagHighlight

/-- The file types known to the program, and the ones the user wants left alone. -/
structure Filetypes where
  /-- The `vim_name` of each entry of `ftdata`. -/
  ftdata : List BString
  /-- `settings.ignored_ftypes`. -/
  ignoredFtypes : List BString

/-- A `buffer_node`, the address of its `Buffer` in `bdata`. -/
structure BufferNode where
  num : Nat
  isopen : Bool
  bdata : Option Nat
  deriving DecidableEq

/-- The part of a `struct bufdata` that says which buffer it is for. -/
structure Bufdata where
  num : Nat
  /-- `ft->vim_name`. -/
  ft : BString
  initialized : Bool
  deriving DecidableEq

structure Registry where
  nodes : Nat → Option BufferNode
  buffers : Nat → Option Bufdata
  /-- The `data` of the nodes of `buffer_list`. -/
  bufferList : List Nat
  /-- The address of the next allocation. -/
  fresh : Nat

namespace Registry

def empty : Registry :=
  { nodes := fun _ => none, buffers := fun _ => none, bufferList := [], fresh := 0 }

/-- `*bnode`. -/
def node (r : Registry) (a : Nat) : Except Fault BufferNode :=
  match r.nodes a with
  | none => .error .undefined
  | some bnode => .ok bnode

/-- `*bdata`. -/
def buffer (r : Registry) (p : Nat) : Except Fault Bufdata :=
  match r.buffers p with
  | none => .error .undefined
  | some bdata => .ok bdata

def setNode (r : Registry) (a : Nat) (bnode : BufferNode) : Registry :=
  { r with nodes := Function.update r.nodes a (some bnode) }

def setBuffer (r : Registry) (p : Nat) (bdata : Bufdata) : Registry :=
  { r with buffers := Function.update r.buffers p (some bdata) }

/-- `talloc_free (bdata)`, its destructor taken off. -/
def freeBuffer (r : Registry) (p : Nat) : Registry :=
  { r with buffers := Function.update r.buffers p none }

/-- The loop of `find_buffer_node`. -/
def findIn (r : Registry) (bufnum : Nat) : List Nat → Except Fault (Option Nat)
  | [] => .ok none
  | a :: rest => do
      let bnode ← r.node a
      if bnode.num = bufnum then .ok (some a) else findIn r bufnum rest

def findBufferNode (r : Registry) (bufnum : Nat) : Except Fault (Option Nat) :=
  r.findIn bufnum r.bufferList

def findBuffer (r : Registry) (bufnum : Nat) : Except Fault (Option Nat) := do
  match ← r.findBufferNode bufnum with
  | none => .ok none
  | some a =>
      let bnode ← r.node a
      .ok (if bnode.isopen then bnode.bdata else none)

def haveSeenBufnum (r : Registry) (bufnum : Nat) : Except Fault Bool :=
  return (← r.findBufferNode bufnum).isSome

/-! ### Opening a buffer -/

def newBufferNode (r : Registry) (bufnum : Nat) : Registry × Nat :=
  ({ r.setNode r.fresh { num := bufnum, isopen := false, bdata := none } with
      fresh := r.fresh + 1 }, r.fresh)

/-- The node `new_buffer` goes on with. -/
def nodeFor (r : Registry) (bufnum : Nat) : Except Fault (Registry × Nat) := do
  match ← r.findBufferNode bufnum with
  | none => .ok (r.newBufferNode bufnum)
  | some a => .ok (r, a)

/-- `make_new_buffer` up to the request for the file type, which an open node never gets to. -/
def startOpening (r : Registry) (a : Nat) : Except Fault (Registry × Bool) := do
  let bnode ← r.node a
  if bnode.isopen then
    .ok (r, false)
  else
    .ok (r.setNode a { bnode with isopen := true }, true)

end Registry

/-- `should_skip_buffer`. -/
def Filetypes.shouldSkipBuffer (fts : Filetypes) (ft : BString) : Bool :=
  fts.ignoredFtypes.contains ft

/-- The entry of `ftdata` that the reported name picks, if the buffer is wanted at all. -/
def Filetypes.wanted (fts : Filetypes) (ftname : Option BString) : Option BString :=
  match ftname with
  | none => none
  | some ftname =>
      if ftname.length = 0 then none
      else
        match fts.ftdata.find? (· == ftname) with
        | none => none
        | some ft => if fts.shouldSkipBuffer ftname then none else some ft

namespace Registry

variable (fts : Filetypes)

/-- The rest of `make_new_buffer`, `ftname` being Neovim's answer. -/
def finishOpening (r : Registry) (a : Nat) (ftname : Option BString) :
    Except Fault (Registry × Option Nat) := do
  let bnode ← r.node a
  match fts.wanted ftname with
  | none => .ok (r, none)
  | some ft =>
      let ret := r.fresh
      let r := { r.setBuffer ret { num := bnode.num, ft := ft, initialized := false } with
                  fresh := r.fresh + 1 }
      .ok (r.setNode a { bnode with bdata := some ret }, some ret)

/--
`talloc_free (bnode)`.  The destructor `destroy_buffer_node` first destroys the `Buffer`,
if there is one.
-/
def freeNode (r : Registry) (a : Nat) : Except Fault Registry := do
  let bnode ← r.node a
  let r ← match bnode.bdata with
    | none => .ok r
    | some p => do
        let _ ← r.buffer p
        .ok (r.freeBuffer p)
  .ok { r with nodes := Function.update r.nodes a none }

/-- What `new_buffer` does with the result of `make_new_buffer`. -/
def settle (r : Registry) (a : Nat) (ret : Option Nat) : Except Fault Registry :=
  match ret with
  | some _ => .ok { r with bufferList := r.bufferList ++ [a] }
  | none => r.freeNode a

/-- `new_buffer`, where Neovim reports the file type `ftname`. -/
def newBuffer (r : Registry) (bufnum : Nat) (ftname : Option BString) :
    Except Fault (Registry × Option Nat) := do
  let (r, a) ← r.nodeFor bufnum
  let (r, opening) ← r.startOpening a
  let (r, ret) ← if opening then r.finishOpening fts a ftname else .ok (r, none)
  .ok (← r.settle a ret, ret)

/-! ### Closing a buffer -/

/-- What `DES_BUF_DESTROY_NODE` adds to `destroy_buffer`: the node forgets the `Buffer`. -/
def closeNode (r : Registry) (p : Nat) : Except Fault Registry := do
  let bdata ← r.buffer p
  match ← r.findBufferNode bdata.num with
  | none => .error (.assertion "bnode != NULL")
  | some a =>
      let bnode ← r.node a
      .ok (r.setNode a { bnode with isopen := false, bdata := none })

/-- `destroy_buffer (bdata, DES_BUF_DESTROY_NODE | DES_BUF_TALLOC_FREE)`. -/
def destroyBuffer (r : Registry) (p : Nat) : Except Fault Registry := do
  let r ← r.closeNode p
  let _ ← r.buffer p
  .ok (r.freeBuffer p)

end Registry

/-! ### Sequences of calls -/

inductive RegistryOp where
  | newBuffer (bufnum : Nat) (ftname : Option BString)
  | findBuffer (bufnum : Nat)
  /-- `destroy_buffer` of what `find_buffer` gives, if it gives anything. -/
  | destroyBuffer (bufnum : Nat)

/-- The call, and the `Buffer` it returned or destroyed. -/
def Registry.call (fts : Filetypes) (r : Registry) :
    RegistryOp → Except Fault (Registry × Option Nat)
  | .newBuffer bufnum ftname => r.newBuffer fts bufnum ftname
  | .findBuffer bufnum => do .ok (r, ← r.findBuffer bufnum)
  | .destroyBuffer bufnum => do
      match ← r.findBuffer bufnum with
      | none => .ok (r, none)
      | some p => .ok (← r.destroyBuffer p, some p)

/-- The calls made so far, the latest first, each with its result. -/
abbrev RegistryHistory := List (RegistryOp × Option Nat)

/-- The `Buffer` of the last successful `new_buffer`, unless it was destroyed since. -/
def RegistryHistory.standing (bufnum : Nat) : RegistryHistory → Option Nat
  | [] => none
  | (.newBuffer n _, some p) :: rest => if n = bufnum then some p else standing bufnum rest
  | (.destroyBuffer n, some _) :: rest => if n = bufnum then none else standing bufnum rest
  | _ :: rest => standing bufnum rest

/-- The calls, one after the other, from the start of the program. -/
def registrySystem (fts : Filetypes) :
    TransitionSystem (Registry × RegistryHistory) RegistryOp where
  init := (Registry.empty, [])
  step := fun (r, history) op =>
    match r.call fts op with
    | .error _ => none
    | .ok (r, ret) => some (r, (op, ret) :: history)

end TagHighlight
