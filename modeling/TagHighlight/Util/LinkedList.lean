/-
The doubly linked list of `util/linked_list.c`.

A list is modelled together with the memory its nodes live in.  `talloc` hands out
the address `brk` and moves it on, so an address is never handed out twice and a
pointer to a freed node stays recognisable.  A pointer is an `Option Nat`, `none`
being NULL; following NULL or a freed node is `Fault.undefined`.  The fields the C
functions assign to a node they have just allocated are written in one go.  `qty`
is a C `int`, here an unbounded `Int`: the list never comes near 2^31 nodes.

The functions below keep the C code's case distinctions, also the ones that look
redundant.  What the operations do to the sequence a list stands for is proved in
`Proofs/Util`.
-/
import TagHighlight.Lib.Segment

namespace TagHighlight

open DList

/-- `linked_list`, with the memory of its nodes. -/
structure LinkedList (α : Type) where
  head : Option Nat
  tail : Option Nat
  qty : Int
  mem : Mem α
  brk : Nat

/-- A `b_list` as the list functions use it: entries that have been moved out are NULL. -/
abbrev BList (α : Type) := List (Option α)

variable {α : Type}

/-- `talloc_move (ctx, &blist->lst[i])`: the entry is taken and its slot set to NULL. -/
def BList.move (blist : BList α) (i : Nat) : Except Fault (α × BList α) :=
  match blist[i]? with
  | none => .error .undefined
  | some none => .error .undefined
  | some (some data) => .ok (data, blist.set i none)

/-- `blist->lst[i]` without moving the entry out. -/
def BList.get (blist : BList α) (i : Nat) : Except Fault α :=
  match blist[i]? with
  | none => .error .undefined
  | some none => .error .undefined
  | some (some data) => .ok data

/-- `ll_make_new`. -/
def llMakeNew : LinkedList α :=
  { head := none, tail := none, qty := 0, mem := fun _ => none, brk := 0 }

/-- `resolve_negative_index`. -/
def resolveNegativeIndex (index base : Int) : Int :=
  if index ≥ 0 then index else index + base + 1

def llPrepend (l : LinkedList α) (data : α) : Except Fault (LinkedList α) := do
  let node := l.brk
  let mem := l.mem.store node { data := data, prev := none, next := l.head }
  let mem ← mem.writePrev? l.head (some node)
  .ok { head := some node
        tail := if l.tail.isNone then some node else l.tail
        qty := l.qty + 1, mem := mem, brk := node + 1 }

def llAppend (l : LinkedList α) (data : α) : Except Fault (LinkedList α) := do
  let node := l.brk
  let mem := l.mem.store node { data := data, prev := l.tail, next := none }
  let mem ← mem.writeNext? l.tail (some node)
  .ok { head := if l.head.isNone then some node else l.head
        tail := some node
        qty := l.qty + 1, mem := mem, brk := node + 1 }

def llInsertAfter (l : LinkedList α) (atNode : Option Nat) (data : α) :
    Except Fault (LinkedList α) := do
  let node := l.brk
  let next ← l.mem.nextOf atNode
  let mem := l.mem.store node { data := data, prev := atNode, next := next }
  let mem ← mem.writeNext? atNode (some node)
  let mem ← mem.writePrev? next (some node)
  let head := if l.head.isNone then some node else l.head
  let tail := if l.tail.isNone || atNode == l.tail then some node else l.tail
  let after ← mem.nextOf atNode
  if (atNode.isSome && after == some node) || tail == some node then
    .ok { head := head, tail := tail, qty := l.qty + 1, mem := mem, brk := node + 1 }
  else
    .error (.assertion "(at && at->next == node) || list->tail == node")

def llInsertBefore (l : LinkedList α) (atNode : Option Nat) (data : α) :
    Except Fault (LinkedList α) := do
  let node := l.brk
  let prev ← l.mem.prevOf atNode
  let mem := l.mem.store node { data := data, prev := prev, next := atNode }
  let mem ← mem.writePrev? atNode (some node)
  let mem ← mem.writeNext? prev (some node)
  let head := if l.head.isNone || atNode == l.head then some node else l.head
  let tail := if l.tail.isNone then some node else l.tail
  let before ← mem.prevOf atNode
  if (atNode.isSome && before == some node) || head == some node then
    .ok { head := head, tail := tail, qty := l.qty + 1, mem := mem, brk := node + 1 }
  else
    .error (.assertion "(at && at->prev == node) || list->head == node")

/-! ### Inserting a slice of a string list -/

/--
`create_nodes`: the nodes for the entries `x`, `x + 1`, … of the slice, chained after
the node `prev`; `i` is the index in `narr`, which holds `prev` at `i - 1`.  Returns the
address of the last node, `narr[last]`.  The `next` of a fresh node is not assigned
before its successor exists; it reads as NULL here.
-/
def createNodes : (count x i : Nat) → (prev : Nat) → LinkedList α → BList α →
    Except Fault (LinkedList α × BList α × Nat)
  | 0, _, _, prev, l, blist => .ok (l, blist, prev)
  | count + 1, x, i, prev, l, blist => do
      if ¬i < blist.length then .error (.assertion "(unsigned)i < blist->qty")
      if (blist.getD x none).isNone then .error (.assertion "blist->lst[x] != NULL")
      let (data, blist) ← blist.move x
      let node := l.brk
      let mem := l.mem.store node { data := data, prev := some prev, next := none }
      let mem ← mem.writeNext (some prev) (some node)
      createNodes count (x + 1) (i + 1) node
        { l with mem := mem, brk := node + 1, qty := l.qty + 1 } blist

/-- The `ASSERTIONS ()` of the two slice insertions. -/
def sliceAssertions (start stop qty : Int) : Except Fault Unit :=
  if ¬(start ≥ 0 ∧ (stop > 0 ∨ start = stop)) then
    .error (.assertion "start >= 0 && (end > 0 || start == end)")
  else if ¬start ≤ stop then .error (.assertion "start <= end")
  else if ¬qty > 0 then .error (.assertion "blist->qty > 0")
  else if ¬stop ≤ qty then .error (.assertion "(unsigned)end <= blist->qty")
  else .ok ()

/-- The first node of a slice, `narr[0]`, and after it the others. -/
def sliceNodes (l : LinkedList α) (blist : BList α) (start stop : Int) (prev : Option Nat) :
    Except Fault (LinkedList α × BList α × Nat) := do
  -- With `start = end` the array `narr` has no element to write.
  if stop ≤ start then .error .undefined
  let (data, blist) ← blist.move start.toNat
  let first := l.brk
  let mem := l.mem.store first { data := data, prev := prev, next := none }
  createNodes (stop - start - 1).toNat (start.toNat + 1) 1 first
    { l with mem := mem, brk := first + 1, qty := l.qty + 1 } blist

def llInsertBlistAfter (l : LinkedList α) (atNode : Option Nat) (blist : BList α)
    (start stop : Int) : Except Fault (LinkedList α × BList α) := do
  let start := resolveNegativeIndex start blist.length
  let stop := resolveNegativeIndex stop blist.length
  sliceAssertions start stop blist.length
  if stop - start = 1 then
    let data ← blist.get start.toNat
    let l ← llInsertAfter l atNode data
    .ok (l, blist)
  else
    let first := l.brk
    let (l, blist, last) ← sliceNodes l blist start stop atNode
    let next ← l.mem.nextOf atNode
    let mem ← l.mem.writeNext (some last) next
    let mem ← mem.writeNext? atNode (some first)
    let mem ← mem.writePrev? next (some last)
    .ok ({ l with
            head := if l.head.isNone then some first else l.head
            tail := if l.tail.isNone || atNode == l.tail then some last else l.tail
            mem := mem }, blist)

def llInsertBlistBefore (l : LinkedList α) (atNode : Option Nat) (blist : BList α)
    (start stop : Int) : Except Fault (LinkedList α × BList α) := do
  let start := resolveNegativeIndex start blist.length
  let stop := resolveNegativeIndex stop blist.length
  sliceAssertions start stop blist.length
  if stop - start = 1 then
    let data ← blist.get start.toNat
    let l ← llInsertBefore l atNode data
    .ok (l, blist)
  else
    let first := l.brk
    let (l, blist, last) ← sliceNodes l blist start stop none
    let mem ← l.mem.writeNext (some last) atNode
    let prev ← mem.prevOf atNode
    let mem ← mem.writePrev (some first) prev
    let mem ← mem.writePrev? atNode (some last)
    let mem ← mem.writeNext? prev (some first)
    .ok ({ l with
            head := if l.head.isNone || atNode == l.head then some first else l.head
            tail := if l.tail.isNone then some last else l.tail
            mem := mem }, blist)

/-! ### Deleting -/

/-- The branches of `ll_delete_node`, which take the node out of the chain. -/
def unlinkNode (l : LinkedList α) (node : Option Nat) : Except Fault (LinkedList α) := do
  if l.qty = 1 then
    .ok { l with head := none, tail := none }
  else if node == l.head then
    let next := (← l.mem.read node).next
    let mem ← l.mem.writePrev? next none
    .ok { l with head := next, mem := mem }
  else if node == l.tail then
    let prev := (← l.mem.read node).prev
    let mem ← l.mem.writeNext? prev none
    .ok { l with tail := prev, mem := mem }
  else
    let cur ← l.mem.read node
    let mem ← l.mem.writeNext cur.prev cur.next
    let cur ← mem.read node
    let mem ← mem.writePrev cur.next cur.prev
    .ok { l with mem := mem }

def llDeleteNode (l : LinkedList α) (node : Option Nat) : Except Fault (LinkedList α) := do
  let l ← unlinkNode l node
  let mem ← l.mem.free node
  .ok { l with qty := l.qty - 1, mem := mem }

/--
The loop of `ll_delete_range`: at most `range` nodes are freed, starting at `current`.
Returns the pointer `next` as the loop leaves it.
-/
def deleteLoop : (range : Nat) → (current next : Option Nat) → LinkedList α →
    Except Fault (LinkedList α × Option Nat)
  | 0, _, next, l => .ok (l, next)
  | _ + 1, none, next, l => .ok (l, next)
  | range + 1, some current, _, l => do
      let next := (← l.mem.read (some current)).next
      let mem ← l.mem.free (some current)
      deleteLoop range next next { l with mem := mem, qty := l.qty - 1 }

def llDeleteRange (l : LinkedList α) (atNode : Option Nat) (range : Int) :
    Except Fault (LinkedList α) := do
  if range = 0 then
    .ok l
  else if range = 1 then
    if atNode.isNone then .error (.assertion "at") else llDeleteNode l atNode
  else
    let prev ← l.mem.prevOf atNode
    let replaceHead := atNode == l.head || l.head.isNone
    let (l, next) ← deleteLoop range.toNat atNode none l
    let l := { l with qty := if l.qty < 0 then 0 else l.qty }
    let l := if replaceHead then { l with head := next } else l
    let mem ← l.mem.writeNext? prev next
    let mem ← mem.writePrev? next prev
    .ok { l with tail := if next.isSome then l.tail else prev, mem := mem }

/-! ### Taking an end out -/

/-- `ll_pop`: the data, NULL on an empty list, and the list. -/
def llPop (l : LinkedList α) : Except Fault (Option α × LinkedList α) :=
  match l.tail with
  | none => .ok (none, l)
  | some tmp => do
      let node ← l.mem.read (some tmp)
      let mem ← l.mem.free (some tmp)
      let mem ← mem.writeNext? node.prev none
      .ok (some node.data,
        { l with
          tail := node.prev
          head := if node.prev.isSome then l.head else none
          mem := mem })

/-- `ll_dequeue`: the data, NULL on an empty list, and the list. -/
def llDequeue (l : LinkedList α) : Except Fault (Option α × LinkedList α) :=
  match l.head with
  | none => .ok (none, l)
  | some tmp => do
      let node ← l.mem.read (some tmp)
      let mem ← l.mem.free (some tmp)
      let mem ← mem.writeNext? node.next none
      .ok (some node.data,
        { l with
          head := node.next
          tail := if node.next.isSome then l.tail else none
          mem := mem })

/-! ### Looking a position up -/

/-- `while (x++ != index) current = current->next`, which takes `steps` steps. -/
def walkNext (m : Mem α) : (steps : Nat) → Option Nat → Except Fault (Option Nat)
  | 0, current => .ok current
  | steps + 1, current => do walkNext m steps (← m.read current).next

/-- `while (x-- != index) current = current->prev`, which takes `steps` steps. -/
def walkPrev (m : Mem α) : (steps : Nat) → Option Nat → Except Fault (Option Nat)
  | 0, current => .ok current
  | steps + 1, current => do walkPrev m steps (← m.read current).prev

/-- `ll_at`; the warning it prints for an index outside the list is left out. -/
def llAt (l : LinkedList α) (index : Int) : Except Fault (Option Nat) :=
  if l.qty = 0 then .ok none
  else if index = 0 then .ok l.head
  else if index = -1 ∨ index = l.qty then .ok l.tail
  else
    let index := if index < 0 then index + l.qty else index
    if index < 0 ∨ index > l.qty then .ok none
    else if index < (l.qty - 1) / 2 then walkNext l.mem index.toNat l.head
    else walkPrev l.mem (l.qty - 1 - index).toNat l.tail

def llInsertBlistBeforeAt (l : LinkedList α) (index : Int) (blist : BList α) (start stop : Int) :
    Except Fault (LinkedList α × BList α) := do
  llInsertBlistBefore l (← llAt l index) blist start stop

def llInsertBlistAfterAt (l : LinkedList α) (index : Int) (blist : BList α) (start stop : Int) :
    Except Fault (LinkedList α × BList α) := do
  llInsertBlistAfter l (← llAt l index) blist start stop

def llDeleteRangeAt (l : LinkedList α) (index range : Int) : Except Fault (LinkedList α) := do
  llDeleteRange l (← llAt l index) range

/-! ### Going through the list -/

/-- The nodes from `node` on, `n` of them at most. -/
def foreachNode {σ : Type} (m : Mem α) (body : α → σ → Except Fault (ForInStep σ)) :
    (n : Nat) → (node : Option Nat) → σ → Except Fault σ
  | _, none, s => .ok s
  | 0, some _, _ => .error .undefined
  | n + 1, some node, s => do
      let cur ← m.read (some node)
      match ← body cur.data s with
      | .done s => .ok s
      | .yield s => foreachNode m body n cur.next s

/--
`LL_FOREACH_F`, whose body says with `done` that it breaks.  No list has more nodes than
`talloc` has handed out addresses.
-/
def llForeach {σ : Type} (l : LinkedList α) (s : σ) (body : α → σ → Except Fault (ForInStep σ)) :
    Except Fault σ :=
  foreachNode l.mem body l.brk l.head s

/-! ### What a list stands for -/

/-- `l` is a well-formed list whose nodes are `cells`, in order. -/
structure Rep (l : LinkedList α) (cells : List (Nat × α)) : Prop where
  /-- Forward and backward chains mirror each other and end in NULL. -/
  chain : Seg l.mem none cells none
  /-- The head is the first node, NULL for an empty list. -/
  head : l.head = firstOr cells none
  /-- The tail is the last node, NULL for an empty list. -/
  tail : l.tail = lastOr none cells
  /-- `qty` is the number of nodes. -/
  qty : l.qty = cells.length
  /-- No node is in the list twice. -/
  nodup : (addrs cells).Nodup
  /-- What `talloc` hands out next is not in use. -/
  fresh : ∀ a, l.brk ≤ a → l.mem a = none

/-- `l` is well formed and its nodes hold `s`, in order. -/
def Represents (l : LinkedList α) (s : List α) : Prop := ∃ cells, Rep l cells ∧ vals cells = s

end TagHighlight
