/-
The linked list as a deque.

A run of calls is followed on the list and on a plain sequence.  What the calls put in, and
what they hand out again, is written down next to them: `taken` is what `ll_pop` and
`ll_dequeue` return on the list, `due` what they should return.
-/
import TagHighlight.Lib.TransitionSystem
import TagHighlight.Util.LinkedList

namespace TagHighlight.Deque

open DList

variable {α : Type}

/-- A list, the sequence that it should stand for, and what went in and out. -/
structure State (α : Type) where
  list : LinkedList α
  contents : List α
  put : List α
  taken : List (Option α)
  due : List (Option α)

/-- A call of one of the four functions. -/
inductive Call (α : Type) where
  | append (data : α)
  | prepend (data : α)
  | pop
  | dequeue

/-- One call, on the list and on the sequence. -/
def Call.apply (s : State α) : Call α → Except Fault (State α)
  | .append data => do
      let list ← llAppend s.list data
      .ok { s with list := list, contents := s.contents ++ [data], put := s.put ++ [data] }
  | .prepend data => do
      let list ← llPrepend s.list data
      .ok { s with list := list, contents := data :: s.contents, put := s.put ++ [data] }
  | .pop => do
      let (ret, list) ← llPop s.list
      .ok { s with
        list := list, contents := s.contents.dropLast
        taken := s.taken ++ [ret], due := s.due ++ [s.contents.getLast?] }
  | .dequeue => do
      let (ret, list) ← llDequeue s.list
      .ok { s with
        list := list, contents := s.contents.tail
        taken := s.taken ++ [ret], due := s.due ++ [s.contents.head?] }

/-- Calls one after the other, on a new list. -/
def dequeSystem (α : Type) : TransitionSystem (State α) (Call α) where
  init := { list := llMakeNew, contents := [], put := [], taken := [], due := [] }
  step s c := (c.apply s).toOption

/-- The cells form one chain with the data in order, `head` and `tail` are its ends, and `qty`
is its length. -/
structure IsChain (l : LinkedList α) (cells : List (Nat × α)) : Prop where
  /-- Forward and backward chains mirror each other and end in NULL. -/
  chain : Seg l.mem none cells none
  head : l.head = firstOr cells none
  tail : l.tail = lastOr none cells
  qty : l.qty = cells.length

/-- The list is the deque: it holds the contents, the calls returned what was due, and what was
put in is what was taken out together with what is left. -/
structure IsDeque (s : State α) : Prop where
  list : ∃ cells, IsChain s.list cells ∧ vals cells = s.contents
  returned : s.taken = s.due
  conserved : s.put.Perm (s.taken.reduceOption ++ s.contents)

/-- Nothing is taken out but from an empty list. -/
def Call.TakesNothing (s : State α) : Call α → Prop
  | .pop | .dequeue => s.contents = []
  | _ => True

end TagHighlight.Deque
