/-
The loop at the start of `tok_search_launch_threads`, slot by slot.

`talloc_move` returns a pointer and sets where it came from to NULL.  The loop compares each
slot of the sorted array with the one before it, out of which an earlier round may have moved
the token.  Here the array keeps its null pointers, and every call of `b_iseq` is recorded
with its two arguments.
-/
import TagHighlight.Lang.CtagsScan

namespace TagHighlight.CtagsScan

/-- The arrays `vimbuf->lst` and `uniq->lst`, and the calls of `b_iseq` so far. -/
structure UniqState where
  lst : List (Option BString)
  uniq : List (Option BString)
  calls : List (Option BString × Option BString)
  deriving DecidableEq, Repr

namespace UniqState

/-- The pointer in a slot of `vimbuf->lst`. -/
def slot (s : UniqState) (i : Nat) : Option BString := (s.lst[i]?).getD none

/-- `uniq->lst[uniq->qty++] = talloc_move (uniq->lst, &vimbuf->lst[i])`. -/
def move (s : UniqState) (i : Nat) : UniqState :=
  { s with lst := s.lst.set i none, uniq := s.uniq ++ [s.slot i] }

/-- A round of the loop. -/
def round (lib : Library) (s : UniqState) (i : Nat) : UniqState :=
  let s' := { s with calls := s.calls ++ [(s.slot i, s.slot (i - 1))] }
  if lib.iseq (s.slot i) (s.slot (i - 1)) then s' else s'.move i

/-- `count` rounds, the first one with this index. -/
def rounds (lib : Library) : (count i : Nat) → UniqState → UniqState
  | 0, _, s => s
  | count + 1, i, s => rounds lib count (i + 1) (s.round lib i)

end UniqState

/-- From `qsort` up to the end of the loop. -/
def uniqTokens (lib : Library) (vimbuf : List BString) : UniqState :=
  let start : UniqState := { lst := (lib.qsort vimbuf).map some, uniq := [], calls := [] }
  (start.move 0).rounds lib (vimbuf.length - 1) 1

/-! ### What the list is for -/

/--
What `qsort` and `bsearch` with `strcmp`, the `b_strcmp_fast_wrap` of the library, do.  That
`qsort` puts the tokens in order is not needed.
-/
structure Compares (lib : Library) (strcmp : BString → BString → Int) : Prop where
  perm : ∀ list, (lib.qsort list).Perm list
  bsearch : ∀ name list, (list.Pairwise fun a b => strcmp a b ≤ 0) →
    (lib.bsearch name list = true ↔ name ∈ list)

/--
The loop has compared strings only, it leaves each token once and in increasing order, and
`bsearch` finds just the tokens.
-/
structure IsUniq (lib : Library) (strcmp : BString → BString → Int) (vimbuf : List BString)
    (s : UniqState) : Prop where
  compared : ∀ call ∈ s.calls, call.1 ≠ none ∧ call.2 ≠ none
  list : ∃ list : List BString, s.uniq = list.map some ∧
    (list.Pairwise fun a b => strcmp a b < 0) ∧ (∀ tok, tok ∈ list ↔ tok ∈ vimbuf) ∧
    ∀ name, lib.bsearch name list = true ↔ name ∈ vimbuf

end TagHighlight.CtagsScan
