/-
The scan of the ctags output for tags of a buffer, `lang/ctags_scan/scan.c`.

The lines of the tags file are shared out among threads.  Each thread collects the tags
that its lines name and that pass the filter; then all of them are sorted and repeats are
dropped.  The threads only read what they share, so what each one returns depends on its
part alone, and they are joined in order.

The string library and `bsearch` are parameters.  What the calls of `b_memsep` and
`b_strchr` cut a line into is one of them; the rest of `do_tok_search` is here.
-/
import TagHighlight.Util.BString
import Mathlib.Data.Int.DivMod
import Mathlib.Algebra.Group.Int.Defs
import Mathlib.Algebra.GroupWithZero.Nat

namespace TagHighlight.CtagsScan

/-- `struct tag`. -/
structure Tag where
  name : BString
  kind : UInt8
  deriving DecidableEq, Repr

/-- A line, cut at its tabs: the name, the file, and the tokens after the search pattern. -/
structure Fields where
  name : BString
  matchFile : BString
  toks : List BString

/-- What is used of the string library, and of `qsort` and `bsearch` on strings. -/
structure Library where
  fields : BString → Fields
  /-- `b_iseq`, also of a null pointer. -/
  iseq : Option BString → Option BString → Bool
  iseqCaseless : BString → BString → Bool
  /-- `bsearch (…, &b_strcmp_fast_wrap)` finds the name in the list. -/
  bsearch : BString → List BString → Bool
  /-- `qsort (…, &b_strcmp_fast_wrap)`. -/
  qsort : List BString → List BString

/-- What the scan reads of a `Buffer`, its file type and its top directory. -/
structure Buffer where
  /-- `topdir->tags`. -/
  tags : List BString
  ignoredTags : List BString
  equiv : Option (List BString)
  ctagsName : BString
  order : BString
  /-- `name.full`. -/
  filename : BString
  isCOrCpp : Bool

/-! ### The order of tags -/

/-- `memcmp` of two strings of one length. -/
def memcmp : BString → BString → Int
  | a :: as, b :: bs => if a = b then memcmp as bs else (a.toNat : Int) - b.toNat
  | _, _ => 0

/-- The conversion of a 32-bit difference to `int`. -/
def toInt (n : Int) : Int := n.bmod (2 ^ 32)

def tagCmp (sA sB : Tag) : Int :=
  if sA.kind = sB.kind then
    if sA.name.length = sB.name.length then memcmp sA.name sB.name
    else toInt ((sA.name.length : Int) - sB.name.length)
  else (sA.kind.toNat : Int) - sB.kind.toNat

/-- The loop of `remove_duplicate_tags`, with the last tag that was kept. -/
def removeLoop (lib : Library) (last : Tag) : List Tag → List Tag
  | [] => []
  | tag :: tags =>
      if tag.kind ≠ last.kind ∨ ¬ lib.iseq (some tag.name) (some last.name) then
        tag :: removeLoop lib tag tags
      else removeLoop lib last tags

/-- The tag that `remove_duplicate_tags` compares the first one with. -/
def noTag : Tag := { name := bt "", kind := 0 }

def removeDuplicateTags (lib : Library) (list : List Tag) : List Tag := removeLoop lib noTag list

/-! ### One line -/

/-- The byte at `i`, which is NUL at the end. -/
def byteAt (s : BString) (i : Nat) : UInt8 := s.getD i 0

/-- `strchr (BS (order), kind) != NULL`; the NUL at the end is found too. -/
def strchr (order : BString) (kind : UInt8) : Bool :=
  kind = 0 || (order.takeWhile (· ≠ 0)).contains kind

/-- `in_order`: the kind that stands for this one, and whether it is wanted. -/
def inOrder (equiv : Option (List BString)) (order : BString) (kind : UInt8) : UInt8 × Bool :=
  let kind :=
    match (equiv.getD []).find? fun pair => byteAt pair 0 = kind with
    | some pair => byteAt pair 1
    | none => kind
  (kind, strchr order kind)

def isCorrectLang (lib : Library) (lang matchLang : BString) (isCOrCpp : Bool) : Bool :=
  lib.iseqCaseless matchLang lang ||
    isCOrCpp && (lib.iseqCaseless matchLang (bt "C") || lib.iseqCaseless matchLang (bt "C++"))

def skipTag (lib : Library) (skip : List BString) (find : BString) : Bool :=
  skip.any fun s => lib.iseq (some s) (some find)

/-- `struct pdata`, as far as all threads have it in common. -/
structure Filter where
  vimBuf : List BString
  skip : List BString
  equiv : Option (List BString)
  lang : BString
  order : BString
  filename : BString
  cFamily : Bool

/-- One token of the loop over the rest of a line: `kind` and `match_lang`. -/
def takeTok (found : UInt8 × Option BString) (tok : BString) : UInt8 × Option BString :=
  if tok.length = 1 then (byteAt tok 0, found.2)
  else if tok.take (bt "language:").length = bt "language:" then
    (found.1, some (tok.drop (bt "language:").length))
  else found

/-- What `do_tok_search` makes of a line: the tag that is added to the list, if any. -/
def searchLine (lib : Library) (data : Filter) (line : BString) : Option Tag :=
  if line.length < 1 ∨ byteAt line 0 = UInt8.ofNat '!'.toNat then none
  else
    let fields := lib.fields line
    match fields.toks.foldl takeTok (0, none) with
    | (_, none) => none
    | (kind, some matchLang) =>
        let (tagKind, wanted) := inOrder data.equiv data.order kind
        if kind ≠ 0 ∧ wanted ∧ isCorrectLang lib data.lang matchLang data.cFamily ∧
            ¬ skipTag lib data.skip fields.name ∧
            (lib.iseq (some data.filename) (some fields.matchFile) ∨
              lib.bsearch fields.name data.vimBuf) then
          some { name := fields.name, kind := tagKind }
        else none

/-! ### The threads -/

/-- `struct pdata`. -/
structure Pdata where
  filter : Filter
  lst : List BString
  num : Nat

def addTagToList (list : List Tag) (tag : Tag) : List Tag := list ++ [tag]

/-- One round of the loop of `do_tok_search`. -/
def searchStep (lib : Library) (data : Filter) (ret : List Tag) (line : BString) : List Tag :=
  match searchLine lib data line with
  | some tag => addTagToList ret tag
  | none => ret

/-- `do_tok_search`; a thread without lines returns a null pointer. -/
def doTokSearch (lib : Library) (data : Pdata) : Option (List Tag) :=
  if data.num = 0 then none
  else some ((data.lst.take data.num).foldl (searchStep lib data.filter) [])

/--
The loop that moves the tokens into `uniq`.  A token that was moved leaves a null pointer
behind, which the next one is then compared with.
-/
def uniqLoop (lib : Library) (before : Option BString) : List BString → List BString
  | [] => []
  | tok :: toks =>
      if lib.iseq (some tok) before then uniqLoop lib (some tok) toks
      else tok :: uniqLoop lib none toks

def uniq (lib : Library) : List BString → List BString
  | [] => []
  | tok :: toks => tok :: uniqLoop lib none toks

def filterOf (lib : Library) (bdata : Buffer) (vimbuf : List BString) : Filter where
  vimBuf := uniq lib (lib.qsort vimbuf)
  skip := bdata.ignoredTags
  equiv := bdata.equiv
  lang := bdata.ctagsName
  order := bdata.order
  filename := bdata.filename
  cFamily := bdata.isCOrCpp

/--
`tok_search_launch_threads`: what each thread is given.  There are fewer than `2 ^ 31` tags, so
that the cast in `&tags->lst[(int)(i * quot)]` changes nothing.
-/
def tokSearchLaunchThreads (lib : Library) (bdata : Buffer) (vimbuf : List BString)
    (nthreads : Nat) : List Pdata :=
  let tags := bdata.tags
  let filter := filterOf lib bdata vimbuf
  (List.range nthreads).map fun i =>
    let quot := tags.length / nthreads
    let num := if i = nthreads - 1 then tags.length - (nthreads - 1) * quot else quot
    { filter := filter, lst := tags.drop (i * quot), num := num }

/-- `tok_search_join_threads`: a null pointer when no thread has found a tag. -/
def tokSearchJoinThreads (data : List (Option (List Tag))) : Option (List (Option (List Tag))) :=
  let size := (data.map fun list => (list.getD []).length).sum
  if size = 0 then none else some data

def tokSearchCombineData (lib : Library) (qsort : List Tag → List Tag)
    (vec : List (Option (List Tag))) : List Tag :=
  let alldata := vec.flatMap fun list => list.getD []
  removeDuplicateTags lib (qsort alldata)

/-- `process_tags` on `nthreads` threads; `qsort` is the one with `tag_cmp`. -/
def processTags (lib : Library) (qsort : List Tag → List Tag) (bdata : Buffer)
    (vimbuf : List BString) (nthreads : Nat) : Option (List Tag) :=
  if vimbuf.length = 0 then none
  else if bdata.tags.length = 0 then none
  else do
    let data := (tokSearchLaunchThreads lib bdata vimbuf nthreads).map (doTokSearch lib)
    let out ← tokSearchJoinThreads data
    some (tokSearchCombineData lib qsort out)

/-! ### What the scan is for -/

/-- The tags that some line names and the filter accepts, in the order of the lines. -/
def accepted (lib : Library) (bdata : Buffer) (vimbuf : List BString) : List Tag :=
  bdata.tags.filterMap (searchLine lib (filterOf lib bdata vimbuf))

/-- Strictly increasing in `tag_cmp`, with each accepted tag. -/
structure IsScan (lib : Library) (bdata : Buffer) (vimbuf : List BString) (list : List Tag) :
    Prop where
  increasing : list.Pairwise fun a b => tagCmp a b < 0
  mem_iff : ∀ tag, tag ∈ list ↔ tag ∈ accepted lib bdata vimbuf

/-- What `qsort` with `tag_cmp` does, on names whose lengths an `int` can compare. -/
structure Sorts (qsort : List Tag → List Tag) : Prop where
  perm : ∀ list, (qsort list).Perm list
  sorted : ∀ list, (∀ tag ∈ list, tag.name.length < 2 ^ 31) →
    (qsort list).Pairwise fun a b => tagCmp a b ≤ 0

end TagHighlight.CtagsScan
