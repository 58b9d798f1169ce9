/-
Keeping the tags of a project up to date: `get_initial_taglist` and `update_taglist` of
`ctags.c`.

The tags are kept three times: as a list of lines in memory, compressed in the cache
directory, and as plain text in the file `tmpfname`, which Vim's option `tags` names.  That
file stays open under `tmpfd` for as long as the project does.

What the world answers to a call is an argument of it: what ctags printed, whether the
compressed file is there, from when it is and what is in it.  Failing system calls end the
process.  The mutex, the `ctick` and writing the compressed file are left out.
-/
import TagHighlight.Lib.Fault
import TagHighlight.Lib.File
import TagHighlight.Util.BString

namespace TagHighlight.Taglist

/-- The part of a `struct top_dir` that the two functions work on. -/
structure TopDir where
  tags : Option (List BString)
  timestamp : Int
  /-- The file `tmpfname`, open as `tmpfd`. -/
  tmpfile : OpenFile

/-- A project as `init_topdir` makes it. -/
def initTopdir : TopDir := { tags := none, timestamp := 0, tmpfile := OpenFile.create }

/-- `break_into_lines`: what follows the last newline is dropped, and so is all after a NUL. -/
def breakIntoLines (buf : BString) : List BString :=
  ((buf.takeWhile (· ≠ 0)).splitOn 10).dropLast

/-- `getlines_from_buffer` adds to the tags there are. -/
def getlinesFromBuffer (tags : List BString) (buf : BString) : List BString :=
  tags ++ breakIntoLines buf

/-- The text of lines, as they are written out: a newline after each. -/
def textOf (lines : List BString) : BString := lines.flatMap fun line => line ++ [10]

/--
`update_taglist`, where `out` is what `run_ctags_pipe` returned; the last component is the
tag text this call has obtained.
-/
def updateTaglist (top : TopDir) (out : Option BString) : TopDir × Int × Option BString :=
  match out with
  | none => (top, 0, none)
  | some out =>
      let top := { top with tags := some [], tmpfile := top.tmpfile.truncate.write out }
      ({ top with tags := some (getlinesFromBuffer [] out) }, 1, some out)

/-- What a call of `get_initial_taglist` finds. -/
structure World where
  /-- `st_mtime` of the compressed file, if there is one. -/
  mtime : Option Int
  /-- The lines that `getlines` reads from it, unless that fails. -/
  saved : Option (List BString)
  /-- What `run_ctags_pipe` returns. -/
  out : Option BString
  /-- `st_mtime` of the file that was written instead, unless `stat` fails. -/
  mtimeAfter : Option Int

/-- `get_initial_taglist` from `force_ctags` on. -/
def forceCtags (top : TopDir) (tags : List BString) (world : World) :
    Except Fault (TopDir × Int × Option BString) :=
  match world.out with
  | none => .ok (top, 1, none)
  | some out =>
      let top := { top with tmpfile := top.tmpfile.write out }
      match world.mtimeAfter with
      | none => .error (.errx 1 "Failed to stat gzfile")
      | some mtime =>
          let top := { top with tags := some (getlinesFromBuffer tags out), timestamp := mtime }
          .ok (top, 1, some out)

/-- `get_initial_taglist`; the last component is the tag text this call has obtained. -/
def getInitialTaglist (top : TopDir) (world : World) :
    Except Fault (TopDir × Int × Option BString) :=
  match top.tags with
  | some _ => .ok (updateTaglist top world.out)
  | none =>
      let top := { top with tags := some [] }
      match world.mtime with
      | none => forceCtags top [] world
      | some mtime =>
          if top.timestamp < mtime then
            match world.saved with
            | none => forceCtags top [] world
            | some lines =>
                -- `b_write (tmpfd, lst[i], B ("\n"))` for every line.
                let strs := lines.flatMap fun line => [line, [10]]
                let tmpfile := top.tmpfile.truncate.writeAll strs
                let top := { top with tags := some lines, timestamp := mtime, tmpfile := tmpfile }
                .ok (top, 1, some (textOf lines))
          else .ok ({ top with timestamp := mtime }, 0, none)

/-! ### Sequences of calls -/

/-- A call for one project. -/
inductive TagCall where
  | getInitial (world : World)
  | update (out : Option BString)

def TopDir.call (top : TopDir) : TagCall → Except Fault (TopDir × Int × Option BString)
  | .getInitial world => getInitialTaglist top world
  | .update out => .ok (updateTaglist top out)

/-- Calls one after the other: the project in the end, and all the tag texts obtained. -/
def runCalls : List TagCall → TopDir → Except Fault (TopDir × List BString)
  | [], top => .ok (top, [])
  | c :: calls, top => do
      let (top, _, text) ← top.call c
      let (top, texts) ← runCalls calls top
      .ok (top, text.toList ++ texts)

end TagHighlight.Taglist
