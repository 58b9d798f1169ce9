/-
Marks in the text of a buffer.

What the parsers of the languages come to is the same: stretches of lines, each in a group.  They
are collected behind a call that clears the buffer, if it was marked before, and sent in one
request.
-/
import TagHighlight.NvimApi.CmdCalls

namespace TagHighlight

open Atomic

/-- A stretch of a line in a group. -/
structure Mark where
  group : BString
  line : Nat
  start : Nat
  stop : Nat
  deriving DecidableEq, Repr

namespace Mark

/-- What `add_hl_call` is called with. -/
def op (bufnum hlId : Int32) (m : Mark) : Op :=
  .addHl bufnum hlId m.group
    { line := UInt32.ofNat m.line, start := UInt32.ofNat m.start, stop := UInt32.ofNat m.stop }

/-- What Neovim is to do. -/
def message (bufnum hlId : Int32) (m : Mark) : Message :=
  .array [.string (bt "nvim_buf_add_highlight"),
    .array [.integer bufnum.toInt, .integer hlId.toInt, .string m.group, .integer m.line,
      .integer m.start, .integer m.stop]]

/-- The numbers are those of an `int`. -/
structure Fits (m : Mark) : Prop where
  group : m.group.length < 4294967295
  line : m.line < 2 ^ 31
  start : m.start < 2 ^ 31
  stop : m.stop < 2 ^ 31

end Mark

/-- All marks of the buffer are to go. -/
def clearMessage (bufnum hlId : Int32) : Message :=
  .array [.string (bt "nvim_buf_clear_highlight"),
    .array [.integer bufnum.toInt, .integer hlId.toInt, .integer 0, .integer (-1)]]

/-- The calls for marks; `again` says that the buffer was marked before. -/
def markOps (bufnum hlId : Int32) (again : Bool) (marks : List Mark) : List Op :=
  (if again then [.addClr bufnum hlId 0 (-1)] else []) ++ marks.map (Mark.op bufnum hlId)

/-- The request for these calls. -/
def markRequest (count bufnum hlId : Int32) (again : Bool) (marks : List Mark) : Tree :=
  requestTree count (markOps bufnum hlId again marks)

/-- What Neovim is to hear. -/
def markMessages (bufnum hlId : Int32) (again : Bool) (marks : List Mark) : List Message :=
  (if again then [clearMessage bufnum hlId] else []) ++ marks.map (Mark.message bufnum hlId)

end TagHighlight
