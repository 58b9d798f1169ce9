/-
A file that is open for writing, by the rules of POSIX.

An open file has an offset of its own.  Writing happens there and moves it; a file opened
without `O_APPEND` does not follow its end.  Cutting the file does not move the offset, so
it may be left behind the end, and what is then between the two is filled with zeros by the
next write that is not empty.
-/
import Mathlib.Data.List.Basic

/-- The bytes of a file and the offset of the descriptor it is open under. -/
structure OpenFile where
  content : List UInt8
  offset : Nat
  deriving DecidableEq, Repr

namespace OpenFile

/-- A file just created. -/
def create : OpenFile := { content := [], offset := 0 }

/-- `write`, in full. -/
def write (f : OpenFile) (bytes : List UInt8) : OpenFile :=
  if bytes = [] then f
  else
    { content := f.content.take f.offset ++ List.replicate (f.offset - f.content.length) 0 ++
        bytes ++ f.content.drop (f.offset + bytes.length)
      offset := f.offset + bytes.length }

/-- `ftruncate (fd, 0)`. -/
def truncate (f : OpenFile) : OpenFile := { f with content := [] }

@[simp] theorem truncate_content (f : OpenFile) : f.truncate.content = [] := rfl

@[simp] theorem truncate_offset (f : OpenFile) : f.truncate.offset = f.offset := rfl

@[simp] theorem write_nil (f : OpenFile) : f.write [] = f := if_pos rfl

@[simp] theorem write_offset (f : OpenFile) (bytes : List UInt8) :
    (f.write bytes).offset = f.offset + bytes.length := by
  rw [write]
  split
  · simp_all
  · rfl

/-- At the end of a file, writing appends. -/
theorem write_content_end {f : OpenFile} (h : f.offset = f.content.length) (bytes : List UInt8) :
    (f.write bytes).content = f.content ++ bytes := by
  rw [write]
  split
  · simp_all
  · simp [h]

/-- Into a file that was cut, writing leaves zeros up to the offset. -/
theorem write_content_empty {f : OpenFile} (h : f.content = []) {bytes : List UInt8}
    (hne : bytes ≠ []) : (f.write bytes).content = List.replicate f.offset 0 ++ bytes := by
  rw [write, if_neg hne]
  simp [h]

/-- Strings one after the other. -/
def writeAll (f : OpenFile) (strs : List (List UInt8)) : OpenFile := strs.foldl write f

theorem writeAll_offset (f : OpenFile) (strs : List (List UInt8)) :
    (f.writeAll strs).offset = f.offset + strs.flatten.length := by
  induction strs generalizing f with
  | nil => rfl
  | cons s strs ih =>
      have hrest := ih (f.write s)
      rw [write_offset] at hrest
      rw [writeAll, List.foldl_cons, List.flatten_cons, List.length_append, ← Nat.add_assoc]
      exact hrest

/-- At the end of a file, they are appended one after the other. -/
theorem writeAll_content_end {f : OpenFile} (h : f.offset = f.content.length)
    (strs : List (List UInt8)) : (f.writeAll strs).content = f.content ++ strs.flatten := by
  induction strs generalizing f with
  | nil => simp [writeAll]
  | cons s strs ih =>
      have hend : (f.write s).offset = (f.write s).content.length := by
        rw [write_offset, write_content_end h, List.length_append, h]
      have hrest := ih hend
      rw [write_content_end h] at hrest
      rw [writeAll, List.foldl_cons, List.flatten_cons, ← List.append_assoc]
      exact hrest

end OpenFile
