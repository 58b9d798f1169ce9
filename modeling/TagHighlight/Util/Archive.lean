/-
The cache of a project's tags: the `write_*_from_buffer` functions of `archive_write.c` and
`getlines` of `archive_read.c`.

A writer is modelled by the bytes it leaves in the file, a reader by what it makes of such
bytes; a system call that fails ends the process and is left out.  The two compression
libraries are not part of the program.  `Zlib` and `Lzma` are what it uses of them, and
`Zlib.Lossless` and `Lzma.Lossless` what it relies on.

The encoder of liblzma is called in a loop, each time with the room that is left in the
output buffer.  Its state is abstract; `rest` is what it has still to put out, and the laws
are those of `lzma_code` with `LZMA_FINISH`.
-/
import TagHighlight.Ctags.Taglist
import Mathlib.Algebra.Group.Int.Defs
import Mathlib.Algebra.Group.Nat.Defs
import Mathlib.Data.List.Infix

namespace TagHighlight.Archive

open Taglist (breakIntoLines getlinesFromBuffer)

/-- `comp_type_t`. -/
inductive CompType where
  | none
  | gzip
  | lzma
  deriving DecidableEq, Repr

/-- `struct archive_size`. -/
structure ArchiveSize where
  archive : Nat
  uncompressed : Nat
  deriving DecidableEq, Repr

/-! ### The libraries -/

/-- What is used of zlib. -/
structure Zlib where
  /-- What `gzwrite` returns for these bytes. -/
  gzwrite : BString → Int
  /-- What is in the file after `gzopen (name, "wb")`, `gzwrite` and `gzclose`. -/
  file : BString → BString
  /-- `gzread` of at most so many bytes: its value, and what it puts into the buffer. -/
  gzread : (file : BString) → (len : Nat) → Int × BString

/-- The size in the last four bytes of a gzip file, lowest first. -/
def isize (file : BString) : Nat :=
  match file.drop (file.length - 4) with
  | [b₀, b₁, b₂, b₃] => b₀.toNat + 2 ^ 8 * b₁.toNat + 2 ^ 16 * b₂.toNat + 2 ^ 24 * b₃.toNat
  | _ => 0

/-- All of `buf` is written, the file ends with its size, and `gzread` gives it back. -/
structure Zlib.Lossless (zlib : Zlib) (buf : BString) : Prop where
  gzwrite : zlib.gzwrite buf = buf.length
  size : 8 ≤ (zlib.file buf).length ∧ isize (zlib.file buf) = buf.length % 2 ^ 32
  gzread : zlib.gzread (zlib.file buf) buf.length = ((buf.length : Int), buf)

/-- The values of `lzma_ret` that `lzma_code` ends with. -/
inductive LzmaRet where
  | ok
  | streamEnd
  | bufError
  deriving DecidableEq, Repr

/-- What is used of liblzma. -/
structure Lzma where
  Encoder : Type
  /-- `lzma_easy_encoder`, with `next_in` and `avail_in` set to these bytes. -/
  easyEncoder : BString → Encoder
  /-- `lzma_code (&strm, LZMA_FINISH)` with so many bytes of room: what it put out. -/
  code : Encoder → (availOut : Nat) → LzmaRet × BString × Encoder
  /-- What the encoder has still to put out. -/
  rest : Encoder → BString
  /-- How many more calls can return `LZMA_OK`. -/
  patience : Encoder → Nat
  code_length : ∀ e n, (code e n).2.1.length ≤ n
  rest_code : ∀ e n, (code e n).2.1 ++ rest (code e n).2.2 = rest e
  streamEnd_iff : ∀ e n, (code e n).1 = .streamEnd ↔ rest (code e n).2.2 = []
  /-- Without room for a byte more there is an error in the end, and only then. -/
  bufError : ∀ e n, (code e n).1 = .bufError → (code e n).2.1.length = n
  patience_code : ∀ e n, (code e n).1 = .ok → patience (code e n).2.2 < patience e
  /-- What the index at the end of a file says, if it has one: `lzma_file_info_decoder`. -/
  fileInfo : BString → Option ArchiveSize
  /-- What the decoder has put into so many bytes of room after `LZMA_RUN` and, where that
  did not reach the end, `LZMA_FINISH`. -/
  decode : (file : BString) → (availOut : Nat) → BString

/-- The whole stream for these bytes. -/
def Lzma.stream (lzma : Lzma) (buf : BString) : BString := lzma.rest (lzma.easyEncoder buf)

/--
The stream for `buf` says how long it and `buf` are and is decoded to `buf`; a stream that
was cut off has no index at its end.
-/
structure Lzma.Lossless (lzma : Lzma) (buf : BString) : Prop where
  header : 24 ≤ (lzma.stream buf).length
  fileInfo : lzma.fileInfo (lzma.stream buf) = some ⟨(lzma.stream buf).length, buf.length⟩
  decode : lzma.decode (lzma.stream buf) buf.length = buf
  cut : ∀ n < (lzma.stream buf).length, lzma.fileInfo ((lzma.stream buf).take n) = none

/-! ### Writing -/

/-- `get_tag_filename`; `stem` is what the name has before the file type. -/
def getTagFilename (stem vimName : BString) : CompType → BString
  | .lzma => stem ++ bt "." ++ vimName ++ bt ".tags.xz"
  | .gzip => stem ++ bt "." ++ vimName ++ bt ".tags.gz"
  | .none => stem ++ bt "." ++ vimName ++ bt ".tags"

/-- `write_plain_from_buffer`. -/
def writePlainFromBuffer (buf : BString) : BString := buf

/-- `write_gzip_from_buffer`; the value of `gzwrite` is taken as a `uint32_t`. -/
def writeGzipFromBuffer (zlib : Zlib) (buf : BString) : Except Fault BString :=
  if (zlib.gzwrite buf) % 2 ^ 32 = buf.length then .ok (zlib.file buf)
  else .error (.assertion "(uint32_t)gzwrite(gfp, buf->data, buf->slen) == buf->slen")

/-- `do { ret = lzma_code (…); } while (ret == LZMA_OK)`: the last `ret`, and the output. -/
def Lzma.finish (lzma : Lzma) (e : lzma.Encoder) (availOut : Nat) : LzmaRet × BString :=
  let c := lzma.code e availOut
  if _h : c.1 = .ok then
    let last := lzma.finish c.2.2 (availOut - c.2.1.length)
    (last.1, c.2.1 ++ last.2)
  else (c.1, c.2.1)
termination_by lzma.patience e
decreasing_by exact lzma.patience_code e availOut _h

/--
`write_lzma_from_buffer`.  The output buffer is as large as the input, and an error of
`lzma_code` is only warned about.
-/
def writeLzmaFromBuffer (lzma : Lzma) (gzfile buf : BString) : Except Fault BString :=
  let out := (lzma.finish (lzma.easyEncoder buf) buf.length).2
  if bt ".tags.xz" <:+: gzfile then .ok out
  else .error (.assertion "strstr(BS(topdir->gzfile), \".tags.xz\")")

/-- `write_gzfile_from_buffer` of `ctags.c`. -/
def writeGzfileFromBuffer (zlib : Zlib) (lzma : Lzma) (comptype : CompType)
    (gzfile buf : BString) : Except Fault BString :=
  match comptype with
  | .none => .ok (writePlainFromBuffer buf)
  | .lzma => writeLzmaFromBuffer lzma gzfile buf
  | .gzip => writeGzipFromBuffer zlib buf

/-! ### Reading -/

/-- `plain_getlines`. -/
def plainGetlines (tags : List BString) (file : BString) : List BString × Int :=
  (tags ++ breakIntoLines file, 1)

/-- `get_size`: where there are no eight bytes to read, the size stays `(size_t)(-1)`. -/
def gzipSize (file : BString) : Nat :=
  if file.length < 8 then 2 ^ 64 - 1 else isize file

/-- `gz_getlines`; `gzread` takes an `unsigned` length. -/
def gzGetlines (zlib : Zlib) (tags : List BString) (file : BString) :
    Except Fault (List BString × Int) :=
  let uncompressed := gzipSize file
  let (numread, outBuf) := zlib.gzread file (uncompressed % 2 ^ 32)
  if numread = 0 ∨ numread = uncompressed then .ok (tags ++ breakIntoLines outBuf, 1)
  else .error (.assertion "numread == 0 || numread == (int64_t)size.uncompressed")

/-- `parse_indexes`; a file that could not hold two stream headers is not looked into. -/
def parseIndexes (lzma : Lzma) (file : BString) : Option ArchiveSize :=
  if file.length < 2 * 12 then none else lzma.fileInfo file

/--
`xz_getlines`.  Without an index nothing is read.  Where the decoder leaves some of the
output buffer unwritten, the text that is split into lines is whatever was there.
-/
def xzGetlines (lzma : Lzma) (tags : List BString) (file : BString) :
    Except Fault (List BString × Int) :=
  match parseIndexes lzma file with
  | none => .ok (tags, 0)
  | some size =>
      if size.archive < file.length then
        .error (.errx 1 "Error reading file: buffer too small.")
      else
        let outBuf := lzma.decode file size.uncompressed
        if outBuf.length = size.uncompressed then .ok (tags ++ breakIntoLines outBuf, 1)
        else .error .undefined

/-- `getlines`. -/
def getlines (zlib : Zlib) (lzma : Lzma) (comptype : CompType) (tags : List BString)
    (file : BString) : Except Fault (List BString × Int) :=
  match comptype with
  | .none => .ok (plainGetlines tags file)
  | .gzip => gzGetlines zlib tags file
  | .lzma => xzGetlines lzma tags file

/-- The tags after ctags' output went through the cache file of this name. -/
def throughCache (zlib : Zlib) (lzma : Lzma) (comptype : CompType) (gzfile : BString)
    (tags : List BString) (buf : BString) : Except Fault (List BString) := do
  let file ← writeGzfileFromBuffer zlib lzma comptype gzfile buf
  let (tags, _) ← getlines zlib lzma comptype tags file
  .ok tags

end TagHighlight.Archive
