/-
What the cache of a project's tags gives back.

The plain and the gzip file hold all of what ctags printed, so that reading them gives the
lines that the output itself does.  An xz file gets as many bytes as the *input* has, for
that is the room `write_lzma_from_buffer` provides: `finish_output` says so for any way in
which liblzma hands its output out.  A stream that is longer is cut off and has no index any
more, and nothing is read from it.

So the cache is exact if the stream is no longer than the text, and besides only where there
is no complete line to lose.
-/
import Mathlib.Data.List.TakeWhile
import TagHighlight.Util.Archive

namespace TagHighlight.Archive

open Taglist (breakIntoLines getlinesFromBuffer)

/-! ### Lines

A line is what stands in front of a newline, so a text without one has no line.  For texts without
a NUL this is the only case in which nothing is found.
-/

theorem takeWhile_nonzero {buf : BString} (h : 0 ∉ buf) : buf.takeWhile (· ≠ 0) = buf := by
  rw [List.takeWhile_eq_self_iff]
  intro b hb
  simp only [decide_not, Bool.not_eq_true', decide_eq_false_iff_not]
  intro h0
  exact h (h0 ▸ hb)

/-- A line is found for every newline. -/
theorem length_splitOn (buf : BString) : (buf.splitOn 10).length = buf.count 10 + 1 := by
  induction buf with
  | nil => rfl
  | cons b buf ih =>
    rw [List.splitOn_cons_eq_if_modifyHead]
    by_cases h : b = 10
    · subst h
      rw [if_pos (by rfl), List.length_cons, ih, List.count_cons_self]
    · rw [if_neg (by simpa using h), List.length_modifyHead, ih, List.count_cons_of_ne h]

theorem breakIntoLines_eq_nil_iff {buf : BString} (h : 0 ∉ buf) :
    breakIntoLines buf = [] ↔ 10 ∉ buf := by
  unfold breakIntoLines
  rw [takeWhile_nonzero h, ← List.length_eq_zero_iff, List.length_dropLast, length_splitOn]
  rw [Nat.add_sub_cancel, List.count_eq_zero]

/-! ### Gzip -/

theorem getlines_gzip {zlib : Zlib} {buf : BString} (h : zlib.Lossless buf)
    (hlen : buf.length < 2 ^ 32) (tags : List BString) :
    gzGetlines zlib tags (zlib.file buf) = .ok (tags ++ breakIntoLines buf, 1) := by
  obtain ⟨hsize, hisize⟩ := h.size
  have huncompressed : gzipSize (zlib.file buf) = buf.length := by
    rw [gzipSize, if_neg (by omega), hisize, Nat.mod_eq_of_lt hlen]
  simp only [gzGetlines, huncompressed, Nat.mod_eq_of_lt hlen, h.gzread, or_true, if_true]

theorem write_gzip {zlib : Zlib} {buf : BString} (h : zlib.Lossless buf)
    (hlen : buf.length < 2 ^ 32) : writeGzipFromBuffer zlib buf = .ok (zlib.file buf) := by
  rw [writeGzipFromBuffer, h.gzwrite, if_pos (by omega)]

/-! ### The encoder in its loop

What the library does with the room it is given in one call is its own affair.  It hands its
output out in pieces that together begin the stream, and stops when there is no room left; so the
loop ends with as much of the stream as there was room for, however the pieces are cut.
-/

section Encoder

variable (lzma : Lzma)

/-- The loop puts out what the stream has, as far as there is room for it. -/
theorem finish_output (e : lzma.Encoder) (availOut : Nat) :
    (lzma.finish e availOut).2 = (lzma.rest e).take availOut := by
  fun_induction lzma.finish e availOut with
  | case1 e availOut c hok last ih =>
    have hlen : c.2.1.length ≤ availOut := lzma.code_length e availOut
    show c.2.1 ++ last.2 = (lzma.rest e).take availOut
    rw [ih, ← lzma.rest_code e availOut, List.take_append, List.take_of_length_le hlen]
  | case2 e availOut c hok =>
    have hlen : c.2.1.length ≤ availOut := lzma.code_length e availOut
    have hrest : c.2.1 ++ lzma.rest c.2.2 = lzma.rest e := lzma.rest_code e availOut
    show c.2.1 = (lzma.rest e).take availOut
    rw [← hrest, List.take_append, List.take_of_length_le hlen]
    cases hret : c.1 with
    | ok => exact absurd hret hok
    | streamEnd =>
      -- Nothing is left, so there is nothing to cut off.
      have hend : lzma.rest c.2.2 = [] := (lzma.streamEnd_iff e availOut).mp hret
      rw [hend, List.take_nil, List.append_nil]
    | bufError =>
      have hfull : c.2.1.length = availOut := lzma.bufError e availOut hret
      rw [hfull, Nat.sub_self, List.take_zero, List.append_nil]

/-- What is in an xz file: the stream, as far as the input is long. -/
theorem write_lzma {gzfile : BString} (h : bt ".tags.xz" <:+: gzfile) (buf : BString) :
    writeLzmaFromBuffer lzma gzfile buf = .ok ((lzma.stream buf).take buf.length) := by
  simp only [writeLzmaFromBuffer, if_pos h, finish_output, Lzma.stream]

end Encoder

theorem suffix_getTagFilename (stem vimName : BString) :
    bt ".tags.xz" <:+: getTagFilename stem vimName .lzma :=
  (List.suffix_append _ _).isInfix

/-! ### Reading an xz file

A stream has its index at the end, and the size of the text is read from there.  So of a stream
that was cut off nothing is known, and the reader gives up.
-/

section Reader

variable {lzma : Lzma} {buf : BString}

/-- From the whole stream come all the lines. -/
theorem xzGetlines_stream (h : lzma.Lossless buf) (tags : List BString) :
    xzGetlines lzma tags (lzma.stream buf) = .ok (tags ++ breakIntoLines buf, 1) := by
  have hindex : parseIndexes lzma (lzma.stream buf) =
      some ⟨(lzma.stream buf).length, buf.length⟩ := by
    rw [parseIndexes, if_neg (by have := h.header; omega), h.fileInfo]
  simp only [xzGetlines, hindex, Nat.lt_irrefl, if_false, h.decode, if_true]

/-- From a stream that was cut off comes nothing. -/
theorem xzGetlines_cut (h : lzma.Lossless buf) (tags : List BString) {n : Nat}
    (hn : n < (lzma.stream buf).length) :
    xzGetlines lzma tags ((lzma.stream buf).take n) = .ok (tags, 0) := by
  have hindex : parseIndexes lzma ((lzma.stream buf).take n) = none := by
    unfold parseIndexes
    split
    · rfl
    · exact h.cut n hn
  simp only [xzGetlines, hindex]

end Reader

/-! ### Through the cache -/

section Cache

variable {zlib : Zlib} {lzma : Lzma} {buf : BString}

theorem throughCache_none (gzfile : BString) (tags : List BString) :
    throughCache zlib lzma .none gzfile tags buf = .ok (getlinesFromBuffer tags buf) := rfl

theorem throughCache_gzip (h : zlib.Lossless buf) (hlen : buf.length < 2 ^ 32)
    (gzfile : BString) (tags : List BString) :
    throughCache zlib lzma .gzip gzfile tags buf = .ok (getlinesFromBuffer tags buf) := by
  simp only [throughCache, writeGzfileFromBuffer, getlines, write_gzip h hlen, Fault.ok_bind,
    getlines_gzip h hlen, getlinesFromBuffer]

theorem throughCache_lzma (h : lzma.Lossless buf) {gzfile : BString}
    (hname : bt ".tags.xz" <:+: gzfile) (tags : List BString) :
    throughCache zlib lzma .lzma gzfile tags buf =
      .ok (if (lzma.stream buf).length ≤ buf.length then getlinesFromBuffer tags buf
        else tags) := by
  simp only [throughCache, writeGzfileFromBuffer, getlines, write_lzma lzma hname,
    Fault.ok_bind]
  split
  · rename_i hfits
    rw [List.take_of_length_le hfits, xzGetlines_stream h, Fault.ok_bind, getlinesFromBuffer]
  · rename_i hcut
    rw [xzGetlines_cut h tags (by omega), Fault.ok_bind]

/--
**What is read back from the cache is what `getlines_from_buffer` gives exactly if it is not
an xz file, or the xz stream is no longer than the text, or the text has no complete line.**
-/
theorem throughCache_eq_iff (hzlib : zlib.Lossless buf) (hlzma : lzma.Lossless buf)
    (hnul : 0 ∉ buf) (hlen : buf.length < 2 ^ 32) (comptype : CompType) (stem vimName : BString)
    (tags : List BString) :
    throughCache zlib lzma comptype (getTagFilename stem vimName comptype) tags buf =
        .ok (getlinesFromBuffer tags buf) ↔
      (comptype = .lzma → (lzma.stream buf).length ≤ buf.length ∨ 10 ∉ buf) := by
  cases comptype with
  | none => simp [throughCache_none]
  | gzip => simp [throughCache_gzip hzlib hlen]
  | lzma =>
    rw [throughCache_lzma hlzma (suffix_getTagFilename stem vimName)]
    by_cases hfits : (lzma.stream buf).length ≤ buf.length
    · simp [hfits]
    · -- Nothing is read, which is right just if there was nothing to be read.
      rw [if_neg hfits]
      simp only [forall_const, hfits, false_or, ← breakIntoLines_eq_nil_iff hnul]
      rw [getlinesFromBuffer, Except.ok.injEq]
      constructor
      · intro h
        exact List.self_eq_append_right.mp h
      · intro h
        rw [h, List.append_nil]

end Cache

/-! ### The output for a file with one function

An xz stream takes more than sixty bytes before it has any text in it, so a small project has none
of its tags in the cache.
-/

/-- A zlib that has made this file of these bytes. -/
def zlibOf (file buf : BString) : Zlib where
  gzwrite b := b.length
  file _ := file
  gzread _ n := (((buf.take n).length : Int), buf.take n)

/-- A liblzma that has made this stream of these bytes, and hands out all there is room for. -/
def lzmaOf (stream buf : BString) : Lzma where
  Encoder := BString
  easyEncoder _ := stream
  code e n :=
    (if e.length ≤ n then .streamEnd else .bufError, e.take n, e.drop n)
  rest e := e
  patience _ := 0
  code_length e n := List.length_take_le n e
  rest_code e n := List.take_append_drop n e
  streamEnd_iff e n := by
    rw [List.drop_eq_nil_iff]
    split <;> simp_all
  bufError e n := by
    intro h
    split at h
    · cases h
    · rw [List.length_take]
      omega
  patience_code e n := by
    intro h
    split at h <;> cases h
  fileInfo file := if file = stream then some ⟨stream.length, buf.length⟩ else none
  decode _ _ := buf

theorem lzmaOf_lossless {stream buf : BString} (h : 24 ≤ stream.length) :
    (lzmaOf stream buf).Lossless buf where
  header := h
  fileInfo := if_pos rfl
  decode := rfl
  cut := by
    intro n hn
    have hn : n < stream.length := hn
    show (if stream.take n = stream then _ else none) = none
    rw [if_neg]
    intro heq
    have hlen := congrArg List.length heq
    rw [List.length_take] at hlen
    omega

/-- `main`, a tab, `main.c`, a tab, `1;"`, a tab, `f` and a newline. -/
def oneTag : BString :=
  [109, 97, 105, 110, 9, 109, 97, 105, 110, 46, 99, 9, 49, 59, 34, 9, 102, 10]

/-- The gzip file of it. -/
def oneTagGz : BString :=
  [31, 139, 8, 0, 0, 0, 0, 0, 0, 3, 203, 77, 204, 204, 227, 204, 5, 18, 122, 201, 156, 134, 214,
    74, 156, 105, 92, 0, 45, 236, 6, 50, 18, 0, 0, 0]

/-- The xz stream of it: 76 bytes for 18. -/
def oneTagXz : BString :=
  [253, 55, 122, 88, 90, 0, 0, 4, 230, 214, 180, 70, 2, 0, 33, 1, 22, 0, 0, 0, 116, 47, 229, 163,
    1, 0, 17, 109, 97, 105, 110, 9, 109, 97, 105, 110, 46, 99, 9, 49, 59, 34, 9, 102, 10, 0, 0, 0,
    112, 101, 132, 104, 69, 193, 14, 55, 0, 1, 42, 18, 75, 8, 84, 188, 31, 182, 243, 125, 1, 0, 0,
    0, 0, 4, 89, 90]

theorem zlibOf_lossless {file buf : BString} (hsize : 8 ≤ file.length)
    (hisize : isize file = buf.length % 2 ^ 32) : (zlibOf file buf).Lossless buf where
  gzwrite := rfl
  size := ⟨hsize, hisize⟩
  gzread := by simp [zlibOf]

/-- The one tag is lost: the output has a line, and from the cache comes none. -/
theorem oneTag_lost :
    (zlibOf oneTagGz oneTag).Lossless oneTag ∧ (lzmaOf oneTagXz oneTag).Lossless oneTag ∧
      0 ∉ oneTag ∧ getlinesFromBuffer [] oneTag = [oneTag.dropLast] ∧
      throughCache (zlibOf oneTagGz oneTag) (lzmaOf oneTagXz oneTag) .lzma
        (getTagFilename (bt "cache/tags/src") (bt "c") .lzma) [] oneTag = .ok [] := by
  have hlzma : (lzmaOf oneTagXz oneTag).Lossless oneTag := lzmaOf_lossless (by decide)
  refine ⟨zlibOf_lossless (by decide) (by decide), hlzma, by decide, by decide, ?_⟩
  rw [throughCache_lzma hlzma (suffix_getTagFilename _ _), if_neg]
  show ¬oneTagXz.length ≤ oneTag.length
  decide

/-- Sixty lines with an `a` each. -/
def sixtyLines : BString := (List.replicate 60 [97, 10]).flatten

/-- The gzip file of them. -/
def sixtyLinesGz : BString :=
  [31, 139, 8, 0, 0, 0, 0, 0, 0, 3, 75, 228, 74, 28, 16, 8, 0, 174, 22, 29, 176, 120, 0, 0, 0]

/-- The xz stream of them: 68 bytes for 120. -/
def sixtyLinesXz : BString :=
  [253, 55, 122, 88, 90, 0, 0, 4, 230, 214, 180, 70, 2, 0, 33, 1, 22, 0, 0, 0, 116, 47, 229, 163,
    224, 0, 119, 0, 8, 93, 0, 48, 130, 169, 144, 16, 0, 0, 0, 0, 183, 2, 236, 65, 55, 45, 26, 222,
    0, 1, 36, 120, 131, 173, 176, 143, 31, 182, 243, 125, 1, 0, 0, 0, 0, 4, 89, 90]

/-- These compress well enough, and are read back. -/
theorem sixtyLines_kept :
    throughCache (zlibOf sixtyLinesGz sixtyLines) (lzmaOf sixtyLinesXz sixtyLines) .lzma
        (getTagFilename (bt "cache/tags/src") (bt "c") .lzma) [] sixtyLines =
      .ok (getlinesFromBuffer [] sixtyLines) := by
  refine (throughCache_eq_iff (zlibOf_lossless (by decide) (by decide))
    (lzmaOf_lossless (by decide)) (by decide) (by decide) .lzma _ _ _).mpr ?_
  intro _
  left
  show sixtyLinesXz.length ≤ sixtyLines.length
  decide

end TagHighlight.Archive
