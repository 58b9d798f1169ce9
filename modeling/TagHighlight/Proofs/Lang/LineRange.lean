/-
When the bytes of a range of lines are those of its lines.

The counters go through the list in two stretches: up to line `first` both of them move, after
it only `endbyte` does.  So they end at the lengths of the texts of two prefixes of the list,
and what is between is the range.  The one thing in the way is `last + 1`, which is added up for
every line from `first` on.

Going through the list is going through its data, by `Proofs/Util/LinkedList`, and from there on
both functions are folds over a list of lines.  The range is compared with the text that
`ll_join_bstrings` makes of the same list, so that the two functions are right for each other.
-/
import TagHighlight.Lang.LineRange
import TagHighlight.Proofs.Util.Sequence

namespace TagHighlight.LineRange

open Ascii DList Fault

/-! ### Texts of lines -/

theorem textOf_cons (line : BString) (lines : List BString) :
    textOf (line :: lines) = line ++ newline :: textOf lines := by
  simp [textOf]

theorem textOf_append (as bs : List BString) : textOf (as ++ bs) = textOf as ++ textOf bs :=
  List.flatMap_append

theorem length_textOf_cons (line : BString) (lines : List BString) :
    (textOf (line :: lines)).length = line.length + 1 + (textOf lines).length := by
  rw [textOf_cons, List.length_append, List.length_cons]
  omega

/-- A text that has room for its length has room for the lengths of its lines. -/
theorem spaceFor_eq {line : BString} (h : line.length + 1 < 2 ^ 32) :
    spaceFor line = (line.length + 1 : Nat) := by
  rw [spaceFor, Nat.mod_eq_of_lt h]

/-! ### The counters

The loop adds the length of each line to one of the counters or to both, and is left when the line
behind `last` is reached.  So the counters are lengths of texts of the first lines, for two
numbers of lines.
-/

section Counters

variable {lines : List BString} {first last i : Nat}

/-- From line `first` on, only `endbyte` moves, until line `last` is passed. -/
theorem forIn_inside (hlast : (last : Int) < intMax) (start : Int) : ∀ {lines : List BString}
    {i e : Nat}, (textOf lines).length < 2 ^ 32 → first ≤ i →
    ∃ i' : Int, forIn lines ({ startbyte := start, endbyte := e, i := i } : Counters)
        (rangeStep first last) =
      .ok { startbyte := start, endbyte := (e + (textOf (lines.take (last + 1 - i))).length : Nat)
            i := i' } := by
  intro lines
  induction lines with
  | nil => intro i e _ _; exact ⟨i, by simp [textOf]⟩
  | cons line lines ih =>
      intro i e htotal hi
      rw [length_textOf_cons] at htotal
      rw [List.forIn_cons, rangeStep, if_neg (by simpa using hi), intSucc, if_pos hlast]
      by_cases hle : i ≤ last
      · obtain ⟨i', hrun⟩ := ih (i := i + 1) (e := e + (line.length + 1)) (by omega) (by omega)
        refine ⟨i', ?_⟩
        have hcount : last + 1 - i = (last + 1 - (i + 1)) + 1 := by omega
        simp only [Fault.ok_bind]
        rw [if_pos (by omega), Fault.ok_bind, spaceFor_eq (by omega), hcount, List.take_succ_cons,
          length_textOf_cons, ← Nat.add_assoc]
        exact hrun
      · simp only [Fault.ok_bind]
        rw [if_neg (by omega), Fault.ok_bind, show last + 1 - i = 0 by omega]
        exact ⟨i, by simp [textOf]⟩

/-- Up to line `first`, both counters move. -/
theorem forIn_before (hfirst : first ≤ last) : ∀ {lines : List BString} {i s : Nat},
    (textOf lines).length < 2 ^ 32 → i ≤ first →
    ((last : Int) < intMax ∨ i + lines.length ≤ first) →
    ∃ i' : Int, forIn lines ({ startbyte := s, endbyte := s, i := i } : Counters)
        (rangeStep first last) =
      .ok { startbyte := (s + (textOf (lines.take (first - i))).length : Nat)
            endbyte := (s + (textOf (lines.take (last + 1 - i))).length : Nat)
            i := i' } := by
  intro lines
  induction lines with
  | nil => intro i s _ _ _; exact ⟨i, by simp [textOf]⟩
  | cons line lines ih =>
      intro i s htotal hi hfits
      by_cases heq : i = first
      · -- The first line of the range.
        subst heq
        have hlast : (last : Int) < intMax := by
          simp only [List.length_cons] at hfits
          omega
        obtain ⟨i', hrun⟩ := forIn_inside (e := s) hlast s htotal (Nat.le_refl i)
        exact ⟨i', by rw [hrun, Nat.sub_self]; rfl⟩
      rw [length_textOf_cons] at htotal
      rw [List.length_cons] at hfits
      obtain ⟨i', hrun⟩ := ih (i := i + 1) (s := s + (line.length + 1)) (by omega) (by omega)
        (by omega)
      refine ⟨i', ?_⟩
      rw [List.forIn_cons, rangeStep, if_pos (show (i : Int) < first by omega), Fault.ok_bind,
        spaceFor_eq (by omega), show first - i = (first - (i + 1)) + 1 by omega,
        show last + 1 - i = (last + 1 - (i + 1)) + 1 by omega]
      simp only [List.take_succ_cons, length_textOf_cons, ← Nat.add_assoc]
      exact hrun

/-- With `INT_MAX` for `last`, the line `first` is not counted. -/
theorem forIn_overflow (hlast : ¬(last : Int) < intMax) : ∀ {lines : List BString} {i : Nat}
    {s : Counters}, s.i = i → i ≤ first → first < i + lines.length →
    forIn lines s (rangeStep first last) = .error .undefined := by
  intro lines
  induction lines with
  | nil =>
      intro i s _ hi hlt
      simp only [List.length_nil] at hlt
      omega
  | cons line lines ih =>
      intro i s hs hi hlt
      rw [List.length_cons] at hlt
      rw [List.forIn_cons, rangeStep]
      by_cases heq : i = first
      · rw [if_neg (by omega), intSucc, if_neg hlast]
        rfl
      · rw [if_pos (by omega), Fault.ok_bind]
        exact ih (i := i + 1) (by simp [hs]) (by omega) (by omega)

end Counters

/-! ### The joined text

The text is made with the same lengths, one line behind the other with a separator.  As long as it
has 32 bits, the library appends each of them whole.
-/

variable {lib : JoinLib} {list : LinkedList BString} {lines : List BString} {first last : Nat}

theorem forIn_join (hlib : lib.Appends) : ∀ {lines : List BString} {joined : BString},
    joined.length + (textOf lines).length < 2 ^ 32 →
    forIn lines joined (fun line joined =>
        (.ok (.yield (lib.catchar (lib.concat joined line) 10)) : Except Fault (ForInStep BString))) =
      .ok (joined ++ textOf lines) := by
  intro lines
  induction lines with
  | nil => intro joined _; simp [textOf]
  | cons line lines ih =>
      intro joined htotal
      rw [length_textOf_cons] at htotal
      have hnewline : UInt8.ofInt 10 = newline := by decide
      rw [List.forIn_cons, Fault.ok_bind, hlib.concat _ _ (by omega),
        hlib.catchar _ _ (by rw [List.length_append]; omega), hnewline, textOf_cons]
      dsimp only
      rw [ih (by simp only [List.length_append, List.length_singleton]; omega)]
      simp only [List.append_assoc, List.singleton_append]

theorem llJoinBstrings_spec (hlib : lib.Appends) (h : Represents list lines)
    (htotal : (textOf lines).length < 2 ^ 32) :
    llJoinBstrings lib list 10 = .ok (textOf lines) := by
  obtain ⟨cells, hrep, rfl⟩ := h
  -- How much is asked for at first makes no difference.
  obtain ⟨len, hlen⟩ : ∃ len, llForeach list (0 : UInt32) (fun line len =>
      .ok (.yield (len + (UInt32.ofNat line.length + 1)))) = .ok len :=
    ⟨_, (hrep.foreach _ _).trans (List.forIn_pure_yield_eq_foldl _ _)⟩
  have hroom : ([] : BString).length + (textOf (vals cells)).length < 2 ^ 32 := by
    simpa using htotal
  have hjoin := forIn_join hlib hroom
  rw [llJoinBstrings]
  simp only [if_pos (show (10 : Int) ≠ 0 by decide)]
  rw [hlen, Fault.ok_bind, hlib.create, hrep.foreach]
  exact hjoin

/-! ### The range

A stretch of the text between the lengths of two of its beginnings is the text of the lines
between them.  With the greatest `int` for `last` the loop does not get over the first line that
would count, for there the sum overflows.
-/

theorem lines2bytes_spec (h : Represents list lines) (hle : first ≤ last)
    (htotal : (textOf lines).length < 2 ^ 32)
    (hfits : (last : Int) < intMax ∨ lines.length ≤ first) :
    lines2bytes list first last = .ok (((textOf (lines.take first)).length : Int),
      ((textOf (lines.take (last + 1))).length : Int)) := by
  obtain ⟨cells, hrep, rfl⟩ := h
  obtain ⟨i', hrun⟩ := forIn_before (i := 0) (s := 0) hle htotal (Nat.zero_le _) (by omega)
  rw [Nat.zero_add, Nat.zero_add] at hrun
  rw [lines2bytes, hrep.foreach]
  exact congrArg (· >>= fun s => .ok (s.startbyte, s.endbyte)) hrun

theorem lines2bytes_overflow (h : Represents list lines) (hlast : ¬(last : Int) < intMax)
    (hlt : first < lines.length) : lines2bytes list first last = .error .undefined := by
  obtain ⟨cells, hrep, rfl⟩ := h
  rw [lines2bytes, hrep.foreach, forIn_overflow (i := 0) hlast rfl (Nat.zero_le _) (by omega)]
  rfl

/-- The text of the range lies between the texts of two prefixes. -/
theorem textOf_take (lines : List BString) (hle : first ≤ last) :
    textOf (lines.take (last + 1)) =
      textOf (lines.take first) ++ textOf (lineRange lines first last) := by
  rw [← textOf_append, lineRange]
  congr 1
  conv_lhs => rw [← List.take_append_drop first (lines.take (last + 1))]
  rw [List.take_take, Nat.min_eq_left (by omega)]

theorem textOf_split (lines : List BString) (k : Nat) :
    textOf lines = textOf (lines.take k) ++ textOf (lines.drop k) := by
  rw [← textOf_append, List.take_append_drop]

/-- Without an overflow, the range is that of the lines. -/
theorem rangeAgrees (hlib : lib.Appends) (h : Represents list lines)
    (htotal : (textOf lines).length < 2 ^ 32) (hle : first ≤ last)
    (hfits : (last : Int) < intMax ∨ lines.length ≤ first) :
    RangeAgrees lib list lines first last := by
  have hjoined := textOf_take lines hle
  have hsplit := textOf_split lines (last + 1)
  have hs : (textOf (lines.take first)).length ≤ (textOf (lines.take (last + 1))).length := by
    rw [hjoined, List.length_append]
    omega
  refine ⟨_, _, _, lines2bytes_spec h hle htotal hfits, llJoinBstrings_spec hlib h htotal, hs,
    ?_, ?_, ?_⟩
  · rw [hsplit, List.length_append]
    omega
  · rw [← List.drop_take, hsplit, List.take_left, hjoined, List.drop_left]
  · intro hbeyond
    rw [List.take_of_length_le hbeyond, List.take_of_length_le (by omega)]

/--
**The range is that of the lines** exactly if `last` is not `INT_MAX`, or no line is to be
counted.
-/
theorem rangeAgrees_iff (lib : JoinLib) (hlib : lib.Appends) (list : LinkedList BString)
    (lines : List BString) (h : Represents list lines) (htotal : (textOf lines).length < 2 ^ 32)
    (first last : Nat) (hle : first ≤ last) :
    RangeAgrees lib list lines first last ↔ (last : Int) < intMax ∨ lines.length ≤ first := by
  constructor
  · intro hagrees
    by_contra hcond
    obtain ⟨hlast, hlt⟩ := not_or.mp hcond
    obtain ⟨s, e, joined, hrun, -⟩ := hagrees
    rw [lines2bytes_overflow h hlast (Nat.not_le.mp hlt)] at hrun
    cases hrun
  · exact rangeAgrees hlib h htotal hle

/-- A string library that appends. -/
def plainLib : JoinLib :=
  { create := fun _ => [], concat := fun s line => s ++ line
    catchar := fun s c => s ++ [UInt8.ofInt c] }

theorem plainLib_appends : plainLib.Appends :=
  ⟨fun _ => rfl, fun _ _ _ => rfl, fun _ _ _ => rfl⟩

/-- The lines `ab` and `c`. -/
def twoLines : LinkedList BString :=
  { head := some 0, tail := some 1, qty := 2
    mem := fun a => [(⟨[97, 98], none, some 1⟩ : Node BString), ⟨[99], some 0, none⟩][a]?
    brk := 2 }

theorem represents_twoLines : Represents twoLines [[97, 98], [99]] := by
  refine ⟨[(0, [97, 98]), (1, [99])],
    ⟨⟨rfl, rfl, trivial⟩, rfl, rfl, rfl, by decide, fun a ha => ?_⟩, rfl⟩
  exact List.getElem?_eq_none ha

/-- The second of the two lines, and whatever comes after it. -/
theorem rangeAgrees_iff_two : RangeAgrees plainLib twoLines [[97, 98], [99]] 1 5 ↔
    ((5 : Nat) : Int) < intMax ∨ [[97, 98], [99]].length ≤ 1 :=
  rangeAgrees_iff plainLib plainLib_appends twoLines _ represents_twoLines (by decide) 1 5 (by decide)

/-- All lines up to the greatest `int`: the first line makes `last + 1` overflow. -/
theorem rangeAgrees_intMax : plainLib.Appends ∧ Represents twoLines [[97, 98], [99]] ∧
    (textOf [[97, 98], [99]]).length < 2 ^ 32 ∧
    lines2bytes twoLines 0 2147483647 = .error .undefined ∧
    ¬RangeAgrees plainLib twoLines [[97, 98], [99]] 0 2147483647 := by
  have hrun : lines2bytes twoLines 0 2147483647 = .error .undefined :=
    @lines2bytes_overflow twoLines _ 0 2147483647 represents_twoLines (by decide) (by decide)
  refine ⟨plainLib_appends, represents_twoLines, by decide, hrun, fun hagrees => ?_⟩
  obtain ⟨s, e, joined, hok, -⟩ := hagrees
  cases hrun.symm.trans hok

end TagHighlight.LineRange
