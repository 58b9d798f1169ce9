/-
The marks that were collected are what Neovim hears.

A mark is a call with a buffer, a group and three numbers.  The numbers are sent as signed ones of
64 bits, and those of a mark come from an `unsigned` each, so they are heard as they are if they
fit an `int`.  The rest is known of any calls that are collected and sent at once; `marks_heard`
only says which calls these are, the one in front of them included, which clears the buffer.
-/
import TagHighlight.Lang.Marks
import TagHighlight.Proofs.NvimApi.CmdCalls

namespace TagHighlight

open Atomic

variable {bufnum hlId : Int32} {again : Bool} {marks : List Mark}

/-- A number that an `int` has is sent as it is. -/
theorem numOfUnsigned_ofNat {n : Nat} (h : n < 2 ^ 31) :
    (numOfUnsigned (UInt32.ofNat n)).toInt = n := by
  have hnat : (UInt32.ofNat n).toNat = n := UInt32.toNat_ofNat_of_lt' (Nat.lt_trans h (by decide))
  rw [numOfUnsigned, hnat]
  exact Int64.toInt_ofInt_of_le (by omega) (by omega)

namespace Mark

theorem op_ok {m : Mark} (h : m.Fits) : (m.op bufnum hlId).Ok := by
  have hnat : ∀ {n : Nat}, n < 2 ^ 31 → (UInt32.ofNat n).toNat < 2 ^ 31 := by
    intro n hn
    rwa [UInt32.toNat_ofNat_of_lt' (Nat.lt_trans hn (by decide))]
  exact ⟨h.group, hnat h.line, hnat h.start, hnat h.stop⟩

theorem op_message {m : Mark} (h : m.Fits) :
    (m.op bufnum hlId).tree.message = m.message bufnum hlId := by
  simp only [op, Op.tree, Tree.message, treeMessages, message, numOfUnsigned_ofNat h.line,
    numOfUnsigned_ofNat h.start, numOfUnsigned_ofNat h.stop, Int32.toInt_toInt64]
  rfl

end Mark

theorem markOps_ok (h : ∀ m ∈ marks, m.Fits) : ∀ op ∈ markOps bufnum hlId again marks, op.Ok := by
  intro op hop
  rcases List.mem_append.mp hop with hclear | hmark
  · cases again with
    | false => cases hclear
    | true =>
        obtain rfl := List.mem_singleton.mp hclear
        trivial
  · obtain ⟨m, hm, rfl⟩ := List.mem_map.mp hmark
    exact Mark.op_ok (h m hm)

theorem markOps_messages (h : ∀ m ∈ marks, m.Fits) :
    (markOps bufnum hlId again marks).map (fun op => op.tree.message) =
      markMessages bufnum hlId again marks := by
  rw [markOps, markMessages, List.map_append, List.map_map]
  congr 1
  · cases again with
    | false => rfl
    | true => simp [Op.tree, Tree.message, treeMessages, clearMessage]
  · exact List.map_congr_left fun m hm => Mark.op_message (h m hm)

theorem length_markOps : (markOps bufnum hlId again marks).length ≤ marks.length + 1 := by
  rw [markOps, List.length_append, List.length_map]
  cases again with
  | false => simp
  | true => simp [Nat.add_comm]

/-- The buffer is cleared and marked, if there is anything to say at all. -/
theorem marks_heard {lib : BStringLib} (hlib : lib.Grows) {count : Int32} {calls : MpackArgArray}
    (hcollect : (markOps bufnum hlId again marks).foldlM Op.add newArgArray = .ok calls)
    (h : ∀ m ∈ marks, m.Fits) (hsome : again = true ∨ marks ≠ [])
    (hroom : (markRequest count bufnum hlId again marks).HasRoom lib) :
    SaysCalls lib count calls (markMessages bufnum hlId again marks) := by
  rw [← markOps_messages h]
  refine highlights_heard hlib hcollect (markOps_ok h) ?_ hroom
  rcases hsome with rfl | hne
  · exact List.cons_ne_nil _ _
  · simpa [markOps] using fun _ => hne

end TagHighlight
