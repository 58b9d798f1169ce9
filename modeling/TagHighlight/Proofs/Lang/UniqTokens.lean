/-
What the loop over the sorted tokens compares.

The first token is moved out before the loop starts, so that the very first comparison is
with a null pointer.  With two tokens or more there is such a comparison, whatever they are.
What `b_iseq` answers then is not known, and with it neither is the list.

`rounds_eq` follows the loop through the array: at each round the slots before are done with,
the slot before this one is `before`, and the rest are tokens that were not touched.
-/
import TagHighlight.Lang.UniqTokens
import TagHighlight.Proofs.Lang.CtagsScan

namespace TagHighlight.CtagsScan

variable {lib : Library} {strcmp : BString → BString → Int} {vimbuf : List BString}

/-! ### Rounds

The array is the slots that are done with, the one that is compared with, and those to come.  The
slot that is compared with has a token only if the token was not moved; the loop moves each that
it keeps.
-/

/-- The calls of `b_iseq` on these tokens, where the slot before the first holds `before`. -/
def callsOn (lib : Library) (before : Option BString) :
    List BString → List (Option BString × Option BString)
  | [] => []
  | tok :: toks =>
      (some tok, before) :: callsOn lib (if lib.iseq (some tok) before then some tok else none) toks

/-- The array while the loop stands at `tok`. -/
theorem slot_at (pre : List (Option BString)) (before : Option BString) (tok : BString)
    (toks : List BString) (u : List (Option BString))
    (calls : List (Option BString × Option BString)) :
    let s : UniqState := ⟨pre ++ before :: some tok :: toks.map some, u, calls⟩
    s.slot (pre.length + 1) = some tok ∧ s.slot pre.length = before := by
  constructor
  · simp [UniqState.slot]
  · simp [UniqState.slot]

theorem set_at (pre : List (Option BString)) (before : Option BString) (tok : BString)
    (toks : List BString) :
    (pre ++ before :: some tok :: toks.map some).set (pre.length + 1) none =
      (pre ++ [before]) ++ none :: toks.map some := by
  rw [List.set_append_right _ _ (by omega)]
  simp

/-- The rounds from one slot on are those of `uniqLoop`. -/
theorem rounds_eq (lib : Library) (toks : List BString) (pre : List (Option BString))
    (before : Option BString)
    (u : List (Option BString)) (calls : List (Option BString × Option BString)) :
    let s := UniqState.rounds lib toks.length (pre.length + 1)
      ⟨pre ++ before :: toks.map some, u, calls⟩
    s.uniq = u ++ (uniqLoop lib before toks).map some ∧
      s.calls = calls ++ callsOn lib before toks := by
  induction toks generalizing pre before u calls with
  | nil => simp [UniqState.rounds, uniqLoop, callsOn]
  | cons tok toks ih =>
    obtain ⟨hslot, hbefore⟩ := slot_at pre before tok toks u calls
    have hlen : pre.length + 1 + 1 = (pre ++ [before]).length + 1 := by simp
    simp only [List.map_cons, List.length_cons, UniqState.rounds, UniqState.round,
      Nat.add_sub_cancel, hslot, hbefore, uniqLoop, callsOn]
    by_cases heq : lib.iseq (some tok) before = true
    · rw [if_pos heq, if_pos heq, if_pos heq, hlen,
        show pre ++ before :: some tok :: toks.map some =
          (pre ++ [before]) ++ some tok :: toks.map some by simp]
      obtain ⟨huniq, hcalls⟩ := ih (pre ++ [before]) (some tok) u (calls ++ [(some tok, before)])
      exact ⟨huniq, by rw [hcalls, List.append_assoc, List.singleton_append]⟩
    · rw [if_neg heq, if_neg heq, if_neg heq, hlen]
      unfold UniqState.move
      obtain ⟨hslot', -⟩ := slot_at pre before tok toks u (calls ++ [(some tok, before)])
      simp only [hslot', set_at]
      obtain ⟨huniq, hcalls⟩ :=
        ih (pre ++ [before]) none (u ++ [some tok]) (calls ++ [(some tok, before)])
      refine ⟨?_, by rw [hcalls, List.append_assoc, List.singleton_append]⟩
      rw [huniq, List.append_assoc, List.map_cons, List.singleton_append]

/-- The whole loop: what it leaves is what the threads are given, and what it compares. -/
theorem uniqTokens_eq (hperm : (lib.qsort vimbuf).Perm vimbuf) {tok : BString}
    {toks : List BString} (hsorted : lib.qsort vimbuf = tok :: toks) :
    (uniqTokens lib vimbuf).uniq = (uniq lib (lib.qsort vimbuf)).map some ∧
      (uniqTokens lib vimbuf).calls = callsOn lib none toks := by
  have hlen : vimbuf.length - 1 = toks.length := by
    rw [← hperm.length_eq, hsorted, List.length_cons, Nat.add_sub_cancel]
  obtain ⟨huniq, hcalls⟩ := rounds_eq lib toks [] none [some tok] []
  rw [hsorted]
  simp only [uniqTokens, hlen, hsorted]
  exact ⟨huniq, hcalls⟩

/-- If a null pointer counts as a different string, every token is kept, repeats as well. -/
theorem uniq_of_null_unequal (hnull : ∀ tok, lib.iseq (some tok) none = false)
    (list : List BString) : uniq lib list = list := by
  have hloop : ∀ toks, uniqLoop lib none toks = toks := by
    intro toks
    induction toks with
    | nil => rfl
    | cons tok toks ih => rw [uniqLoop, if_neg (by rw [hnull]; decide), ih]
  cases list with
  | nil => rfl
  | cons tok toks => rw [uniq, hloop]

/-- If it counts as the same, a token that follows one that was moved is lost. -/
theorem uniq_of_null_equal (hnull : ∀ tok, lib.iseq (some tok) none = true) (tok tok' : BString) :
    uniq lib [tok, tok'] = [tok] := by
  rw [uniq, uniqLoop, if_pos (hnull tok'), uniqLoop]

/-! ### When it is right

With two tokens or more there is a comparison with null, which the loop never meant to make.  What
it leads to depends on the answer: if null is unlike every string then repeats are kept, and if it
is like one, a token is lost that may be no repeat.
-/

/-- The second token is compared with what the first one has left behind. -/
theorem null_compared {tok : BString} {toks : List BString} :
    (some tok, none) ∈ callsOn lib none (tok :: toks) := List.mem_cons_self

/--
**The loop is right exactly for a single token**, where there is nothing to compare.
-/
theorem uniqTokens_isUniq_iff (hlib : Compares lib strcmp) (hne : vimbuf ≠ []) :
    IsUniq lib strcmp vimbuf (uniqTokens lib vimbuf) ↔ vimbuf.length = 1 := by
  have hlength := (hlib.perm vimbuf).length_eq
  have hpos := List.length_pos_of_ne_nil hne
  obtain ⟨tok, toks, hsorted⟩ := List.exists_cons_of_length_pos (hlength ▸ hpos)
  obtain ⟨huniq, hcalls⟩ := uniqTokens_eq (hlib.perm vimbuf) hsorted
  rw [hsorted, List.length_cons] at hlength
  constructor
  · intro h
    cases toks with
    | nil => exact hlength.symm
    | cons tok' toks' =>
      have hnull := h.compared (some tok', none) (by rw [hcalls]; exact null_compared)
      exact absurd rfl hnull.2
  · intro hone
    obtain rfl : toks = [] := List.length_eq_zero_iff.mp (by omega)
    have hmem : ∀ t, t ∈ [tok] ↔ t ∈ vimbuf := by
      intro t
      rw [← hsorted]
      exact (hlib.perm vimbuf).mem_iff
    refine ⟨?_, [tok], ?_, List.pairwise_singleton _ _, hmem, ?_⟩
    · rw [hcalls]
      intro call hcall
      exact absurd hcall List.not_mem_nil
    · rw [huniq, hsorted]
      rfl
    · intro name
      rw [hlib.bsearch name [tok] (List.pairwise_singleton _ _)]
      exact hmem name

/-! ### One token, and two -/

/-- Names by length, then by bytes. -/
def byLength (a b : BString) : Int := tagCmp ⟨a, 0⟩ ⟨b, 0⟩

theorem plainLibrary_compares : Compares plainLibrary byLength where
  perm list := List.Perm.refl list
  bsearch name list _ := by simp [plainLibrary]

theorem uniqTokens_isUniq_one :
    IsUniq plainLibrary byLength [bt "main"] (uniqTokens plainLibrary [bt "main"]) :=
  (uniqTokens_isUniq_iff plainLibrary_compares (by decide)).mpr (by decide)

/-- Of two tokens the second one is compared with a null pointer. -/
theorem twoTokens_null :
    (uniqTokens plainLibrary [bt "f", bt "main"]).calls = [(some (bt "main"), none)] ∧
      ¬IsUniq plainLibrary byLength [bt "f", bt "main"]
        (uniqTokens plainLibrary [bt "f", bt "main"]) := by
  have hcalls : (uniqTokens plainLibrary [bt "f", bt "main"]).calls = [(some (bt "main"), none)] := by
    decide
  refine ⟨hcalls, fun h => ?_⟩
  have hnull := h.compared (some (bt "main"), none) (by rw [hcalls]; exact List.mem_singleton_self _)
  exact hnull.2 rfl

end TagHighlight.CtagsScan
