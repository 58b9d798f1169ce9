/-
A message is not heard before all of it is there.

What a reader hears at the front of some bytes it hears there as well when more bytes follow, and
it leaves these.  So a piece of a message is no message: were it one, then the whole would be heard
with something left over.  A reader to whom a message comes in pieces has to wait for the last of
them, and cannot take it for another one.
-/
import TagHighlight.Mpack.Message

namespace TagHighlight

/-! ### More bytes behind

`hearFuel` is given more fuel when there are more bytes, so the two sides of the statement are two
readers, the second with at least the fuel of the first.  The readers are built from one another,
and so are the proofs; the induction is over the fuel of the first.
-/

section Extends

variable {α β : Type}

/-- What `h` takes from the front, `h'` takes when there is more behind it, and leaves that. -/
def Extends (h h' : Hearer α) : Prop :=
  ∀ bs x rest, h bs = some (x, rest) → ∀ more, h' (bs ++ more) = some (x, rest ++ more)

/-- One after the other. -/
theorem Extends.bind {h h' : Hearer α} {k k' : α → Hearer β} (hh : Extends h h')
    (hk : ∀ x, Extends (k x) (k' x)) :
    Extends (fun bs => (h bs).bind fun p => k p.1 p.2) fun bs => (h' bs).bind fun p => k' p.1 p.2 := by
  intro bs y rest hrun more
  obtain ⟨⟨x, bs'⟩, hfirst, hnext⟩ := Option.bind_eq_some_iff.mp hrun
  simp only [hh _ _ _ hfirst more, Option.bind_some]
  exact hk x _ _ _ hnext more

theorem Extends.pure (x : α) : Extends (fun bs => some (x, bs)) fun bs => some (x, bs) := by
  intro bs y rest hrun more
  cases hrun
  rfl

theorem extends_takeBytes (n : Nat) : Extends (takeBytes n) (takeBytes n) := by
  intro bs x rest hrun more
  obtain ⟨hlen, hcut⟩ := Option.ite_none_left_eq_some.mp hrun
  cases hcut
  have hle : n ≤ bs.length := Nat.not_lt.mp hlen
  rw [takeBytes, if_neg (by rw [List.length_append]; omega), List.take_append_of_le_length hle,
    List.drop_append_of_le_length hle]

theorem extends_takeNat (size : Nat) : Extends (takeNat size) (takeNat size) :=
  (extends_takeBytes size).bind fun digits => .pure (Bytes.ofLE digits.reverse)

variable {h h' : Hearer Message}

theorem extends_hearItems (hh : Extends h h') (count : Nat) :
    Extends (hearItems h count) (hearItems h' count) := by
  induction count with
  | zero => exact .pure []
  | succ count ih => exact hh.bind fun item => ih.bind fun items => .pure (item :: items)

theorem extends_hearEntries (hh : Extends h h') (count : Nat) :
    Extends (hearEntries h count) (hearEntries h' count) := by
  induction count with
  | zero => exact .pure []
  | succ count ih =>
      exact hh.bind fun key => hh.bind fun value => ih.bind fun entries => .pure ((key, value) :: entries)

theorem extends_hearString (len : Nat) : Extends (hearString len) (hearString len) :=
  (extends_takeBytes len).bind fun str => .pure (Message.string str)

theorem extends_hearArray (hh : Extends h h') (len : Nat) :
    Extends (hearArray h len) (hearArray h' len) :=
  (extends_hearItems hh len).bind fun items => .pure (Message.array items)

theorem extends_hearMap (hh : Extends h h') (len : Nat) :
    Extends (hearMap h len) (hearMap h' len) :=
  (extends_hearEntries hh len).bind fun entries => .pure (Message.dictionary entries)

theorem extends_hearExt (len : Nat) : Extends (hearExt len) (hearExt len) :=
  (extends_takeBytes 1).bind fun type =>
    (extends_takeBytes len).bind fun payload => .pure (Message.ext (type.headD 0) payload)

/-- Whatever the first byte announces. -/
theorem extends_hearAfter (hh : Extends h h') (head : Head) :
    Extends (hearAfter h head) (hearAfter h' head) := by
  cases head with
  | fixint n => exact .pure _
  | negFixint n => exact .pure _
  | nil => exact .pure _
  | boolean b => exact .pure _
  | uint size => exact (extends_takeNat size).bind fun n => .pure (Message.integer n)
  | int size => exact (extends_takeNat size).bind fun n => .pure (Message.integer (signedOf size n))
  | fixstr len => exact extends_hearString len
  | str size => exact (extends_takeNat size).bind extends_hearString
  | fixarray len => exact extends_hearArray hh len
  | array size => exact (extends_takeNat size).bind (extends_hearArray hh)
  | fixmap len => exact extends_hearMap hh len
  | map size => exact (extends_takeNat size).bind (extends_hearMap hh)
  | fixext len => exact extends_hearExt len
  | ext8 => exact (extends_takeNat 1).bind extends_hearExt
  | other =>
      intro bs x rest hrun
      cases hrun

theorem extends_hearFuel {fuel fuel' : Nat} (hle : fuel ≤ fuel') :
    Extends (hearFuel fuel) (hearFuel fuel') := by
  induction fuel generalizing fuel' with
  | zero =>
      intro bs x rest hrun
      cases hrun
  | succ fuel ih =>
      obtain ⟨fuel', rfl⟩ := Nat.exists_eq_succ_of_ne_zero (show fuel' ≠ 0 by omega)
      intro bs x rest hrun more
      cases bs with
      | nil => cases hrun
      | cons b bs => exact extends_hearAfter (ih (Nat.le_of_succ_le_succ hle)) (headOf b) _ _ _ hrun more

end Extends

/-! ### Pieces

If a piece were heard as a message, the whole would be heard as the same message with something
left over.  But a whole message is heard with nothing left over, and hearing is a function.
-/

/-- What is heard is heard whatever follows. -/
theorem hear_append {bs rest : BString} {m : Message} (h : hear bs = some (m, rest))
    (more : BString) : hear (bs ++ more) = some (m, rest ++ more) :=
  extends_hearFuel (by simp) _ _ _ h more

/-- A piece of a message is not heard at all. -/
theorem hear_piece {piece rest : BString} {m : Message} (h : hear (piece ++ rest) = some (m, []))
    (hrest : rest ≠ []) : hear piece = none := by
  refine Option.eq_none_iff_forall_ne_some.mpr fun heard hpiece => ?_
  have hwhole := hear_append hpiece rest
  rw [h, Option.some.injEq, Prod.mk.injEq] at hwhole
  exact hrest (List.append_eq_nil_iff.mp hwhole.2.symm).2

end TagHighlight
