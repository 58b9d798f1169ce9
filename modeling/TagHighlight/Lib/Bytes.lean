/-
Numbers as fixed-width byte strings, on a little-endian host.

`leBytes k n` is how a `k`-byte unsigned variable holding `n` lies in memory, and
`ofLE` reads such a variable back.  Reversing the bytes, `bswap`, is its own inverse,
which is all that a sender and a receiver of network byte order rely on.
-/
import Mathlib.Algebra.Group.Nat.Defs
import Mathlib.Data.Nat.Init
import Mathlib.Data.List.Basic

namespace Bytes

/-- The bytes of a `k`-byte unsigned variable that holds `n` modulo `256 ^ k`. -/
def leBytes : (k n : Nat) → List UInt8
  | 0, _ => []
  | k + 1, n => UInt8.ofNat n :: leBytes k (n / 256)

/-- The number that bytes in memory stand for. -/
def ofLE : List UInt8 → Nat
  | [] => 0
  | b :: bs => b.toNat + 256 * ofLE bs

/-- The `k`-byte number with the bytes of `n` in reverse order. -/
def bswap (k n : Nat) : Nat := ofLE (leBytes k n).reverse

/-- The same bytes in network byte order, the most significant one first. -/
def beBytes (k n : Nat) : List UInt8 := (leBytes k n).reverse

@[simp] theorem leBytes_length (k n : Nat) : (leBytes k n).length = k := by
  induction k generalizing n with
  | zero => rfl
  | succ k ih => simp [leBytes, ih]

theorem ofLE_leBytes (k n : Nat) : ofLE (leBytes k n) = n % 256 ^ k := by
  induction k generalizing n with
  | zero => simp [leBytes, ofLE, Nat.mod_one]
  | succ k ih =>
      have hbyte : (UInt8.ofNat n).toNat = n % 256 := by simp
      rw [leBytes, ofLE, ih, hbyte, Nat.pow_succ', Nat.mod_mul]

theorem ofLE_lt (bs : List UInt8) : ofLE bs < 256 ^ bs.length := by
  induction bs with
  | nil => simp [ofLE]
  | cons b bs ih =>
      have hb : b.toNat < 256 := UInt8.toNat_lt b
      rw [ofLE, List.length_cons, Nat.pow_succ']
      omega

theorem leBytes_ofLE (bs : List UInt8) : leBytes bs.length (ofLE bs) = bs := by
  induction bs with
  | nil => rfl
  | cons b bs ih =>
      have hb : b.toNat < 256 := UInt8.toNat_lt b
      have hdiv : (b.toNat + 256 * ofLE bs) / 256 = ofLE bs := by omega
      have hbyte : UInt8.ofNat (b.toNat + 256 * ofLE bs) = b := by
        refine UInt8.toNat_inj.mp ?_
        simp only [UInt8.toNat_ofNat', Nat.reducePow]
        omega
      rw [List.length_cons, ofLE, leBytes, hdiv, hbyte, ih]

/-- In memory, a swapped number is in network byte order. -/
theorem leBytes_bswap (k n : Nat) : leBytes k (bswap k n) = beBytes k n := by
  have hlen : (leBytes k n).reverse.length = k := by simp
  have hswap := leBytes_ofLE (leBytes k n).reverse
  rwa [hlen] at hswap

/-- Swapping twice gives the number back, cut to its width. -/
theorem bswap_bswap (k n : Nat) : bswap k (bswap k n) = n % 256 ^ k := by
  rw [bswap, leBytes_bswap, beBytes, List.reverse_reverse, ofLE_leBytes]

theorem bswap_lt (k n : Nat) : bswap k n < 256 ^ k := by
  have := ofLE_lt (leBytes k n).reverse
  simpa [bswap] using this

/-- What a receiver makes of a number that was swapped before it was sent. -/
theorem bswap_ofLE_leBytes (k n : Nat) : bswap k (ofLE (leBytes k (bswap k n))) = n % 256 ^ k := by
  rw [ofLE_leBytes, Nat.mod_eq_of_lt (bswap_lt k n), bswap_bswap]

/-- A number below a power of two joined to a mask above it. -/
theorem or_mask {k a b : Nat} (hb : b < 2 ^ k) : b ||| 2 ^ k * a = b + 2 ^ k * a := by
  rw [Nat.or_comm, ← Nat.two_pow_add_eq_or_of_lt hb, Nat.add_comm]

/-- What a mask above a power of two leaves of a number. -/
theorem and_mask {k low high mask : Nat} (hlow : low < 2 ^ k) :
    (2 ^ k * high + low) &&& (2 ^ k * mask) = 2 ^ k * (high &&& mask) := by
  refine Nat.eq_of_testBit_eq fun i => ?_
  rw [Nat.testBit_and, Nat.testBit_two_pow_mul_add high hlow, Nat.testBit_two_pow_mul,
    Nat.testBit_two_pow_mul, Nat.testBit_and]
  by_cases hi : i < k
  · simp [hi, Nat.not_le_of_lt hi]
  · simp [hi, Nat.le_of_not_lt hi]

/-- Swapping the bytes that lie in memory. -/
theorem bswap_ofLE (bs : List UInt8) : bswap bs.length (ofLE bs) = ofLE bs.reverse := by
  rw [bswap, leBytes_ofLE]

end Bytes
