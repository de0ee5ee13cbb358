import Mathlib

/-!
# Base-128 varints

The canonical encoding writes seven bits per byte, least significant group
first, and sets the high bit of every byte but the last.  A number of `b` bits
takes `(b - 1) / 7 + 1` bytes; the encoder and the decoder of a concrete
program are compared with this encoding.
-/

namespace Elkeid.Foundations.Varint

open Nat BitVec

/-- The canonical encoding of a natural number. -/
def encode (n : Nat) : List UInt8 :=
  if n < 128 then [UInt8.ofNat n]
  else UInt8.ofNat (n % 128 + 128) :: encode (n / 128)
termination_by n
decreasing_by omega

theorem encode_of_lt {n : Nat} (small : n < 128) : encode n = [UInt8.ofNat n] := by
  rw [encode, if_pos small]

theorem encode_of_ge {n : Nat} (large : 128 ≤ n) :
    encode n = UInt8.ofNat (n % 128 + 128) :: encode (n / 128) := by
  rw [encode, if_neg (by omega)]

theorem encode_length_pos (n : Nat) : 0 < (encode n).length := by
  rw [encode]
  split <;> simp

theorem log2_div_128 {n : Nat} (large : 128 ≤ n) : n.log2 = (n / 128).log2 + 7 := by
  have quotientPos : n / 128 ≠ 0 := by omega
  have lower := log2_self_le quotientPos
  have upper := lt_log2_self (n := n / 128)
  have nonzero : n ≠ 0 := by omega
  rw [log2_eq_iff nonzero]
  constructor
  · rw [pow_add]
    omega
  · rw [show (n / 128).log2 + 7 + 1 = (n / 128).log2 + 1 + 7 by omega, pow_add]
    omega

theorem encode_length (n : Nat) : (encode n).length = n.log2 / 7 + 1 := by
  induction n using Nat.strongRecOn with
  | ind n ih =>
    by_cases small : n < 128
    · have bits : n.log2 < 7 := by
        by_cases zero : n = 0
        · subst zero
          decide
        · exact (log2_lt zero).mpr (by omega)
      rw [encode_of_lt small]
      simp only [List.length_singleton]
      omega
    · have large : 128 ≤ n := by omega
      rw [encode_of_ge large, List.length_cons, ih (n / 128) (by omega), log2_div_128 large]
      omega

theorem or_shift {width low group shift : Nat} (below : low < 2 ^ shift)
    (fits : low + group * 2 ^ shift < 2 ^ width) :
    BitVec.ofNat width low ||| BitVec.ofNat width group <<< shift =
      BitVec.ofNat width (low + group * 2 ^ shift) := by
  apply eq_of_toNat_eq
  have smallProduct : group * 2 ^ shift < 2 ^ width := by omega
  have smallGroup : group < 2 ^ width :=
    lt_of_le_of_lt (Nat.le_mul_of_pos_right group (Nat.two_pow_pos shift)) smallProduct
  rw [toNat_or, toNat_shiftLeft, toNat_ofNat, toNat_ofNat,
    toNat_ofNat, Nat.mod_eq_of_lt smallGroup, Nat.shiftLeft_eq, Nat.mod_eq_of_lt smallProduct,
    Nat.mod_eq_of_lt fits, Nat.mod_eq_of_lt (by omega), Nat.or_comm, mul_comm,
    ← Nat.two_pow_add_eq_or_of_lt below, add_comm]

theorem groups_eq (n shift : Nat) :
    n * 2 ^ shift = n % 128 * 2 ^ shift + n / 128 * 2 ^ (shift + 7) := by
  rw [pow_add]
  conv => lhs; rw [← mod_add_div n 128]
  ring

theorem next_shift {width low n shift : Nat} (below : low < 2 ^ shift) (large : 128 ≤ n)
    (fits : low + n * 2 ^ shift < 2 ^ width) :
    shift + 7 < width ∧ low + n % 128 * 2 ^ shift < 2 ^ (shift + 7) ∧
      low + n % 128 * 2 ^ shift + n / 128 * 2 ^ (shift + 7) = low + n * 2 ^ shift := by
  have parts := groups_eq n shift
  refine ⟨?_, ?_, by omega⟩
  · apply (Nat.pow_lt_pow_iff_right (by decide : 1 < 2)).mp
    have atLeast : 1 * 2 ^ (shift + 7) ≤ n / 128 * 2 ^ (shift + 7) :=
      mul_le_mul_right _ (by omega)
    omega
  · have : n % 128 * 2 ^ shift ≤ 127 * 2 ^ shift := mul_le_mul_right _ (by omega)
    rw [pow_add]
    omega

end Elkeid.Foundations.Varint
