import Elkeid.Foundations.Text

/-!
# Little-endian words

A 32-bit number as four bytes, lowest first; higher bits are cut off.
-/

namespace Elkeid.Foundations.LittleEndian

def word (n : Nat) : Bytes :=
  [UInt8.ofNat n, UInt8.ofNat (n / 2 ^ 8), UInt8.ofNat (n / 2 ^ 16), UInt8.ofNat (n / 2 ^ 24)]

def value : Bytes → Nat
  | [] => 0
  | byte :: bytes => byte.toNat + 256 * value bytes

@[simp]
theorem length_word (n : Nat) : (word n).length = 4 := rfl

theorem value_word {n : Nat} (bounded : n < 2 ^ 32) : value (word n) = n := by
  simp only [word, value, UInt8.toNat_ofNat']
  omega

theorem value_word_bitVec (n : BitVec 32) : BitVec.ofNat 32 (value (word n.toNat)) = n := by
  rw [value_word n.isLt, BitVec.ofNat_toNat, BitVec.setWidth_eq]

end Elkeid.Foundations.LittleEndian
