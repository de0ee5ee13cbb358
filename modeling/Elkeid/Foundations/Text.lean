import Mathlib

/-!
# Bytes and printed numbers

The texts that `%d`, `%u` and `%04x` conversions print. Every byte they print
lies above the control characters, so no separator below the blank can occur.
-/

namespace Elkeid.Foundations

abbrev Bytes := List UInt8

/-- A C string without its final NUL. -/
structure CString where
  bytes : Bytes
  nulFree : 0 ∉ bytes
  deriving DecidableEq

namespace Text

def ofChars (characters : List Char) : Bytes :=
  characters.map (fun character => UInt8.ofNat character.toNat)

def decimal (n : Nat) : Bytes := ofChars (Nat.toDigits 10 n)

def signedDecimal (n : Int) : Bytes :=
  if n < 0 then 0x2d :: decimal n.natAbs else decimal n.natAbs

def hexDigit (n : Nat) : UInt8 :=
  if n < 10 then UInt8.ofNat (0x30 + n) else UInt8.ofNat (0x57 + n)

/-- `%04x` of a 16-bit number. -/
def hexadecimal (n : BitVec 16) : Bytes :=
  [n.toNat / 4096 % 16, n.toNat / 256 % 16, n.toNat / 16 % 16, n.toNat % 16].map hexDigit

/-- No byte of the text is a control character. -/
def Printable (text : Bytes) : Prop := ∀ byte ∈ text, 0x20 ≤ byte

theorem Printable.not_mem {text : Bytes} {mark : UInt8} (printable : Printable text)
    (control : mark < 0x20) : mark ∉ text := by
  intro membership
  exact absurd control (UInt8.not_lt.mpr (printable mark membership))

theorem Printable.cons {head : UInt8} {tail : Bytes} (visible : 0x20 ≤ head)
    (after : Printable tail) : Printable (head :: tail) := by
  intro byte membership
  rcases List.mem_cons.mp membership with first | inTail
  · rw [first]
    exact visible
  · exact after byte inTail

end Text

end Elkeid.Foundations
