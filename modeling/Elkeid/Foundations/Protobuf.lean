import Elkeid.Foundations.Varint
import Elkeid.Foundations.Text

/-!
# The protocol buffer wire format

A message is a sequence of fields, each a tag that carries the field's number and
wire type followed by the value.  `message` reads a byte string as such a sequence
and refuses whatever is not one; the canonical encoding is read back as it was.
-/

namespace Elkeid.Foundations

open List Option Varint

namespace Varint

/-- Reads a varint of at most `budget` bytes, which need not be canonical. -/
def decode : Nat → Bytes → Option (Nat × Bytes)
  | 0, _ => none
  | _ + 1, [] => none
  | budget + 1, byte :: rest =>
    if byte < 0x80 then some (byte.toNat, rest)
    else do
      let (high, rest) ← decode budget rest
      some (byte.toNat % 128 + 128 * high, rest)

@[simp]
theorem decode_cons (budget : Nat) (byte : UInt8) (rest : Bytes) :
    decode (budget + 1) (byte :: rest) = if byte < 0x80 then some (byte.toNat, rest)
      else (decode budget rest).bind fun (high, rest) =>
        some (byte.toNat % 128 + 128 * high, rest) := rfl

theorem decode_encode {n budget : Nat} (enough : (encode n).length ≤ budget) (rest : Bytes) :
    decode budget (encode n ++ rest) = some (n, rest) := by
  induction n using Nat.strongRecOn generalizing budget with
  | ind n ih =>
    obtain ⟨budget, rfl⟩ := Nat.exists_eq_add_one.mpr
      (lt_of_lt_of_le (encode_length_pos n) enough)
    by_cases small : n < 128
    · have byteValue : (UInt8.ofNat n).toNat = n := by
        rw [UInt8.toNat_ofNat']
        omega
      have last : UInt8.ofNat n < 0x80 := by
        rw [UInt8.lt_iff_toNat_lt, byteValue]
        exact small
      rw [encode_of_lt small, singleton_append, decode_cons, if_pos last, byteValue]
    · have large : 128 ≤ n := Nat.not_lt.mp small
      have byteValue : (UInt8.ofNat (n % 128 + 128)).toNat = n % 128 + 128 := by
        rw [UInt8.toNat_ofNat']
        omega
      have continues : ¬ UInt8.ofNat (n % 128 + 128) < 0x80 := by
        rw [UInt8.lt_iff_toNat_lt, byteValue]
        exact Nat.not_lt.mpr (Nat.le_add_left 128 (n % 128))
      rw [encode_of_ge large, length_cons] at enough
      rw [encode_of_ge large, cons_append, decode_cons, if_neg continues,
        ih (n / 128) (by omega) (Nat.le_of_succ_le_succ enough),
        bind_some]
      dsimp only
      rw [byteValue, show (n % 128 + 128) % 128 + 128 * (n / 128) = n by omega]

theorem encode_length_le {n : Nat} (bounded : n < 2 ^ 64) : (encode n).length ≤ 10 := by
  have leading : n.log2 < 64 := by
    by_cases zero : n = 0
    · subst zero
      decide
    · exact (Nat.log2_lt zero).mpr bounded
  rw [encode_length]
  omega

end Varint

namespace Protobuf

inductive Value where
  | varint (n : Nat)
  | fixed64 (bytes : Bytes)
  | lengthDelimited (bytes : Bytes)
  | fixed32 (bytes : Bytes)
  deriving DecidableEq

structure Field where
  number : Nat
  value : Value
  deriving DecidableEq

def takeBytes (count : Nat) (bytes : Bytes) : Option (Bytes × Bytes) :=
  if count ≤ bytes.length then some (bytes.take count, bytes.drop count) else none

/-- The value behind a tag; the groups of wire types 3 and 4 are refused. -/
def readValue (wireType : Nat) (bytes : Bytes) : Option (Value × Bytes) :=
  match wireType with
  | 0 => (decode 10 bytes).map fun (n, rest) => (.varint (n % 2 ^ 64), rest)
  | 1 => (takeBytes 8 bytes).map fun (block, rest) => (.fixed64 block, rest)
  | 2 => do
      let (count, rest) ← decode 10 bytes
      (takeBytes count rest).map fun (block, rest) => (.lengthDelimited block, rest)
  | 5 => (takeBytes 4 bytes).map fun (block, rest) => (.fixed32 block, rest)
  | _ => none

def readField (bytes : Bytes) : Option (Field × Bytes) := do
  let (tag, rest) ← decode 10 bytes
  if tag / 8 = 0 then none
  else (readValue (tag % 8) rest).map fun (value, rest) => (⟨tag / 8, value⟩, rest)

def fieldsIn : Nat → Bytes → Option (List Field)
  | _, [] => some []
  | 0, _ :: _ => none
  | fuel + 1, byte :: bytes => do
      let (field, rest) ← readField (byte :: bytes)
      (fieldsIn fuel rest).map (field :: ·)

/-- A field takes at least one byte. -/
def message (bytes : Bytes) : Option (List Field) := fieldsIn bytes.length bytes

namespace Value

def wireType : Value → Nat
  | varint _ => 0
  | fixed64 _ => 1
  | lengthDelimited _ => 2
  | fixed32 _ => 5

def encode : Value → Bytes
  | varint n => Varint.encode n
  | fixed64 bytes | fixed32 bytes => bytes
  | lengthDelimited bytes => Varint.encode bytes.length ++ bytes

/-- The values that the format can carry. -/
def Encodable : Value → Prop
  | varint n => n < 2 ^ 64
  | fixed64 bytes => bytes.length = 8
  | lengthDelimited bytes => bytes.length < 2 ^ 64
  | fixed32 bytes => bytes.length = 4

theorem wireType_lt (value : Value) : value.wireType < 8 := by
  cases value <;> simp [wireType]

end Value

namespace Field

def tag (field : Field) : Nat := field.number * 8 + field.value.wireType

def encode (field : Field) : Bytes := Varint.encode field.tag ++ field.value.encode

structure Encodable (field : Field) : Prop where
  numbered : 0 < field.number
  tagged : field.tag < 2 ^ 64
  value : field.value.Encodable

end Field

theorem takeBytes_append {count : Nat} {block : Bytes} (extent : block.length = count)
    (rest : Bytes) : takeBytes count (block ++ rest) = some (block, rest) := by
  subst extent
  rw [takeBytes, if_pos (by rw [length_append]; exact Nat.le_add_right _ _), take_left, drop_left]

theorem readValue_encode {value : Value} (encodable : value.Encodable) (rest : Bytes) :
    readValue value.wireType (value.encode ++ rest) = some (value, rest) := by
  cases value with
  | varint n =>
    have read := decode_encode (encode_length_le encodable) rest
    have whole : n % 2 ^ 64 = n := Nat.mod_eq_of_lt encodable
    simp only [readValue, Value.wireType, Value.encode, read, map_some, whole]
  | fixed64 | fixed32 =>
    simp only [readValue, Value.wireType, Value.encode, takeBytes_append encodable, map_some]
  | lengthDelimited bytes =>
    have read := decode_encode (encode_length_le encodable) (bytes ++ rest)
    simp only [readValue, Value.wireType, Value.encode, append_assoc, read,
      bind_eq_bind, bind_some, takeBytes_append rfl, map_some]

theorem readField_encode {field : Field} (encodable : field.Encodable) (rest : Bytes) :
    readField (field.encode ++ rest) = some (field, rest) := by
  have kind := field.value.wireType_lt
  have number : field.tag / 8 = field.number := by
    rw [Field.tag]
    omega
  have wireType : field.tag % 8 = field.value.wireType := by
    rw [Field.tag]
    omega
  have tagRead := decode_encode (encode_length_le encodable.tagged) (field.value.encode ++ rest)
  simp only [readField, Field.encode, append_assoc, tagRead, bind_eq_bind,
    bind_some, number, wireType, if_neg encodable.numbered.ne',
    readValue_encode encodable.value, map_some]

theorem Field.encode_length_pos (field : Field) : 0 < field.encode.length := by
  rw [Field.encode, length_append]
  exact Nat.add_pos_left (Varint.encode_length_pos _) _

theorem fieldsIn_succ {bytes : Bytes} (nonempty : 0 < bytes.length) (fuel : Nat) :
    fieldsIn (fuel + 1) bytes =
      (readField bytes).bind fun (field, rest) => (fieldsIn fuel rest).map (field :: ·) := by
  cases bytes with
  | nil => cases nonempty
  | cons byte rest => rfl

theorem fieldsIn_encode {fields : List Field} (encodable : ∀ field ∈ fields, field.Encodable)
    {fuel : Nat} (enough : (fields.flatMap Field.encode).length ≤ fuel) :
    fieldsIn fuel (fields.flatMap Field.encode) = some fields := by
  induction fields generalizing fuel with
  | nil => cases fuel <;> rfl
  | cons field fields ih =>
    have positive := field.encode_length_pos
    rw [flatMap_cons, length_append] at enough
    obtain ⟨fuel, rfl⟩ := Nat.exists_eq_add_one.mpr (show 0 < fuel by omega)
    obtain ⟨first, others⟩ := forall_mem_cons.mp encodable
    have nonempty : 0 < (field.encode ++ fields.flatMap Field.encode).length := by
      rw [length_append]
      exact Nat.add_pos_left positive _
    rw [flatMap_cons, fieldsIn_succ nonempty, readField_encode first, bind_some]
    dsimp only
    rw [ih others (by omega), map_some]

theorem message_encode {fields : List Field} (encodable : ∀ field ∈ fields, field.Encodable) :
    message (fields.flatMap Field.encode) = some fields :=
  fieldsIn_encode encodable (le_refl _)

end Protobuf

end Elkeid.Foundations
