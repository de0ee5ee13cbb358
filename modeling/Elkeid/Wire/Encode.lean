import Elkeid.Foundations.Buffer
import Elkeid.Foundations.LittleEndian
import Elkeid.Foundations.Varint

/-!
# The driver plugin's record encoder

`plugins/driver/src/transformer.rs` computes the length of a frame first and
then fills the destination buffer from its end to its start.  The model keeps
that order: a `Cursor` is the pair of the mutable `index` and the buffer, and
`none` stands for a panic (an index below zero or past the slice).
-/

namespace Elkeid.Wire

open Foundations Buffer

def leadingZeros (n : Nat) : Nat := 63 - n.log2

def encodedVarintLen (n : Nat) : Nat :=
  ((leadingZeros (n ||| 1) ^^^ 63) * 9 + 73) / 64

def encodeVarintLoop (n i : Nat) (dst : Bytes) : Option (Bytes × Nat) :=
  if 0x80 ≤ n then do
    let dst ← write dst i [0x80 ||| UInt8.ofNat n]
    encodeVarintLoop (n >>> 7) (i + 1) dst
  else do
    let dst ← write dst i [UInt8.ofNat n]
    pure (dst, i + 1)
termination_by n
decreasing_by
  rw [Nat.shiftRight_eq_div_pow]
  omega

def encodeVarint (n : Nat) (dst : Bytes) : Option (Bytes × Nat) :=
  encodeVarintLoop n 0 dst

structure Cursor where
  index : Nat
  dst : Bytes
  deriving DecidableEq

namespace Cursor

/-- `index -= n`, which panics below zero. -/
def retreat (cursor : Cursor) (n : Nat) : Option Cursor :=
  if n ≤ cursor.index then some { cursor with index := cursor.index - n } else none

/-- `index -= block.len(); dst[index..index + block.len()].copy_from_slice(block)` -/
def putBytes (cursor : Cursor) (block : Bytes) : Option Cursor := do
  let cursor ← cursor.retreat block.length
  let dst ← write cursor.dst cursor.index block
  pure { cursor with dst := dst }

/-- `index -= 1; dst[index] = byte` -/
def putByte (cursor : Cursor) (byte : UInt8) : Option Cursor :=
  cursor.putBytes [byte]

/-- `index -= encoded_varint_len(n); encode_varint(n, &mut dst[index..])` -/
def putVarint (cursor : Cursor) (n : Nat) : Option Cursor := do
  let cursor ← cursor.retreat (encodedVarintLen n)
  if cursor.index ≤ cursor.dst.length then
    let (slice, _) ← encodeVarint n (cursor.dst.drop cursor.index)
    pure { cursor with dst := cursor.dst.take cursor.index ++ slice }
  else none

end Cursor

/-- The length of one map entry without its tag and length, as the first loop
of `protobuf_encode` computes it. -/
def entryLength (key value : Bytes) : Nat :=
  1 + key.length + encodedVarintLen key.length +
    1 + value.length + encodedVarintLen value.length

/-- The first loop: `values[i]` panics when there are fewer values than keys. -/
def mapLength : List Bytes → List Bytes → Option Nat
  | [], _ => some 0
  | _ :: _, [] => none
  | key :: keys, value :: values => do
      let rest ← mapLength keys values
      pure (1 + entryLength key value + encodedVarintLen (entryLength key value) + rest)

/-- The second loop: entry `i` is written right below entry `i - 1`. -/
def putEntries : List Bytes → List Bytes → Cursor → Option Cursor
  | [], _, cursor => some cursor
  | _ :: _, [], _ => none
  | key :: keys, value :: values, cursor => do
      let baseIndex := cursor.index
      let cursor ← cursor.putBytes value
      let cursor ← cursor.putVarint value.length
      let cursor ← cursor.putByte 0x12
      let cursor ← cursor.putBytes key
      let cursor ← cursor.putVarint key.length
      let cursor ← cursor.putByte 0xa
      let entryLength := baseIndex - cursor.index
      let cursor ← cursor.putVarint entryLength
      let cursor ← cursor.putByte 0xa
      putEntries keys values cursor

/-- `u32::to_le_bytes` of the low 32 bits. -/
abbrev u32ToLeBytes (n : Nat) : Bytes := LittleEndian.word n

/-- `Error::new(ErrorKind::WriteZero, "not enough buffer")` -/
inductive EncodeError where
  | writeZero (message : String)
  deriving DecidableEq

def neededLength (timestamp : Nat) (keys values : List Bytes) (dataType : Nat) :
    Option Nat := do
  let mapLength ← mapLength keys values
  pure ((if 0 < dataType then 3 + encodedVarintLen dataType else 0) +
    (if 0 < timestamp then 3 + encodedVarintLen timestamp else 0) +
    (if 0 < keys.length then 1 + mapLength + encodedVarintLen mapLength else 0))

/-- `protobuf_encode`: the number of bytes written and the new buffer. -/
def protobufEncode (timestamp : Nat) (keys values : List Bytes) (dst : Bytes)
    (dataType : Nat) : Option (Except EncodeError (Nat × Bytes)) := do
  let mapLength ← mapLength keys values
  let neededLength ← neededLength timestamp keys values dataType
  if dst.length < neededLength then
    pure (.error (.writeZero "not enough buffer"))
  else
    let cursor : Cursor := { index := neededLength, dst := dst }
    let cursor ←
      if 0 < keys.length then do
        let cursor ← putEntries keys values cursor
        cursor.putVarint mapLength
      else pure cursor
    let cursor ← cursor.putByte 0x1a
    let cursor ←
      if timestamp ≠ 0 then do
        let cursor ← cursor.putVarint timestamp
        cursor.putByte 0x10
      else pure cursor
    let cursor ← cursor.putVarint dataType
    let dst ← write cursor.dst 4 [0x8]
    if neededLength < 4 then none
    else
      let dst ← write dst 0 (u32ToLeBytes (neededLength - 4))
      pure (.ok (neededLength, dst))

end Elkeid.Wire
