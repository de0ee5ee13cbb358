import Elkeid.Wire.Layout

/-!
# The agent's frame parser

`Plugin.ReceiveData` of `agent/plugin/plugin.go` and `readVarint` of
`agent/plugin/protocol.go`.  The reader is the list of bytes still to come; it
ends with `io.EOF`.  A failed read leaves the reader where the failure found
it, and `ReceiveData` returns whatever record it had fetched by then together
with the error, because its results are named.
-/

namespace Elkeid.Wire

open Foundations Varint List

inductive ReadError where
  | eof
  | unexpectedEof
  /-- `ErrIntOverflowGrpc`, "proto: integer overflow" -/
  | intOverflow
  deriving DecidableEq

/-- The result of a read: a value or an error, and the bytes left. -/
abbrev Read (Value : Type) := EStateM.Result ReadError Bytes Value

/-- `io.ReadFull` into a slice of `count` bytes. -/
def readFull (count : Nat) (input : Bytes) : Read Bytes :=
  if count ≤ input.length then .ok (input.take count) (input.drop count)
  else if input = [] then .error .eof []
  else .error .unexpectedEof []

abbrev ofLeBytes (bytes : Bytes) : Nat := LittleEndian.value bytes

/-- `binary.Read(reader, binary.LittleEndian, &l)` for a `uint32`. -/
def readUint32 (input : Bytes) : Read Nat :=
  match readFull 4 input with
  | .ok bytes rest => .ok (ofLeBytes bytes) rest
  | .error error rest => .error error rest

/-- `reader.Discard(1)` -/
def discardByte : Bytes → Read Unit
  | [] => .error .eof []
  | _ :: rest => .ok () rest

/-- The loop of `readVarint`.  `int` has 64 bits, so the shifted group loses
what would stand above bit 63. -/
def readVarintLoop (shift varint eaten : Nat) (input : Bytes) : Read (Nat × Nat) :=
  if 64 ≤ shift then .error .intOverflow input
  else
    match input with
    | [] => .error .eof []
    | byte :: rest =>
      let varint := varint ||| ((byte &&& 0x7F).toNat <<< shift) % 2 ^ 64
      if byte < 0x80 then .ok (varint, eaten + 1) rest
      else readVarintLoop (shift + 7) varint (eaten + 1) rest

def readVarint (input : Bytes) : Read (Nat × Nat) :=
  readVarintLoop 0 0 0 input

/-- A Go byte slice: the array behind it up to the capacity, and the length. -/
structure Slice where
  backing : Bytes
  len : Nat
  len_le : len ≤ backing.length

namespace Slice

def bytes (slice : Slice) : Bytes := slice.backing.take slice.len

def cap (slice : Slice) : Nat := slice.backing.length

/-- `make([]byte, n)` -/
def make (n : Nat) : Slice := ⟨replicate n 0, n, by simp⟩

/-- `slice[:n]` for `n` within the capacity. -/
def reslice (slice : Slice) (n : Nat) (inside : n ≤ slice.cap) : Slice :=
  ⟨slice.backing, n, inside⟩

def overwrite (slice : Slice) (bytes : Bytes) : Slice :=
  ⟨bytes ++ slice.backing.drop bytes.length, slice.len, by
    have := slice.len_le
    simp
    omega⟩

@[simp]
theorem overwrite_bytes (slice : Slice) (bytes : Bytes) (full : bytes.length = slice.len) :
    (slice.overwrite bytes).bytes = bytes := by
  simp [overwrite, Slice.bytes, ← full]

end Slice

structure EncodedRecord where
  dataType : BitVec 32
  timestamp : BitVec 64
  data : Slice

/-- The part of `Plugin` that `ReceiveData` works on. -/
structure Plugin where
  reader : Bytes
  txCnt : Nat
  txBytes : Nat

inductive Reception where
  | received (record : EncodedRecord) (plugin : Plugin)
  | failed (record : Option EncodedRecord) (error : ReadError) (plugin : Plugin)
  | panicked

/-- The last part of `ReceiveData`: the payload's length varint is skipped and
the payload takes the rest of the announced `l` bytes. -/
def receivePayload (plugin : Plugin) (record : EncodedRecord) (l te : Nat) : Reception :=
  match readVarint plugin.reader with
  | .error error rest => .failed (some record) error { plugin with reader := rest }
  | .ok (_, e) rest =>
    let te := te + e
    if l < te then .panicked
    else
      let ne := l - te
      let data :=
        if inside : ne ≤ record.data.cap then record.data.reslice ne inside
        else Slice.make ne
      match readFull ne rest with
      | .error error left =>
        .failed (some { record with data := data.overwrite rest }) error
          { plugin with reader := left }
      | .ok payload left =>
        .received { record with data := data.overwrite payload }
          { reader := left
            txCnt := (plugin.txCnt + 1) % 2 ^ 64
            txBytes := (plugin.txBytes + l) % 2 ^ 64 }

/-- `Plugin.ReceiveData`; `pooled` is what `buffer.GetEncodedRecord` hands out. -/
def receiveData (plugin : Plugin) (pooled : EncodedRecord) : Reception :=
  match readUint32 plugin.reader with
  | .error error rest => .failed none error { plugin with reader := rest }
  | .ok l rest =>
  match discardByte rest with
  | .error error rest => .failed none error { plugin with reader := rest }
  | .ok _ rest =>
  match readVarint rest with
  | .error error rest => .failed (some pooled) error { plugin with reader := rest }
  | .ok (dt, e) rest =>
  match discardByte rest with
  | .error error rest => .failed (some pooled) error { plugin with reader := rest }
  | .ok _ rest =>
  let te := 1 + (e + 1)
  let record := { pooled with dataType := BitVec.ofNat 32 dt }
  match readVarint rest with
  | .error error rest => .failed (some record) error { plugin with reader := rest }
  | .ok (ts, e) rest =>
  match discardByte rest with
  | .error error rest => .failed (some record) error { plugin with reader := rest }
  | .ok _ rest =>
  let te := te + (e + 1)
  let record := { record with timestamp := BitVec.ofNat 64 ts }
  if te < l then receivePayload { plugin with reader := rest } record l te
  else
    .received record
      { reader := rest
        txCnt := (plugin.txCnt + 1) % 2 ^ 64
        txBytes := (plugin.txBytes + l) % 2 ^ 64 }

@[simp]
theorem readFull_append {count : Nat} {bytes rest : Bytes} (extent : bytes.length = count) :
    readFull count (bytes ++ rest) = .ok bytes rest := by
  subst extent
  simp [readFull]

@[simp]
theorem discardByte_cons (byte : UInt8) (rest : Bytes) :
    discardByte (byte :: rest) = .ok () rest := rfl

@[simp]
theorem discardByte_nil : discardByte [] = .error .eof [] := rfl

theorem readUint32_prefix {n : Nat} (bounded : n < 2 ^ 32) (rest : Bytes) :
    readUint32 (u32ToLeBytes n ++ rest) = .ok n rest := by
  rw [readUint32, readFull_append (by rfl)]
  simp [LittleEndian.value_word bounded]

theorem low_bits (byte : UInt8) : (byte &&& 0x7F).toNat = byte.toNat % 128 := by
  rw [UInt8.toNat_and]
  exact Nat.and_two_pow_sub_one_eq_mod byte.toNat 7

theorem or_group {varint group shift : Nat} (collected : varint < 2 ^ shift)
    (bounded : group * 2 ^ shift < 2 ^ 64) :
    varint ||| (group <<< shift) % 2 ^ 64 = varint + group * 2 ^ shift := by
  rw [Nat.shiftLeft_eq, Nat.mod_eq_of_lt bounded, Nat.or_comm, mul_comm group,
    ← Nat.two_pow_add_eq_or_of_lt collected]
  omega

theorem readVarintLoop_encode (n shift varint eaten : Nat) (rest : Bytes)
    (shiftBound : shift < 64) (collected : varint < 2 ^ shift)
    (bounded : n * 2 ^ shift < 2 ^ 64) :
    readVarintLoop shift varint eaten (encode n ++ rest) =
      .ok (varint + n * 2 ^ shift, eaten + (encode n).length) rest := by
  induction n using Nat.strongRecOn generalizing shift varint eaten with
  | ind n ih =>
    by_cases small : n < 128
    · have byteValue : (UInt8.ofNat n).toNat = n := by
        rw [UInt8.toNat_ofNat']
        omega
      have last : UInt8.ofNat n < 0x80 := by
        rw [UInt8.lt_iff_toNat_lt, byteValue]
        exact small
      rw [encode_of_lt small, singleton_append, readVarintLoop, if_neg (by omega)]
      simp only [last, if_true, low_bits, byteValue, Nat.mod_eq_of_lt small,
        or_group collected bounded, length_singleton]
    · have large : 128 ≤ n := by omega
      have byteValue : (UInt8.ofNat (n % 128 + 128)).toNat = n % 128 + 128 := by
        rw [UInt8.toNat_ofNat']
        omega
      have continues : ¬UInt8.ofNat (n % 128 + 128) < 0x80 := by
        rw [UInt8.lt_iff_toNat_lt, byteValue]
        exact Nat.not_lt.mpr (Nat.le_add_left 128 (n % 128))
      have powerEq : 2 ^ (shift + 7) = 128 * 2 ^ shift := by
        rw [Nat.pow_add, Nat.mul_comm]
      have splitN : n * 2 ^ shift = n / 128 * (128 * 2 ^ shift) + n % 128 * 2 ^ shift := by
        conv_lhs => rw [← Nat.div_add_mod n 128]
        ring
      have nextShift : shift + 7 < 64 := by
        have : 128 * 2 ^ shift ≤ n * 2 ^ shift := Nat.mul_le_mul_right _ large
        have : 2 ^ (shift + 7) < 2 ^ 64 := by omega
        exact (Nat.pow_lt_pow_iff_right (by decide)).mp this
      have groupBound : n % 128 * 2 ^ shift ≤ 127 * 2 ^ shift :=
        Nat.mul_le_mul_right _ (by omega)
      rw [encode_of_ge large, cons_append, readVarintLoop, if_neg (by omega)]
      simp only [continues, if_false, low_bits, byteValue]
      rw [show (n % 128 + 128) % 128 = n % 128 by omega, or_group collected (by omega),
        ih (n / 128) (by omega) (shift + 7) _ (eaten + 1) nextShift
          (by omega) (by rw [powerEq]; omega)]
      simp only [length_cons, powerEq, splitN]
      congr 2
      · omega
      · omega

theorem readVarint_encode {n : Nat} (bounded : n < 2 ^ 64) (rest : Bytes) :
    readVarint (encode n ++ rest) = .ok (n, (encode n).length) rest := by
  have := readVarintLoop_encode n 0 0 0 rest (by decide) (by decide) (by simpa using bounded)
  simpa [readVarint] using this

/-- The driver's varint and the agent's reader agree on the length and on the value, and the
reader stops where the varint ends. -/
theorem varint_lengths_agree (n : UInt64) :
    ∃ bytes : Bytes, encodedVarintLen n.toNat = bytes.length ∧
      (∀ dst : Bytes, bytes.length ≤ dst.length →
        encodeVarint n.toNat dst = some (bytes ++ dst.drop bytes.length, bytes.length)) ∧
      (n.toNat < 2 ^ 63 →
        ∀ rest, readVarint (bytes ++ rest) = .ok (n.toNat, bytes.length) rest) := by
  have bounded : n.toNat < 2 ^ 64 := n.toNat_lt
  refine ⟨encode n.toNat, encodedVarintLen_eq bounded, ?_, ?_⟩
  · intro dst fits
    have written := encodeVarint_eq n.toNat (dst.take (encode n.toNat).length)
      (dst.drop (encode n.toNat).length) (length_take_of_le fits)
    rwa [take_append_drop] at written
  · intro _ rest
    exact readVarint_encode bounded rest

theorem readFull_ok {count : Nat} {input bytes rest : Bytes}
    (result : readFull count input = .ok bytes rest) :
    bytes.length = count ∧ input = bytes ++ rest := by
  unfold readFull at result
  split at result
  next inside =>
    cases result
    exact ⟨length_take_of_le inside, (take_append_drop count input).symm⟩
  next => split at result <;> cases result

variable {input rest : Bytes}

theorem discardByte_ok {skipped : Unit}
    (result : discardByte input = .ok skipped rest) : input.length = rest.length + 1 := by
  cases input with
  | nil => cases result
  | cons byte tail =>
    cases result
    rfl

theorem readVarintLoop_ok {shift varint eaten : Nat} {value : Nat × Nat}
    (result : readVarintLoop shift varint eaten input = .ok value rest) :
    rest.length < input.length := by
  induction input generalizing shift varint eaten with
  | nil =>
    unfold readVarintLoop at result
    split at result <;> cases result
  | cons byte tail ih =>
    unfold readVarintLoop at result
    split at result
    next => cases result
    next =>
      simp only at result
      split at result
      next =>
        cases result
        exact Nat.lt_succ_self _
      next => exact Nat.lt_succ_of_lt (ih result)

theorem readVarint_ok {value : Nat × Nat}
    (result : readVarint input = .ok value rest) : rest.length < input.length :=
  readVarintLoop_ok result

theorem Slice.bytes_length (slice : Slice) : slice.bytes.length = slice.len :=
  length_take_of_le slice.len_le

theorem receivePayload_length {plugin next : Plugin} {record result : EncodedRecord} {l te : Nat}
    (received : receivePayload plugin record l te = .received result next) :
    result.data.bytes.length ≤ plugin.reader.length := by
  unfold receivePayload at received
  split at received
  next => cases received
  next value e rest varintRead =>
    have shorter := readVarint_ok varintRead
    simp only at received
    split at received
    next => cases received
    next =>
      split at received
      next => cases received
      next payload left payloadRead =>
        obtain ⟨extent, contents⟩ := readFull_ok payloadRead
        cases received
        have available := congrArg length contents
        rw [length_append] at available
        rw [Slice.bytes_length]
        simp only [Slice.overwrite]
        split <;> simp only [Slice.reslice, Slice.make] <;> omega

/-- Once the three leading fields are read, the payload is whatever remains of
the announced length after its own length varint. -/
theorem receivePayload_eq {plugin : Plugin} (record : EncodedRecord) {l te m : Nat}
    {body rest : Bytes} (lengthBound : m < 2 ^ 64)
    (contents : plugin.reader = encode m ++ body ++ rest)
    (announced : l = te + (encode m).length + body.length) :
    ∃ data : Slice, data.bytes = body ∧ receivePayload plugin record l te =
        .received { record with data := data }
          { reader := rest
            txCnt := (plugin.txCnt + 1) % 2 ^ 64
            txBytes := (plugin.txBytes + l) % 2 ^ 64 } := by
  have measured : l - (te + (encode m).length) = body.length := by omega
  have inside : ¬l < te + (encode m).length := by omega
  simp only [receivePayload, contents, append_assoc, readVarint_encode lengthBound,
    measured, inside, if_false, readFull_append]
  refine ⟨_, ?_, rfl⟩
  apply Slice.overwrite_bytes
  split <;> rfl

theorem receiveData_recordBytes {plugin : Plugin} {dataType timestamp : Nat} {body rest : Bytes}
    (pooled : EncodedRecord) (dataTypeBound : dataType < 2 ^ 64)
    (timestampBound : timestamp < 2 ^ 64)
    (fits : (recordBytes dataType timestamp body).length < 2 ^ 32)
    (contents : plugin.reader = u32ToLeBytes (recordBytes dataType timestamp body).length ++
      (recordBytes dataType timestamp body ++ rest)) :
    ∃ (record : EncodedRecord) (next : Plugin), receiveData plugin pooled = .received record next ∧
      record.dataType = BitVec.ofNat 32 dataType ∧
      record.timestamp = BitVec.ofNat 64 timestamp ∧
      record.data.bytes = body ∧ next.reader = rest := by
  have extent : (recordBytes dataType timestamp body).length =
      1 + ((encode dataType).length + 1) + ((encode timestamp).length + 1) +
        (encode body.length).length + body.length := by
    simp [recordBytes]
    omega
  have payloadFollows : 1 + ((encode dataType).length + 1) +
      ((encode timestamp).length + 1) < (recordBytes dataType timestamp body).length := by
    have := encode_length_pos body.length
    omega
  simp only [receiveData, contents, readUint32_prefix fits]
  rw [show recordBytes dataType timestamp body ++ rest =
    0x8 :: (encode dataType ++ 0x10 :: (encode timestamp ++
      0x1a :: (encode body.length ++ body ++ rest))) by simp [recordBytes]]
  simp only [discardByte_cons, readVarint_encode dataTypeBound, readVarint_encode timestampBound,
    payloadFollows, if_true]
  have payloadContents : (⟨encode body.length ++ body ++ rest, plugin.txCnt,
      plugin.txBytes⟩ : Plugin).reader = encode body.length ++ body ++ rest := rfl
  obtain ⟨data, dataBytes, received⟩ := receivePayload_eq { pooled with
    dataType := BitVec.ofNat 32 dataType, timestamp := BitVec.ofNat 64 timestamp }
    (by omega) payloadContents extent
  exact ⟨_, _, received, rfl, rfl, dataBytes, rfl⟩

end Elkeid.Wire
