import Elkeid.Wire.Receive

/-!
# Records that plugins send through the SDK

`Client::send_record` of `plugins/lib/rust` writes the size of a `Record` and
then the message generated from `bridge.proto`.  The message leaves out zero
fields and an absent payload, but `ReceiveData` reads three fields without
looking at their tags.  A record arrives intact exactly when none of its three
fields is left out.
-/

namespace Elkeid.Wire

open Foundations Varint List

/-- The `fields` map of a `Payload`, in the order in which it is iterated. -/
abbrev Payload := List (Bytes × Bytes)

def Payload.bytes (payload : Payload) : Bytes :=
  payload.flatMap fun (key, value) => mapEntry key value

/-- `os.write_int32(1, v)`: negative numbers are sign-extended to 64 bits. -/
def int32Varint (value : BitVec 32) : Bytes :=
  encode (value.signExtend 64).toNat

def int64Varint (value : BitVec 64) : Bytes :=
  encode value.toNat

/-- `write_to_with_cached_sizes` of the generated `Record`. -/
def writeFields (dataType : BitVec 32) (timestamp : BitVec 64) (data : Option Payload) : Bytes :=
  (if dataType ≠ 0#32 then 0x8 :: int32Varint dataType else []) ++
  (if timestamp ≠ 0#64 then 0x10 :: int64Varint timestamp else []) ++
  match data with
  | some payload => 0x1a :: (encode payload.bytes.length ++ payload.bytes)
  | none => []

/-- A `Record` of the SDK.  The generated code counts sizes in `u32`, so a
message has fewer than `2 ^ 32` bytes. -/
structure Record where
  dataType : BitVec 32
  timestamp : BitVec 64
  data : Option Payload
  size_lt : (writeFields dataType timestamp data).length < 2 ^ 32

namespace Record

/-- `compute_size` of the generated `Record`. -/
def computeSize (record : Record) : Nat :=
  (if record.dataType ≠ 0#32 then 1 + (int32Varint record.dataType).length else 0) +
  (if record.timestamp ≠ 0#64 then 1 + (int64Varint record.timestamp).length else 0) +
  match record.data with
  | some payload => 1 + (encode payload.bytes.length).length + payload.bytes.length
  | none => 0

def writeTo (record : Record) : Bytes :=
  writeFields record.dataType record.timestamp record.data

/-- The payload an agent should see; an absent one is empty. -/
def payload (record : Record) : Bytes :=
  match record.data with
  | some payload => payload.bytes
  | none => []

theorem computeSize_eq (record : Record) : record.computeSize = record.writeTo.length := by
  unfold computeSize writeTo writeFields
  cases record.data <;> split <;> split <;> simp <;> omega

end Record

def sendRecord (record : Record) : Bytes :=
  u32ToLeBytes record.computeSize ++ record.writeTo

/-- The frame, followed by any further bytes, makes `ReceiveData` return the
record and stop at the first byte after the frame. -/
def Record.Delivered (record : Record) : Prop :=
  ∀ (rest : Bytes) (pooled : EncodedRecord) (txCnt txBytes : Nat), pooled.data.len = 0 →
    ∃ result next,
      receiveData ⟨sendRecord record ++ rest, txCnt, txBytes⟩ pooled = .received result next ∧
      result.dataType = record.dataType ∧
      result.timestamp = record.timestamp ∧
      result.data.bytes = record.payload ∧
      next.reader = rest

theorem int32_roundTrip (value : BitVec 32) :
    BitVec.ofNat 32 (value.signExtend 64).toNat = value := by
  apply BitVec.toNat_inj.mp
  rw [BitVec.toNat_ofNat, BitVec.toNat_signExtend, BitVec.toNat_setWidth]
  split <;> omega

theorem Record.delivered_of_complete {record : Record} {payload : Payload}
    (dataTypeNe : record.dataType ≠ 0#32) (timestampNe : record.timestamp ≠ 0#64)
    (present : record.data = some payload) : record.Delivered := by
  intro rest pooled txCnt txBytes _
  have layout : record.writeTo = recordBytes (record.dataType.signExtend 64).toNat
      record.timestamp.toNat payload.bytes := by
    simp [writeTo, writeFields, recordBytes, dataTypeNe, timestampNe, present, int32Varint,
      int64Varint]
  have sizeBound := record.size_lt
  change record.writeTo.length < 2 ^ 32 at sizeBound
  rw [layout] at sizeBound
  have contents : (⟨sendRecord record ++ rest, txCnt, txBytes⟩ : Plugin).reader =
      u32ToLeBytes (recordBytes (record.dataType.signExtend 64).toNat record.timestamp.toNat
        payload.bytes).length ++ (recordBytes (record.dataType.signExtend 64).toNat
          record.timestamp.toNat payload.bytes ++ rest) := by
    simp [sendRecord, computeSize_eq, layout]
  obtain ⟨result, next, received, dataTypeEq, timestampEq, payloadEq, restEq⟩ :=
    receiveData_recordBytes pooled (BitVec.isLt _) (BitVec.isLt _) sizeBound contents
  refine ⟨result, next, received, ?_, ?_, ?_, restEq⟩
  · rw [dataTypeEq, int32_roundTrip]
  · rw [timestampEq, BitVec.ofNat_toNat, BitVec.setWidth_eq]
  · rw [payloadEq, Record.payload, present]

variable {pooled result : EncodedRecord} {txCnt txBytes : Nat} {next : Plugin}

/-- Two fields are taken for the data type and the time stamp; the byte that
follows them is skipped as a tag, so it is missing from the payload. -/
theorem not_received_after_two_fields {tag₁ tag₂ : UInt8} {a b l : Nat} {payload : Bytes}
    (aBound : a < 2 ^ 64) (bBound : b < 2 ^ 64) (lBound : l < 2 ^ 32)
    (pooledEmpty : pooled.data.len = 0)
    (received : receiveData ⟨u32ToLeBytes l ++
    (tag₁ :: (encode a ++ tag₂ :: (encode b ++ payload))), txCnt, txBytes⟩ pooled =
        .received result next) :
    result.data.bytes ≠ payload := by
  simp only [receiveData, readUint32_prefix lBound, discardByte_cons, readVarint_encode aBound,
    readVarint_encode bBound] at received
  cases payload with
  | nil => cases received
  | cons byte tail =>
    intro same
    simp only [discardByte_cons] at received
    split at received
    next =>
      have shorter := receivePayload_length received
      rw [same] at shorter
      simp at shorter
    next =>
      cases received
      have length := Slice.bytes_length pooled.data
      rw [same, pooledEmpty] at length
      simp at length

theorem not_received_after_one_field {tag : UInt8} {a l : Nat} {payload : Bytes}
    (aBound : a < 2 ^ 64) (lBound : l < 2 ^ 32) (pooledEmpty : pooled.data.len = 0)
    (received : receiveData ⟨u32ToLeBytes l ++ (tag :: (encode a ++ payload)),
      txCnt, txBytes⟩ pooled = .received result next) :
    result.data.bytes ≠ payload := by
  simp only [receiveData, readUint32_prefix lBound, discardByte_cons, readVarint_encode aBound]
    at received
  cases payload with
  | nil => cases received
  | cons byte tail =>
    intro same
    simp only [discardByte_cons] at received
    split at received
    next => cases received
    next value e rest varintRead =>
      have varintShorter := readVarint_ok varintRead
      split at received
      next => cases received
      next skipped last discarded =>
        have discardShorter := discardByte_ok discarded
        split at received
        next =>
          have shorter : result.data.bytes.length ≤ last.length :=
            receivePayload_length received
          rw [same, length_cons] at shorter
          omega
        next =>
          cases received
          have length := Slice.bytes_length pooled.data
          rw [same, pooledEmpty] at length
          simp at length

theorem not_received_empty {l : Nat} (lBound : l < 2 ^ 32) :
    receiveData ⟨u32ToLeBytes l, txCnt, txBytes⟩ pooled ≠ .received result next := by
  intro received
  have prefixRead := readUint32_prefix lBound []
  rw [append_nil] at prefixRead
  simp only [receiveData, prefixRead, discardByte_nil] at received
  cases received

theorem Record.complete_of_delivered {record : Record} (delivered : record.Delivered) :
    record.dataType ≠ 0#32 ∧ record.timestamp ≠ 0#64 ∧ record.data.isSome := by
  obtain ⟨result, next, received, _, _, payloadEq, _⟩ :=
    delivered [] ⟨0, 0, Slice.make 0⟩ 0 0 rfl
  have sizeBound : record.computeSize < 2 ^ 32 := by
    rw [computeSize_eq]
    exact record.size_lt
  have typeBound := (record.dataType.signExtend 64).isLt
  have timeBound := record.timestamp.isLt
  have payloadBound : ∀ payload, record.data = some payload → payload.bytes.length < 2 ^ 64 := by
    intro payload present
    have := record.size_lt
    simp [writeFields, present] at this
    omega
  -- `receiveData` on the message as it was written, without the omitted fields
  simp only [sendRecord, append_nil, writeTo, writeFields] at received
  simp only [Record.payload] at payloadEq
  by_cases typeZero : record.dataType = 0#32 <;> by_cases timeZero : record.timestamp = 0#64 <;>
    cases data : record.data <;>
    simp only [typeZero, timeZero, data, ne_eq, not_true_eq_false, not_false_eq_true, if_true,
      if_false, nil_append, append_nil, cons_append, int32Varint, int64Varint]
      at received payloadEq
  · exact absurd received (not_received_empty sizeBound)
  · exact absurd payloadEq
      (not_received_after_one_field (payloadBound _ data) sizeBound rfl received)
  · exact absurd payloadEq
      (not_received_after_one_field timeBound sizeBound rfl (by simpa using received))
  · exact absurd payloadEq
      (not_received_after_two_fields timeBound (payloadBound _ data) sizeBound rfl received)
  · exact absurd payloadEq
      (not_received_after_one_field typeBound sizeBound rfl (by simpa using received))
  · exact absurd payloadEq
      (not_received_after_two_fields typeBound (payloadBound _ data) sizeBound rfl
        (by simpa using received))
  · exact absurd payloadEq
      (not_received_after_two_fields typeBound timeBound sizeBound rfl (by simpa using received))
  · exact ⟨typeZero, timeZero, rfl⟩

/-- A record reaches the agent intact, with the reader left right behind its
frame, exactly when proto3 writes all three of its fields. -/
theorem Record.delivered_iff (record : Record) : record.Delivered ↔
      record.dataType ≠ 0#32 ∧ record.timestamp ≠ 0#64 ∧ record.data.isSome := by
  constructor
  · exact complete_of_delivered
  · rintro ⟨dataTypeNe, timestampNe, present⟩
    obtain ⟨payload, data⟩ := Option.isSome_iff_exists.mp present
    exact delivered_of_complete dataTypeNe timestampNe data

/-- A record with nothing set but its payload `{"pid": "1"}`, as
`process_comm` of the RASP server builds it. -/
def untypedRecord : Record where
  dataType := 0#32
  timestamp := 0#64
  data := some [([112, 105, 100], [49])]
  size_lt := by
    simp [writeFields, Payload.bytes, mapEntry, entryBytes, encode_of_lt]

theorem untypedRecord_not_delivered : ¬untypedRecord.Delivered :=
  fun delivered => (Record.complete_of_delivered delivered).1 rfl

end Elkeid.Wire
