import Elkeid.Foundations.Protobuf
import Elkeid.Wire.Layout

/-!
# The `Record` message on the wire

`plugins/lib/bridge.proto` declares the messages that `protobuf_encode` writes by
hand.  They are read here with the general wire format, the last occurrence of a
field counting and unknown fields being skipped, and the frame of the encoder is
shown to hold the record that it was called with.
-/

namespace Elkeid.Wire

open Foundations List Option
open Foundations.Protobuf (Field Value)

/-- `Record` with the entries of its `Payload` in the order of the wire. -/
structure RecordMessage where
  dataType : Nat
  timestamp : Nat
  fields : List (Bytes × Bytes)
  deriving DecidableEq

def mergeEntry (entry : Bytes × Bytes) (field : Field) : Option (Bytes × Bytes) :=
  match field.number, field.value with
  | 1, .lengthDelimited key => some (key, entry.2)
  | 2, .lengthDelimited value => some (entry.1, value)
  | 1, _ | 2, _ => none
  | _, _ => some entry

def readEntry (bytes : Bytes) : Option (Bytes × Bytes) := do
  (← Protobuf.message bytes).foldlM mergeEntry ([], [])

def mergePayload (fields : List (Bytes × Bytes)) (field : Field) :
    Option (List (Bytes × Bytes)) :=
  match field.number, field.value with
  | 1, .lengthDelimited bytes => (readEntry bytes).map fun entry => fields ++ [entry]
  | 1, _ => none
  | _, _ => some fields

def readPayload (bytes : Bytes) : Option (List (Bytes × Bytes)) := do
  (← Protobuf.message bytes).foldlM mergePayload []

/-- One field of a `Record`; a second `data` is merged into the first. -/
def mergeRecord (record : RecordMessage) (field : Field) : Option RecordMessage :=
  match field.number, field.value with
  | 1, .varint n => some { record with dataType := n }
  | 2, .varint n => some { record with timestamp := n }
  | 3, .lengthDelimited bytes =>
    (readPayload bytes).map fun fields => { record with fields := record.fields ++ fields }
  | 1, _ | 2, _ | 3, _ => none
  | _, _ => some record

/-- This reads the wire only: a string is any bytes, and an `int32` or `int64` any varint of 64
bits. -/
def readRecord (bytes : Bytes) : Option RecordMessage := do
  (← Protobuf.message bytes).foldlM mergeRecord ⟨0, 0, []⟩

def entryFields (entry : Bytes × Bytes) : List Field :=
  [⟨1, .lengthDelimited entry.1⟩, ⟨2, .lengthDelimited entry.2⟩]

def payloadField (entry : Bytes × Bytes) : Field :=
  ⟨1, .lengthDelimited (entryBytes entry.1 entry.2)⟩

def recordFields (dataType timestamp : Nat) (body : Bytes) : List Field :=
  [⟨1, .varint dataType⟩, ⟨2, .varint timestamp⟩, ⟨3, .lengthDelimited body⟩]

variable {number : Nat}

theorem tag_lt (small : number < 16) (value : Value) : Field.tag ⟨number, value⟩ < 128 := by
  have kind := value.wireType_lt
  change number * 8 + value.wireType < 128
  omega

theorem encode_field {value : Value} (small : number < 16) :
    Field.encode ⟨number, value⟩ = UInt8.ofNat (number * 8 + value.wireType) :: value.encode := by
  rw [Field.encode, Varint.encode_of_lt (tag_lt small value), singleton_append]
  rfl

theorem encodable_field {value : Value} (numbered : 0 < number)
    (small : number < 16) (encodable : value.Encodable) : Field.Encodable ⟨number, value⟩ :=
  ⟨numbered, (tag_lt small value).trans (by decide), encodable⟩

theorem entryBytes_eq (key value : Bytes) :
    entryBytes key value = (entryFields (key, value)).flatMap Field.encode := by
  simp only [entryFields, flatMap_cons, flatMap_nil, append_nil]
  rw [encode_field (by decide), encode_field (by decide)]
  simp only [entryBytes, Value.encode, cons_append, append_assoc]
  rfl

theorem mapEntry_eq (key value : Bytes) :
    mapEntry key value = (payloadField (key, value)).encode := by
  rw [payloadField, encode_field (by decide)]
  rfl

theorem mapBody_eq (keys values : List Bytes) :
    mapBody keys values = ((keys.zip values).reverse.map payloadField).flatMap Field.encode := by
  induction keys generalizing values with
  | nil => rfl
  | cons key keys ih =>
    cases values with
    | nil => rfl
    | cons value values =>
      rw [mapBody, ih, mapEntry_eq, zip_cons_cons, reverse_cons,
        map_append, flatMap_append, map_singleton, flatMap_singleton]

theorem recordBytes_eq (dataType timestamp : Nat) (body : Bytes) :
    recordBytes dataType timestamp body =
      (recordFields dataType timestamp body).flatMap Field.encode := by
  simp only [recordFields, flatMap_cons, flatMap_nil, append_nil]
  rw [encode_field (by decide), encode_field (by decide), encode_field (by decide)]
  simp only [recordBytes, Value.encode, cons_append]
  rfl

theorem readEntry_entryBytes {key value : Bytes}
    (bounded : (entryBytes key value).length < 2 ^ 64) :
    readEntry (entryBytes key value) = some (key, value) := by
  have keyBound : key.length < 2 ^ 64 := by
    refine lt_of_le_of_lt ?_ bounded
    simp [entryBytes]
    omega
  have valueBound : value.length < 2 ^ 64 := by
    refine lt_of_le_of_lt ?_ bounded
    simp [entryBytes]
    omega
  have encodable : ∀ field ∈ entryFields (key, value), field.Encodable := by
    refine forall_mem_cons.mpr ⟨?_, forall_mem_cons.mpr ⟨?_, forall_mem_nil _⟩⟩
    · exact encodable_field (by decide) (by decide) keyBound
    · exact encodable_field (by decide) (by decide) valueBound
  rw [readEntry, entryBytes_eq, Protobuf.message_encode encodable]
  rfl

theorem foldlM_mergePayload {entries : List (Bytes × Bytes)}
    (bounded : ∀ entry ∈ entries, (entryBytes entry.1 entry.2).length < 2 ^ 64)
    (fields : List (Bytes × Bytes)) :
    (entries.map payloadField).foldlM mergePayload fields = some (fields ++ entries) := by
  induction entries generalizing fields with
  | nil => rw [append_nil]; rfl
  | cons entry entries ih =>
    obtain ⟨first, others⟩ := forall_mem_cons.mp bounded
    have merged : mergePayload fields (payloadField entry) = some (fields ++ [entry]) := by
      simp [mergePayload, payloadField, readEntry_entryBytes first]
    rw [map_cons, foldlM_cons, merged, bind_eq_bind, bind_some,
      ih others, append_assoc, singleton_append]

theorem readPayload_mapBody {keys values : List Bytes}
    (bounded : (mapBody keys values).length < 2 ^ 64) :
    readPayload (mapBody keys values) = some (keys.zip values).reverse := by
  have entryBound : ∀ entry ∈ (keys.zip values).reverse,
      (entryBytes entry.1 entry.2).length < 2 ^ 64 := by
    intro entry listed
    have part : (payloadField entry).encode.length ≤ (mapBody keys values).length := by
      rw [mapBody_eq, flatMap_def]
      apply List.Sublist.length_le
      apply sublist_flatten_of_mem
      exact mem_map_of_mem (mem_map_of_mem listed)
    rw [← mapEntry_eq, mapEntry, length_cons, length_append] at part
    omega
  have encodable : ∀ field ∈ (keys.zip values).reverse.map payloadField, field.Encodable := by
    intro field listed
    obtain ⟨entry, isEntry, rfl⟩ := mem_map.mp listed
    exact encodable_field (by decide) (by decide) (entryBound entry isEntry)
  rw [readPayload, mapBody_eq, Protobuf.message_encode encodable, bind_eq_bind,
    bind_some, foldlM_mergePayload entryBound, nil_append]

theorem readRecord_recordBytes {dataType timestamp : Nat} {keys values : List Bytes}
    (dataTypeBound : dataType < 2 ^ 64) (timestampBound : timestamp < 2 ^ 64)
    (bodyBound : (mapBody keys values).length < 2 ^ 64) :
    readRecord (recordBytes dataType timestamp (mapBody keys values)) =
      some ⟨dataType, timestamp, (keys.zip values).reverse⟩ := by
  have encodable : ∀ field ∈ recordFields dataType timestamp (mapBody keys values),
      field.Encodable := by
    refine forall_mem_cons.mpr ⟨?_, forall_mem_cons.mpr ⟨?_,
      forall_mem_cons.mpr ⟨?_, forall_mem_nil _⟩⟩⟩
    · exact encodable_field (by decide) (by decide) dataTypeBound
    · exact encodable_field (by decide) (by decide) timestampBound
    · exact encodable_field (by decide) (by decide) bodyBound
  rw [readRecord, recordBytes_eq, Protobuf.message_encode encodable, bind_eq_bind,
    bind_some, recordFields]
  simp [mergeRecord, readPayload_mapBody bodyBound]

/-- The frame of a call depends on its arguments only.  It is left in front of the
rest of the buffer, also when the buffer ends right behind it, and reads back as the
record; without room for it the call fails before it writes. -/
theorem protobufEncode_record (dataType timestamp : UInt64) (keys values : List Bytes)
    (dataTypePos : 0 < dataType) (timestampPos : 0 < timestamp) (nonempty : keys ≠ [])
    (enough : keys.length ≤ values.length) :
    ∃ needed frame, neededLength timestamp.toNat keys values dataType.toNat = some needed ∧
      ∀ dst : Bytes, dst.length < 2 ^ 64 → if needed ≤ dst.length then
          protobufEncode timestamp.toNat keys values dst dataType.toNat =
            some (.ok (needed, frame ++ dst.drop needed)) ∧
          protobufEncode timestamp.toNat keys values (dst.take needed) dataType.toNat =
            some (.ok (needed, frame)) ∧
          frame.length = needed ∧ frame.take 4 = u32ToLeBytes (needed - 4) ∧
          readRecord (frame.drop 4) =
            some ⟨dataType.toNat, timestamp.toNat, (keys.zip values).reverse⟩
        else
          protobufEncode timestamp.toNat keys values dst dataType.toNat =
            some (.error (.writeZero "not enough buffer")) := by
  obtain ⟨needed, computed⟩ := neededLength_isSome enough timestamp.toNat dataType.toNat
  have dataTypeNat : 0 < dataType.toNat := UInt64.lt_iff_toNat_lt.mp dataTypePos
  have timestampNat : 0 < timestamp.toNat := UInt64.lt_iff_toNat_lt.mp timestampPos
  have dataTypeBound : dataType.toNat < 2 ^ 64 := dataType.toNat_lt
  have timestampBound : timestamp.toNat < 2 ^ 64 := timestamp.toNat_lt
  refine ⟨needed, u32ToLeBytes (recordBytes dataType.toNat timestamp.toNat
    (mapBody keys values)).length ++ recordBytes dataType.toNat timestamp.toNat
      (mapBody keys values), computed, ?_⟩
  intro dst dstBound
  split
  next fits =>
    obtain ⟨_, neededEq⟩ := neededLength_eq dataTypeNat timestampNat nonempty dataTypeBound
      timestampBound computed (by omega)
    have cut : (dst.take needed).length = needed := length_take_of_le fits
    have encoded := protobufEncode_eq dataTypeNat timestampNat nonempty enough dataTypeBound
      timestampBound computed fits dstBound
    have encodedCut := protobufEncode_eq dataTypeNat timestampNat nonempty enough dataTypeBound
      timestampBound computed cut.ge (cut.trans_le fits |>.trans_lt dstBound)
    rw [drop_eq_nil_of_le cut.le, append_nil] at encodedCut
    have bodyBound : (mapBody keys values).length < 2 ^ 64 := by
      simp only [recordBytes, length_cons, length_append] at neededEq
      omega
    refine ⟨encoded, encodedCut, ?_, ?_, ?_⟩
    · rw [length_append, neededEq]
      rfl
    · rw [take_left' (by rfl), neededEq, Nat.add_sub_cancel_left]
    · rw [drop_left' (by rfl)]
      exact readRecord_recordBytes dataTypeBound timestampBound bodyBound
  next small => exact protobufEncode_small computed (Nat.not_le.mp small)

/-- A record of type 59 with one field more than it has keys. -/
theorem protobufEncode_record_execve :
    ∃ needed frame, neededLength 1700000000 [[0x70]] [[0x31], [0x32]] 59 = some needed ∧
      ∀ dst : Bytes, dst.length < 2 ^ 64 → if needed ≤ dst.length then
          protobufEncode 1700000000 [[0x70]] [[0x31], [0x32]] dst 59 =
            some (.ok (needed, frame ++ dst.drop needed)) ∧
          protobufEncode 1700000000 [[0x70]] [[0x31], [0x32]] (dst.take needed) 59 =
            some (.ok (needed, frame)) ∧
          frame.length = needed ∧ frame.take 4 = u32ToLeBytes (needed - 4) ∧
          readRecord (frame.drop 4) = some ⟨59, 1700000000, [([0x70], [0x31])]⟩
        else
          protobufEncode 1700000000 [[0x70]] [[0x31], [0x32]] dst 59 =
            some (.error (.writeZero "not enough buffer")) :=
  protobufEncode_record 59 1700000000 [[0x70]] [[0x31], [0x32]] (by decide) (by decide)
    (by decide) (by decide)

end Elkeid.Wire
