import Elkeid.Wire.Receive

/-!
# From the driver plugin to the agent

The `record_send` thread of `plugins/driver/src/main.rs` encodes one record
after the other into one buffer of 1 MiB and writes `buf[..written]` to the
pipe; the agent calls `ReceiveData` on that stream.  Both sides agree frame by
frame.
-/

namespace Elkeid.Wire

open Foundations List

structure DriverRecord where
  dataType : Nat
  timestamp : Nat
  keys : List Bytes
  values : List Bytes

/-- What `record_send` puts on the pipe.  A record that does not fit is logged
and skipped; the buffer keeps the bytes of the previous records. -/
def sendRecords (dst : Bytes) : List DriverRecord → Option Bytes
  | [] => some []
  | record :: records =>
    match protobufEncode record.timestamp record.keys record.values dst record.dataType with
    | none => none
    | some (.error _) => sendRecords dst records
    | some (.ok (written, dst)) =>
      (sendRecords dst records).map fun stream => dst.take written ++ stream

/-- One successful call of `ReceiveData`, seen from its caller. -/
structure Delivery where
  dataType : Int
  timestamp : Int
  payload : Bytes
  lengthPrefix : Nat
  consumed : Nat

/-- One call of `ReceiveData` for every record that the pool hands out. -/
def receiveRecords (plugin : Plugin) : List EncodedRecord → Option (List Delivery × Plugin)
  | [] => some ([], plugin)
  | pooled :: pool =>
    match receiveData plugin pooled with
    | .received record next =>
      (receiveRecords next pool).map fun (deliveries, last) =>
        ({ dataType := record.dataType.toInt
           timestamp := record.timestamp.toInt
           payload := record.data.bytes
           lengthPrefix := ofLeBytes (plugin.reader.take 4)
           consumed := plugin.reader.length - next.reader.length } :: deliveries, last)
    | _ => none

/-- A record of the driver plugin whose frame fits a buffer of `capacity` bytes. -/
structure DriverRecord.Sendable (record : DriverRecord) (capacity : Nat) : Prop where
  dataType_pos : 1 ≤ record.dataType
  dataType_lt : record.dataType < 2 ^ 31
  timestamp_pos : 1 ≤ record.timestamp
  timestamp_lt : record.timestamp < 2 ^ 63
  keys_ne_nil : record.keys ≠ []
  keys_le : record.keys.length ≤ record.values.length
  fits : ∀ needed, neededLength record.timestamp record.keys record.values record.dataType =
    some needed → needed ≤ capacity

def DriverRecord.message (record : DriverRecord) : Bytes :=
  recordBytes record.dataType record.timestamp (mapBody record.keys record.values)

/-- The bytes `buf[..written]` of one record. -/
def DriverRecord.frame (record : DriverRecord) : Bytes :=
  u32ToLeBytes record.message.length ++ record.message

@[simp]
theorem DriverRecord.frame_length (record : DriverRecord) :
    record.frame.length = 4 + record.message.length := by
  simp [frame, u32ToLeBytes]

variable {record : DriverRecord}

theorem DriverRecord.frame_lengthPrefix (bounded : record.message.length < 2 ^ 32) (rest : Bytes) :
    ofLeBytes ((record.frame ++ rest).take 4) = record.message.length := by
  rw [frame, append_assoc, take_left' (by rfl)]
  exact LittleEndian.value_word bounded

theorem DriverRecord.Sendable.encoded {dst : Bytes}
    (sendable : record.Sendable dst.length) (capacity : dst.length < 2 ^ 32 + 4) :
    record.message.length < 2 ^ 32 ∧
    ∃ written next, protobufEncode record.timestamp record.keys record.values dst record.dataType =
        some (.ok (written, next)) ∧
      next.length = dst.length ∧ next.take written = record.frame := by
  obtain ⟨needed, computed⟩ :=
    neededLength_isSome sendable.keys_le record.timestamp record.dataType
  have fits := sendable.fits needed computed
  have dataTypeBound : record.dataType < 2 ^ 64 := lt_trans sendable.dataType_lt (by decide)
  have timestampBound : record.timestamp < 2 ^ 64 := lt_trans sendable.timestamp_lt (by decide)
  have encoded := protobufEncode_eq sendable.dataType_pos sendable.timestamp_pos
    sendable.keys_ne_nil sendable.keys_le dataTypeBound timestampBound computed fits (by omega)
  have neededEq : needed = 4 + record.message.length :=
    (neededLength_eq sendable.dataType_pos sendable.timestamp_pos sendable.keys_ne_nil
      dataTypeBound timestampBound computed (by omega)).2
  have frameLength : record.frame.length = needed := by
    rw [neededEq, frame_length]
  refine ⟨by omega, needed, record.frame ++ dst.drop needed, encoded, ?_, ?_⟩
  · rw [length_append, frameLength, length_drop]
    omega
  · exact take_left' frameLength

theorem sendRecords_eq {records : List DriverRecord} {dst : Bytes}
    (capacity : dst.length < 2 ^ 32 + 4)
    (sendable : ∀ record ∈ records, record.Sendable dst.length) :
    sendRecords dst records = some (records.flatMap DriverRecord.frame) := by
  induction records generalizing dst with
  | nil => rfl
  | cons record records ih =>
    obtain ⟨_, written, next, encoded, sameLength, frame⟩ :=
      (sendable record (by simp)).encoded capacity
    have nextCapacity : next.length < 2 ^ 32 + 4 := by omega
    have nextSendable : ∀ other ∈ records, other.Sendable next.length := by
      intro other membership
      rw [sameLength]
      exact sendable other (by simp [membership])
    have later := ih nextCapacity nextSendable
    simp [sendRecords, encoded, later, frame]

theorem toInt_ofNat_of_lt {width n : Nat} (bounded : 2 * n < 2 ^ width) :
    (BitVec.ofNat width n).toInt = n := by
  have unwrapped : (BitVec.ofNat width n).toNat = n := by
    rw [BitVec.toNat_ofNat]
    exact Nat.mod_eq_of_lt (by omega)
  rw [BitVec.toInt_eq_toNat_of_lt (by omega), unwrapped]

theorem DriverRecord.Sendable.received {capacity : Nat}
    (sendable : record.Sendable capacity) (messageBound : record.message.length < 2 ^ 32)
    (rest : Bytes) (pooled : EncodedRecord) (txCnt txBytes : Nat) :
    ∃ result next, receiveData ⟨record.frame ++ rest, txCnt, txBytes⟩ pooled =
        .received result next ∧
      result.dataType.toInt = record.dataType ∧
      result.timestamp.toInt = record.timestamp ∧
      result.data.bytes = mapBody record.keys record.values ∧
      next.reader = rest := by
  have dataTypeBound := sendable.dataType_lt
  have timestampBound := sendable.timestamp_lt
  have contents : (⟨record.frame ++ rest, txCnt, txBytes⟩ : Plugin).reader =
      u32ToLeBytes record.message.length ++ (record.message ++ rest) := by
    simp [frame]
  obtain ⟨result, next, receivedEq, dataTypeEq, timestampEq, payloadEq, restEq⟩ :=
    receiveData_recordBytes pooled (by omega) (by omega) messageBound contents
  refine ⟨result, next, receivedEq, ?_, ?_, payloadEq, restEq⟩
  · rw [dataTypeEq]
    exact toInt_ofNat_of_lt (by omega)
  · rw [timestampEq]
    exact toInt_ofNat_of_lt (by omega)

theorem receiveRecords_frames {records : List DriverRecord} {capacity : Nat}
    (sendable : ∀ record ∈ records, record.Sendable capacity)
    (bounded : ∀ record ∈ records, record.message.length < 2 ^ 32)
    (pool : List EncodedRecord) (poolSize : pool.length = records.length) (txCnt txBytes : Nat) :
    ∃ deliveries plugin, receiveRecords ⟨records.flatMap DriverRecord.frame, txCnt, txBytes⟩ pool =
        some (deliveries, plugin) ∧
      deliveries.map (fun d => (d.dataType, d.timestamp, d.payload)) = records.map (fun r =>
          ((r.dataType : Int), (r.timestamp : Int), mapBody r.keys r.values)) ∧
      (∀ delivery ∈ deliveries, delivery.consumed = 4 + delivery.lengthPrefix) ∧
      plugin.reader = [] := by
  induction records generalizing pool txCnt txBytes with
  | nil =>
    cases pool with
    | nil => exact ⟨[], _, rfl, rfl, by simp, rfl⟩
    | cons pooled pool => simp at poolSize
  | cons record records ih =>
    cases pool with
    | nil => simp at poolSize
    | cons pooled pool =>
      have messageBound := bounded record (by simp)
      obtain ⟨result, next, receivedEq, dataTypeEq, timestampEq, payloadEq, restEq⟩ :=
        (sendable record (by simp)).received messageBound
          (records.flatMap DriverRecord.frame) pooled txCnt txBytes
      have nextEq : next = ⟨records.flatMap DriverRecord.frame, next.txCnt, next.txBytes⟩ := by
        rw [← restEq]
      obtain ⟨deliveries, last, receivedRest, delivered, consumed, readerEmpty⟩ :=
        ih (fun other membership => sendable other (by simp [membership]))
          (fun other membership => bounded other (by simp [membership]))
          pool (by simpa using poolSize) next.txCnt next.txBytes
      rw [← nextEq] at receivedRest
      refine ⟨_, last, by simp [receiveRecords, receivedEq, receivedRest]; rfl, ?_, ?_, readerEmpty⟩
      · simp [dataTypeEq, timestampEq, payloadEq, delivered]
      · intro delivery membership
        rcases mem_cons.mp membership with rfl | later
        · simp [restEq, DriverRecord.frame_lengthPrefix messageBound]
        · exact consumed delivery later

/-- Whatever the driver plugin sends is received record by record: `k` calls
return the `k` records in order, each call takes the four bytes of the length
prefix and the bytes it announces, and nothing is left over. -/
theorem receiveRecords_sendRecords (records : List DriverRecord) (dst : Bytes)
    (capacity : dst.length < 2 ^ 32 + 4)
    (sendable : ∀ record ∈ records, record.Sendable dst.length)
    (pool : List EncodedRecord) (poolSize : pool.length = records.length) (txCnt txBytes : Nat) :
    ∃ stream deliveries plugin, sendRecords dst records = some stream ∧
      receiveRecords ⟨stream, txCnt, txBytes⟩ pool = some (deliveries, plugin) ∧
      deliveries.map (fun d => (d.dataType, d.timestamp, d.payload)) = records.map (fun r =>
          ((r.dataType : Int), (r.timestamp : Int), mapBody r.keys r.values)) ∧
      (∀ delivery ∈ deliveries, delivery.consumed = 4 + delivery.lengthPrefix) ∧
      plugin.reader = [] := by
  have bounded : ∀ record ∈ records, record.message.length < 2 ^ 32 :=
    fun record membership => ((sendable record membership).encoded capacity).1
  exact ⟨_, (receiveRecords_frames sendable bounded pool poolSize txCnt txBytes).imp
    fun _ => Exists.imp fun _ received => ⟨sendRecords_eq capacity sendable, received⟩⟩

/-- A usermode-helper event followed by a hidden-module event. -/
def sampleRecords : List DriverRecord :=
  [{ dataType := 607, timestamp := 1700000000, keys := [[101], [97], [119]],
     values := [[47, 98], [45], [49], []] },
   { dataType := 702, timestamp := 1, keys := [[109]], values := [[120]] }]

theorem sampleRecords_sendable : ∀ record ∈ sampleRecords, record.Sendable 64 := by
  intro record membership
  simp only [sampleRecords, mem_cons, not_mem_nil, or_false] at membership
  rcases membership with rfl | rfl
  · refine ⟨by decide, by decide, by decide, by decide, by decide, by decide, ?_⟩
    intro needed computed
    have exact : neededLength 1700000000 [[101], [97], [119]] [[47, 98], [45], [49], []] 607 =
        some 40 := by decide
    rw [exact] at computed
    cases computed
    decide
  · refine ⟨by decide, by decide, by decide, by decide, by decide, by decide, ?_⟩
    intro needed computed
    have exact : neededLength 1 [[109]] [[120]] 702 = some 19 := by decide
    rw [exact] at computed
    cases computed
    decide

theorem receiveRecords_sampleRecords : ∃ stream deliveries plugin,
      sendRecords (replicate 64 0) sampleRecords = some stream ∧
      receiveRecords ⟨stream, 0, 0⟩ (replicate 2 ⟨0, 0, Slice.make 0⟩) =
        some (deliveries, plugin) ∧
      deliveries.map (fun d => (d.dataType, d.timestamp, d.payload)) = sampleRecords.map (fun r =>
          ((r.dataType : Int), (r.timestamp : Int), mapBody r.keys r.values)) ∧
      (∀ delivery ∈ deliveries, delivery.consumed = 4 + delivery.lengthPrefix) ∧
      plugin.reader = [] :=
  receiveRecords_sendRecords sampleRecords (replicate 64 0) (by decide)
    sampleRecords_sendable (replicate 2 ⟨0, 0, Slice.make 0⟩) rfl 0 0

end Elkeid.Wire
