import Elkeid.Wire.Encode

/-!
# The frame that the encoder leaves in the buffer

Every write of `protobuf_encode` extends a finished tail of the buffer
downwards.  `Cursor.Holds` records that tail; the specification of the whole
encoder is obtained by following it from the end of the frame to byte five.
-/

namespace Elkeid.Wire

open Foundations Varint List Nat Buffer Option

theorem log2_or_one (n : Nat) : (n ||| 1).log2 = n.log2 := by
  by_cases zero : n = 0
  · subst zero
    decide
  · have lower : n ≤ n ||| 1 := left_le_or
    have positive : n ||| 1 ≠ 0 := by omega
    rw [log2_eq_iff positive]
    constructor
    · exact le_trans (log2_self_le zero) lower
    · apply Nat.or_lt_two_pow Nat.lt_log2_self
      exact Nat.one_lt_two_pow (by omega)

theorem encodedVarintLen_eq {n : Nat} (bounded : n < 2 ^ 64) :
    encodedVarintLen n = (encode n).length := by
  have estimate : ∀ bit < 64, (((63 - bit) ^^^ 63) * 9 + 73) / 64 = bit / 7 + 1 := by
    decide
  have leading : n.log2 < 64 := by
    by_cases zero : n = 0
    · subst zero
      decide
    · exact (log2_lt zero).mpr bounded
  rw [encode_length, encodedVarintLen, leadingZeros, log2_or_one]
  exact estimate n.log2 leading

theorem continuation_byte (n : Nat) : 0x80 ||| UInt8.ofNat n = UInt8.ofNat (n % 128 + 128) := by
  have byteCases : ∀ byte : Fin 256, 128 ||| byte.val = byte.val % 128 + 128 := by
    decide +kernel
  have setBit := byteCases ⟨n % 256, by omega⟩
  apply UInt8.toNat_inj.mp
  simp only [UInt8.toNat_or, UInt8.toNat_ofNat', UInt8.reduceToNat, Nat.reducePow] at setBit ⊢
  omega

theorem encodeVarintLoop_eq (n : Nat) (before old after : Bytes)
    (extent : old.length = (encode n).length) :
    encodeVarintLoop n before.length (before ++ old ++ after) =
      some (before ++ encode n ++ after, before.length + (encode n).length) := by
  induction n using Nat.strongRecOn generalizing before old with
  | ind n ih =>
    rw [encodeVarintLoop]
    by_cases large : 0x80 ≤ n
    · rw [encode_of_ge large] at extent ⊢
      obtain ⟨head, tail, rfl⟩ := exists_cons_of_length_eq_add_one extent
      have written : write (before ++ (head :: tail) ++ after) before.length
          [0x80 ||| UInt8.ofNat n] =
          some ((before ++ [UInt8.ofNat (n % 128 + 128)]) ++ tail ++ after) := by
        have stored : write (before ++ [head] ++ (tail ++ after)) before.length
            [0x80 ||| UInt8.ofNat n] =
            some (before ++ [0x80 ||| UInt8.ofNat n] ++ (tail ++ after)) :=
          write_block rfl rfl
        simpa [continuation_byte] using stored
      have rest := ih (n / 128) (by omega)
        (before ++ [UInt8.ofNat (n % 128 + 128)]) tail (by simpa using extent)
      rw [if_pos large, written, shiftRight_eq_div_pow]
      simp only [length_append, length_singleton] at rest
      simp only [bind_eq_bind, bind_some, Nat.reducePow, rest]
      simp [add_assoc, add_comm]
    · have small : n < 128 := by omega
      rw [encode_of_lt small] at extent ⊢
      rw [if_neg large, write_block rfl (by simpa using extent.symm)]
      simp

theorem encodeVarint_eq (n : Nat) (old after : Bytes) (extent : old.length = (encode n).length) :
    encodeVarint n (old ++ after) = some (encode n ++ after, (encode n).length) := by
  simpa [encodeVarint] using encodeVarintLoop_eq n [] old after extent

/-- Everything from `index` on is finished and equals `tail`. -/
structure Cursor.Holds (cursor : Cursor) (index : Nat) (tail : Bytes) : Prop where
  index_eq : cursor.index = index
  suffix : ∃ before : Bytes, before.length = index ∧ cursor.dst = before ++ tail

namespace Cursor.Holds

variable {cursor : Cursor} {index : Nat} {tail : Bytes}

theorem putBytes {block : Bytes} (holds : cursor.Holds (index + block.length) tail) :
    ∃ next, cursor.putBytes block = some next ∧ next.Holds index (block ++ tail) := by
  obtain ⟨indexEq, before, beforeLength, contents⟩ := holds
  have split : cursor.dst = before.take index ++ before.drop index ++ tail := by
    rw [take_append_drop, contents]
  have keptLength : (before.take index).length = index := by
    rw [length_take]
    omega
  have written : write cursor.dst index block =
      some (before.take index ++ block ++ tail) := by
    rw [split]
    exact write_block keptLength.symm (by rw [length_drop]; omega)
  refine ⟨{ index := index, dst := before.take index ++ block ++ tail }, ?_, rfl,
    before.take index, keptLength, by simp⟩
  simp [Cursor.putBytes, Cursor.retreat, indexEq, written]

theorem putByte (byte : UInt8) (holds : cursor.Holds (index + 1) tail) :
    ∃ next, cursor.putByte byte = some next ∧ next.Holds index (byte :: tail) := by
  have oneByte : cursor.Holds (index + [byte].length) tail := holds
  exact oneByte.putBytes

theorem putVarint {n : Nat} (bounded : n < 2 ^ 64)
    (holds : cursor.Holds (index + (encode n).length) tail) :
    ∃ next, cursor.putVarint n = some next ∧ next.Holds index (encode n ++ tail) := by
  obtain ⟨indexEq, before, beforeLength, contents⟩ := holds
  have keptLength : (before.take index).length = index := by
    rw [length_take]
    omega
  have slice : cursor.dst.drop index = before.drop index ++ tail := by
    rw [contents, drop_append_of_le_length (by omega)]
  have kept : cursor.dst.take index = before.take index := by
    rw [contents, take_append_of_le_length (by omega)]
  have encoded := encodeVarint_eq n (before.drop index) tail (by simp; omega)
  refine ⟨{ index := index, dst := before.take index ++ (encode n ++ tail) }, ?_, rfl,
    before.take index, keptLength, rfl⟩
  have retreated : cursor.retreat (encodedVarintLen n) = some { cursor with index := index } := by
    simp [Cursor.retreat, indexEq, encodedVarintLen_eq bounded]
  have inside : index ≤ cursor.dst.length := by
    rw [contents, length_append]
    omega
  simp [Cursor.putVarint, retreated, slice, kept, encoded, inside]

end Cursor.Holds

/-- A map entry without its own tag and length: key field, then value field. -/
def entryBytes (key value : Bytes) : Bytes :=
  0xa :: (encode key.length ++ key ++ 0x12 :: (encode value.length ++ value))

/-- One element of the repeated `fields` entry of a `Payload`. -/
def mapEntry (key value : Bytes) : Bytes :=
  0xa :: (encode (entryBytes key value).length ++ entryBytes key value)

/-- The body of the `Payload` message.  The encoder fills the buffer from its
end, so the entry of the first key comes last. -/
def mapBody : List Bytes → List Bytes → Bytes
  | key :: keys, value :: values => mapBody keys values ++ mapEntry key value
  | _, _ => []

/-- The bytes of a `Record` message with all three fields present. -/
def recordBytes (dataType timestamp : Nat) (body : Bytes) : Bytes :=
  0x8 :: (encode dataType ++ 0x10 :: (encode timestamp ++
    0x1a :: (encode body.length ++ body)))

theorem entryLength_eq {key value : Bytes} (bounded : entryLength key value < 2 ^ 64) :
    entryLength key value = (entryBytes key value).length := by
  unfold entryLength at bounded ⊢
  rw [encodedVarintLen_eq (n := key.length) (by omega),
    encodedVarintLen_eq (n := value.length) (by omega)]
  simp [entryBytes]
  omega

variable {keys values : List Bytes} {dst : Bytes} {timestamp dataType needed : Nat}

theorem mapLength_eq {length : Nat}
    (computed : mapLength keys values = some length) (bounded : length < 2 ^ 64) :
    length = (mapBody keys values).length := by
  induction keys generalizing values length with
  | nil =>
    simp only [mapLength, Option.some.injEq] at computed
    simp [mapBody, computed]
  | cons key keys ih =>
    cases values with
    | nil => simp [mapLength] at computed
    | cons value values =>
      simp only [mapLength, Option.bind_eq_bind, Option.bind_eq_some_iff,
        Option.pure_def, Option.some.injEq] at computed
      obtain ⟨rest, restComputed, rfl⟩ := computed
      have entry : entryLength key value = (entryBytes key value).length :=
        entryLength_eq (by omega)
      rw [encodedVarintLen_eq (n := entryLength key value) (by omega), entry,
        ih restComputed (by omega)]
      simp [mapBody, mapEntry]
      omega

theorem mapLength_isSome (enough : keys.length ≤ values.length) :
    ∃ length, mapLength keys values = some length := by
  induction keys generalizing values with
  | nil => exact ⟨0, rfl⟩
  | cons key keys ih =>
    cases values with
    | nil => simp at enough
    | cons value values =>
      have fewer : keys.length ≤ values.length := by simpa using enough
      obtain ⟨rest, computed⟩ := ih fewer
      exact ⟨_, by simp [mapLength, computed]; rfl⟩

theorem Cursor.Holds.putEntry {cursor : Cursor} {index : Nat} {tail key value : Bytes}
    (bounded : (mapEntry key value).length < 2 ^ 64)
    (holds : cursor.Holds (index + (mapEntry key value).length) tail) :
    ∃ next, next.Holds index (mapEntry key value ++ tail) ∧
      ∀ keys values, putEntries (key :: keys) (value :: values) cursor =
        putEntries keys values next := by
  have entryExtent : (entryBytes key value).length = 1 + (encode key.length).length +
      key.length + 1 + (encode value.length).length + value.length := by
    simp [entryBytes]
    omega
  have extent : (mapEntry key value).length = 1 + (encode (entryBytes key value).length).length +
        (entryBytes key value).length := by
    simp [mapEntry]
    omega
  have start : cursor.index = index + (mapEntry key value).length := holds.index_eq
  rw [show index + (mapEntry key value).length =
    index + 1 + (encode (entryBytes key value).length).length + 1 +
      (encode key.length).length + key.length + 1 +
      (encode value.length).length + value.length by omega] at holds
  obtain ⟨c₁, put₁, holds⟩ := holds.putBytes
  obtain ⟨c₂, put₂, holds⟩ := holds.putVarint (by omega)
  obtain ⟨c₃, put₃, holds⟩ := holds.putByte 0x12
  obtain ⟨c₄, put₄, holds⟩ := holds.putBytes
  obtain ⟨c₅, put₅, holds⟩ := holds.putVarint (by omega)
  obtain ⟨c₆, put₆, holds⟩ := holds.putByte 0xa
  -- The entry's length is measured as the distance the index has moved.
  have measured : cursor.index - c₆.index = (entryBytes key value).length := by
    rw [start, holds.index_eq]
    omega
  obtain ⟨c₇, put₇, holds⟩ := holds.putVarint (by omega)
  obtain ⟨c₈, put₈, holds⟩ := holds.putByte 0xa
  refine ⟨c₈, ?_, ?_⟩
  · have layout : mapEntry key value ++ tail = 0xa :: (encode (entryBytes key value).length ++
        0xa :: (encode key.length ++ (key ++ 0x12 :: (encode value.length ++
          (value ++ tail))))) := by
      simp [mapEntry, entryBytes]
    rw [layout]
    exact holds
  · intro keys values
    simp [putEntries, put₁, put₂, put₃, put₄, put₅, put₆, measured, put₇, put₈]

theorem Cursor.Holds.putEntries {cursor : Cursor} {index : Nat}
    {tail : Bytes} (enough : keys.length ≤ values.length)
    (bounded : (mapBody keys values).length < 2 ^ 64)
    (holds : cursor.Holds (index + (mapBody keys values).length) tail) :
    ∃ next, putEntries keys values cursor = some next ∧
      next.Holds index (mapBody keys values ++ tail) := by
  induction keys generalizing values cursor tail with
  | nil => exact ⟨cursor, rfl, by simpa [mapBody] using holds⟩
  | cons key keys ih =>
    cases values with
    | nil => simp at enough
    | cons value values =>
      simp only [mapBody, length_append] at bounded holds
      rw [← add_assoc] at holds
      obtain ⟨next, nextHolds, unfolded⟩ := holds.putEntry (by omega)
      obtain ⟨last, finished, lastHolds⟩ := ih (by simpa using enough) (by omega) nextHolds
      refine ⟨last, by rw [unfolded, finished], ?_⟩
      simpa [mapBody] using lastHolds

theorem finish_frame {message : Bytes} (length : Nat)
    (contents : ∃ before : Bytes, before.length = 5 ∧ dst = before ++ message) :
    ∃ marked, write dst 4 [0x8] = some marked ∧ write marked 0 (u32ToLeBytes length) =
        some (u32ToLeBytes length ++ 0x8 :: message) := by
  obtain ⟨before, beforeLength, rfl⟩ := contents
  match before, beforeLength with
  | [b₀, b₁, b₂, b₃, b₄], _ =>
    refine ⟨[b₀, b₁, b₂, b₃] ++ [0x8] ++ message, ?_, ?_⟩
    · change write ([b₀, b₁, b₂, b₃] ++ [b₄] ++ message) 4 [0x8] = _
      exact write_block rfl rfl
    · change write ([] ++ [b₀, b₁, b₂, b₃] ++ 0x8 :: message) 0 _ = _
      exact write_block rfl rfl

theorem neededLength_eq
    (dataTypePos : 0 < dataType) (timestampPos : 0 < timestamp) (nonempty : keys ≠ [])
    (dataTypeBound : dataType < 2 ^ 64) (timestampBound : timestamp < 2 ^ 64)
    (computed : neededLength timestamp keys values dataType = some needed)
    (bounded : needed < 2 ^ 64) :
    mapLength keys values = some (mapBody keys values).length ∧
      needed = 4 + (recordBytes dataType timestamp (mapBody keys values)).length := by
  have keysPos : 0 < keys.length := length_pos_of_ne_nil nonempty
  simp only [neededLength, Option.bind_eq_bind, Option.bind_eq_some_iff, Option.pure_def,
    Option.some.injEq, if_pos dataTypePos, if_pos timestampPos, if_pos keysPos] at computed
  obtain ⟨length, lengthComputed, total⟩ := computed
  have lengthEq := mapLength_eq lengthComputed (by omega)
  rw [encodedVarintLen_eq dataTypeBound, encodedVarintLen_eq timestampBound,
    encodedVarintLen_eq (n := length) (by omega)] at total
  subst lengthEq
  refine ⟨lengthComputed, ?_⟩
  simp [recordBytes]
  omega

/-- On every record with all three fields, the encoder leaves exactly the
length prefix and the `Record` message in front of the rest of the buffer. -/
theorem protobufEncode_eq (dataTypePos : 0 < dataType) (timestampPos : 0 < timestamp)
    (nonempty : keys ≠ []) (enough : keys.length ≤ values.length)
    (dataTypeBound : dataType < 2 ^ 64) (timestampBound : timestamp < 2 ^ 64)
    (computed : neededLength timestamp keys values dataType = some needed)
    (fits : needed ≤ dst.length) (dstBound : dst.length < 2 ^ 64) :
    protobufEncode timestamp keys values dst dataType = some (.ok (needed,
        u32ToLeBytes (recordBytes dataType timestamp (mapBody keys values)).length ++
          recordBytes dataType timestamp (mapBody keys values) ++ dst.drop needed)) := by
  obtain ⟨mapComputed, neededEq⟩ := neededLength_eq dataTypePos timestampPos nonempty
    dataTypeBound timestampBound computed (by omega)
  generalize bodyEq : mapBody keys values = body at *
  have keysPos : 0 < keys.length := length_pos_of_ne_nil nonempty
  have messageLength : (recordBytes dataType timestamp body).length =
      3 + (encode dataType).length + (encode timestamp).length +
        (encode body.length).length + body.length := by
    simp [recordBytes]
    omega
  have start : Cursor.Holds { index := needed, dst := dst } needed (dst.drop needed) :=
    ⟨rfl, dst.take needed, by rw [length_take]; omega, (take_append_drop needed dst).symm⟩
  have start : Cursor.Holds { index := needed, dst := dst }
      (5 + (encode dataType).length + 1 + (encode timestamp).length + 1 +
        (encode body.length).length + (mapBody keys values).length)
      (dst.drop needed) := by
    rw [bodyEq]
    convert start using 1
    omega
  obtain ⟨c₁, put₁, holds⟩ := start.putEntries enough (by rw [bodyEq]; omega)
  obtain ⟨c₂, put₂, holds⟩ := holds.putVarint (by omega)
  obtain ⟨c₃, put₃, holds⟩ := holds.putByte 0x1a
  obtain ⟨c₄, put₄, holds⟩ := holds.putVarint timestampBound
  obtain ⟨c₅, put₅, holds⟩ := holds.putByte 0x10
  obtain ⟨c₆, put₆, holds⟩ := holds.putVarint dataTypeBound
  obtain ⟨marked, tagged, prefixed⟩ := finish_frame (needed - 4) holds.suffix
  have prefixEq : needed - 4 = (recordBytes dataType timestamp body).length := by omega
  have timestampNe : timestamp ≠ 0 := by omega
  have largeEnough : ¬needed < 4 := by omega
  have roomy : ¬dst.length < needed := by omega
  simp only [protobufEncode, mapComputed, computed, Option.bind_eq_bind, Option.bind_some,
    roomy, keysPos, put₁, put₂, put₃, put₄, put₅, put₆, tagged, prefixed, timestampNe,
    largeEnough, ne_eq, not_false_eq_true, if_true, if_false, Option.pure_def]
  rw [prefixEq, bodyEq]
  simp [recordBytes]

theorem neededLength_isSome (enough : keys.length ≤ values.length) (timestamp dataType : Nat) :
    ∃ needed, neededLength timestamp keys values dataType = some needed := by
  obtain ⟨length, computed⟩ := mapLength_isSome enough
  rw [neededLength, computed]
  exact ⟨_, rfl⟩

theorem protobufEncode_small (computed : neededLength timestamp keys values dataType = some needed)
    (small : dst.length < needed) :
    protobufEncode timestamp keys values dst dataType =
      some (.error (.writeZero "not enough buffer")) := by
  obtain ⟨length, mapComputed, _⟩ := bind_eq_some_iff.mp computed
  simp [protobufEncode, mapComputed, computed, small]

theorem protobufEncode_untimed
    (dataTypePos : 0 < dataType) (nonempty : keys ≠ []) (enough : keys.length ≤ values.length)
    (dataTypeBound : dataType < 2 ^ 64)
    (computed : neededLength 0 keys values dataType = some needed)
    (fits : needed ≤ dst.length) (dstBound : dst.length < 2 ^ 64) :
    ∃ next, protobufEncode 0 keys values dst dataType = some (.ok (needed, next)) := by
  have keysPos : 0 < keys.length := length_pos_of_ne_nil nonempty
  obtain ⟨length, mapComputed⟩ := mapLength_isSome enough
  have total := computed
  simp only [neededLength, mapComputed, Option.bind_eq_bind, Option.bind_some, Option.pure_def,
    Option.some.injEq, if_pos dataTypePos, if_pos keysPos, lt_irrefl, if_false] at total
  have lengthEq := mapLength_eq mapComputed (by omega)
  rw [encodedVarintLen_eq dataTypeBound, @encodedVarintLen_eq length (by omega)] at total
  have start : Cursor.Holds { index := needed, dst := dst }
      (3 + (encode dataType).length + 1 + (encode length).length +
        (mapBody keys values).length) (dst.drop needed) := by
    refine ⟨by dsimp only; omega, dst.take needed, ?_, (take_append_drop needed dst).symm⟩
    rw [length_take]
    omega
  obtain ⟨c₁, put₁, holds⟩ := start.putEntries enough (by omega)
  obtain ⟨c₂, put₂, holds⟩ := holds.putVarint (by omega)
  obtain ⟨c₃, put₃, holds⟩ := holds.putByte 0x1a
  obtain ⟨c₄, put₄, holds⟩ := holds.putVarint dataTypeBound
  obtain ⟨before, beforeLength, contents⟩ := holds.suffix
  have positive := encode_length_pos dataType
  have extent : 5 ≤ c₄.dst.length := by
    rw [contents, length_append, length_append, length_cons]
    omega
  obtain ⟨marked, tagged⟩ := @Buffer.write_isSome _ c₄.dst [0x8] 4 extent
  have markedExtent : 0 + (u32ToLeBytes (needed - 4)).length ≤ marked.length := by
    rw [length_of_write tagged]
    exact le_of_succ_le extent
  obtain ⟨framed, prefixed⟩ := write_isSome markedExtent
  have largeEnough : ¬ needed < 4 := by omega
  simp only [protobufEncode, mapComputed, computed, Option.bind_eq_bind, Option.bind_some,
    not_lt.mpr fits, keysPos, put₁, put₂, put₃, put₄, tagged, prefixed, largeEnough, ne_eq,
    not_true_eq_false, if_true, if_false, Option.pure_def]
  exact ⟨_, rfl⟩

theorem protobufEncode_returns
    (dataTypePos : 0 < dataType) (nonempty : keys ≠ []) (enough : keys.length ≤ values.length)
    (dataTypeBound : dataType < 2 ^ 64) (timestampBound : timestamp < 2 ^ 64)
    (dstBound : dst.length < 2 ^ 64) :
    (∃ error, protobufEncode timestamp keys values dst dataType = some (.error error)) ∨
      ∃ written next, protobufEncode timestamp keys values dst dataType =
        some (.ok (written, next)) ∧ 0 < written := by
  obtain ⟨needed, computed⟩ := neededLength_isSome enough timestamp dataType
  by_cases small : dst.length < needed
  · exact .inl ⟨_, protobufEncode_small computed small⟩
  · have fits : needed ≤ dst.length := not_lt.mp small
    have positive : 0 < needed := by
      obtain ⟨_, _, total⟩ := Option.bind_eq_some_iff.mp computed
      rw [if_pos dataTypePos, Option.pure_def, Option.some.injEq] at total
      omega
    rcases Nat.eq_zero_or_pos timestamp with rfl | timestampPos
    · obtain ⟨next, encoded⟩ := protobufEncode_untimed dataTypePos nonempty enough dataTypeBound
        computed fits dstBound
      exact .inr ⟨needed, next, encoded, positive⟩
    · exact .inr ⟨needed, _, protobufEncode_eq dataTypePos timestampPos nonempty enough
        dataTypeBound timestampBound computed fits dstBound, positive⟩

end Elkeid.Wire
