import Elkeid.Wire.Receive

/-!
# Frames that a plugin makes up

`ReceiveData` trusts the layout of a frame: it reads two tags with their varints, a
third tag and, when the announced length says so, the payload's varint, before it
compares what it has read with that length.  A frame is received within its bounds
exactly when its header ends inside of them.
-/

namespace Elkeid.Wire

open Foundations List Nat

inductive Part where
  | tag
  | varint

/-- The bytes of a varint that say that it goes on, among the first `budget`. -/
def highBytes (budget : Nat) (input : Bytes) : Nat :=
  ((input.take budget).takeWhile (0x80 ≤ ·)).length

/-- How many bytes a part takes from the front of the stream, and whether it is
complete with them.  A varint ends with its first byte below `0x80`, and no reader
looks at more than ten bytes for it. -/
def Part.extent : Part → Bytes → Nat × Bool
  | .tag, input => if input = [] then (0, false) else (1, true)
  | .varint, input =>
    if highBytes 10 input < (input.take 10).length then (highBytes 10 input + 1, true)
    else (highBytes 10 input, false)

/-- How many bytes of the stream the parts take, up to the first one that is not complete. -/
def headerExtent : List Part → Bytes → Nat
  | [], _ => 0
  | part :: parts, input =>
    if (part.extent input).2 then
      (part.extent input).1 + headerExtent parts (input.drop (part.extent input).1)
    else (part.extent input).1

variable {input rest : Bytes}

theorem headerExtent_complete {part : Part} {taken : Nat}
    (ends : part.extent input = (taken, true)) (parts : List Part) :
    headerExtent (part :: parts) input = taken + headerExtent parts (input.drop taken) := by
  rw [headerExtent, ends]
  rfl

theorem headerExtent_broken {part : Part} {taken : Nat}
    (broken : part.extent input = (taken, false)) (parts : List Part) :
    headerExtent (part :: parts) input = taken := by
  rw [headerExtent, broken]
  rfl

theorem Part.extent_le (part : Part) (input : Bytes) : (part.extent input).1 ≤ input.length := by
  cases part with
  | tag =>
    rw [extent]
    split
    next => exact zero_le _
    next nonempty => exact length_pos_iff.mpr nonempty
  | varint =>
    have window : (input.take 10).length ≤ input.length := length_take_le' _ _
    have high : highBytes 10 input ≤ (input.take 10).length :=
      (takeWhile_sublist _).length_le
    rw [extent]
    split
    next inside => exact le_trans inside window
    next => exact le_trans high window

theorem headerExtent_le (parts : List Part) (input : Bytes) :
    headerExtent parts input ≤ input.length := by
  induction parts generalizing input with
  | nil => exact zero_le _
  | cons part parts ih =>
    have first := part.extent_le input
    have later := ih (input.drop (part.extent input).1)
    rw [length_drop] at later
    rw [headerExtent]
    split
    next => omega
    next => exact first

theorem discardByte_extent_ok {skipped : Unit} (read : discardByte input = .ok skipped rest) :
    Part.tag.extent input = (1, true) ∧ rest = input.drop 1 := by
  cases input with
  | nil => cases read
  | cons byte tail =>
    cases read
    exact ⟨rfl, rfl⟩

theorem discardByte_extent_error {error : ReadError}
    (read : discardByte input = .error error rest) :
    Part.tag.extent input = (0, false) ∧ rest = input.drop 0 := by
  cases input with
  | nil =>
    cases read
    exact ⟨rfl, rfl⟩
  | cons byte tail => cases read

theorem readVarintLoop_window {budget : Nat} (within : budget ≤ 10) (varint eaten : Nat)
    (input : Bytes) :
    (highBytes budget input < (input.take budget).length ∧
      ∃ value, readVarintLoop (7 * (10 - budget)) varint eaten input =
        .ok (value, eaten + (highBytes budget input + 1))
          (input.drop (highBytes budget input + 1))) ∨
    (¬ highBytes budget input < (input.take budget).length ∧
      ∃ error, readVarintLoop (7 * (10 - budget)) varint eaten input =
        .error error (input.drop (highBytes budget input))) := by
  induction budget generalizing varint eaten input with
  | zero =>
    refine .inr ⟨lt_irrefl 0, .intOverflow, ?_⟩
    rw [readVarintLoop.eq_def, if_pos (by decide)]
    rfl
  | succ budget ih =>
    have unfinished : ¬ 64 ≤ 7 * (10 - (budget + 1)) := by omega
    cases input with
    | nil =>
      refine .inr ⟨lt_irrefl 0, .eof, ?_⟩
      rw [readVarintLoop.eq_def, if_neg unfinished]
      rfl
    | cons byte rest =>
      rw [readVarintLoop.eq_def, if_neg unfinished]
      by_cases last : byte < 0x80
      · have high : highBytes (budget + 1) (byte :: rest) = 0 := by
          rw [highBytes, take_succ_cons, takeWhile_cons_of_neg, length_nil]
          exact mt decide_eq_true_iff.mp (UInt8.not_le.mpr last)
        rw [high]
        refine .inl ⟨succ_pos _, ?_⟩
        simp only [last, if_true]
        exact ⟨_, rfl⟩
      · have high : highBytes (budget + 1) (byte :: rest) = highBytes budget rest + 1 := by
          rw [highBytes, take_succ_cons, takeWhile_cons_of_pos, length_cons, highBytes]
          exact decide_eq_true_iff.mpr (UInt8.not_lt.mp last)
        have shifted : 7 * (10 - (budget + 1)) + 7 = 7 * (10 - budget) := by omega
        have length : ((byte :: rest).take (budget + 1)).length =
            (rest.take budget).length + 1 := rfl
        simp only [last, if_false, shifted, high, length, add_lt_add_iff_right, drop_succ_cons]
        have later := ih (by omega)
          (varint ||| ((byte &&& 0x7F).toNat <<< (7 * (10 - (budget + 1)))) % 2 ^ 64)
          (eaten + 1) rest
        rw [add_assoc eaten, add_comm 1] at later
        exact later

theorem readVarint_extent (input : Bytes) : ∃ taken, (Part.varint.extent input = (taken, true) ∧
        ∃ value, readVarint input = .ok (value, taken) (input.drop taken)) ∨
      (Part.varint.extent input = (taken, false) ∧
        ∃ error, readVarint input = .error error (input.drop taken)) := by
  obtain ⟨inside, value, read⟩ | ⟨outside, error, read⟩ :=
    readVarintLoop_window (le_refl 10) 0 0 input
  · rw [zero_add] at read
    exact ⟨_, .inl ⟨if_pos inside, value, read⟩⟩
  · exact ⟨_, .inr ⟨if_neg outside, error, read⟩⟩

theorem readVarint_extent_ok {value e : Nat} (read : readVarint input = .ok (value, e) rest) :
    Part.varint.extent input = (e, true) ∧ rest = input.drop e := by
  obtain ⟨taken, ⟨extent, _, same⟩ | ⟨_, _, same⟩⟩ := readVarint_extent input
  · cases same.symm.trans read
    exact ⟨extent, rfl⟩
  · cases same.symm.trans read

theorem readVarint_extent_error {error : ReadError} (read : readVarint input = .error error rest) :
    ∃ taken, Part.varint.extent input = (taken, false) ∧ rest = input.drop taken := by
  obtain ⟨taken, ⟨_, _, same⟩ | ⟨extent, _, same⟩⟩ := readVarint_extent input
  · cases same.symm.trans read
  · cases same.symm.trans read
    exact ⟨taken, extent, rfl⟩

def fixedHeader : List Part := [.tag, .varint, .tag, .varint, .tag]

/-- The length prefix of the stream's first frame. -/
def announced (plugin : Plugin) : Nat := ofLeBytes (plugin.reader.take 4)

def Reception.next : Reception → Option Plugin
  | received _ plugin => some plugin
  | failed _ _ plugin => some plugin
  | panicked => none

def Reception.fetched : Reception → Option EncodedRecord
  | received record _ => some record
  | failed record _ _ => record
  | panicked => none

/-- The call has returned and has consumed no byte behind the announced frame; the
record has kept its slice or has a new one no longer than the frame. -/
def Contained (plugin : Plugin) (pooled : EncodedRecord) (reception : Reception) : Prop :=
  ∃ next consumed, reception.next = some next ∧ next.reader = plugin.reader.drop consumed ∧
    consumed ≤ 4 + announced plugin ∧
    ∀ record ∈ reception.fetched,
      record.data.cap = pooled.data.cap ∨ record.data.cap ≤ announced plugin

section Containment

variable {plugin : Plugin} {pooled : EncodedRecord} {taken : Nat} {left rest : Bytes}
  {parts : List Part}

theorem contained_iff {reception : Reception} {next : Plugin}
    (returned : reception.next = some next) (left : next.reader = (plugin.reader.drop 4).drop taken)
    (available : taken ≤ (plugin.reader.drop 4).length) (slices : ∀ record ∈ reception.fetched,
      record.data.cap = pooled.data.cap ∨ record.data.cap ≤ announced plugin) :
    Contained plugin pooled reception ↔ taken ≤ announced plugin := by
  rw [drop_drop] at left
  rw [length_drop] at available
  constructor
  · rintro ⟨other, consumed, alsoReturned, alsoLeft, within, _⟩
    cases returned.symm.trans alsoReturned
    have lengths := congrArg List.length (left.symm.trans alsoLeft)
    rw [length_drop, length_drop] at lengths
    omega
  · intro within
    exact ⟨next, 4 + taken, returned, left, Nat.add_le_add_left within 4, slices⟩

theorem Slice.cap_overwrite {slice : Slice} {bytes : Bytes} (inside : bytes.length ≤ slice.cap) :
    (slice.overwrite bytes).cap = slice.cap := by
  rw [cap, overwrite, length_append, length_drop]
  exact add_sub_of_le inside

theorem cap_payload {data : Slice} {ne : Nat} (bytes : Bytes) (fits : bytes.length ≤ ne) :
    let slice := if inside : ne ≤ data.cap then data.reslice ne inside else Slice.make ne
    (slice.overwrite bytes).cap = data.cap ∨ (slice.overwrite bytes).cap ≤ ne := by
  split
  next inside => exact .inl (Slice.cap_overwrite (le_trans fits inside))
  next =>
    have cap : (Slice.make ne).cap = ne := length_replicate
    have kept := Slice.cap_overwrite (fits.trans_eq cap.symm)
    exact .inr (kept.trans cap).le

theorem readFull_error {count : Nat} {input : Bytes} {error : ReadError}
    (read : readFull count input = .error error left) : input.length < count ∧ left = [] := by
  rw [readFull] at read
  split at read
  next => cases read
  next short =>
    refine ⟨not_le.mp short, ?_⟩
    split at read <;> cases read
    next => rfl
    next => rfl

/-- The call has read `taken` bytes of the frame and has these parts of the fixed
header before it. -/
structure Reached (plugin : Plugin) (rest : Bytes) (taken : Nat) (parts : List Part) : Prop where
  position : rest = (plugin.reader.drop 4).drop taken
  header : ∀ tail, headerExtent (fixedHeader ++ tail) (plugin.reader.drop 4) =
    taken + headerExtent (parts ++ tail) rest

theorem Reached.start : Reached plugin (plugin.reader.drop 4) 0 fixedHeader :=
  ⟨rfl, fun _ => (zero_add _).symm⟩

theorem Reached.complete {more : Nat} {part : Part}
    (reached : Reached plugin rest taken (part :: parts))
    (read : part.extent rest = (more, true) ∧ left = rest.drop more) :
    Reached plugin left (taken + more) parts := by
  obtain ⟨complete, rfl⟩ := read
  constructor
  · rw [reached.position, drop_drop]
  · intro tail
    rw [reached.header, cons_append, headerExtent_complete complete, add_assoc]

theorem Reached.inFrame
    (reached : Reached plugin rest taken parts) : taken ≤ (plugin.reader.drop 4).length := by
  have whole := headerExtent_le (fixedHeader ++ []) (plugin.reader.drop 4)
  rw [reached.header] at whole
  omega

theorem Reached.broken_contained_iff {record : Option EncodedRecord} {error : ReadError}
    {more : Nat} {part : Part} (reached : Reached plugin rest taken (part :: parts))
    (read : part.extent rest = (more, false) ∧ left = rest.drop more)
    (kept : ∀ fetched ∈ record, fetched.data = pooled.data) :
    Contained plugin pooled (.failed record error { plugin with reader := left }) ↔
      headerExtent fixedHeader (plugin.reader.drop 4) = announced plugin ∨
        headerExtent (fixedHeader ++ [.varint]) (plugin.reader.drop 4) ≤ announced plugin := by
  obtain ⟨broken, rfl⟩ := read
  have ends (tail : List Part) :
      headerExtent (fixedHeader ++ tail) (plugin.reader.drop 4) = taken + more := by
    rw [reached.header, cons_append, headerExtent_broken broken]
  have fixedEnds := ends []
  have inFrame := headerExtent_le (fixedHeader ++ []) (plugin.reader.drop 4)
  rw [ends] at inFrame
  rw [append_nil] at fixedEnds
  rw [fixedEnds, ends, or_iff_right_of_imp Eq.le]
  refine contained_iff rfl ?_ inFrame ?_
  · dsimp only
    rw [reached.position, drop_drop]
  · intro fetched isFetched
    exact .inl (congrArg Slice.cap (kept fetched isFetched))

theorem Reached.receivePayload_contained_iff {record : EncodedRecord} {te : Nat}
    (reached : Reached plugin rest te []) (kept : record.data = pooled.data) :
    Contained plugin pooled
        (receivePayload { plugin with reader := rest } record (announced plugin) te) ↔
      headerExtent (fixedHeader ++ [.varint]) (plugin.reader.drop 4) ≤ announced plugin := by
  obtain ⟨position, header⟩ := reached
  have inFrame := headerExtent_le (fixedHeader ++ [.varint]) (plugin.reader.drop 4)
  rw [header, nil_append] at inFrame ⊢
  rw [receivePayload]
  cases read : readVarint rest with
  | error error left =>
    obtain ⟨taken, broken, leftEq⟩ := readVarint_extent_error read
    rw [headerExtent_broken broken] at inFrame ⊢
    refine contained_iff rfl ?_ inFrame ?_
    · rw [← drop_drop, ← position]
      exact leftEq
    · rintro _ ⟨⟩
      exact .inl (congrArg Slice.cap kept)
  | ok value left =>
    obtain ⟨_, e⟩ := value
    obtain ⟨complete, leftEq⟩ := readVarint_extent_ok read
    rw [headerExtent_complete complete, headerExtent, add_zero] at inFrame ⊢
    have leftPosition : left = (plugin.reader.drop 4).drop (te + e) := by
      rw [← drop_drop, ← position]
      exact leftEq
    dsimp only
    split
    next beyond =>
      refine iff_of_false ?_ (not_le.mpr beyond)
      rintro ⟨_, _, returned, _⟩
      cases returned
    next inside =>
      have within : te + e ≤ announced plugin := not_lt.mp inside
      refine iff_of_true ?_ within
      have lengthLeft := congrArg length leftPosition
      rw [length_drop] at lengthLeft
      cases payloadRead : readFull (announced plugin - (te + e)) left with
      | error error last =>
        obtain ⟨short, rfl⟩ := readFull_error payloadRead
        refine (contained_iff rfl (drop_length.symm) (le_refl _) ?_).mpr (by omega)
        rintro _ ⟨⟩
        have cap := @cap_payload record.data _ left short.le
        rw [← kept]
        exact cap.imp_right fun small => small.trans (sub_le _ _)
      | ok payload last =>
        obtain ⟨extent, contents⟩ := readFull_ok payloadRead
        have lastPosition : last = (plugin.reader.drop 4).drop (announced plugin) := by
          rw [← add_sub_of_le within, ← drop_drop, ← leftPosition, contents]
          exact (drop_left' extent).symm
        have lengthContents := congrArg length contents
        rw [length_append] at lengthContents
        refine (contained_iff rfl lastPosition (by omega) ?_).mpr (le_refl _)
        rintro _ ⟨⟩
        have cap := @cap_payload record.data _ payload extent.le
        rw [← kept]
        exact cap.imp_right fun small => small.trans (sub_le _ _)

end Containment

/-- A call stays within the frame exactly when the two tags with their varints and the
third tag fill the announced length, or end inside of it together with the varint of
the payload. -/
theorem receiveData_contained_iff (plugin : Plugin) (pooled : EncodedRecord) :
    Contained plugin pooled (receiveData plugin pooled) ↔
      headerExtent fixedHeader (plugin.reader.drop 4) = announced plugin ∨
        headerExtent (fixedHeader ++ [.varint]) (plugin.reader.drop 4) ≤ announced plugin := by
  have ownSlice {record : EncodedRecord} (same : record.data = pooled.data) :
      ∀ fetched ∈ some record, fetched.data = pooled.data := by
    rintro _ ⟨⟩
    exact same
  have noRecord : ∀ record ∈ (none : Option EncodedRecord), record.data = pooled.data := by
    rintro _ ⟨⟩
  rw [receiveData, readUint32]
  cases lengthRead : readFull 4 plugin.reader with
  | error error rest =>
    obtain ⟨short, rfl⟩ := readFull_error lengthRead
    have noFrame : plugin.reader.drop 4 = [] := drop_eq_nil_of_le short.le
    have start := @Reached.start plugin
    rw [noFrame] at start
    exact start.broken_contained_iff ⟨rfl, rfl⟩ noRecord
  | ok bytes rest =>
  obtain ⟨lengthBytes, contents⟩ := readFull_ok lengthRead
  have bytesEq : bytes = plugin.reader.take 4 := by rw [contents, take_left' lengthBytes]
  have restEq : rest = plugin.reader.drop 4 := by rw [contents, drop_left' lengthBytes]
  have reached := @Reached.start plugin
  rw [← restEq] at reached
  rw [bytesEq]
  dsimp only
  cases read : discardByte rest with
  | error error left =>
    exact reached.broken_contained_iff (discardByte_extent_error read) noRecord
  | ok _ left =>
  replace reached := reached.complete (discardByte_extent_ok read)
  dsimp only
  cases read : readVarint left with
  | error error left =>
    obtain ⟨taken, broken⟩ := readVarint_extent_error read
    exact reached.broken_contained_iff broken (ownSlice rfl)
  | ok value left =>
  obtain ⟨dt, e⟩ := value
  replace reached := reached.complete (readVarint_extent_ok read)
  dsimp only
  cases read : discardByte left with
  | error error left =>
    exact reached.broken_contained_iff (discardByte_extent_error read) (ownSlice rfl)
  | ok _ left =>
  replace reached := reached.complete (discardByte_extent_ok read)
  dsimp only
  cases read : readVarint left with
  | error error left =>
    obtain ⟨taken, broken⟩ := readVarint_extent_error read
    exact reached.broken_contained_iff broken (ownSlice rfl)
  | ok value left =>
  obtain ⟨ts, f⟩ := value
  replace reached := reached.complete (readVarint_extent_ok read)
  dsimp only
  cases read : discardByte left with
  | error error left =>
    exact reached.broken_contained_iff (discardByte_extent_error read) (ownSlice rfl)
  | ok _ left =>
  replace reached := reached.complete (discardByte_extent_ok read)
  rw [show 0 + 1 + e + 1 + f + 1 = 1 + (e + 1) + (f + 1) by omega] at reached
  have fixedEnds := reached.header []
  rw [append_nil, append_nil, headerExtent, add_zero] at fixedEnds
  dsimp only
  split
  next below =>
    rw [or_iff_right (fixedEnds ▸ below.ne)]
    exact reached.receivePayload_contained_iff rfl
  next filled =>
    have withPayload := reached.header [.varint]
    have full : announced plugin ≤ 1 + (e + 1) + (f + 1) := not_lt.mp filled
    have exactly : (1 + (e + 1) + (f + 1) ≤ announced plugin) ↔
        1 + (e + 1) + (f + 1) = announced plugin ∨
          headerExtent (fixedHeader ++ [.varint]) (plugin.reader.drop 4) ≤ announced plugin := by
      omega
    rw [fixedEnds, ← exactly]
    refine contained_iff rfl reached.position reached.inFrame ?_
    rintro _ ⟨⟩
    exact .inl rfl

/-- The frame announces six bytes, but its payload's varint ends with the seventh. -/
def crossingFrame : Plugin :=
  ⟨[6, 0, 0, 0, 0x08, 0x01, 0x10, 0x01, 0x1a, 0x80, 0x01], 0, 0⟩

theorem crossingFrame_not_contained : receiveData crossingFrame ⟨0, 0, .make 0⟩ = .panicked ∧
      ¬ Contained crossingFrame ⟨0, 0, .make 0⟩ (receiveData crossingFrame ⟨0, 0, .make 0⟩) := by
  have panics : receiveData crossingFrame ⟨0, 0, .make 0⟩ = .panicked := by
    simp [receiveData, receivePayload, crossingFrame, readUint32, readFull, readVarint,
      readVarintLoop, LittleEndian.value]
  refine ⟨panics, ?_⟩
  rintro ⟨_, _, returned, _⟩
  rw [panics] at returned
  cases returned

end Elkeid.Wire
