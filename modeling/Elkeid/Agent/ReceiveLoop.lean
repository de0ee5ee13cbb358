import Elkeid.Wire.Receive

/-!
# The loop that receives from a plugin

The goroutine of `Load` in `agent/plugin/plugin_linux.go` that hands what
`ReceiveData` returns to `WriteEncodedRecord`. The pipe ends when the plugin closes
its side, or when the agent closes the pipe because the plugin is gone. An error that
is neither of these is only logged, so that the loop passes on whatever record came
with it. The frames that make this happen are described by their bytes.
-/

namespace Elkeid.Agent

open Foundations Wire List Nat

/-- What a read meets at the end of the bytes: `io.EOF` or `os.ErrClosed`. -/
inductive Ending where
  | eof
  | closed
  deriving DecidableEq

inductive PipeError where
  | read (error : ReadError)
  | closed
  | bufferFull

/-- On a closed file `io.ReadFull` returns the error of the file also after some bytes. -/
def Ending.errorOf : Ending → ReadError → PipeError
  | .closed, .eof => .closed
  | .closed, .unexpectedEof => .closed
  | _, error => .read error

inductive Verdict where
  | again
  | stop
  | write
  deriving DecidableEq

def PipeError.verdict : PipeError → Verdict
  | .bufferFull => .again
  | .read .eof => .stop
  | .closed => .stop
  | .read .unexpectedEof => .write
  | .read .intOverflow => .write

/-- One turn of the loop: the bytes it found, what `ReceiveData` returned, and the value
passed to `WriteEncodedRecord`, if any. -/
structure Turn where
  input : Bytes
  result : Reception
  written : Option (Option EncodedRecord)

/-- The loop; `pooled` are the records that the pool hands out. `none` when it does not
end within the given turns. A negative slice bound ends the whole agent. -/
def receiveLoop (ending : Ending) (pooled : Nat → EncodedRecord) :
    Nat → Plugin → Option (List Turn)
  | 0, _ => none
  | turns + 1, plugin =>
    let turn := Turn.mk plugin.reader (receiveData plugin (pooled turns))
    match receiveData plugin (pooled turns) with
    | .panicked => some [turn none]
    | .received record next =>
      (receiveLoop ending pooled turns next).map (turn (some (some record)) :: ·)
    | .failed record error next =>
      match (ending.errorOf error).verdict with
      | .again => (receiveLoop ending pooled turns next).map (turn none :: ·)
      | .stop => some [turn none]
      | .write => (receiveLoop ending pooled turns next).map (turn (some record) :: ·)

/-- `PutEncodedRecords` on what was written; `none` is the dereference of a nil record. -/
def putEncodedRecords (written : List (Option EncodedRecord)) : Option (List EncodedRecord) :=
  written.mapM fun record => do
    let record ← record
    return { record with data := record.data.reslice 0 (zero_le _) }

/-- The frame of a record was read without an error and to its announced end. -/
def Turn.Complete (turn : Turn) : Prop :=
  ∀ value, turn.written = some value → ∃ record next, value = some record ∧
    turn.result = .received record next ∧
      next.reader.length + (4 + ofLeBytes (turn.input.take 4)) ≤ turn.input.length

section Bytes

def Continued (bytes : Bytes) : Prop := ∀ byte ∈ bytes, ¬ byte < 0x80

def Group (bytes : Bytes) : Prop :=
  ∃ front last, bytes = front ++ [last] ∧ Continued front ∧ last < 0x80 ∧ front.length < 10

def Overlong (bytes : Bytes) : Prop := Continued bytes ∧ bytes.length = 10

/-- The bytes before the payload, and what stands behind them. -/
def header (size : Bytes) (tag : UInt8) (dataType : Bytes) (tag' : UInt8) (timestamp : Bytes)
    (tag'' : UInt8) (rest : Bytes) : Bytes :=
  size ++ tag :: (dataType ++ tag' :: (timestamp ++ tag'' :: rest))

/-- How many of the announced bytes come before the payload's own length. -/
def eaten (dataType timestamp : Bytes) : Nat :=
  1 + (dataType.length + 1) + (timestamp.length + 1)

/-- The frames that the loop fails to read and yet writes. -/
inductive Breaks (ending : Ending) : Bytes → Prop
  /-- the stream ends inside the length -/
  | size {input} : ending = .eof → input ≠ [] → input.length < 4 → Breaks ending input
  | dataType {size tag long rest} : size.length = 4 → Overlong long →
      Breaks ending (size ++ tag :: (long ++ rest))
  | timestamp {size tag dataType tag' long rest} : size.length = 4 → Group dataType →
      Overlong long → Breaks ending (size ++ tag :: (dataType ++ tag' :: (long ++ rest)))
  | payloadSize {size tag dataType tag' timestamp tag'' long rest} : size.length = 4 →
      Group dataType → Group timestamp →
      eaten dataType timestamp < ofLeBytes size → Overlong long →
      Breaks ending (header size tag dataType tag' timestamp tag'' (long ++ rest))
  /-- the stream ends inside the payload -/
  | payload {size tag dataType tag' timestamp tag'' payloadSize rest} : ending = .eof →
      size.length = 4 → Group dataType → Group timestamp → Group payloadSize → rest ≠ [] →
      eaten dataType timestamp + payloadSize.length + rest.length < ofLeBytes size →
      Breaks ending (header size tag dataType tag' timestamp tag'' (payloadSize ++ rest))

theorem readVarintLoop_continued {front : Bytes} (continued : Continued front)
    {shift : Nat} (short : shift + 7 * front.length < 71) (varint eaten : Nat) (rest : Bytes) :
    ∃ collected, readVarintLoop shift varint eaten (front ++ rest) =
      readVarintLoop (shift + 7 * front.length) collected (eaten + front.length) rest := by
  induction front generalizing shift varint eaten with
  | nil => exact ⟨varint, rfl⟩
  | cons byte front ih =>
    rw [length_cons] at short
    obtain ⟨isContinued, continuedFront⟩ := forall_mem_cons.mp continued
    obtain ⟨collected, goesOn⟩ := ih continuedFront (by omega : shift + 7 + _ < _)
      (varint ||| ((byte &&& 0x7F).toNat <<< shift) % 2 ^ 64) (eaten + 1)
    have inRange : ¬ 64 ≤ shift := by omega
    refine ⟨collected, ?_⟩
    rw [cons_append, readVarintLoop, if_neg inRange]
    simp only [isContinued, if_false, goesOn, length_cons]
    congr 1 <;> omega

theorem readVarint_group {bytes : Bytes} (group : Group bytes) (rest : Bytes) :
    ∃ value, readVarint (bytes ++ rest) = .ok (value, bytes.length) rest := by
  obtain ⟨front, last, rfl, continued, isLast, short⟩ := group
  obtain ⟨collected, goesOn⟩ := readVarintLoop_continued continued (by omega : 0 + _ < _) 0 0
    ([last] ++ rest)
  have inRange : ¬ 64 ≤ 0 + 7 * front.length := by omega
  rw [readVarint, append_assoc, goesOn, singleton_append, readVarintLoop, if_neg inRange]
  simp only [isLast, if_true, length_append, length_singleton, zero_add]
  exact ⟨_, rfl⟩

theorem readVarint_overlong {bytes : Bytes} (overlong : Overlong bytes) (rest : Bytes) :
    readVarint (bytes ++ rest) = .error .intOverflow rest := by
  obtain ⟨continued, length⟩ := overlong
  obtain ⟨collected, goesOn⟩ := readVarintLoop_continued continued (by omega : 0 + _ < _) 0 0 rest
  have outOfRange : 64 ≤ 0 + 7 * bytes.length := by omega
  rw [readVarint, goesOn, readVarintLoop.eq_def, if_pos outOfRange]

theorem readVarint_cut {input : Bytes} (continued : Continued input) (short : input.length < 10) :
    readVarint input = .error .eof [] := by
  obtain ⟨collected, goesOn⟩ := readVarintLoop_continued continued (by omega : 0 + _ < _) 0 0 []
  have inRange : ¬ 64 ≤ 0 + 7 * input.length := by omega
  rw [append_nil] at goesOn
  rw [readVarint, goesOn, readVarintLoop, if_neg inRange]

/-- What bytes can start with where a varint is read. -/
inductive VarintShape : Bytes → Prop
  | group {bytes} (rest) : Group bytes → VarintShape (bytes ++ rest)
  | overlong {bytes} (rest) : Overlong bytes → VarintShape (bytes ++ rest)
  | cut {input} : Continued input → input.length < 10 → VarintShape input

theorem varintShape (input : Bytes) : VarintShape input := by
  obtain ⟨front, back, rfl, continued, ends⟩ : ∃ front back, input = front ++ back ∧
      Continued front ∧ ∀ last rest, back = last :: rest → last < 0x80 := by
    refine ⟨_, _, (takeWhile_append_dropWhile (p := fun byte => ! decide (byte < 0x80))).symm,
      ?_, ?_⟩
    · intro byte listed
      simpa using mem_takeWhile_imp listed
    · intro last rest isBack
      have stops := head?_dropWhile_not (fun byte => ! decide (byte < 0x80)) input
      simpa [isBack] using stops
  by_cases long : 10 ≤ front.length
  · rw [← take_append_drop 10 front, append_assoc]
    refine .overlong _ ⟨fun byte listed => continued byte (mem_of_mem_take listed), ?_⟩
    exact length_take_of_le long
  · have short := not_le.mp long
    cases back with
    | nil =>
      rw [append_nil]
      exact .cut continued short
    | cons last rest =>
      rw [append_cons]
      exact .group rest ⟨front, last, rfl, continued, ends last rest rfl, short⟩

end Bytes

section Frames

variable {size dataType timestamp payloadSize : Bytes} {tag tag' tag'' : UInt8}

section

variable (isSize : size.length = 4)
include isSize

theorem readUint32_append (rest : Bytes) :
    readUint32 (size ++ rest) = .ok (ofLeBytes size) rest := by
  simp [readUint32, readFull_append isSize]

theorem length_header (rest : Bytes) : (header size tag dataType tag' timestamp tag'' rest).length =
      4 + eaten dataType timestamp + rest.length := by
  simp only [header, eaten, length_append, length_cons, isSize]
  omega

theorem take_header (rest : Bytes) :
    (header size tag dataType tag' timestamp tag'' rest).take 4 = size := by
  rw [header, ← isSize, take_left]

theorem receiveData_header (isType : Group dataType)
    (isTime : Group timestamp) (rest : Bytes) (txCnt txBytes : Nat) (pooled : EncodedRecord) :
    ∃ record, receiveData
      ⟨header size tag dataType tag' timestamp tag'' rest, txCnt, txBytes⟩ pooled =
      if eaten dataType timestamp < ofLeBytes size then
        receivePayload ⟨rest, txCnt, txBytes⟩ record (ofLeBytes size) (eaten dataType timestamp)
      else
        .received record ⟨rest, (txCnt + 1) % 2 ^ 64, (txBytes + ofLeBytes size) % 2 ^ 64⟩ := by
  obtain ⟨dt, readType⟩ := readVarint_group isType (tag' :: (timestamp ++ tag'' :: rest))
  obtain ⟨ts, readTime⟩ := readVarint_group isTime (tag'' :: rest)
  simp only [receiveData, header, readUint32_append isSize, discardByte_cons, readType, readTime]
  exact ⟨_, rfl⟩

end

/-- What is known of a reception: a received frame was read to its announced end, and
a failure other than the end of the stream has taken bytes and is a broken frame. -/
def Fits (reader : Bytes) : Reception → Prop
  | .received _ next => next.reader.length + (4 + ofLeBytes (reader.take 4)) ≤ reader.length
  | .panicked => True
  | .failed _ error next => error = .eof ∨ next.reader.length < reader.length ∧
      ∀ ending, (ending.errorOf error).verdict = .write → Breaks ending reader

theorem fits_eof (reader : Bytes) (record : Option EncodedRecord) (next : Plugin) :
    Fits reader (.failed record .eof next) := .inl rfl

variable {reader : Bytes}

theorem fits_overflow {record : Option EncodedRecord} {next : Plugin}
    (shorter : next.reader.length < reader.length) (breaks : ∀ ending, Breaks ending reader) :
    Fits reader (.failed record .intOverflow next) :=
  .inr ⟨shorter, fun ending _ => breaks ending⟩

theorem fits_cut {record : Option EncodedRecord} {next : Plugin}
    (shorter : next.reader.length < reader.length) (breaks : Breaks .eof reader) :
    Fits reader (.failed record .unexpectedEof next) := by
  refine .inr ⟨shorter, ?_⟩
  intro ending written
  cases ending with
  | eof => exact breaks
  | closed => cases written

theorem fits_payload (isSize : size.length = 4) (isType : Group dataType) (isTime : Group timestamp)
    (more : eaten dataType timestamp < ofLeBytes size) (rest : Bytes) (txCnt txBytes : Nat)
    (record : EncodedRecord) :
    Fits (header size tag dataType tag' timestamp tag'' rest)
      (receivePayload ⟨rest, txCnt, txBytes⟩ record (ofLeBytes size)
        (eaten dataType timestamp)) := by
  have whole : (header size tag dataType tag' timestamp tag'' rest).length =
      4 + eaten dataType timestamp + rest.length := length_header isSize rest
  cases varintShape rest with
  | @overlong long rest isLong =>
    simp only [receivePayload, readVarint_overlong isLong]
    refine fits_overflow ?_ (fun _ => .payloadSize isSize isType isTime more isLong)
    simp only [whole, length_append]
    omega
  | cut continued short =>
    simp only [receivePayload, readVarint_cut continued short]
    exact fits_eof _ _ _
  | @group bytes rest isGroup =>
    obtain ⟨value, readSize⟩ := readVarint_group isGroup rest
    simp only [receivePayload, readSize]
    split
    next => trivial
    next inside =>
      split
      next error left failed =>
        rw [readFull] at failed
        split at failed
        next => cases failed
        next short =>
          split at failed <;> cases failed
          next => exact fits_eof _ _ _
          next some =>
            refine fits_cut ?_ (.payload rfl isSize isType isTime isGroup some ?_)
            · simp only [whole, length_nil]
              omega
            · omega
      next payload left read =>
        obtain ⟨length, rfl⟩ := readFull_ok read
        simp only [Fits, whole, take_header isSize, length_append, length]
        omega

theorem fits_timestamp (isSize : size.length = 4) (isType : Group dataType) (rest : Bytes)
    (txCnt txBytes : Nat) (pooled : EncodedRecord) :
    Fits (size ++ tag :: (dataType ++ tag' :: rest))
      (receiveData ⟨size ++ tag :: (dataType ++ tag' :: rest), txCnt, txBytes⟩ pooled) := by
  obtain ⟨dt, readType⟩ := readVarint_group isType (tag' :: rest)
  cases varintShape rest with
  | @overlong long rest isLong =>
    simp only [receiveData, readUint32_append isSize, discardByte_cons, readType,
      readVarint_overlong isLong]
    refine fits_overflow ?_ (fun _ => .timestamp isSize isType isLong)
    simp only [length_append, length_cons]
    omega
  | cut continued short =>
    simp only [receiveData, readUint32_append isSize, discardByte_cons, readType,
      readVarint_cut continued short]
    exact fits_eof _ _ _
  | @group timestamp rest isTime =>
    obtain ⟨ts, readTime⟩ := readVarint_group isTime rest
    cases rest with
    | nil =>
      simp only [receiveData, readUint32_append isSize, discardByte_cons, readType, readTime,
        discardByte_nil]
      exact fits_eof _ _ _
    | cons tag'' rest =>
      obtain ⟨record, goesOn⟩ :=
        receiveData_header isSize isType isTime rest txCnt txBytes pooled
      rw [← header, goesOn]
      split
      next more => exact fits_payload isSize isType isTime more rest _ _ _
      next enough =>
        simp only [Fits, length_header isSize, take_header isSize]
        omega

theorem fits_dataType (isSize : size.length = 4) (rest : Bytes) (txCnt txBytes : Nat)
    (pooled : EncodedRecord) :
    Fits (size ++ tag :: rest) (receiveData ⟨size ++ tag :: rest, txCnt, txBytes⟩ pooled) := by
  cases varintShape rest with
  | @overlong long rest isLong =>
    simp only [receiveData, readUint32_append isSize, discardByte_cons, readVarint_overlong isLong]
    refine fits_overflow ?_ (fun _ => .dataType isSize isLong)
    simp only [length_append, length_cons]
    omega
  | cut continued short =>
    simp only [receiveData, readUint32_append isSize, discardByte_cons,
      readVarint_cut continued short]
    exact fits_eof _ _ _
  | @group dataType rest isType =>
    obtain ⟨dt, readType⟩ := readVarint_group isType rest
    cases rest with
    | nil =>
      simp only [receiveData, readUint32_append isSize, discardByte_cons, readType, discardByte_nil]
      exact fits_eof _ _ _
    | cons tag' rest => exact fits_timestamp isSize isType rest txCnt txBytes pooled

theorem receiveData_fits (plugin : Plugin) (pooled : EncodedRecord) :
    Fits plugin.reader (receiveData plugin pooled) := by
  obtain ⟨reader, txCnt, txBytes⟩ := plugin
  by_cases cut : reader.length < 4
  · by_cases nothing : reader = []
    · simp [receiveData, readUint32, readFull, nothing, Fits]
    · have inside : ¬ 4 ≤ reader.length := not_le.mpr cut
      simp only [receiveData, readUint32, readFull, if_neg inside, if_neg nothing]
      exact fits_cut (length_pos_iff.mpr nothing) (.size rfl nothing cut)
  · obtain ⟨size, rest, rfl, isSize⟩ : ∃ size rest, reader = size ++ rest ∧ size.length = 4 :=
      ⟨_, _, (take_append_drop 4 reader).symm, length_take_of_le (not_lt.mp cut)⟩
    cases rest with
    | nil =>
      simp only [receiveData, readUint32_append isSize, discardByte_nil]
      exact fits_eof _ _ _
    | cons tag rest => exact fits_dataType isSize rest txCnt txBytes pooled

theorem verdict_intOverflow (ending : Ending) : (ending.errorOf .intOverflow).verdict = .write := by
  cases ending <;> rfl

theorem verdict_eof (ending : Ending) : (ending.errorOf .eof).verdict = .stop := by
  cases ending <;> rfl

theorem failed_of_breaks {ending : Ending} (breaks : Breaks ending reader)
    (txCnt txBytes : Nat) (pooled : EncodedRecord) :
    ∃ record error next, receiveData ⟨reader, txCnt, txBytes⟩ pooled = .failed record error next ∧
      (ending.errorOf error).verdict = .write := by
  cases breaks with
  | size isEof nonempty short =>
    subst isEof
    refine ⟨none, .unexpectedEof, ⟨[], txCnt, txBytes⟩, ?_, rfl⟩
    simp [receiveData, readUint32, readFull, if_neg (not_le.mpr short), if_neg nonempty]
  | dataType isSize isLong =>
    simp only [receiveData, readUint32_append isSize, discardByte_cons, readVarint_overlong isLong]
    exact ⟨_, _, _, rfl, verdict_intOverflow ending⟩
  | @timestamp size tag dataType tag' long rest isSize isType isLong =>
    obtain ⟨dt, readType⟩ := readVarint_group isType (tag' :: (long ++ rest))
    simp only [receiveData, readUint32_append isSize, discardByte_cons, readType,
      readVarint_overlong isLong]
    exact ⟨_, _, _, rfl, verdict_intOverflow ending⟩
  | payloadSize isSize isType isTime more isLong =>
    obtain ⟨record, goesOn⟩ := receiveData_header isSize isType isTime _ txCnt txBytes pooled
    rw [goesOn, if_pos more]
    simp only [receivePayload, readVarint_overlong isLong]
    exact ⟨_, _, _, rfl, verdict_intOverflow ending⟩
  | @payload size tag dataType tag' timestamp tag'' payloadSize rest isEof isSize isType isTime
      isGroup nonempty short =>
    subst isEof
    obtain ⟨record, goesOn⟩ :=
      receiveData_header isSize isType isTime (payloadSize ++ rest) txCnt txBytes pooled
    obtain ⟨value, readSize⟩ := readVarint_group isGroup rest
    have more : eaten dataType timestamp < ofLeBytes size := by omega
    have inside : ¬ ofLeBytes size < eaten dataType timestamp + payloadSize.length := by omega
    have cut : ¬ ofLeBytes size - (eaten dataType timestamp + payloadSize.length) ≤
        rest.length := by
      omega
    rw [goesOn, if_pos more]
    simp only [receivePayload, readSize, if_neg inside, readFull, if_neg cut, if_neg nonempty]
    exact ⟨_, _, _, rfl, rfl⟩

end Frames

section Loop

variable (ending : Ending) (pooled : Nat → EncodedRecord)

theorem complete_of_silent {input : Bytes} {result : Reception} :
    (Turn.mk input result none).Complete := by
  intro value written
  cases written

variable {plugin : Plugin}

theorem not_breaks_of_received {next : Plugin} {record fetched : EncodedRecord}
    (received : receiveData plugin fetched = .received record next) :
    ¬ Breaks ending plugin.reader := by
  intro breaks
  obtain ⟨_, _, _, failed, _⟩ := failed_of_breaks breaks plugin.txCnt plugin.txBytes fetched
  cases received.symm.trans failed

theorem not_breaks_of_verdict {next : Plugin} {record : Option EncodedRecord}
    {fetched : EncodedRecord} {error : ReadError}
    (failed : receiveData plugin fetched = .failed record error next)
    (notWritten : (ending.errorOf error).verdict ≠ .write) : ¬ Breaks ending plugin.reader := by
  intro breaks
  obtain ⟨_, _, _, alsoFailed, written⟩ :=
    failed_of_breaks breaks plugin.txCnt plugin.txBytes fetched
  cases failed.symm.trans alsoFailed
  exact notWritten written

/-- One turn writes an incomplete record exactly on a broken frame, and the loop then
ends or goes on with fewer bytes. -/
theorem receiveLoop_turn (turns : Nat) (plugin : Plugin) :
    ∃ turn : Turn, turn.input = plugin.reader ∧ (turn.Complete ↔ ¬ Breaks ending plugin.reader) ∧
      (receiveLoop ending pooled (turns + 1) plugin = some [turn] ∨
        ∃ next : Plugin, next.reader.length < plugin.reader.length ∧
          receiveLoop ending pooled (turns + 1) plugin =
            (receiveLoop ending pooled turns next).map (turn :: ·)) := by
  have fits := receiveData_fits plugin (pooled turns)
  simp only [receiveLoop]
  cases result : receiveData plugin (pooled turns) with
  | panicked =>
    refine ⟨⟨plugin.reader, .panicked, none⟩, rfl, iff_of_true complete_of_silent ?_, .inl rfl⟩
    intro breaks
    obtain ⟨_, _, _, failed, _⟩ :=
      failed_of_breaks breaks plugin.txCnt plugin.txBytes (pooled turns)
    cases result.symm.trans failed
  | received record next =>
    rw [result] at fits
    have shorter : next.reader.length < plugin.reader.length := by
      simp only [Fits] at fits
      omega
    refine ⟨⟨plugin.reader, .received record next, some (some record)⟩, rfl,
      iff_of_true ?_ (not_breaks_of_received ending result), .inr ⟨next, shorter, rfl⟩⟩
    rintro _ ⟨⟩
    exact ⟨record, next, rfl, rfl, fits⟩
  | failed record error next =>
    rw [result] at fits
    dsimp only
    cases verdict : (ending.errorOf error).verdict with
    | stop =>
      refine ⟨⟨plugin.reader, .failed record error next, none⟩, rfl,
        iff_of_true complete_of_silent (not_breaks_of_verdict ending result ?_), .inl rfl⟩
      exact fun written => Verdict.noConfusion (verdict.symm.trans written)
    | again =>
      refine ⟨⟨plugin.reader, .failed record error next, none⟩, rfl,
        iff_of_true complete_of_silent (not_breaks_of_verdict ending result ?_), .inr ?_⟩
      · exact fun written => Verdict.noConfusion (verdict.symm.trans written)
      · refine ⟨next, ?_, rfl⟩
        rcases fits with rfl | ⟨shorter, _⟩
        · exact absurd (verdict.symm.trans (verdict_eof ending)) (by decide)
        · exact shorter
    | write =>
      rcases fits with rfl | ⟨shorter, breaks⟩
      · exact absurd (verdict.symm.trans (verdict_eof ending)) (by decide)
      refine ⟨⟨plugin.reader, .failed record error next, some record⟩, rfl,
        iff_of_false ?_ (not_not_intro (breaks ending verdict)), .inr ⟨next, shorter, rfl⟩⟩
      intro complete
      obtain ⟨_, _, _, received, _⟩ := complete record rfl
      cases received

theorem receiveLoop_turns {turns : Nat} (enough : plugin.reader.length < turns) :
    ∃ log, receiveLoop ending pooled turns plugin = some log ∧
      ∀ turn ∈ log, (turn.Complete ↔ ¬ Breaks ending turn.input) := by
  induction turns generalizing plugin with
  | zero => exact absurd enough (not_lt_zero _)
  | succ turns ih =>
    obtain ⟨turn, isInput, complete, ends | ⟨next, shorter, goesOn⟩⟩ :=
      receiveLoop_turn ending pooled turns plugin
    · refine ⟨[turn], ends, ?_⟩
      intro only listed
      cases mem_singleton.mp listed
      rw [complete, isInput]
    · obtain ⟨log, ran, rest⟩ := ih (shorter.trans_le (le_of_lt_succ enough))
      refine ⟨turn :: log, by rw [goesOn, ran]; rfl, ?_⟩
      rw [forall_mem_cons, isInput]
      exact ⟨complete, rest⟩

theorem putEncodedRecords_isSome {log : List Turn} (complete : ∀ turn ∈ log, turn.Complete) :
    (putEncodedRecords (log.filterMap Turn.written)).isSome := by
  rw [putEncodedRecords]
  induction log with
  | nil => rfl
  | cons turn log ih =>
    obtain ⟨completeFirst, completeRest⟩ := forall_mem_cons.mp complete
    obtain ⟨records, isPut⟩ := Option.isSome_iff_exists.mp (ih completeRest)
    rw [filterMap_cons]
    cases written : turn.written with
    | none => exact ih completeRest
    | some value =>
      obtain ⟨record, _, rfl, _⟩ := completeFirst value written
      simp only [mapM_cons, isPut]
      rfl

/-- The loop ends for every stream. Everything it writes is a completely read record, so
that putting the records back dereferences no nil, exactly when no turn finds a broken
frame. -/
theorem receiveLoop_complete_iff (plugin : Plugin) :
    ∃ log, receiveLoop ending pooled (plugin.reader.length + 1) plugin = some log ∧
      ((∀ turn ∈ log, turn.Complete) ∧ (putEncodedRecords (log.filterMap Turn.written)).isSome ↔
        ∀ turn ∈ log, ¬ Breaks ending turn.input) := by
  obtain ⟨log, ran, turnWise⟩ := receiveLoop_turns ending pooled (lt_succ_self plugin.reader.length)
  refine ⟨log, ran, ?_⟩
  constructor
  · rintro ⟨complete, _⟩ turn listed
    exact (turnWise turn listed).mp (complete turn listed)
  · intro unbroken
    have complete : ∀ turn ∈ log, turn.Complete :=
      fun turn listed => (turnWise turn listed).mpr (unbroken turn listed)
    exact ⟨complete, putEncodedRecords_isSome complete⟩

/-- A stream that ends after one byte of a length: a nil record is written. -/
theorem oneByte_writes_nil :
    ∃ log, receiveLoop .eof (fun _ => ⟨0, 0, Slice.make 0⟩) 2 ⟨[0x10], 0, 0⟩ = some log ∧
      log.filterMap Turn.written = [none] ∧ putEncodedRecords (log.filterMap Turn.written) = none :=
  ⟨_, rfl, rfl, rfl⟩

end Loop

end Elkeid.Agent
