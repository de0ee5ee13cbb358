import Elkeid.Foundations.Machine
import Elkeid.Wire.SendRecord

/-!
# The agent's record buffer

`agent/buffer/buffer.go` with the pool of `pool.go`, without a transmission hook.
Every operation is one step. A record is fetched from the pool by its writer, lies in
the buffer, is returned in a batch and goes back to the pool once the batch is sent.
The buffer is shown to refine a queue of record contents in which a `WriteRecord` that
finds the queue full takes the place of the first entry.
-/

namespace Elkeid.Agent

open Foundations Machine Wire List Option Function Nat

abbrev Ref := Nat

/-- `len(buf)` -/
def bufLen : Nat := 8192

structure Buffer where
  /-- the slots from `offset` on are not read -/
  buf : Nat → Ref
  offset : Nat
  pool : List Ref
  /-- fetched with `GetEncodedRecord` and not yet written -/
  held : List Ref
  /-- batches that `ReadEncodedRecords` returned and that are not yet put back -/
  sending : List (List Ref)
  records : Ref → EncodedRecord
  /-- the next address that `New` gives -/
  fresh : Ref

def newRecord : EncodedRecord := ⟨0, 0, (Slice.make (1024 * 2)).reslice 0 (zero_le _)⟩

/-- How `WriteRecord` fills a record; the payload is in the order of the message. -/
def marshalInto (erec : EncodedRecord) (dataType : BitVec 32) (timestamp : BitVec 64)
    (payload : Payload) : EncodedRecord :=
  let size := payload.bytes.length
  let data :=
    if inside : size ≤ erec.data.cap then erec.data.reslice size inside else Slice.make size
  ⟨dataType, timestamp, data.overwrite payload.bytes⟩

namespace Buffer

def empty : Buffer := ⟨fun _ => 0, 0, [], [], [], fun _ => newRecord, 0⟩

def below (buffer : Buffer) : List Ref := (range buffer.offset).map buffer.buf

def buffered (buffer : Buffer) : List EncodedRecord := buffer.below.map buffer.records

/-- `GetEncodedRecord`: the pool hands out one of its records or a new one. -/
def getEncodedRecord (buffer : Buffer) : Option Ref → Option (Ref × Buffer)
  | some ref =>
    if ref ∈ buffer.pool then some (ref, { buffer with pool := buffer.pool.erase ref }) else none
  | none => some (buffer.fresh, { buffer with
      records := update buffer.records buffer.fresh newRecord
      fresh := buffer.fresh + 1 })

def append (buffer : Buffer) (ref : Ref) : Buffer :=
  { buffer with buf := update buffer.buf buffer.offset ref, offset := buffer.offset + 1 }

/-- `buf[0] = erec` -/
def steal (buffer : Buffer) (ref : Ref) : Buffer :=
  { buffer with buf := update buffer.buf 0 ref }

/-- One round of `PutEncodedRecords`. -/
def putOne (buffer : Buffer) (ref : Ref) : Buffer :=
  let erec := buffer.records ref
  { buffer with
    records := update buffer.records ref
      { erec with data := erec.data.reslice 0 (zero_le _) }
    pool := ref :: buffer.pool }

inductive Action where
  | getEncodedRecord (pooled : Option Ref)
  /-- a caller changes a record that it holds -/
  | fillIn (ref : Ref) (record : EncodedRecord)
  | writeEncodedRecord (ref : Ref)
  | writeRecord (pooled : Option Ref) (dataType : BitVec 32) (timestamp : BitVec 64)
      (payload : Payload)
  | readEncodedRecords
  | putEncodedRecords (batch : List Ref)
  /-- the garbage collector empties a slot of the pool -/
  | collect (ref : Ref)

/-- What became of a record that was written, or what was read. -/
inductive Outcome where
  | appended (record : EncodedRecord)
  | stole (record displaced : EncodedRecord)
  | discarded (record : EncodedRecord)
  | batch (records : List EncodedRecord)
  | silent

def step (buffer : Buffer) : Action → Option (Buffer × Outcome)
  | .getEncodedRecord pooled => do
      let (ref, buffer) ← buffer.getEncodedRecord pooled
      return ({ buffer with held := ref :: buffer.held }, .silent)
  | .fillIn ref record =>
    if ref ∈ buffer.held then
      some ({ buffer with records := update buffer.records ref record }, .silent)
    else none
  | .writeEncodedRecord ref =>
    if ref ∈ buffer.held then
      let buffer := { buffer with held := buffer.held.erase ref }
      if buffer.offset < bufLen then some (buffer.append ref, .appended (buffer.records ref))
      else some (buffer, .discarded (buffer.records ref))
    else none
  | .writeRecord pooled dataType timestamp payload => do
      let (ref, buffer) ← buffer.getEncodedRecord pooled
      let erec := marshalInto (buffer.records ref) dataType timestamp payload
      let buffer := { buffer with records := update buffer.records ref erec }
      if buffer.offset < bufLen then return (buffer.append ref, .appended erec)
      else return (buffer.steal ref, .stole erec (buffer.records (buffer.buf 0)))
  | .readEncodedRecords =>
    let ret := buffer.below
    some ({ buffer with offset := 0, sending := ret :: buffer.sending },
      .batch (ret.map buffer.records))
  | .putEncodedRecords batch =>
    if batch ∈ buffer.sending then
      some (batch.foldl putOne { buffer with sending := buffer.sending.erase batch }, .silent)
    else none
  | .collect ref =>
    if ref ∈ buffer.pool then some ({ buffer with pool := buffer.pool.erase ref }, .silent)
    else none

def owners (buffer : Buffer) (ref : Ref) : Nat :=
  buffer.pool.count ref + buffer.held.count ref + buffer.below.count ref +
    buffer.sending.flatten.count ref

structure Owned (buffer : Buffer) : Prop where
  bounded : buffer.offset ≤ bufLen
  atMostOne : ∀ ref, buffer.owners ref ≤ 1
  allocated : ∀ ref, 0 < buffer.owners ref → ref < buffer.fresh

/-- A record that only its user knows. -/
structure Loose (buffer : Buffer) (ref : Ref) : Prop where
  unowned : buffer.owners ref = 0
  allocated : ref < buffer.fresh

inductive Shows : List EncodedRecord → Outcome → List EncodedRecord → Prop
  | appended {waiting} (record) : waiting.length < bufLen →
      Shows waiting (.appended record) (waiting ++ [record])
  | stole {displaced waiting} (record) : (displaced :: waiting).length = bufLen →
      Shows (displaced :: waiting) (.stole record displaced) (record :: waiting)
  | discarded {waiting} (record) : waiting.length = bufLen →
      Shows waiting (.discarded record) waiting
  | batch (waiting) : Shows waiting (.batch waiting) []
  | silent (waiting) : Shows waiting .silent waiting

theorem Shows.full_of_discarded {waiting after : List EncodedRecord} {record : EncodedRecord}
    (shows : Shows waiting (.discarded record) after) : waiting.length = bufLen := by
  cases shows with
  | discarded _ full => exact full

theorem Shows.full_of_stole {waiting after : List EncodedRecord} {record old : EncodedRecord}
    (shows : Shows waiting (.stole record old) after) : waiting.length = bufLen := by
  cases shows with
  | stole _ full => exact full

@[simp]
theorem length_below (buffer : Buffer) : buffer.below.length = buffer.offset := by
  simp [below]

@[simp]
theorem length_buffered (buffer : Buffer) : buffer.buffered.length = buffer.below.length :=
  length_map _

theorem below_append (buffer : Buffer) (ref : Ref) :
    (buffer.append ref).below = buffer.below ++ [ref] := by
  simp only [below, append, range_succ, map_append, map_singleton,
    update_self, append_cancel_right_eq]
  apply map_congr_left
  intro slot listed
  exact update_of_ne (mem_range.mp listed).ne _ _

variable {buffer : Buffer}

theorem below_steal (full : 0 < buffer.offset) (ref : Ref) :
    ∃ waiting, buffer.below = buffer.buf 0 :: waiting ∧
      (buffer.steal ref).below = ref :: waiting := by
  obtain ⟨size, sizeEq⟩ := exists_eq_succ_of_ne_zero full.ne'
  refine ⟨(range size).map (fun slot => buffer.buf (slot + 1)), ?_, ?_⟩
  · simp [below, sizeEq, range_succ_eq_map]
  · simp [below, steal, sizeEq, range_succ_eq_map]

section Ownership

variable {buffer next : Buffer} {ref : Ref}

theorem owners_pos_of_held (held : ref ∈ buffer.held) : 0 < buffer.owners ref := by
  have counted := count_pos_iff.mpr held
  simp only [owners]
  omega

theorem owners_pos_of_pooled (pooled : ref ∈ buffer.pool) : 0 < buffer.owners ref := by
  have counted := count_pos_iff.mpr pooled
  simp only [owners]
  omega

theorem Owned.only_place (owned : buffer.Owned)
    (elsewhere : ref ∈ buffer.pool ∨ ref ∈ buffer.held) :
    ref ∉ buffer.below ∧ ref ∉ buffer.sending.flatten := by
  have single := owned.atMostOne ref
  have counted : 0 < buffer.pool.count ref + buffer.held.count ref := by
    cases elsewhere with
    | inl pooled => exact Nat.add_pos_left (count_pos_iff.mpr pooled) _
    | inr held => exact Nat.add_pos_right _ (count_pos_iff.mpr held)
  simp only [owners] at single
  constructor
  all_goals
    intro listed
    have twice := count_pos_iff.mpr listed
    omega

theorem Loose.not_mem_below (loose : buffer.Loose ref) : ref ∉ buffer.below := by
  have unowned := loose.unowned
  intro listed
  have counted := count_pos_iff.mpr listed
  simp only [owners] at unowned
  omega

theorem Owned.of_le (owned : buffer.Owned) (bounded : next.offset ≤ bufLen)
    (fewer : ∀ other, next.owners other ≤ buffer.owners other) (grown : buffer.fresh ≤ next.fresh) :
    next.Owned := by
  refine ⟨bounded, fun other => (fewer other).trans (owned.atMostOne other), ?_⟩
  intro other positive
  exact (owned.allocated other (positive.trans_le (fewer other))).trans_le grown

theorem Owned.of_loose (owned : buffer.Owned) (loose : buffer.Loose ref)
    (bounded : next.offset ≤ bufLen)
    (oneMore : ∀ other, next.owners other ≤ buffer.owners other + if ref = other then 1 else 0)
    (same : next.fresh = buffer.fresh) : next.Owned := by
  refine ⟨bounded, ?_, ?_⟩
  · intro other
    have most := oneMore other
    split at most
    next isRef =>
      rw [← isRef, loose.unowned] at most
      exact isRef ▸ most
    next => exact most.trans (owned.atMostOne other)
  · intro other positive
    have most := oneMore other
    rw [same]
    split at most
    next isRef => exact isRef ▸ loose.allocated
    next => exact owned.allocated other (positive.trans_le most)

theorem map_update_of_not_mem {records : Ref → EncodedRecord} {refs : List Ref}
    (notListed : ref ∉ refs) (record : EncodedRecord) :
    refs.map (update records ref record) = refs.map records := by
  apply map_congr_left
  intro other listed
  apply update_of_ne
  rintro rfl
  exact notListed listed

theorem Owned.get (owned : buffer.Owned) {pooled : Option Ref}
    (got : buffer.getEncodedRecord pooled = some (ref, next)) :
    next.Owned ∧ next.Loose ref ∧ next.buffered = buffer.buffered := by
  cases pooled with
  | some pick =>
    simp only [getEncodedRecord] at got
    split at got <;> cases got
    next listed =>
      have single := owned.atMostOne ref
      have counted := count_pos_iff.mpr listed
      have allocated := owned.allocated ref (owners_pos_of_pooled listed)
      refine ⟨owned.of_le owned.bounded ?_ (le_refl _), ⟨?_, allocated⟩, rfl⟩
      · intro other
        simp only [owners, below, count_erase]
        omega
      · simp only [owners, below, count_erase_self] at single ⊢
        omega
  | none =>
    cases got
    have unowned : buffer.owners buffer.fresh = 0 := by
      by_contra positive
      exact absurd (owned.allocated _ (pos_of_ne_zero positive)) (lt_irrefl _)
    have loose : Loose { buffer with
        records := update buffer.records buffer.fresh newRecord
        fresh := buffer.fresh + 1 } buffer.fresh := ⟨unowned, lt_succ_self _⟩
    refine ⟨owned.of_le owned.bounded (fun _ => le_refl _) (le_succ _), loose, ?_⟩
    exact map_update_of_not_mem loose.not_mem_below _

theorem Owned.append (owned : buffer.Owned) (loose : buffer.Loose ref)
    (room : buffer.offset < bufLen) :
    (buffer.append ref).Owned ∧
      Shows buffer.buffered (.appended (buffer.records ref)) (buffer.append ref).buffered := by
  have added : (buffer.append ref).buffered = buffer.buffered ++ [buffer.records ref] := by
    rw [buffered, below_append, map_append]
    rfl
  have short : buffer.buffered.length < bufLen := by
    rw [length_buffered, length_below]
    exact room
  refine ⟨owned.of_loose loose room ?_ rfl, added ▸ .appended _ short⟩
  intro other
  simp only [owners, below_append, count_append, count_singleton, beq_iff_eq]
  simp only [Buffer.append]
  omega

theorem Owned.steal (owned : buffer.Owned) (loose : buffer.Loose ref)
    (full : ¬ buffer.offset < bufLen) :
    (buffer.steal ref).Owned ∧
      Shows buffer.buffered (.stole (buffer.records ref) (buffer.records (buffer.buf 0)))
        (buffer.steal ref).buffered := by
  have size : buffer.offset = bufLen := le_antisymm owned.bounded (not_lt.mp full)
  have nonempty : 0 < buffer.offset := size ▸ by decide
  obtain ⟨waiting, wasBelow, nowBelow⟩ := below_steal nonempty ref
  constructor
  · refine owned.of_loose loose owned.bounded ?_ rfl
    intro other
    simp only [owners, nowBelow, wasBelow, count_cons, beq_iff_eq]
    simp only [Buffer.steal]
    omega
  · have length := buffer.length_below
    rw [wasBelow, size] at length
    rw [buffered, buffered, wasBelow, nowBelow]
    exact .stole _ (by simpa using length)

theorem Owned.letGo (owned : buffer.Owned) (held : ref ∈ buffer.held) :
    Owned { buffer with held := buffer.held.erase ref } ∧
      Loose { buffer with held := buffer.held.erase ref } ref := by
  have single := owned.atMostOne ref
  have counted := count_pos_iff.mpr held
  refine ⟨owned.of_le owned.bounded ?_ (le_refl _), ?_,
    owned.allocated ref (owners_pos_of_held held)⟩
  · intro other
    simp only [owners, below, count_erase]
    omega
  · simp only [owners, below, count_erase_self] at single ⊢
    omega

theorem foldl_putOne (batch : List Ref) (buffer : Buffer) : ∃ records, batch.foldl putOne buffer =
        { buffer with records, pool := batch.reverse ++ buffer.pool } ∧
      ∀ other, other ∉ batch → records other = buffer.records other := by
  induction batch generalizing buffer with
  | nil => exact ⟨buffer.records, rfl, fun _ _ => rfl⟩
  | cons ref batch ih =>
    obtain ⟨records, isPut, kept⟩ := ih (buffer.putOne ref)
    refine ⟨records, ?_, ?_⟩
    · rw [foldl_cons, isPut]
      simp [putOne]
    · intro other notListed
      rw [mem_cons, not_or] at notListed
      rw [kept other notListed.2]
      exact update_of_ne notListed.1 _ _

theorem Owned.put (owned : buffer.Owned) {batch : List Ref} (listed : batch ∈ buffer.sending) :
    (batch.foldl putOne { buffer with sending := buffer.sending.erase batch }).Owned ∧
      (batch.foldl putOne { buffer with sending := buffer.sending.erase batch }).buffered =
        buffer.buffered := by
  obtain ⟨records, isPut, kept⟩ :=
    foldl_putOne batch { buffer with sending := buffer.sending.erase batch }
  have counts (other : Ref) : buffer.sending.flatten.count other =
      batch.count other + (buffer.sending.erase batch).flatten.count other := by
    rw [(perm_cons_erase listed).flatten.count_eq, flatten_cons, count_append]
  rw [isPut]
  constructor
  · refine owned.of_le owned.bounded ?_ (le_refl _)
    intro other
    simp only [owners, below, count_append, count_reverse, counts]
    omega
  · apply map_congr_left
    intro other isBelow
    apply kept
    intro inBatch
    have single := owned.atMostOne other
    have once := count_pos_iff.mpr (show other ∈ buffer.below from isBelow)
    have twice := count_pos_iff.mpr inBatch
    simp only [owners, counts] at single
    omega

theorem Owned.read (owned : buffer.Owned) :
    Owned { buffer with offset := 0, sending := buffer.below :: buffer.sending } := by
  refine owned.of_le (zero_le _) ?_ (le_refl _)
  intro other
  simp only [owners, below, flatten_cons, count_append, range_zero, map_nil, count_nil]
  omega

theorem Owned.change (owned : buffer.Owned) (outside : ref ∉ buffer.below)
    (record : EncodedRecord) :
    Owned { buffer with records := update buffer.records ref record } ∧
      Buffer.buffered { buffer with records := update buffer.records ref record } =
        buffer.buffered :=
  ⟨⟨owned.bounded, owned.atMostOne, owned.allocated⟩, map_update_of_not_mem outside record⟩

end Ownership

theorem Owned.empty : empty.Owned :=
  ⟨zero_le _, fun _ => zero_le _, fun _ positive => absurd positive (lt_irrefl 0)⟩

theorem Owned.step {next : Buffer} {action : Action} {outcome : Outcome}
    (owned : buffer.Owned) (taken : buffer.step action = some (next, outcome)) :
    next.Owned ∧ Shows buffer.buffered outcome next.buffered := by
  cases action with
  | getEncodedRecord pooled =>
    obtain ⟨⟨ref, fetched⟩, got, ⟨⟩⟩ := bind_eq_some_iff.mp taken
    obtain ⟨ownedFetched, loose, same⟩ := owned.get got
    constructor
    · refine ownedFetched.of_loose loose ownedFetched.bounded ?_ rfl
      intro other
      simp only [owners, below, count_cons, beq_iff_eq]
      omega
    · exact same ▸ .silent _
  | fillIn ref record =>
    simp only [Buffer.step] at taken
    split at taken <;> cases taken
    next held =>
      obtain ⟨ownedNext, same⟩ := owned.change (owned.only_place (Or.inr held)).1 record
      exact ⟨ownedNext, same ▸ .silent _⟩
  | writeEncodedRecord ref =>
    simp only [Buffer.step] at taken
    split at taken
    next held =>
      obtain ⟨ownedLoose, loose⟩ := owned.letGo held
      split at taken <;> cases taken
      next room => exact ownedLoose.append loose room
      next full =>
        refine ⟨ownedLoose, .discarded _ ?_⟩
        rw [length_buffered, length_below]
        exact le_antisymm owned.bounded (not_lt.mp full)
    next => cases taken
  | writeRecord pooled dataType timestamp payload =>
    obtain ⟨⟨ref, fetched⟩, got, result⟩ := bind_eq_some_iff.mp taken
    obtain ⟨ownedFetched, loose, same⟩ := owned.get got
    obtain ⟨ownedFilled, sameFilled⟩ := ownedFetched.change loose.not_mem_below
      (marshalInto (fetched.records ref) dataType timestamp payload)
    have looseFilled : Loose { fetched with
        records := update fetched.records ref
          (marshalInto (fetched.records ref) dataType timestamp payload) } ref :=
      ⟨loose.unowned, loose.allocated⟩
    rw [← same, ← sameFilled]
    dsimp only at result
    split at result <;> cases result
    next room => simpa only [update_self] using ownedFilled.append looseFilled room
    next full => simpa only [update_self] using ownedFilled.steal looseFilled full
  | readEncodedRecords =>
    cases taken
    exact ⟨owned.read, .batch _⟩
  | putEncodedRecords batch =>
    simp only [Buffer.step] at taken
    split at taken <;> cases taken
    next listed =>
      obtain ⟨ownedNext, same⟩ := owned.put listed
      exact ⟨ownedNext, same ▸ .silent _⟩
  | collect ref =>
    simp only [Buffer.step] at taken
    split at taken <;> cases taken
    next listed =>
      refine ⟨owned.of_le owned.bounded ?_ (le_refl _), .silent _⟩
      intro other
      simp only [owners, below, count_erase]
      omega

namespace Outcome

def read : Outcome → List EncodedRecord
  | batch records => records
  | _ => []

def accepted : Outcome → Option EncodedRecord
  | appended record => some record
  | stole record _ => some record
  | _ => none

def displaced : Outcome → Option EncodedRecord
  | stole _ displaced => some displaced
  | _ => none

end Outcome

def delivered (outcomes : List Outcome) : List EncodedRecord := outcomes.flatMap Outcome.read

def accepted (outcomes : List Outcome) : List EncodedRecord := outcomes.filterMap Outcome.accepted

def displaced (outcomes : List Outcome) : List EncodedRecord := outcomes.filterMap Outcome.displaced

/-- The accepted writes in their places, and how many of them have been read. -/
structure Line where
  records : List EncodedRecord
  read : Nat

/-- A write goes to the end of the line, or to the first place that is not yet read. -/
def Line.after (line : Line) : Outcome → Line
  | .appended record => { line with records := line.records ++ [record] }
  | .stole record _ => { line with records := line.records.set line.read record }
  | .batch _ => { line with read := line.records.length }
  | .discarded _ => line
  | .silent => line

def lineOf (outcomes : List Outcome) : Line := outcomes.foldl Line.after ⟨[], 0⟩

section

variable (outcomes : List Outcome)
include outcomes

@[simp]
theorem delivered_concat (outcome : Outcome) :
    delivered (outcomes ++ [outcome]) = delivered outcomes ++ outcome.read :=
  flatMap_concat _ _ _

@[simp]
theorem accepted_concat (outcome : Outcome) :
    accepted (outcomes ++ [outcome]) = accepted outcomes ++ outcome.accepted.toList :=
  filterMap_concat _ _ _

@[simp]
theorem displaced_concat (outcome : Outcome) :
    displaced (outcomes ++ [outcome]) = displaced outcomes ++ outcome.displaced.toList :=
  filterMap_concat _ _ _

@[simp]
theorem lineOf_concat (outcome : Outcome) :
    lineOf (outcomes ++ [outcome]) = (lineOf outcomes).after outcome :=
  foldl_concat _ _ _ _

end

/-- What the outcomes so far say about the contents of the buffer. -/
structure Explains (outcomes : List Outcome) (waiting : List EncodedRecord) : Prop where
  inLine : lineOf outcomes = ⟨delivered outcomes ++ waiting, (delivered outcomes).length⟩
  onceEach : (delivered outcomes ++ waiting ++ displaced outcomes).Perm (accepted outcomes)

theorem Explains.empty : Explains [] [] := ⟨rfl, .refl _⟩

theorem Explains.step {outcomes : List Outcome} {outcome : Outcome}
    {waiting after : List EncodedRecord} (explains : Explains outcomes waiting)
    (shows : Shows waiting outcome after) : Explains (outcomes ++ [outcome]) after := by
  obtain ⟨inLine, onceEach⟩ := explains
  constructor
  · rw [lineOf_concat, inLine, delivered_concat]
    cases shows <;> simp [Line.after, Outcome.read]
  · rw [delivered_concat, displaced_concat, accepted_concat]
    cases shows with
    | appended record _ =>
      simp only [Outcome.read, Outcome.displaced, Outcome.accepted, toList_none,
        toList_some, append_nil]
      rw [← append_assoc, append_assoc]
      apply (perm_append_comm.append_left _).trans
      rw [← append_assoc]
      exact onceEach.append_right [record]
    | @stole old rest record _ =>
      simp only [Outcome.read, Outcome.displaced, Outcome.accepted, toList_some, append_nil]
      calc (delivered outcomes ++ record :: rest ++ (displaced outcomes ++ [old])).Perm
            (record :: (delivered outcomes ++ rest ++ (displaced outcomes ++ [old]))) :=
          perm_middle.append_right _
        _ = record :: (delivered outcomes ++ rest ++ displaced outcomes ++ [old]) := by
          simp
        (record :: (delivered outcomes ++ rest ++ displaced outcomes ++ [old])).Perm
            (record :: old :: (delivered outcomes ++ rest ++ displaced outcomes)) :=
          (perm_append_singleton _ _).cons _
        (record :: old :: (delivered outcomes ++ rest ++ displaced outcomes)).Perm
            (record :: (delivered outcomes ++ old :: rest ++ displaced outcomes)) :=
          (perm_middle.symm.append_right _).cons _
        (record :: (delivered outcomes ++ old :: rest ++ displaced outcomes)).Perm
            (record :: accepted outcomes) := onceEach.cons _
        (record :: accepted outcomes).Perm (accepted outcomes ++ [record]) :=
          (perm_append_singleton _ _).symm
    | discarded | batch | silent =>
      simpa [Outcome.read, Outcome.displaced, Outcome.accepted] using onceEach

theorem run_explains {actions : List Action} {outcomes : List Outcome} {last : Buffer}
    (ran : run step empty actions = some (last, outcomes)) :
    last.Owned ∧ Explains outcomes last.buffered := by
  have preserved : ∀ (past : List Outcome) (buffer : Buffer) (action : Action) (next : Buffer)
      (outcome : Outcome), buffer.Owned ∧ Explains past buffer.buffered →
        buffer.step action = some (next, outcome) →
          next.Owned ∧ Explains (past ++ [outcome]) next.buffered := by
    rintro past buffer action next outcome ⟨owned, explains⟩ taken
    obtain ⟨ownedNext, shows⟩ := owned.step taken
    exact ⟨ownedNext, explains.step shows⟩
  exact run_invariant preserved ran ⟨.empty, .empty⟩

/-- What holds after every run: the records that were read and those that still wait
are the accepted writes in their places, each once but for the displaced ones; only a
full buffer discards or displaces; and no pooled record is in the buffer or being sent. -/
theorem buffer_history {actions : List Action} {outcomes : List Outcome} {last : Buffer}
    (ran : run step empty actions = some (last, outcomes)) :
    last.offset ≤ bufLen ∧ delivered outcomes ++ last.buffered = (lineOf outcomes).records ∧
      (delivered outcomes ++ last.buffered ++ displaced outcomes).Perm (accepted outcomes) ∧
      (∀ action next record, last.step action = some (next, .discarded record) →
        last.below.length = bufLen) ∧
      (∀ action next record old, last.step action = some (next, .stole record old) →
        last.below.length = bufLen) ∧
      ∀ ref ∈ last.pool, ref ∉ last.below ∧ ∀ batch ∈ last.sending, ref ∉ batch := by
  obtain ⟨owned, explains⟩ := run_explains ran
  have inLine := explains.inLine
  refine ⟨owned.bounded, by rw [inLine], explains.onceEach, ?_, ?_, ?_⟩
  · intro action next record taken
    rw [← length_buffered]
    exact (owned.step taken).2.full_of_discarded
  · intro action next record old taken
    rw [← length_buffered]
    exact (owned.step taken).2.full_of_stole
  · intro ref pooled
    obtain ⟨notBelow, notSending⟩ := owned.only_place (Or.inl pooled)
    exact ⟨notBelow, fun batch isSending inBatch =>
      notSending (mem_flatten_of_mem isSending inBatch)⟩

def roundTrip : List Action :=
  [.getEncodedRecord none, .writeEncodedRecord 0, .readEncodedRecords, .putEncodedRecords [0],
    .writeRecord (some 0) 1 2 []]

theorem buffer_history_roundTrip :
    ∃ last outcomes, run step empty roundTrip = some (last, outcomes) ∧
      delivered outcomes ++ last.buffered = (lineOf outcomes).records := by
  obtain ⟨⟨last, outcomes⟩, ran⟩ : ∃ result, run step empty roundTrip = some result := ⟨_, rfl⟩
  exact ⟨last, outcomes, ran, (buffer_history ran).2.1⟩

theorem step_writeRecord_room (room : buffer.offset < bufLen)
    (dataType : BitVec 32) (timestamp : BitVec 64) :
    ∃ next record, buffer.step (.writeRecord none dataType timestamp []) =
        some (next, .appended record) ∧
      record.dataType = dataType ∧ next.offset = buffer.offset + 1 :=
  ⟨_, _, if_pos room, rfl, rfl⟩

theorem run_writeRecords (timestamps : List (BitVec 64))
    (room : buffer.offset + timestamps.length ≤ bufLen) :
    ∃ last, ∃ records : List EncodedRecord,
      run step buffer (timestamps.map (.writeRecord none 0 · [])) =
        some (last, records.map .appended) ∧
      records.length = timestamps.length ∧ (∀ record ∈ records, record.dataType = 0) ∧
      last.offset = buffer.offset + timestamps.length := by
  induction timestamps generalizing buffer with
  | nil => exact ⟨buffer, [], rfl, rfl, fun _ listed => absurd listed not_mem_nil, rfl⟩
  | cons timestamp timestamps ih =>
    rw [length_cons] at room
    obtain ⟨next, record, taken, isType, size⟩ :=
      @step_writeRecord_room buffer (by omega) 0 timestamp
    obtain ⟨last, records, ran, count, types, lastSize⟩ :=
      @ih next (by omega)
    refine ⟨last, record :: records, ?_, congrArg Nat.succ count, ?_, ?_⟩
    · rw [map_cons, run_cons taken, ran]
      rfl
    · exact forall_mem_cons.mpr ⟨isType, types⟩
    · rw [lastSize, size, length_cons]
      omega

theorem lineOf_appended (records : List EncodedRecord) :
    lineOf (records.map .appended) = ⟨records, 0⟩ := by
  induction records using reverseRecOn with
  | nil => rfl
  | append_singleton records record ih =>
    rw [map_append, map_singleton, lineOf_concat, ih]
    rfl

theorem accepted_appended (records : List EncodedRecord) :
    accepted (records.map .appended) = records := by
  rw [accepted, filterMap_map]
  exact filterMap_some

def overfill : List Action :=
  ((range bufLen).map (BitVec.ofNat 64)).map (.writeRecord none 0 · []) ++
    [.writeRecord none 1 0 [], .readEncodedRecords]

/-- The record that steals the first place is read before all others, though it was
written last. -/
theorem overfill_out_of_order :
    ∃ last outcomes, run step empty overfill = some (last, outcomes) ∧ last.offset = 0 ∧
      ¬ (delivered outcomes).Sublist (accepted outcomes) := by
  obtain ⟨full, records, ran, count, types, size⟩ := @run_writeRecords empty
    ((range bufLen).map (BitVec.ofNat 64)) (by simp [empty])
  rw [length_map, length_range] at count size
  have noRoom : ¬ full.offset < bufLen := by simp [size, empty]
  obtain ⟨next, stolen, old, taken, isType⟩ : ∃ next stolen old,
      full.step (.writeRecord none 1 0 []) = some (next, .stole stolen old) ∧
        stolen.dataType = 1 := ⟨_, _, _, if_neg noRoom, rfl⟩
  have ranAll : run step empty overfill =
      some ({ next with offset := 0, sending := next.below :: next.sending },
        records.map .appended ++ [.stole stolen old, .batch next.buffered]) := by
    rw [overfill, run_append ran, run_cons taken]
    rfl
  have inLine := congrArg Line.records (run_explains ranAll).2.inLine
  have first : records.set 0 stolen =
      (lineOf (records.map .appended ++ [.stole stolen old, .batch next.buffered])).records := by
    rw [append_cons, lineOf_concat, lineOf_concat, lineOf_appended]
    rfl
  have accepts : accepted (records.map .appended ++ [.stole stolen old, .batch next.buffered]) =
      records ++ [stolen] := by
    rw [append_cons, accepted_concat, accepted_concat, accepted_appended]
    simp [Outcome.accepted]
  refine ⟨_, _, ranAll, rfl, ?_⟩
  have all : delivered (records.map .appended ++ [.stole stolen old, .batch next.buffered]) =
      records.set 0 stolen := by
    rw [first, inLine]
    simp [buffered, below]
  rw [all, accepts]
  cases records with
  | nil => simp [bufLen] at count
  | cons head tail =>
    intro inOrder
    obtain ⟨early, late, parts, earlySub, lateSub⟩ := sublist_append_iff.mp inOrder
    cases early with
    | nil =>
      have short := lateSub.length_le
      rw [← nil_append late, ← parts, set_cons_zero, length_cons] at short
      simp only [length_cons, bufLen] at count
      simp only [length_singleton] at short
      omega
    | cons record early =>
      obtain rfl := head_eq_of_cons_eq parts
      have isZero := types _ (earlySub.subset mem_cons_self)
      rw [isType] at isZero
      exact absurd isZero (by decide)

end Buffer

end Elkeid.Agent
