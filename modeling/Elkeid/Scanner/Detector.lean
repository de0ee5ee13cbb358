import Elkeid.Foundations.Text

/-!
# The work loop of the detector

The tasks and the timeouts of `work` in `scanner/src/detector.rs`, with the records of one-off
scans. What the scan engine, the database, the file system and the client come to is given with
each task. The records of process scans, of the ransomware trap and of a finished full scan are
given as well.
-/

namespace Elkeid.Scanner

open Foundations Text List

/-- The types "6051" to "6057". -/
inductive TaskType where
  | dir
  | proc
  | oneTime
  | antiRansom
  | supperOn
  | supperOff
  | fullScan
  | unknown
  deriving DecidableEq

structure DetectTask where
  taskType : TaskType
  pid : Int
  path : Bytes
  rpath : Bytes
  size : Nat
  btime : Nat
  mtime : Nat
  token : Bytes
  addOns : Option (List (Bytes × Bytes))
  deriving DecidableEq

abbrev Fields := List (Bytes × Bytes)

def Fields.insert (fields : Fields) (key value : Bytes) : Fields :=
  (key, value) :: fields.filter (fun field => field.1 ≠ key)

theorem lookup_insert (fields : Fields) (key value : Bytes) :
    (fields.insert key value).lookup key = some value :=
  lookup_cons_self

theorem lookup_insert_of_ne {fields : Fields} {key other value : Bytes} (differs : other ≠ key) :
    (fields.insert key value).lookup other = fields.lookup other := by
  rw [Fields.insert, lookup_cons, beq_false_of_ne differs]
  induction fields with
  | nil => rfl
  | cons field rest ih =>
    simp only at ih ⊢
    by_cases same : field.1 = key
    · rw [filter_cons_of_neg (by simpa using same), ih, lookup_cons,
        beq_false_of_ne (same ▸ differs)]
    · rw [filter_cons_of_pos (by simpa using same), lookup_cons, lookup_cons]
      cases other == field.1 with
      | true => rfl
      | false => exact ih

structure Record where
  dataType : Nat
  fields : Fields
  deriving DecidableEq

namespace Key

def types : Bytes := ofChars "types".toList
def class_ : Bytes := ofChars "class".toList
def name : Bytes := ofChars "name".toList
def exe : Bytes := ofChars "exe".toList
def exeSize : Bytes := ofChars "exe_size".toList
def exeHash : Bytes := ofChars "exe_hash".toList
def md5Hash : Bytes := ofChars "md5_hash".toList
def createAt : Bytes := ofChars "create_at".toList
def modifyAt : Bytes := ofChars "modify_at".toList
def error : Bytes := ofChars "error".toList
def token : Bytes := ofChars "token".toList
def hitData : Bytes := ofChars "hit_data".toList

end Key

/-- What both events hold of a file and of the rule that found it. -/
structure Finding where
  types : Bytes
  class_ : Bytes
  name : Bytes
  exe : Bytes
  exeSize : Bytes
  exeHash : Bytes
  md5Hash : Bytes
  createAt : Bytes
  modifyAt : Bytes
  matchedData : Option (List Bytes)

structure DetectOneTaskEvent extends Finding where
  error : Bytes
  token : Bytes

def Finding.fields (finding : Finding) : Fields :=
  [(Key.types, finding.types), (Key.class_, finding.class_), (Key.name, finding.name),
    (Key.exe, finding.exe), (Key.exeSize, finding.exeSize), (Key.exeHash, finding.exeHash),
    (Key.md5Hash, finding.md5Hash), (Key.createAt, finding.createAt),
    (Key.modifyAt, finding.modifyAt)].foldl (fun fields field => fields.insert field.1 field.2) []

section Records

variable (toJson : List Bytes → Bytes)

def Finding.insertHit (finding : Finding) (fields : Fields) : Fields :=
  match finding.matchedData with
  | none => fields
  | some matched => fields.insert Key.hitData (toJson matched)

def Finding.toRecord (finding : Finding) : Record :=
  ⟨6001, finding.insertHit toJson finding.fields⟩

namespace DetectOneTaskEvent

def toRecordWithAddOn (event : DetectOneTaskEvent) (addons : List (Bytes × Bytes)) : Record :=
  let added := addons.foldl (fun fields addon => fields.insert addon.1 addon.2) event.fields
  ⟨6003, event.insertHit toJson ((added.insert Key.error event.error).insert Key.token event.token)⟩

def toRecord (event : DetectOneTaskEvent) : Record := event.toRecordWithAddOn toJson []

end DetectOneTaskEvent

structure Metadata where
  isFile : Bool
  len : Nat
  /-- the times of `get_file_btime` -/
  btime : Nat
  mtime : Nat
  deriving DecidableEq

structure ScanResult where
  ftype : Bytes
  fclass : Bytes
  fname : Bytes
  xhash : Bytes
  md5sum : Bytes
  matchedData : Option (List Bytes)

def notDetected : Bytes :=
  ofChars "not_detected".toList

structure Calls where
  /-- `load` of the database and `Scanner::new` -/
  loads : Bool
  /-- `send_record` -/
  sends : Bool
  /-- the error with its text -/
  metadata : Except Bytes Metadata
  scan : Option ScanResult
  /-- the record of a task of another kind -/
  record : Record

inductive Event where
  | task (task : DetectTask) (calls : Calls)
  | timeout

structure Detector where
  /-- `scanner` is `Some` -/
  scanner : Bool
  supperMode : Bool
  /-- `work` has not returned -/
  running : Bool
  deriving DecidableEq

namespace Detector

def stop (detector : Detector) : Detector := { detector with running := false }

def send (detector : Detector) (calls : Calls) (record : Record) : Detector × List Record :=
  if calls.sends then (detector, [record]) else (detector.stop, [])

/-- The reply of a one-off scan to a file that cannot be looked at. -/
def missingEvent (task : DetectTask) (text : Bytes) : DetectOneTaskEvent where
  types := []
  class_ := []
  name := []
  exe := task.path
  exeSize := []
  exeHash := []
  md5Hash := []
  createAt := []
  modifyAt := []
  matchedData := none
  error := text
  token := task.token

def oneTaskEvent (task : DetectTask) (metadata : Metadata) (result : ScanResult) :
    DetectOneTaskEvent where
  types := result.ftype
  class_ := result.fclass
  name := result.fname
  exe := task.path
  exeSize := decimal metadata.len
  exeHash := result.xhash
  md5Hash := result.md5sum
  createAt := decimal metadata.btime
  modifyAt := decimal metadata.mtime
  matchedData := result.matchedData
  error := []
  token := task.token

def fileEvent (task : DetectTask) (result : ScanResult) : Finding where
  types := result.ftype
  class_ := result.fclass
  name := result.fname
  exe := task.rpath
  exeSize := decimal task.size
  exeHash := result.xhash
  md5Hash := result.md5sum
  createAt := decimal task.btime
  modifyAt := decimal task.mtime
  matchedData := result.matchedData

/-- The branch for a one-off scan. -/
def scanOne (detector : Detector) (task : DetectTask) (calls : Calls) : Detector × List Record :=
  match calls.metadata with
  | .error text =>
    -- the branch returns, whether the record is sent or not
    let (detector, sent) := detector.send calls ((missingEvent task text).toRecord toJson)
    (detector.stop, sent)
  | .ok metadata =>
    match calls.scan with
    | none => (detector, [])
    | some result =>
      match task.addOns with
      | some addons =>
        detector.send calls ((oneTaskEvent task metadata result).toRecordWithAddOn toJson addons)
      | none => detector.send calls ((oneTaskEvent task metadata result).toRecord toJson)

/-- The match on the type of the task, with a scanner. -/
def perform (detector : Detector) (task : DetectTask) (calls : Calls) : Detector × List Record :=
  match task.taskType with
  | .dir =>
    match calls.scan with
    | none => (detector, [])
    | some result =>
      if result.ftype = notDetected then (detector, [])
      else detector.send calls ((fileEvent task result).toRecord toJson)
  | .proc =>
    match calls.scan with
    | none => (detector, [])
    | some result =>
      if result.ftype = notDetected then (detector, []) else detector.send calls calls.record
  | .oneTime => detector.scanOne toJson task calls
  | .antiRansom =>
    match calls.scan with
    | none => (detector, [])
    | some _ => detector.send calls calls.record
  | .supperOn => ({ detector with supperMode := true }, [])
  | .supperOff => ({ detector with supperMode := false }, [])
  | .fullScan =>
    ({ detector with scanner := false }, if calls.sends then [calls.record] else [])
  | .unknown => (detector, [])

def handle (detector : Detector) : Event → Detector × List Record
  | .timeout => ({ detector with scanner := false }, [])
  | .task task calls =>
    if detector.scanner ∨ calls.loads then
      perform toJson { detector with scanner := true } task calls
    else (detector.stop, [])

/-- The loop, with the records it sends. -/
def work (detector : Detector) : List Event → Detector × List Record
  | [] => (detector, [])
  | event :: rest =>
    if detector.running then
      let (next, sent) := detector.handle toJson event
      let (last, later) := next.work rest
      (last, sent ++ later)
    else (detector, [])

end Detector

end Records

/-! ## Replies -/

/-- A reply to a one-off scan carries the token of the task. -/
def Answers (task : DetectTask) (record : Record) : Prop :=
  record.dataType = 6003 ∧ record.fields.lookup Key.token = some task.token

def Event.asTask : Event → Option DetectTask
  | .task asked _ => some asked
  | .timeout => none

def received (events : List Event) : List DetectTask := events.filterMap Event.asTask

@[simp]
theorem received_task (task : DetectTask) (calls : Calls) (rest : List Event) :
    received (.task task calls :: rest) = task :: received rest := rfl

@[simp]
theorem received_timeout (rest : List Event) : received (.timeout :: rest) = received rest := rfl

section Replies

variable {toJson : List Bytes → Bytes} {detector : Detector} {task : DetectTask}

theorem answers_toRecordWithAddOn (event : DetectOneTaskEvent) (addons : List (Bytes × Bytes))
    (isToken : event.token = task.token) :
    Answers task (event.toRecordWithAddOn toJson addons) := by
  refine ⟨rfl, ?_⟩
  unfold DetectOneTaskEvent.toRecordWithAddOn Finding.insertHit
  split
  next => rw [lookup_insert, isToken]
  next =>
    have differs : Key.token ≠ Key.hitData := by decide
    rw [lookup_insert_of_ne differs, lookup_insert, isToken]

theorem answers_toRecord (event : DetectOneTaskEvent)
    (isToken : event.token = task.token) : Answers task (event.toRecord toJson) :=
  answers_toRecordWithAddOn event [] isToken

theorem work_of_stopped (events : List Event) (stopped : detector.running = false) :
    detector.work toJson events = (detector, []) := by
  cases events with
  | nil => rfl
  | cons event rest => simp [Detector.work, stopped]

theorem work_cons (event : Event) (rest : List Event) (isRunning : detector.running = true) :
    detector.work toJson (event :: rest) =
      (((detector.handle toJson event).1.work toJson rest).1,
        (detector.handle toJson event).2 ++
        ((detector.handle toJson event).1.work toJson rest).2) := by
  simp [Detector.work, isRunning]

/-- The three ways a one-off scan ends when loading and sending work. -/
inductive Scanned (task : DetectTask) (calls : Calls) : Detector × List Record → Prop
  | missing {text : Bytes} {record : Record} {next : Detector}
      (missing : calls.metadata = .error text)
      (answers : Answers task record) (stopped : next.running = false) :
      Scanned task calls (next, [record])
  | failed {metadata : Metadata} {next : Detector} (found : calls.metadata = .ok metadata)
      (failed : calls.scan = none) (isRunning : next.running = true) : Scanned task calls (next, [])
  | replied {metadata : Metadata} {result : ScanResult} {record : Record} {next : Detector}
      (found : calls.metadata = .ok metadata) (scanned : calls.scan = some result)
      (answers : Answers task record) (isRunning : next.running = true) :
      Scanned task calls (next, [record])

theorem handle_scanned {calls : Calls} (isRunning : detector.running = true)
    (oneTime : task.taskType = .oneTime) (loads : calls.loads = true) (sends : calls.sends = true) :
    Scanned task calls (detector.handle toJson (.task task calls)) := by
  simp only [Detector.handle, loads, or_true, if_true, Detector.perform, oneTime, Detector.scanOne,
    Detector.send, sends]
  cases found : calls.metadata with
  | error text => exact .missing found (answers_toRecord (Detector.missingEvent task text) rfl) rfl
  | ok metadata =>
    cases scanned : calls.scan with
    | none => exact .failed found scanned isRunning
    | some result =>
      have isToken : (Detector.oneTaskEvent task metadata result).token = task.token := rfl
      cases task.addOns with
      | none => exact .replied found scanned (answers_toRecord _ isToken) isRunning
      | some addons =>
        exact .replied found scanned (answers_toRecordWithAddOn _ addons isToken) isRunning

/-- One-off scans come with loading and sending that work. -/
def OneOff : Event → Prop
  | .task task calls => task.taskType = .oneTime ∧ calls.loads = true ∧ calls.sends = true
  | .timeout => True

/-- The file can be looked at and scanned. -/
def Succeeds : Event → Prop
  | .task _ calls =>
    (∃ metadata, calls.metadata = .ok metadata) ∧ ∃ result, calls.scan = some result
  | .timeout => True

theorem work_length_le (toJson : List Bytes → Bytes) (detector : Detector) (events : List Event)
    (oneOff : ∀ event ∈ events, OneOff event) :
    (detector.work toJson events).2.length ≤ (received events).length := by
  induction events generalizing detector with
  | nil => exact Nat.le_refl _
  | cons event rest ih =>
    cases isRunning : detector.running with
    | false =>
      rw [work_of_stopped _ isRunning]
      exact Nat.zero_le _
    | true =>
      obtain ⟨first, later⟩ := forall_mem_cons.mp oneOff
      have bound := ih (detector.handle toJson event).1 later
      rw [work_cons event rest isRunning, length_append]
      cases event with
      | timeout =>
        rw [received_timeout]
        simpa only [Detector.handle, length_nil, Nat.zero_add] using bound
      | task task calls =>
        have atMostOne : (detector.handle toJson (.task task calls)).2.length ≤ 1 := by
          obtain ⟨oneTime, loads, sends⟩ := first
          generalize handled : detector.handle toJson (.task task calls) = result
          have scanned : Scanned task calls result :=
            handled ▸ handle_scanned isRunning oneTime loads sends
          cases scanned <;> simp
        rw [received_task, length_cons]
        omega

theorem each_answered_iff (toJson : List Bytes → Bytes) (detector : Detector) (events : List Event)
    (isRunning : detector.running = true) (oneOff : ∀ event ∈ events, OneOff event) :
    (List.Forall₂ Answers (received events) (detector.work toJson events).2 ∧
        (detector.work toJson events).1.running = true) ↔
      ∀ event ∈ events, Succeeds event := by
  induction events generalizing detector with
  | nil => exact iff_of_true ⟨.nil, isRunning⟩ (forall_mem_nil _)
  | cons event rest ih =>
    obtain ⟨first, later⟩ := forall_mem_cons.mp oneOff
    rw [work_cons event rest isRunning, forall_mem_cons]
    cases event with
    | timeout =>
      have goesOn := ih { detector with scanner := false } isRunning later
      exact goesOn.trans (iff_of_eq (true_and _)).symm
    | task task calls =>
      obtain ⟨oneTime, loads, sends⟩ := first
      have atMost := work_length_le toJson (detector.handle toJson (.task task calls)).1 rest later
      rw [received_task]
      generalize handled : detector.handle toJson (.task task calls) = result at atMost ⊢
      have scanned : Scanned task calls result :=
        handled ▸ handle_scanned isRunning oneTime loads sends
      cases scanned with
      | missing missing answers stopped =>
        -- the loop has returned
        refine iff_of_false ?_ ?_
        · rintro ⟨_, isRunning⟩
          rw [work_of_stopped rest stopped, stopped] at isRunning
          cases isRunning
        · rintro ⟨⟨⟨metadata, found⟩, _⟩, _⟩
          cases missing.symm.trans found
      | failed found failed isRunning =>
        -- one record is missing
        refine iff_of_false ?_ ?_
        · rintro ⟨replies, _⟩
          have lengths := replies.length_eq
          simp only [nil_append, length_cons] at lengths atMost
          omega
        · rintro ⟨⟨_, result, scanned⟩, _⟩
          cases failed.symm.trans scanned
      | replied found scanned answers isRunning =>
        have goesOn := ih _ isRunning later
        rw [singleton_append, forall₂_cons, and_assoc]
        constructor
        · rintro ⟨_, others⟩
          exact ⟨⟨⟨_, found⟩, _, scanned⟩, goesOn.mp others⟩
        · rintro ⟨_, others⟩
          exact ⟨answers, goesOn.mpr others⟩

end Replies

/-! ## Two tasks -/

def askToScan (token : UInt8) : DetectTask :=
  ⟨.oneTime, 0, [0x2f, token], [], 0, 0, 0, [token], none⟩

def fineCalls : Calls :=
  ⟨true, true, .ok ⟨true, 7, 1, 2⟩, some ⟨notDetected, [], [], [], [], none⟩, ⟨0, []⟩⟩

def missingCalls : Calls := { fineCalls with metadata := .error [0x65] }

def fresh : Detector := ⟨false, false, true⟩

theorem each_answered_twoTasks :
    List.Forall₂ Answers [askToScan 1, askToScan 2]
        (fresh.work (fun _ => [])
          [.task (askToScan 1) fineCalls, .task (askToScan 2) fineCalls]).2 ∧
      (fresh.work (fun _ => [])
        [.task (askToScan 1) fineCalls, .task (askToScan 2) fineCalls]).1.running = true := by
  refine (each_answered_iff (fun _ => []) fresh
    [.task (askToScan 1) fineCalls, .task (askToScan 2) fineCalls] rfl ?_).mpr ?_
  · simp only [forall_mem_cons]
    exact ⟨⟨rfl, rfl, rfl⟩, ⟨rfl, rfl, rfl⟩, forall_mem_nil _⟩
  · simp only [forall_mem_cons]
    exact ⟨⟨⟨_, rfl⟩, _, rfl⟩, ⟨⟨_, rfl⟩, _, rfl⟩, forall_mem_nil _⟩

theorem missing_file_stops_detector :
    let result := fresh.work (fun _ => [])
      [.task (askToScan 1) missingCalls, .task (askToScan 2) fineCalls]
    result.1.running = false ∧ result.2.length = 1 ∧
      ¬ List.Forall₂ Answers [askToScan 1, askToScan 2] result.2 := by
  refine ⟨by decide, by decide, ?_⟩
  intro replies
  exact absurd replies.length_eq (by decide)

end Elkeid.Scanner
