import Elkeid.Foundations.Machine
import Elkeid.Job.Simple

/-!
# A job on every manager

`jobManager` of `server/manager/distribute/job/manage.go`: the manager that creates a job sends
its parameters to all other ones, and each starts its own instance. A step is one call of
`newJob` or `stopJob`, one message that arrives, or one instance that is over.
-/

namespace Elkeid.Job

open Foundations Machine List Option AList

/-! ## Messages -/

inductive Json
  | text (value : String)
  | number (value : Int)
  | boolean (value : Bool)
  deriving DecidableEq

abbrev Object := List (String × Json)

namespace Object

/-- A field of a struct when `json.Unmarshal` has read an object into its zero value: a key that
is absent leaves it as it is, and a value of another type is an error. -/
def field {Value : Type} (object : Object) (tag : String) (read : Json → Option Value)
    (zero : Value) : Option Value :=
  match object.lookup tag with
  | some value => read value
  | none => some zero

end Object

namespace Json

def asText : Json → Option String
  | .text value => some value
  | _ => none

def asNumber : Json → Option Int
  | .number value => some value
  | _ => none

def asBoolean : Json → Option Bool
  | .boolean value => some value
  | _ => none

end Json

structure NewSyncInfo where
  id : String
  name : String
  conNum : Int
  timeout : Int
  needRes : Bool
  deriving DecidableEq

namespace NewSyncInfo

def marshal (info : NewSyncInfo) : Object :=
  [("id", .text info.id), ("name", .text info.name), ("con_num", .number info.conNum),
    ("timeout", .number info.timeout), ("need_res", .boolean info.needRes)]

def unmarshal (object : Object) : Option NewSyncInfo := do
  let id ← object.field "id" Json.asText ""
  let name ← object.field "name" Json.asText ""
  let conNum ← object.field "con_num" Json.asNumber 0
  let timeout ← object.field "timeout" Json.asNumber 0
  let needRes ← object.field "need_res" Json.asBoolean false
  return { id, name, conNum, timeout, needRes }

@[simp]
theorem unmarshal_marshal (info : NewSyncInfo) : unmarshal info.marshal = some info := rfl

end NewSyncInfo

/-- `StopSyncInfo` has only the id. -/
def marshalStop (id : String) : Object := [("id", .text id)]

def unmarshalStop (object : Object) : Option String := object.field "id" Json.asText ""

structure TransInfo where
  action : String
  data : Object
  deriving DecidableEq

def newAction : String := "new"

def stopAction : String := "stop"

/-! ## Managers -/

structure Runner where
  name : String
  job : SimpleJob
  /-- `Done` is closed. -/
  done : Bool
  deriving DecidableEq

structure JobManager where
  runningMap : AList (fun _ : String => Runner)

namespace JobManager

def inform (manager : JobManager) (runner : Runner) : JobManager :=
  ⟨manager.runningMap.insert runner.job.id runner⟩

/-- `Stop` of the instance with the id. -/
def stop (manager : JobManager) (id : String) : JobManager :=
  match manager.runningMap.lookup id with
  | some runner => ⟨manager.runningMap.insert id { runner with done := true }⟩
  | none => manager

/-- What is sent to the other managers is made of the parameters without `needRes`. -/
def newJob (manager : JobManager) (name : String) (conNum timeout : Int) (needRes : Bool)
    (now : Int) : Option (JobManager × SimpleJob × TransInfo) := do
  let job ← newApiJob "" name conNum timeout needRes now
  let newInfo : NewSyncInfo := { id := job.id, name, conNum, timeout, needRes := false }
  return (manager.inform { name, job, done := false }, job,
    { action := newAction, data := newInfo.marshal })

/-- The second result is the job that was started. -/
def syncRecv (manager : JobManager) (transInfo : TransInfo) (now : Int) :
    JobManager × Option SimpleJob :=
  if transInfo.action = newAction then
    match NewSyncInfo.unmarshal transInfo.data with
    | some newInfo =>
      match newApiJob newInfo.id newInfo.name newInfo.conNum newInfo.timeout newInfo.needRes
        now with
      | some job => (manager.inform { name := newInfo.name, job, done := false }, some job)
      | none => (manager, none)
    | none => (manager, none)
  else if transInfo.action = stopAction then
    match unmarshalStop transInfo.data with
    | some id => (manager.stop id, none)
    | none => (manager, none)
  else (manager, none)

end JobManager

/-! ## The managers together -/

structure Cluster where
  managers : List JobManager
  /-- Messages on their way, with the manager they are for. -/
  inFlight : List (Nat × TransInfo)

def newCluster (size : Nat) : Cluster where
  managers := replicate size ⟨∅⟩
  inFlight := []

inductive ClusterAction
  | newJob (host : Nat) (name : String) (conNum timeout : Int) (needRes : Bool) (now : Int)
      (othHosts : List Nat)
  | stopJob (host : Nat) (id : String) (othHosts : List Nat)
  | receive (index : Nat) (now : Int)
  | finish (host : Nat) (id : String)

inductive ClusterEvent
  | created (host : Nat) (job : SimpleJob)
  | received (host : Nat) (id : String)
  | ended (host : Nat) (id : String)
  | silent
  deriving DecidableEq

namespace Cluster

def setManager (cluster : Cluster) (host : Nat) (manager : JobManager) : Cluster :=
  { cluster with managers := cluster.managers.set host manager }

/-- `syncSend`; `GetOtherHosts` leaves the own host out. -/
def syncSend (cluster : Cluster) (host : Nat) (othHosts : List Nat) (transInfo : TransInfo) :
    Cluster :=
  { cluster with inFlight := cluster.inFlight ++
      (othHosts.filter (fun other => other != host)).map (fun other => (other, transInfo)) }

def newJob (cluster : Cluster) (host : Nat) (name : String) (conNum timeout : Int)
    (needRes : Bool) (now : Int) (othHosts : List Nat) : Option (Cluster × ClusterEvent) := do
  let manager ← cluster.managers[host]?
  match manager.newJob name conNum timeout needRes now with
  | some (next, job, transInfo) =>
    return ((cluster.setManager host next).syncSend host othHosts transInfo, .created host job)
  | none => return (cluster, .silent)

def stopJob (cluster : Cluster) (host : Nat) (id : String) (othHosts : List Nat) :
    Option (Cluster × ClusterEvent) := do
  let manager ← cluster.managers[host]?
  return ((cluster.setManager host (manager.stop id)).syncSend host othHosts
    { action := stopAction, data := marshalStop id }, .silent)

def receive (cluster : Cluster) (index : Nat) (now : Int) : Option (Cluster × ClusterEvent) := do
  let (host, transInfo) ← cluster.inFlight[index]?
  let manager ← cluster.managers[host]?
  let (next, started) := manager.syncRecv transInfo now
  let cluster := { cluster.setManager host next with inFlight := cluster.inFlight.eraseIdx index }
  match started with
  | some job => return (cluster, .received host job.id)
  | none => return (cluster, .silent)

def finish (cluster : Cluster) (host : Nat) (id : String) : Option (Cluster × ClusterEvent) := do
  let manager ← cluster.managers[host]?
  return (cluster.setManager host ⟨manager.runningMap.erase id⟩, .ended host id)

def step (cluster : Cluster) : ClusterAction → Option (Cluster × ClusterEvent)
  | .newJob host name conNum timeout needRes now othHosts =>
    cluster.newJob host name conNum timeout needRes now othHosts
  | .stopJob host id othHosts => cluster.stopJob host id othHosts
  | .receive index now => cluster.receive index now
  | .finish host id => cluster.finish host id

def running (cluster : Cluster) (host : Nat) (id : String) : Option Runner :=
  (cluster.managers[host]?).bind fun manager => manager.runningMap.lookup id

end Cluster

def SimpleJob.announcement (job : SimpleJob) : TransInfo where
  action := newAction
  data := NewSyncInfo.marshal
    { id := job.id, name := job.name, conNum := job.conNum, timeout := job.timeout,
      needRes := false }

def SimpleJob.replica (job : SimpleJob) : SimpleJob := { job with needRes := false }

/-- A job that `NewApiJob` has made. -/
structure SimpleJob.Valid (job : SimpleJob) : Prop where
  id : job.id ≠ ""
  name : apiNames.contains job.name = true

theorem jobId_ne_empty (name : String) (now : Int) : jobId name now ≠ "" := by
  intro empty
  have noLength := congrArg String.length empty
  simp [jobId, String.length_append] at noLength

theorem newApiJob_eq_some {id name : String} {conNum timeout now : Int} {needRes : Bool}
    {job : SimpleJob} (made : newApiJob id name conNum timeout needRes now = some job) :
    job.Valid ∧ job.name = name ∧ job.conNum = conNum ∧ job.timeout = timeout ∧
      job.needRes = needRes := by
  obtain ⟨isApi, ⟨⟩⟩ := ite_none_right_eq_some.mp made
  refine ⟨⟨?_, isApi⟩, rfl, rfl, rfl, rfl⟩
  intro empty
  split at empty
  next => exact jobId_ne_empty name now empty
  next given => exact given empty

theorem newApiJob_replica {job : SimpleJob} (valid : job.Valid) (now : Int) :
    newApiJob job.id job.name job.conNum job.timeout false now = some job.replica := by
  rw [newApiJob, if_pos valid.name, if_neg valid.id]
  rfl

namespace JobManager

variable {manager : JobManager}

theorem newJob_eq_some {name : String} {conNum timeout now : Int} {needRes : Bool}
    {next : JobManager} {job : SimpleJob} {transInfo : TransInfo}
    (made : manager.newJob name conNum timeout needRes now = some (next, job, transInfo)) :
    job.Valid ∧ (∃ name, next = manager.inform { name, job, done := false }) ∧
      transInfo = job.announcement := by
  rw [newJob] at made
  obtain ⟨new, isNew, ⟨⟩⟩ := bind_eq_some_iff.mp made
  obtain ⟨valid, rfl, rfl, rfl, _⟩ := newApiJob_eq_some isNew
  exact ⟨valid, ⟨_, rfl⟩, rfl⟩

theorem syncRecv_announcement {job : SimpleJob} (valid : job.Valid) (now : Int) :
    manager.syncRecv job.announcement now =
      (manager.inform { name := job.name, job := job.replica, done := false },
        some job.replica) := by
  simp [SimpleJob.announcement, syncRecv, newApiJob_replica valid]

theorem syncRecv_stop (id : String) (now : Int) :
    manager.syncRecv { action := stopAction, data := marshalStop id } now =
      (manager.stop id, none) :=
  rfl

theorem lookup_inform (runner : Runner) (id : String) :
    (manager.inform runner).runningMap.lookup id =
      if id = runner.job.id then some runner else manager.runningMap.lookup id := by
  rw [inform]
  split
  next same => rw [same, lookup_insert]
  next differs => rw [lookup_insert_ne differs]

theorem lookup_stop (stopped id : String) :
    ((manager.stop stopped).runningMap.lookup id).map Runner.job =
      (manager.runningMap.lookup id).map Runner.job := by
  rw [stop]
  split
  next runner found =>
    by_cases same : id = stopped
    · rw [same, lookup_insert, found]
      rfl
    · rw [lookup_insert_ne same]
  next => rfl

end JobManager

namespace Cluster

variable {cluster next : Cluster} {event : ClusterEvent}

def instanceAt (cluster : Cluster) (host : Nat) (id : String) : Option SimpleJob :=
  (cluster.running host id).map Runner.job

variable {host : Nat} {manager : JobManager} {past : List ClusterEvent}

theorem instanceAt_setManager {new : JobManager}
    (found : cluster.managers[host]? = some manager) (inFlight : List (Nat × TransInfo))
    (other : Nat) (id : String) :
    instanceAt ⟨(cluster.setManager host new).managers, inFlight⟩ other id =
      if other = host then (new.runningMap.lookup id).map Runner.job
      else cluster.instanceAt other id := by
  have inside := (List.getElem?_eq_some_iff.mp found).1
  rw [instanceAt, instanceAt, running, running, setManager]
  split
  next same =>
    rw [same, getElem?_set_self inside, bind_some]
  next differs => rw [getElem?_set_ne (Ne.symm differs)]

inductive Took (cluster : Cluster) : Cluster → ClusterEvent → Prop
  | idle : Took cluster cluster .silent
  | created (host manager job name othHosts) (found : cluster.managers[host]? = some manager)
      (valid : job.Valid) :
      Took cluster
        ((cluster.setManager host (manager.inform { name, job, done := false })).syncSend host
          othHosts
          job.announcement)
        (.created host job)
  | stopped (host manager id othHosts) (found : cluster.managers[host]? = some manager) :
      Took cluster
        ((cluster.setManager host (manager.stop id)).syncSend host othHosts
          { action := stopAction, data := marshalStop id })
        .silent
  | arrived (index host manager transInfo now)
      (arrives : cluster.inFlight[index]? = some (host, transInfo))
      (found : cluster.managers[host]? = some manager) :
      Took cluster
        { cluster.setManager host (manager.syncRecv transInfo now).1 with
          inFlight := cluster.inFlight.eraseIdx index }
        (match (manager.syncRecv transInfo now).2 with
          | some job => .received host job.id
          | none => .silent)
  | ended (host manager id) (found : cluster.managers[host]? = some manager) :
      Took cluster (cluster.setManager host ⟨manager.runningMap.erase id⟩) (.ended host id)

theorem took_of_step {action : ClusterAction} (stepped : cluster.step action = some (next, event)) :
    Took cluster next event := by
  cases action with
  | newJob host name conNum timeout needRes now othHosts =>
    obtain ⟨manager, found, stepped⟩ := bind_eq_some_iff.mp stepped
    cases made : manager.newJob name conNum timeout needRes now with
    | none =>
      rw [made] at stepped
      cases stepped
      exact .idle
    | some result =>
      obtain ⟨new, job, transInfo⟩ := result
      obtain ⟨valid, ⟨given, rfl⟩, rfl⟩ := JobManager.newJob_eq_some made
      rw [made] at stepped
      cases stepped
      exact .created host manager job given othHosts found valid
  | stopJob host id othHosts =>
    obtain ⟨manager, found, ⟨⟩⟩ := bind_eq_some_iff.mp stepped
    exact .stopped host manager id othHosts found
  | receive index now =>
    obtain ⟨⟨host, transInfo⟩, arrives, stepped⟩ := bind_eq_some_iff.mp stepped
    obtain ⟨manager, found, stepped⟩ := bind_eq_some_iff.mp stepped
    have took := Took.arrived index host manager transInfo now arrives found
    revert took stepped
    rcases manager.syncRecv transInfo now with ⟨new, started⟩
    cases started with
    | none | some =>
      rintro ⟨⟩ took
      exact took
  | finish host id =>
    obtain ⟨manager, found, ⟨⟩⟩ := bind_eq_some_iff.mp stepped
    exact .ended host manager id found

/-! ## Instances -/

structure Replicated (past : List ClusterEvent) (cluster : Cluster) : Prop where
  valid : ∀ creator job, .created creator job ∈ past → job.Valid
  inFlight : ∀ host transInfo, (host, transInfo) ∈ cluster.inFlight →
    (∃ id, transInfo = { action := stopAction, data := marshalStop id }) ∨
      ∃ creator job, .created creator job ∈ past ∧ host ≠ creator ∧ transInfo = job.announcement
  instances : ∀ host id found, cluster.instanceAt host id = some found →
    ∃ creator job, .created creator job ∈ past ∧ job.id = id ∧
      found = if host = creator then job else job.replica
  present : ∀ host id, .received host id ∈ past → .ended host id ∉ past →
    cluster.instanceAt host id ≠ none

theorem mem_syncSend {other : Nat} {othHosts : List Nat} {transInfo sent : TransInfo}
    (listed : (other, sent) ∈ (cluster.syncSend host othHosts transInfo).inFlight) :
    (other, sent) ∈ cluster.inFlight ∨ other ≠ host ∧ sent = transInfo := by
  rcases mem_append.mp listed with old | new
  · exact .inl old
  · obtain ⟨target, isTarget, ⟨⟩⟩ := mem_map.mp new
    exact .inr ⟨bne_iff_ne.mp (mem_filter.mp isTarget).2, rfl⟩

theorem Replicated.syncRecv_cases (replicated : Replicated past cluster)
    {transInfo : TransInfo} (manager : JobManager) (now : Int)
    (listed : (host, transInfo) ∈ cluster.inFlight) :
    (∃ id, manager.syncRecv transInfo now = (manager.stop id, none)) ∨
      ∃ creator job, .created creator job ∈ past ∧ host ≠ creator ∧ manager.syncRecv transInfo now =
          (manager.inform { name := job.name, job := job.replica, done := false },
            some job.replica) := by
  rcases replicated.inFlight host transInfo listed with ⟨id, rfl⟩ |
    ⟨creator, job, isJob, other, rfl⟩
  · exact .inl ⟨id, JobManager.syncRecv_stop id now⟩
  · exact .inr ⟨creator, job, isJob, other,
      JobManager.syncRecv_announcement (replicated.valid creator job isJob) now⟩

variable {id : String}

theorem instanceAt_cases {other : Nat} {new : JobManager}
    (found : cluster.managers[host]? = some manager) {inFlight : List (Nat × TransInfo)}
    {job : SimpleJob}
    (runs : instanceAt ⟨(cluster.setManager host new).managers, inFlight⟩ other id = some job) :
    (other = host ∧ (new.runningMap.lookup id).map Runner.job = some job) ∨
      cluster.instanceAt other id = some job := by
  rw [instanceAt_setManager found] at runs
  split at runs
  next same => exact .inl ⟨same, runs⟩
  next => exact .inr runs

theorem instanceAt_of_found (found : cluster.managers[host]? = some manager) (id : String) :
    cluster.instanceAt host id = (manager.runningMap.lookup id).map Runner.job := by
  rw [instanceAt, running, found, bind_some]

theorem inform_cases {runner : Runner} {job : SimpleJob}
    (runs : ((manager.inform runner).runningMap.lookup id).map Runner.job = some job) :
    (job = runner.job ∧ id = job.id) ∨
    (manager.runningMap.lookup id).map Runner.job = some job := by
  rw [JobManager.lookup_inform] at runs
  split at runs
  next same =>
    cases runs
    exact .inl ⟨rfl, same⟩
  next => exact .inr runs

theorem Took.instances (took : Took cluster next event)
    (replicated : Replicated past cluster) {found : SimpleJob}
    (runs : next.instanceAt host id = some found) :
    cluster.instanceAt host id = some found ∨ (event = .created host found ∧ id = found.id) ∨
        ∃ creator job, .created creator job ∈ past ∧ host ≠ creator ∧ id = job.id ∧
          found = job.replica := by
  cases took with
  | idle => exact .inl runs
  | created creator manager job name othHosts isManager valid =>
    rcases instanceAt_cases isManager runs with ⟨rfl, here⟩ | old
    · rcases inform_cases here with ⟨rfl, same⟩ | old
      · exact .inr (.inl ⟨rfl, same⟩)
      · exact .inl ((instanceAt_of_found isManager id).trans old)
    · exact .inl old
  | stopped other manager stopped othHosts isManager =>
    rcases instanceAt_cases isManager runs with ⟨rfl, here⟩ | old
    · rw [JobManager.lookup_stop] at here
      exact .inl ((instanceAt_of_found isManager id).trans here)
    · exact .inl old
  | arrived index other manager transInfo now arrives isManager =>
    rcases instanceAt_cases isManager runs with ⟨rfl, here⟩ | old
    · rcases replicated.syncRecv_cases manager now (mem_of_getElem? arrives) with
        ⟨stopped, received⟩ | ⟨creator, job, isJob, differs, received⟩
      · rw [received, JobManager.lookup_stop] at here
        exact .inl ((instanceAt_of_found isManager id).trans here)
      · rw [received] at here
        rcases inform_cases here with ⟨rfl, same⟩ | old
        · exact .inr (.inr ⟨creator, job, isJob, differs, same, rfl⟩)
        · exact .inl ((instanceAt_of_found isManager id).trans old)
    · exact .inl old
  | ended other manager ended isManager =>
    rcases instanceAt_cases isManager runs with ⟨rfl, here⟩ | old
    · by_cases same : id = ended
      · rw [same, lookup_erase] at here
        cases here
      · rw [lookup_erase_ne same] at here
        exact .inl ((instanceAt_of_found isManager id).trans here)
    · exact .inl old

theorem inform_ne_none {runner : Runner}
    (before : (manager.runningMap.lookup id).map Runner.job ≠ none ∨ id = runner.job.id) :
    ((manager.inform runner).runningMap.lookup id).map Runner.job ≠ none := by
  rw [JobManager.lookup_inform]
  split
  next => exact nofun
  next differs => exact before.resolve_right differs

theorem Took.present (took : Took cluster next event) (replicated : Replicated past cluster)
    (before : cluster.instanceAt host id ≠ none ∨ event = .received host id)
    (notEnded : event ≠ .ended host id) : next.instanceAt host id ≠ none := by
  have ofManager : ∀ {other : Nat} {manager new : JobManager} {inFlight : List (Nat × TransInfo)},
      cluster.managers[other]? = some manager →
      (host = other → (manager.runningMap.lookup id).map Runner.job ≠ none ∨
        event = .received host id → (new.runningMap.lookup id).map Runner.job ≠ none) →
      (host ≠ other → event ≠ .received host id) →
      instanceAt ⟨(cluster.setManager other new).managers, inFlight⟩ host id ≠ none := by
    intro other manager new inFlight isManager here elsewhere
    rw [instanceAt_setManager isManager]
    split
    next same =>
      refine here same ?_
      rwa [← instanceAt_of_found isManager, ← same]
    next differs => exact before.resolve_right (elsewhere differs)
  cases took with
  | idle => exact before.resolve_right nofun
  | created other manager job name othHosts isManager valid =>
    exact ofManager isManager (fun _ kept => inform_ne_none (.inl (kept.resolve_right nofun))) nofun
  | stopped other manager stopped othHosts isManager =>
    refine ofManager isManager (fun _ kept => ?_) nofun
    rw [JobManager.lookup_stop]
    exact kept.resolve_right nofun
  | arrived index other manager transInfo now arrives isManager =>
    rcases replicated.syncRecv_cases manager now (mem_of_getElem? arrives) with
      ⟨stopped, received⟩ | ⟨creator, job, isJob, differs, received⟩
    · rw [received] at ofManager ⊢
      refine ofManager isManager (fun _ kept => ?_) nofun
      rw [JobManager.lookup_stop]
      exact kept.resolve_right nofun
    · rw [received] at ofManager ⊢
      refine ofManager isManager (fun _ kept => inform_ne_none (kept.imp_right ?_)) fun elsewhere =>
        ?_
      · rintro ⟨⟩
        rfl
      · rintro ⟨⟩
        exact elsewhere rfl
  | ended other manager ended isManager =>
    refine ofManager isManager (fun same kept => ?_) nofun
    have differs : id ≠ ended := by
      rintro rfl
      exact notEnded (same ▸ rfl)
    rw [lookup_erase_ne differs]
    exact kept.resolve_right nofun

theorem Took.replicated (took : Took cluster next event)
    (replicated : Replicated past cluster) : Replicated (past ++ [event]) next where
  valid := by
    intro creator job listed
    rcases mem_append.mp listed with old | new
    · exact replicated.valid creator job old
    · cases took with
      | created host manager made name othHosts isManager valid =>
        cases mem_singleton.mp new
        exact valid
      | arrived index host manager transInfo now arrives isManager =>
        rcases replicated.syncRecv_cases manager now (mem_of_getElem? arrives) with
          ⟨stopped, received⟩ | ⟨_, _, _, _, received⟩ <;>
        · rw [received] at new
          cases mem_singleton.mp new
      | _ => cases mem_singleton.mp new
  inFlight := by
    have earlier : ∀ host transInfo, (host, transInfo) ∈ cluster.inFlight →
        (∃ id, transInfo = { action := stopAction, data := marshalStop id }) ∨
          ∃ creator job, .created creator job ∈ past ++ [event] ∧ host ≠ creator ∧
            transInfo = job.announcement := by
      intro host transInfo listed
      refine (replicated.inFlight host transInfo listed).imp_right ?_
      rintro ⟨creator, job, isJob, rest⟩
      exact ⟨creator, job, mem_append_left _ isJob, rest⟩
    intro host transInfo listed
    cases took with
    | created creator manager job name othHosts isManager valid =>
      rcases mem_syncSend listed with old | ⟨other, rfl⟩
      · exact earlier host transInfo old
      · exact .inr ⟨creator, job, mem_concat_self, other, rfl⟩
    | stopped other manager id othHosts isManager =>
      rcases mem_syncSend listed with old | ⟨_, rfl⟩
      · exact earlier host transInfo old
      · exact .inl ⟨id, rfl⟩
    | arrived => exact earlier host transInfo (mem_of_mem_eraseIdx listed)
    | _ => exact earlier host transInfo listed
  instances := by
    intro host id found runs
    rcases took.instances replicated runs with old | ⟨rfl, rfl⟩ |
      ⟨creator, job, isJob, differs, rfl, rfl⟩
    · obtain ⟨creator, job, isJob, same⟩ := replicated.instances host id found old
      exact ⟨creator, job, mem_append_left _ isJob, same⟩
    · exact ⟨host, found, mem_concat_self, rfl, (if_pos rfl).symm⟩
    · exact ⟨creator, job, mem_append_left _ isJob, rfl, (if_neg differs).symm⟩
  present := by
    intro host id received running
    rw [mem_append, mem_singleton, not_or] at running
    refine took.present replicated ?_ (Ne.symm running.2)
    rcases mem_append.mp received with old | new
    · exact .inl (replicated.present host id old running.1)
    · exact .inr (mem_singleton.mp new).symm

theorem newCluster_replicated (size : Nat) : Replicated [] (newCluster size) where
  valid := nofun
  inFlight := nofun
  instances := by
    intro host id found runs
    obtain ⟨runner, isRunner, _⟩ := map_eq_some_iff.mp runs
    obtain ⟨manager, isManager, listed⟩ := bind_eq_some_iff.mp isRunner
    rw [(mem_replicate.mp (mem_of_getElem? isManager)).2] at listed
    cases listed
  present := nofun

end Cluster

/-- The id of a job is new; it is made of a name and a time in nanoseconds. -/
def ClusterEvent.NewId (past : List ClusterEvent) : ClusterEvent → Prop
  | .created _ job => ∀ host other, .created host other ∈ past → other.id ≠ job.id
  | _ => True

/-- All ids that were given out differ. -/
def IdsDiffer (past : List ClusterEvent) : Prop :=
  ∀ host other job second, .created host job ∈ past → .created other second ∈ past →
    job.id = second.id → host = other ∧ job = second

theorem IdsDiffer.concat {past : List ClusterEvent} {event : ClusterEvent} (differ : IdsDiffer past)
    (newId : event.NewId past) : IdsDiffer (past ++ [event]) := by
  intro host other job second isJob isSecond same
  rcases mem_append.mp isJob with oldJob | newJob <;>
    rcases mem_append.mp isSecond with oldSecond | newSecond
  · exact differ host other job second oldJob oldSecond same
  · cases mem_singleton.mp newSecond
    exact absurd same (newId host job oldJob)
  · cases mem_singleton.mp newJob
    exact absurd same.symm (newId other second oldSecond)
  · cases mem_singleton.mp newJob
    cases mem_singleton.mp newSecond
    exact ⟨rfl, rfl⟩

/-- A manager that has received the announcement of a job and has not ended it runs an instance
with the same id, name, number of workers and time limit. The instance needs results, and its
workers store the same ones, exactly when the creator needs none. -/
theorem replicated_iff {size : Nat} {actions : List ClusterAction} {cluster : Cluster}
    {events : List ClusterEvent}
    (newIds : AllMeet Cluster.step
      (OnOutput Cluster.step (fun past _ event => event.NewId past)) [] (newCluster size) actions)
    (ran : run Cluster.step (newCluster size) actions = some (cluster, events))
    {creator peer : Nat} {job : SimpleJob} (created : .created creator job ∈ events)
    (other : peer ≠ creator) (received : .received peer job.id ∈ events)
    (running : .ended peer job.id ∉ events) :
    ∃ runner, cluster.running peer job.id = some runner ∧ runner.job.id = job.id ∧
      runner.job.name = job.name ∧ runner.job.conNum = job.conNum ∧
      runner.job.timeout = job.timeout ∧
      (runner.job.needRes = job.needRes ↔ job.needRes = false) ∧
      ((∀ work, runner.job.stored work = job.stored work) ↔ job.needRes = false) := by
  have preserved : ∀ past (cluster : Cluster) action next event,
      Cluster.Replicated past cluster ∧ IdsDiffer past →
      OnOutput Cluster.step (fun past _ event => event.NewId past) past cluster action →
      cluster.step action = some (next, event) →
      Cluster.Replicated (past ++ [event]) next ∧ IdsDiffer (past ++ [event]) := by
    intro past cluster action next event ⟨replicated, differ⟩ newId stepped
    exact ⟨(Cluster.took_of_step stepped).replicated replicated,
      differ.concat (newId next event stepped)⟩
  obtain ⟨replicated, differ⟩ : Cluster.Replicated events cluster ∧ IdsDiffer events :=
    newIds.invariant preserved ran
      ⟨Cluster.newCluster_replicated size, fun _ _ _ _ isJob => by cases isJob⟩
  obtain ⟨found, runs⟩ :=
    ne_none_iff_exists'.mp (replicated.present peer job.id received running)
  obtain ⟨host, origin, isOrigin, sameId, rfl⟩ := replicated.instances peer job.id found runs
  obtain ⟨rfl, rfl⟩ := differ host creator origin job isOrigin created sameId
  rw [if_neg other] at runs
  obtain ⟨runner, isRunner, isReplica⟩ := map_eq_some_iff.mp runs
  refine ⟨runner, isRunner, ?_⟩
  rw [isReplica]
  refine ⟨rfl, rfl, rfl, rfl, ⟨fun same => same.symm, fun none => none.symm⟩, ?_⟩
  constructor
  · intro same
    have one := same [("", { error := none, result := some "" })]
    rw [SimpleJob.stored_eq, SimpleJob.stored_eq] at one
    cases needRes : origin.needRes with
    | false => rfl
    | true =>
      rw [needRes] at one
      cases one
  · intro none work
    rw [SimpleJob.stored_eq, SimpleJob.stored_eq, none]
    rfl

def twoManagers (needRes : Bool) : List ClusterAction :=
  [.newJob 0 "Agent_Task" 2 60 needRes 1 [1], .receive 0 2]

def agentTask (needRes : Bool) : SimpleJob where
  id := jobId "Agent_Task" 1
  name := "Agent_Task"
  conNum := 2
  timeout := 60
  needRes := needRes

theorem replicated_iff_twoManagers : ∃ cluster events runner,
      run Cluster.step (newCluster 2) (twoManagers false) = some (cluster, events) ∧
      cluster.running 1 (agentTask false).id = some runner ∧ runner.job.needRes = false ∧
      ∀ work, runner.job.stored work = (agentTask false).stored work := by
  have newIds : AllMeet Cluster.step
      (OnOutput Cluster.step (fun past _ event => event.NewId past)) [] (newCluster 2)
      (twoManagers false) := by
    refine allMeet_onOutput_cons rfl nofun ?_
    refine allMeet_onOutput_cons rfl trivial ?_
    trivial
  have ⟨cluster, ran⟩ : ∃ cluster, run Cluster.step (newCluster 2) (twoManagers false) =
      some (cluster, [.created 0 (agentTask false), .received 1 (agentTask false).id]) :=
    ⟨_, rfl⟩
  have received : ClusterEvent.received 1 (agentTask false).id ∈
      [.created 0 (agentTask false), .received 1 (agentTask false).id] :=
    mem_cons_of_mem _ mem_cons_self
  obtain ⟨runner, runs, _, _, _, _, needRes, stored⟩ :=
    replicated_iff newIds ran mem_cons_self (by decide) received (by simp)
  exact ⟨cluster, _, runner, ran, runs, needRes.mpr rfl, stored.mpr rfl⟩

theorem twoManagers_no_results : ∃ cluster events runner,
      run Cluster.step (newCluster 2) (twoManagers true) = some (cluster, events) ∧
      events = [.created 0 (agentTask true), .received 1 (agentTask true).id] ∧
      cluster.running 1 (agentTask true).id = some runner ∧ runner.job.needRes = false ∧
      runner.job.stored [("item", { error := none, result := some "done" })] = [] ∧
      (agentTask true).stored [("item", { error := none, result := some "done" })] = ["done"] :=
  ⟨_, _, _, rfl, rfl, rfl, rfl, rfl, rfl⟩

end Elkeid.Job
