import Elkeid.Foundations.Machine
import Elkeid.Foundations.Positions
import Elkeid.Foundations.Text

/-!
# Tasks of the manager

`server/manager/biz/hander/v1/agent_task.go`: one task of the database and the requests that
run it (`ControlAgentTask` and `ControlAgentTaskByNum`), cancel it, or ask for its status
(`ComputeSubTaskStat`). The requests come to any number of manager processes, which share the
database and the lock of `infra/utils.go`. A step is one operation of the database, of the
lock or of the jobs. The lock does not expire.
-/

namespace Elkeid.Manager

open Foundations List

inductive TaskStatus
  | created
  | running
  | failed
  | succeed
  | finished
  | cancelled
  deriving DecidableEq

structure AgentConfigTask where
  taskType : String
  innerStatus : TaskStatus
  taskStatus : TaskStatus
  todoList : List Bytes
  idCount : Nat
  distributedCount : Nat
  jobList : List Bytes
  updateTime : Int
  subTaskCreated : Nat
  subTaskRunning : Nat
  subTaskFailed : Nat
  subTaskSucceed : Nat
  deriving DecidableEq

/-! ## A new task -/

/-- The loop of `CreateTask` over the cursor; a document that cannot be decoded is `none`. -/
def collectIDs (agentIDMap : List Bytes) : List (Option Bytes) → List Bytes
  | [] => []
  | none :: rest => collectIDs agentIDMap rest
  | some agentID :: rest =>
    if agentIDMap.contains agentID then collectIDs agentIDMap rest
    else agentID :: collectIDs (agentID :: agentIDMap) rest

def createTask (taskType : String) (cursor : List (Option Bytes)) (now : Int) :
    AgentConfigTask where
  taskType := taskType
  innerStatus := .created
  taskStatus := .created
  todoList := collectIDs [] cursor
  idCount := (collectIDs [] cursor).length
  distributedCount := 0
  jobList := []
  updateTime := now
  subTaskCreated := 0
  subTaskRunning := 0
  subTaskFailed := 0
  subTaskSucceed := 0

theorem not_mem_collectIDs {agentIDMap : List Bytes} {agentID : Bytes}
    (seen : agentID ∈ agentIDMap) (cursor : List (Option Bytes)) :
    agentID ∉ collectIDs agentIDMap cursor := by
  induction cursor generalizing agentIDMap with
  | nil => exact not_mem_nil
  | cons document rest ih =>
    cases document with
    | none => exact ih seen
    | some other =>
      rw [collectIDs]
      split
      next => exact ih seen
      next unseen =>
        rw [mem_cons, not_or]
        refine ⟨?_, ih (mem_cons_of_mem _ seen)⟩
        rintro rfl
        exact unseen (contains_iff_mem.mpr seen)

theorem nodup_collectIDs (agentIDMap : List Bytes) (cursor : List (Option Bytes)) :
    (collectIDs agentIDMap cursor).Nodup := by
  induction cursor generalizing agentIDMap with
  | nil => exact nodup_nil
  | cons document rest ih =>
    cases document with
    | none => exact ih agentIDMap
    | some agentID =>
      rw [collectIDs]
      split
      next => exact ih agentIDMap
      next =>
        exact nodup_cons.mpr ⟨not_mem_collectIDs mem_cons_self rest, ih _⟩

/-! ## Requests -/

/-- `RollingPercent` is a `float64`; `scaled n percent` is `int(float64(n) * percent)`, which is
not negative for a percent in range. -/
structure Percents where
  Percent : Type
  inRange : Percent → Bool
  scaled : Nat → Percent → Nat

def hundredths : Percents where
  Percent := Nat
  inRange percent := 0 < percent && percent ≤ 100
  scaled count percent := count * percent / 100

/-- A run request of `ControlAgentTask` or of `ControlAgentTaskByNum`. -/
inductive RunRequest (percents : Percents)
  | byPercent (rollingPercent : percents.Percent) (concurrence : Int)
  | byNum (runNumber concurrence : Int)

variable {percents : Percents}

/-- The answer to a request with a field out of range. -/
def RunRequest.invalid : RunRequest percents → Option String
  | byPercent rollingPercent concurrence =>
    if !percents.inRange rollingPercent then some "RollingPercent must between 0 and 1"
    else if concurrence ≤ 0 ∨ concurrence ≥ 1000 then some "Concurrence must between 0 and 1000"
    else none
  | byNum runNumber concurrence =>
    if runNumber ≤ 0 then some "RollingPercent must between 0 and 1"
    else if concurrence ≤ 0 ∨ concurrence ≥ 1000 then some "Concurrence must between 0 and 1000"
    else none

/-- What a run is going to write, and the agents of its job. -/
structure Plan where
  dbTask : AgentConfigTask
  todoList : List Bytes
  deriving DecidableEq

def AgentConfigTask.take (dbTask : AgentConfigTask) (nCount : Nat) : Plan where
  dbTask :=
    { dbTask with
      todoList := dbTask.todoList.drop nCount
      distributedCount := dbTask.distributedCount + (dbTask.todoList.take nCount).length }
  todoList := dbTask.todoList.take nCount

def planByPercent (rollingPercent : percents.Percent) (dbTask : AgentConfigTask) : Plan :=
  let scaled := percents.scaled dbTask.idCount rollingPercent
  let nCount := if scaled = 0 then scaled + 1 else scaled
  if nCount < dbTask.todoList.length then { dbTask with innerStatus := .running }.take nCount
  else { dbTask with innerStatus := .finished }.take dbTask.todoList.length

/-- Here it is `TaskStatus` that is set, which `UpdateOne` does not write. -/
def planByNum (runNumber : Int) (dbTask : AgentConfigTask) : Plan :=
  let nCount := runNumber.toNat
  if nCount < dbTask.todoList.length then { dbTask with taskStatus := .running }.take nCount
  else { dbTask with taskStatus := .finished }.take dbTask.todoList.length

def RunRequest.plan : RunRequest percents → AgentConfigTask → Plan
  | byPercent rollingPercent _ => planByPercent rollingPercent
  | byNum runNumber _ => planByNum runNumber

inductive Worker
  | distributing
  | unlocking
  | done
  deriving DecidableEq

/-- Where a run request stands. After `NewJob` its goroutine and its own `UpdateOne`
(`updated` when it is over) go on side by side. -/
inductive Stage
  | locking
  | reading
  | finishing (dbTask : AgentConfigTask)
  | creating (plan : Plan)
  | unlocking
  | spawned (plan : Plan) (updated : Bool) (worker : Worker)
  | returned
  deriving DecidableEq

structure Run (percents : Percents) where
  request : RunRequest percents
  stage : Stage

inductive Query
  | computing (task : AgentConfigTask)
  | returned
  deriving DecidableEq

structure TaskStore (percents : Percents) where
  task : AgentConfigTask
  /-- The key of the lock exists. -/
  locked : Bool
  runs : List (Run percents)
  queries : List Query

def newTaskStore (task : AgentConfigTask) : TaskStore percents where
  task := task
  locked := false
  runs := []
  queries := []

structure SubTaskCounts where
  created : Nat
  succeed : Nat
  failed : Nat
  running : Nat
  deriving DecidableEq

/-- Where an operation can fail, the action says whether it does. -/
inductive Action (percents : Percents)
  | start (request : RunRequest percents)
  | lock (run : Nat) (fails : Bool)
  | read (run : Nat) (fails : Bool)
  | setFinished (run : Nat) (fails : Bool)
  | newJob (run : Nat) (jobID : Option Bytes)
  | distribute (run : Nat)
  | unlock (run : Nat) (fails : Bool)
  | update (run : Nat) (now : Int) (fails : Bool)
  | cancel (now : Int) (fails : Bool)
  | query
  | computeSubTaskStat (query : Nat) (counts : Option SubTaskCounts) (fails : Bool)

inductive Event
  | rejected (text : String)
  | started (run : Nat)
  | refused (run : Nat) (text : String)
  | taskRead (run : Nat)
  | setFinished (run : Nat)
  | spawned (run : Nat) (todoList : List Bytes)
  | distributed (run : Nat) (todoList : List Bytes)
  | updated (run : Nat)
  | updateFailed (run : Nat)
  | cancelled
  | queried (query : Nat)
  | statWritten (query : Nat)
  | silent
  deriving DecidableEq

/-! ## The steps -/

namespace AgentConfigTask

def setRun (task dbTask : AgentConfigTask) (now : Int) : AgentConfigTask :=
  { task with
    todoList := dbTask.todoList
    updateTime := now
    taskStatus := .running
    innerStatus := dbTask.innerStatus
    distributedCount := dbTask.distributedCount
    jobList := dbTask.jobList }

def setFinished (task dbTask : AgentConfigTask) : AgentConfigTask :=
  { task with updateTime := dbTask.updateTime, innerStatus := .finished }

def setCancelled (task : AgentConfigTask) (now : Int) : AgentConfigTask :=
  { task with updateTime := now, taskStatus := .cancelled, innerStatus := .cancelled }

/-- The status a query writes, from what it has read. -/
def statStatus (read : AgentConfigTask) (counts : SubTaskCounts) : TaskStatus :=
  if read.innerStatus ≠ .cancelled ∧ read.distributedCount ≠ 0 ∧ counts.running = 0 ∧
      read.distributedCount = counts.succeed + counts.failed then .finished
  else read.taskStatus

def setStat (task read : AgentConfigTask) (counts : SubTaskCounts) : AgentConfigTask :=
  { task with
    subTaskCreated := counts.created
    subTaskFailed := counts.failed
    subTaskSucceed := counts.succeed
    subTaskRunning := counts.running
    taskStatus := read.statStatus counts }

end AgentConfigTask

namespace TaskStore

def setStage (store : TaskStore percents) (index : Nat) (run : Run percents) (stage : Stage) :
    TaskStore percents :=
  { store with runs := store.runs.set index { run with stage := stage } }

def afterRead (request : RunRequest percents) (dbTask : AgentConfigTask) : Stage :=
  if dbTask.innerStatus = .cancelled ∨ dbTask.innerStatus = .finished then .unlocking
  else if dbTask.todoList.length = 0 then .finishing dbTask
  else .creating (request.plan dbTask)

def advance (store : TaskStore percents) (index : Nat) (run : Run percents) :
    Action percents → Option (TaskStore percents × Event)
  | .lock _ fails =>
    if run.stage = .locking then
      if fails then some (store.setStage index run .returned, .silent)
      else if store.locked then
        some (store.setStage index run .returned,
          .refused index "Jobs cannot be executed concurrently, please try later")
      else some ({ store.setStage index run .reading with locked := true }, .silent)
    else none
  | .read _ fails =>
    if run.stage = .reading then
      if fails then some (store.setStage index run .unlocking, .silent)
      else some (store.setStage index run (afterRead run.request store.task), .taskRead index)
    else none
  | .setFinished _ fails =>
    match run.stage with
    | .finishing dbTask =>
      if fails then some (store.setStage index run .unlocking, .silent)
      else
        let task := store.task.setFinished dbTask
        some ({ store.setStage index run .unlocking with task }, .setFinished index)
    | _ => none
  | .newJob _ jobID =>
    match run.stage, jobID with
    | .creating _, none => some (store.setStage index run .unlocking, .silent)
    | .creating ⟨dbTask, todoList⟩, some jID =>
      let dbTask := { dbTask with jobList := dbTask.jobList ++ [jID] }
      some (store.setStage index run (.spawned ⟨dbTask, todoList⟩ false .distributing),
        .spawned index todoList)
    | _, _ => none
  | .distribute _ =>
    match run.stage with
    | .spawned plan updated .distributing =>
      some (store.setStage index run (.spawned plan updated .unlocking),
        .distributed index plan.todoList)
    | _ => none
  | .unlock _ fails =>
    let locked := if fails then store.locked else false
    match run.stage with
    | .unlocking => some ({ store.setStage index run .returned with locked }, .silent)
    | .spawned plan updated .unlocking =>
      some ({ store.setStage index run (.spawned plan updated .done) with locked }, .silent)
    | _ => none
  | .update _ now fails =>
    match run.stage with
    | .spawned plan false worker =>
      if fails then
        some (store.setStage index run (.spawned plan true worker), .updateFailed index)
      else
        let task := store.task.setRun plan.dbTask now
        some ({ store.setStage index run (.spawned plan true worker) with task },
          .updated index)
    | _ => none
  | _ => none

def onRun (store : TaskStore percents) (index : Nat) (action : Action percents) :
    Option (TaskStore percents × Event) :=
  match store.runs[index]? with
  | none => none
  | some run => store.advance index run action

def computeSubTaskStat (store : TaskStore percents) (index : Nat)
    (counts : Option SubTaskCounts) (fails : Bool) : Option (TaskStore percents × Event) :=
  match store.queries[index]?, counts with
  | some (.computing _), none =>
    some ({ store with queries := store.queries.set index .returned }, .silent)
  | some (.computing read), some counts =>
    let answered := { store with queries := store.queries.set index .returned }
    if fails then some (answered, .silent)
    else some ({ answered with task := store.task.setStat read counts }, .statWritten index)
  | _, _ => none

def step (store : TaskStore percents) (action : Action percents) :
    Option (TaskStore percents × Event) :=
  match action with
  | .start request =>
    match request.invalid with
    | some text => some (store, .rejected text)
    | none =>
      some ({ store with runs := store.runs ++ [⟨request, .locking⟩] },
        .started store.runs.length)
  | .lock run _ | .read run _ | .setFinished run _ | .newJob run _ | .distribute run
  | .unlock run _ | .update run _ _ => store.onRun run action
  | .cancel now fails =>
    if fails then some (store, .silent)
    else some ({ store with task := store.task.setCancelled now }, .cancelled)
  | .query =>
    some ({ store with queries := store.queries ++ [.computing store.task] },
      .queried store.queries.length)
  | .computeSubTaskStat query counts fails => store.computeSubTaskStat query counts fails

inductive Took (store : TaskStore percents) : TaskStore percents → Event → Prop
  | idle (event) (unseen : event = .silent ∨ ∃ text, event = .rejected text) :
      Took store store event
  | started (request : RunRequest percents) :
      Took store { store with runs := store.runs ++ [⟨request, .locking⟩] }
        (.started store.runs.length)
  | notLocked (index run event) (found : store.runs[index]? = some run)
      (atLock : run.stage = .locking)
        (unseen : event = .silent ∨ ∃ text, event = .refused index text) :
      Took store (store.setStage index run .returned) event
  | locked (index run) (found : store.runs[index]? = some run) (atLock : run.stage = .locking)
      (free : store.locked = false) :
      Took store { store.setStage index run .reading with locked := true } .silent
  | notRead (index run) (found : store.runs[index]? = some run) (atRead : run.stage = .reading) :
      Took store (store.setStage index run .unlocking) .silent
  | read (index run) (found : store.runs[index]? = some run) (atRead : run.stage = .reading) :
      Took store (store.setStage index run (afterRead run.request store.task)) (.taskRead index)
  | notFinished (index run dbTask) (found : store.runs[index]? = some run)
      (atFinish : run.stage = .finishing dbTask) :
      Took store (store.setStage index run .unlocking) .silent
  | finished (index run dbTask) (found : store.runs[index]? = some run)
      (atFinish : run.stage = .finishing dbTask) :
      Took store
        { store.setStage index run .unlocking with task := store.task.setFinished dbTask }
        (.setFinished index)
  | notCreated (index run plan) (found : store.runs[index]? = some run)
      (atCreate : run.stage = .creating plan) :
      Took store (store.setStage index run .unlocking) .silent
  | spawned (index run plan jID) (found : store.runs[index]? = some run)
      (atCreate : run.stage = .creating plan) :
      Took store
        (store.setStage index run
          (.spawned
            ⟨{ plan.dbTask with jobList := plan.dbTask.jobList ++ [jID] }, plan.todoList⟩
            false .distributing))
        (.spawned index plan.todoList)
  | distributed (index run plan updated) (found : store.runs[index]? = some run)
      (atWork : run.stage = .spawned plan updated .distributing) :
      Took store (store.setStage index run (.spawned plan updated .unlocking))
        (.distributed index plan.todoList)
  | unlocked (index run old new locked) (found : store.runs[index]? = some run)
      (stage : run.stage = old)
      (isLast : old = .unlocking ∧ new = .returned ∨
        ∃ plan updated, old = .spawned plan updated .unlocking ∧ new = .spawned plan updated .done)
      (kept : locked = true → store.locked = true) :
      Took store { store.setStage index run new with locked := locked } .silent
  | updateFailed (index run plan worker) (found : store.runs[index]? = some run)
      (atUpdate : run.stage = .spawned plan false worker) :
      Took store (store.setStage index run (.spawned plan true worker)) (.updateFailed index)
  | updated (index run plan worker now) (found : store.runs[index]? = some run)
      (atUpdate : run.stage = .spawned plan false worker) :
      Took store
        { store.setStage index run (.spawned plan true worker) with
          task := store.task.setRun plan.dbTask now }
        (.updated index)
  | cancelled (now) :
      Took store { store with task := store.task.setCancelled now } .cancelled
  | queried :
      Took store { store with queries := store.queries ++ [.computing store.task] }
        (.queried store.queries.length)
  | notWritten (index read) (found : store.queries[index]? = some (.computing read)) :
      Took store { store with queries := store.queries.set index .returned } .silent
  | statWritten (index read counts) (found : store.queries[index]? = some (.computing read)) :
      Took store
        { store with
          queries := store.queries.set index .returned
          task := store.task.setStat read counts }
        (.statWritten index)

variable {store next : TaskStore percents} {event : Event}

theorem took_of_advance {index : Nat} {run : Run percents} {action : Action percents}
    (found : store.runs[index]? = some run)
    (stepped : store.advance index run action = some (next, event)) : Took store next event := by
  cases action with
  | lock _ fails =>
    obtain ⟨atLock, stepped⟩ := Option.ite_none_right_eq_some.mp stepped
    split at stepped
    next =>
      cases stepped
      exact .notLocked index run _ found atLock (.inl rfl)
    next =>
      split at stepped <;> cases stepped
      next => exact .notLocked index run _ found atLock (.inr ⟨_, rfl⟩)
      next free => exact .locked index run found atLock (Bool.not_eq_true _ ▸ free)
  | read _ fails =>
    obtain ⟨atRead, stepped⟩ := Option.ite_none_right_eq_some.mp stepped
    split at stepped <;> cases stepped
    next => exact .notRead index run found atRead
    next => exact .read index run found atRead
  | setFinished _ fails =>
    simp only [advance] at stepped
    split at stepped
    next dbTask atFinish =>
      split at stepped <;> cases stepped
      next => exact .notFinished index run dbTask found atFinish
      next => exact .finished index run dbTask found atFinish
    next => cases stepped
  | newJob _ jobID =>
    simp only [advance] at stepped
    split at stepped <;> cases stepped
    next plan atCreate => exact .notCreated index run plan found atCreate
    next dbTask todoList jID atCreate =>
      exact .spawned index run ⟨dbTask, todoList⟩ jID found atCreate
  | distribute _ =>
    simp only [advance] at stepped
    split at stepped <;> cases stepped
    next plan updated atWork => exact .distributed index run plan updated found atWork
  | unlock _ fails =>
    have kept : (if fails then store.locked else false) = true → store.locked = true := by
      cases fails with
      | false => exact nofun
      | true => exact id
    simp only [advance] at stepped
    split at stepped <;> cases stepped
    next atUnlock => exact .unlocked index run _ _ _ found atUnlock (.inl ⟨rfl, rfl⟩) kept
    next plan updated atUnlock =>
      exact .unlocked index run _ _ _ found atUnlock (.inr ⟨plan, updated, rfl, rfl⟩) kept
  | update _ now fails =>
    simp only [advance] at stepped
    split at stepped
    next plan worker atUpdate =>
      split at stepped <;> cases stepped
      next => exact .updateFailed index run plan worker found atUpdate
      next => exact .updated index run plan worker now found atUpdate
    next => cases stepped
  | _ => cases stepped

theorem took_of_computeSubTaskStat {index : Nat} {counts : Option SubTaskCounts} {fails : Bool}
    (stepped : store.computeSubTaskStat index counts fails = some (next, event)) :
    Took store next event := by
  simp only [computeSubTaskStat] at stepped
  split at stepped
  next read found =>
    cases stepped
    exact .notWritten index read found
  next read counts found =>
    split at stepped <;> cases stepped
    next => exact .notWritten index read found
    next => exact .statWritten index read counts found
  next => cases stepped

theorem took_of_step {action : Action percents} (stepped : store.step action = some (next, event)) :
    Took store next event := by
  have ofRun : ∀ {index}, store.onRun index action = some (next, event) →
      Took store next event := by
    intro index onRun
    simp only [TaskStore.onRun] at onRun
    split at onRun
    next => cases onRun
    next found => exact took_of_advance found onRun
  cases action with
  | start request =>
    simp only [step] at stepped
    split at stepped <;> cases stepped
    next text _ => exact .idle _ (.inr ⟨text, rfl⟩)
    next => exact .started request
  | lock | read | setFinished | newJob | distribute | unlock | update => exact ofRun stepped
  | cancel now fails =>
    simp only [step] at stepped
    split at stepped <;> cases stepped
    next => exact .idle _ (.inl rfl)
    next => exact .cancelled now
  | query =>
    cases stepped
    exact .queried
  | computeSubTaskStat => exact took_of_computeSubTaskStat stepped

end TaskStore

end Elkeid.Manager
