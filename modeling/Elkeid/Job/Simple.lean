import Mathlib

/-!
# A job and its workers

`SimpleJob` and `NewApiJob` of `server/manager/distribute/job`: the parameters of a job, what one
worker of `Run` keeps while it does work items, and what it writes to redis when it ends.
-/

namespace Elkeid.Job

open List

/-- The keys of `ApiMap`. -/
def apiNames : List String :=
  ["Server_AgentStat", "Server_AgentList", "Agent_Config", "Agent_Ctrl", "Agent_Task"]

/-- The parameters of a job. Its functions and its meta data are those that `ApiMap` and the
registered functions have for the name. -/
structure SimpleJob where
  id : String
  name : String
  conNum : Int
  timeout : Int
  needRes : Bool
  deriving DecidableEq

def jobId (name : String) (now : Int) : String := "id-" ++ name ++ "-" ++ toString now

/-- `NewApiJob`; a job without an id gets a new one. -/
def newApiJob (id name : String) (conNum timeout : Int) (needRes : Bool) (now : Int) :
    Option SimpleJob :=
  if apiNames.contains name then
    some { id := if id = "" then jobId name now else id, name, conNum, timeout, needRes }
  else none

/-! ## Redis -/

inductive Counter
  | doOkCount
  | doFailedCount
  deriving DecidableEq

inductive Key
  | resp
  | retry
  deriving DecidableEq

inductive Command
  | hIncrBy (field : Counter) (increment : Nat)
  | lPush (key : Key) (values : List String)
  deriving DecidableEq

structure Redis where
  doOkCount : Nat
  doFailedCount : Nat
  /-- `distribute_failed_count`, `distribute_ok_count` and `un_distribute_count`. -/
  distributed : Option (Nat × Nat × Nat)
  resp : List String
  retry : List String
  deriving DecidableEq

def newRedis : Redis where
  doOkCount := 0
  doFailedCount := 0
  distributed := none
  resp := []
  retry := []

namespace Redis

/-- `LPush` puts one value after the other before the first one. -/
def exec (redis : Redis) : Command → Redis
  | .hIncrBy .doOkCount increment => { redis with doOkCount := redis.doOkCount + increment }
  | .hIncrBy .doFailedCount increment =>
    { redis with doFailedCount := redis.doFailedCount + increment }
  | .lPush .resp values => { redis with resp := values.reverse ++ redis.resp }
  | .lPush .retry values => { redis with retry := values.reverse ++ redis.retry }

end Redis

def gradient : Nat := 50

/-- The loop of `push2Redis`, over the part of the list that is left. -/
def pushFrom (key : Key) : Nat → List String → List Command
  | 0, _ => []
  | fuel + 1, list =>
    if gradient < list.length then
      .lPush key (list.take gradient) :: pushFrom key fuel (list.drop gradient)
    else if list.length = 0 then [] else [.lPush key list]

def push2Redis (key : Key) (list : List String) : List Command :=
  pushFrom key (list.length + 1) list

namespace Command

def pushed (key : Key) : Command → List String
  | .lPush other values => if other = key then values else []
  | .hIncrBy _ _ => []

def increment (field : Counter) : Command → Nat
  | .hIncrBy other increment => if other = field then increment else 0
  | .lPush _ _ => 0

end Command

theorem pushed_pushFrom (key : Key) {fuel : Nat} {list : List String}
    (enough : list.length < fuel) :
    (pushFrom key fuel list).flatMap (Command.pushed key) = list := by
  induction fuel generalizing list with
  | zero => exact absurd enough (Nat.not_lt_zero _)
  | succ fuel ih =>
    rw [pushFrom]
    split
    next longer =>
      have shorter : (list.drop gradient).length < fuel := by
        rw [length_drop]
        have : 0 < gradient := by decide
        omega
      rw [flatMap_cons, ih shorter, Command.pushed, if_pos rfl, take_append_drop]
    next =>
      split
      next empty => rw [length_eq_zero_iff.mp empty, flatMap_nil]
      next => rw [flatMap_singleton, Command.pushed, if_pos rfl]

theorem pushed_push2Redis (key : Key) (list : List String) :
    (push2Redis key list).flatMap (Command.pushed key) = list :=
  pushed_pushFrom key (Nat.lt_succ_self _)

theorem mem_pushFrom {key : Key} {fuel : Nat} {list : List String} {command : Command}
    (listed : command ∈ pushFrom key fuel list) : ∃ values, command = .lPush key values := by
  induction fuel generalizing list with
  | zero => cases listed
  | succ fuel ih =>
    rw [pushFrom] at listed
    split at listed
    next =>
      rcases mem_cons.mp listed with rfl | later
      · exact ⟨_, rfl⟩
      · exact ih later
    next =>
      split at listed
      next => cases listed
      next => exact ⟨list, mem_singleton.mp listed⟩

theorem pushed_push2Redis_of_ne {key other : Key} (different : key ≠ other) (list : List String) :
    (push2Redis key list).flatMap (Command.pushed other) = [] := by
  rw [flatMap_eq_nil_iff]
  intro command listed
  obtain ⟨values, rfl⟩ := mem_pushFrom listed
  exact if_neg different

/-! ## Workers -/

/-- What `Do` returns: an error, and the text of a result that comes with its arguments. -/
structure Outcome where
  error : Option String
  result : Option String
  deriving DecidableEq

structure Tally where
  doOKCount : Nat
  doFailCount : Nat
  resultList : List String
  retryList : List String
  deriving DecidableEq

def newTally : Tally where
  doOKCount := 0
  doFailCount := 0
  resultList := []
  retryList := []

namespace SimpleJob

/-- What a worker notes of one work item. A failure is counted and kept for a retry, and then the
item goes the way of a success. -/
def note (job : SimpleJob) (tally : Tally) (payload : String) (outcome : Outcome) : Tally :=
  let tally :=
    if outcome.error.isSome then
      { tally with
        doFailCount := tally.doFailCount + 1
        retryList := tally.retryList ++ [payload] }
    else tally
  let tally := { tally with doOKCount := tally.doOKCount + 1 }
  if job.needRes then
    match outcome.result with
    | some result => { tally with resultList := tally.resultList ++ [result] }
    | none => tally
  else tally

def deferred (job : SimpleJob) (tally : Tally) : List Command :=
  [.hIncrBy .doOkCount tally.doOKCount, .hIncrBy .doFailedCount tally.doFailCount] ++
    (if job.needRes then push2Redis .resp tally.resultList else []) ++
    push2Redis .retry tally.retryList

section

variable (job : SimpleJob)
include job

@[simp]
theorem doOKCount_note (tally : Tally) (payload : String) (outcome : Outcome) :
    (job.note tally payload outcome).doOKCount = tally.doOKCount + 1 := by
  simp only [note]
  repeat' split
  all_goals rfl

@[simp]
theorem doFailCount_note (tally : Tally) (payload : String) (outcome : Outcome) :
    (job.note tally payload outcome).doFailCount =
      tally.doFailCount + if outcome.error.isSome then 1 else 0 := by
  simp only [note]
  repeat' split
  all_goals rfl

theorem resultList_note (tally : Tally) (payload : String) (outcome : Outcome) :
    (job.note tally payload outcome).resultList =
      tally.resultList ++ if job.needRes then outcome.result.toList else [] := by
  obtain ⟨error, result⟩ := outcome
  cases needRes : job.needRes <;> cases error <;> cases result <;> simp [note, needRes]

theorem retryList_note (tally : Tally) (payload : String) (outcome : Outcome) :
    (job.note tally payload outcome).retryList =
      tally.retryList ++ if outcome.error.isSome then [payload] else [] := by
  obtain ⟨error, result⟩ := outcome
  cases needRes : job.needRes <;> cases error <;> cases result <;> simp [note, needRes]

theorem pushed_deferred (tally : Tally) :
    (job.deferred tally).flatMap (Command.pushed .retry) = tally.retryList := by
  have results : (if job.needRes then push2Redis .resp tally.resultList else []).flatMap
      (Command.pushed .retry) = [] := by
    split
    next => exact pushed_push2Redis_of_ne Key.noConfusion _
    next => rfl
  rw [deferred, flatMap_append, flatMap_append, results, pushed_push2Redis]
  rfl

def noteAll (job : SimpleJob) (work : List (String × Outcome)) : Tally :=
  work.foldl (fun tally item => job.note tally item.1 item.2) newTally

def stored (job : SimpleJob) (work : List (String × Outcome)) : List String :=
  (job.deferred (job.noteAll work)).flatMap (Command.pushed .resp)

theorem resultList_noteAll (work : List (String × Outcome)) : (job.noteAll work).resultList =
      if job.needRes then work.filterMap (fun item => item.2.result) else [] := by
  induction work using reverseRecOn with
  | nil => rw [filterMap_nil, ite_self]; rfl
  | append_singleton work item ih =>
    rw [noteAll, foldl_append, ← noteAll, foldl_cons, foldl_nil, resultList_note, ih]
    cases job.needRes with
    | false => rfl
    | true =>
      rw [if_pos rfl, if_pos rfl, if_pos rfl, filterMap_append]
      cases result : item.2.result <;> simp [result]

theorem stored_eq (work : List (String × Outcome)) :
    job.stored work = if job.needRes then work.filterMap (fun item => item.2.result) else [] := by
  rw [stored, deferred, flatMap_append, flatMap_append,
    pushed_push2Redis_of_ne Key.noConfusion, append_nil]
  cases needRes : job.needRes with
  | false => rfl
  | true =>
    rw [if_pos rfl, if_pos rfl, pushed_push2Redis, resultList_noteAll, if_pos needRes]
    rfl

end

end SimpleJob

end Elkeid.Job
