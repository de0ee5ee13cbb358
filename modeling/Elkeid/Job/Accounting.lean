import Elkeid.Foundations.Sums
import Elkeid.Job.Work

/-!
# What the counters of a job say

A worker counts every work item as done, and the failed ones once more. What it has counted stays
with it until its deferred function has added it to the counters in redis, so that the counters
together with what the workers still owe always follow the executed items.
-/

namespace Elkeid.Job

open Foundations Machine List

def Tally.count (tally : Tally) : Counter → Nat
  | .doOkCount => tally.doOKCount
  | .doFailedCount => tally.doFailCount

def Redis.count (redis : Redis) : Counter → Nat
  | .doOkCount => redis.doOkCount
  | .doFailedCount => redis.doFailedCount

/-- What a worker will still add to a counter. -/
def Worker.owes (field : Counter) : Worker → Nat
  | .running tally => tally.count field
  | .flushing commands => total (Command.increment field) commands
  | .stopped => 0

def Run.workers : Run → List Worker
  | .working _ workers => workers
  | _ => []

def Host.sum (weight : Worker → Nat) (host : Host) : Nat := total weight host.run.workers

theorem total_workers_set (weight : Worker → Nat) {hosts : List Host} {index worker : Nat}
    {job : SimpleJob} {channel : List String} {workers : List Worker} {old : Worker}
    (found : hosts[index]? = some { job, run := .working channel workers })
    (isWorker : workers[worker]? = some old) (later : List String) (new : Worker) :
    total (Host.sum weight)
      (hosts.set index { job, run := .working later (workers.set worker new) }) +
      weight old = total (Host.sum weight) hosts + weight new := by
  have onHost := total_set (Host.sum weight) found
    { job, run := .working later (workers.set worker new) }
  have onWorker := total_set weight isWorker new
  simp only [Host.sum, Run.workers] at onHost onWorker ⊢
  omega

namespace WorkEvent

def succeeded : WorkEvent → Bool
  | .executed _ failed => !failed
  | _ => false

def failed : WorkEvent → Bool
  | .executed _ failed => failed
  | _ => false

def isExecuted : WorkEvent → Bool
  | .executed _ _ => true
  | _ => false

/-- The events that a counter is about to count. -/
def countedBy : Counter → WorkEvent → Bool
  | .doOkCount => isExecuted
  | .doFailedCount => failed

end WorkEvent

theorem countP_isExecuted (events : List WorkEvent) : events.countP WorkEvent.isExecuted =
      events.countP WorkEvent.succeeded + events.countP WorkEvent.failed := by
  induction events with
  | nil => rfl
  | cons event events ih =>
    rw [countP_cons, countP_cons, countP_cons, ih]
    cases event with
    | executed payload failed =>
      cases failed <;> simp only [WorkEvent.isExecuted, WorkEvent.succeeded, WorkEvent.failed] <;>
        simp <;> omega
    | _ => rfl

theorem increment_push2Redis (field : Counter) (key : Key) (list : List String) :
    total (Command.increment field) (push2Redis key list) = 0 := by
  refine total_eq_zero _ fun command listed => ?_
  obtain ⟨values, rfl⟩ := mem_pushFrom listed
  rfl

theorem increment_deferred (job : SimpleJob) (tally : Tally) (field : Counter) :
    total (Command.increment field) (job.deferred tally) = tally.count field := by
  have noResult : total (Command.increment field)
      (if job.needRes then push2Redis .resp tally.resultList else []) = 0 := by
    split
    next => exact increment_push2Redis field .resp _
    next => rfl
  rw [SimpleJob.deferred, total_append, total_append, noResult, increment_push2Redis]
  cases field <;> simp [total, Command.increment, Tally.count]

theorem count_exec (redis : Redis) (command : Command) (field : Counter) :
    (redis.exec command).count field = redis.count field + command.increment field := by
  cases command with
  | hIncrBy other increment => cases other <;> cases field <;> rfl
  | lPush key values => cases key <;> cases field <;> rfl

theorem count_note (job : SimpleJob) (tally : Tally) (payload : String) (outcome : Outcome)
    (field : Counter) :
    (job.note tally payload outcome).count field = tally.count field +
      if (WorkEvent.executed payload outcome.error.isSome).countedBy field then 1 else 0 := by
  cases field with
  | doOkCount => exact job.doOKCount_note tally payload outcome
  | doFailedCount =>
    refine (job.doFailCount_note tally payload outcome).trans (congrArg (_ + ·) ?_)
    cases outcome.error <;> rfl

namespace Work

variable {work next : Work} {event : WorkEvent} {past : List WorkEvent}

/-- The counters and what the workers still owe are what was executed. -/
def Accounted (past : List WorkEvent) (work : Work) : Prop :=
  ∀ field, work.redis.count field + total (Host.sum (Worker.owes field)) work.hosts =
    past.countP (WorkEvent.countedBy field)

theorem Accounted.concat (accounted : Accounted past work) (silent : event.isExecuted = false)
    (same : ∀ field, next.redis.count field + total (Host.sum (Worker.owes field)) next.hosts =
      work.redis.count field + total (Host.sum (Worker.owes field)) work.hosts) :
    Accounted (past ++ [event]) next := by
  intro field
  have unseen : event.countedBy field = false := by
    cases event with
    | executed => cases silent
    | _ => cases field <;> rfl
  rw [same, accounted, countP_append, countP_singleton, unseen]
  rfl

theorem Accounted.of_host (accounted : Accounted past work) (silent : event.isExecuted = false)
    {index : Nat} {old new : Host} (found : work.hosts[index]? = some old)
    (sameHosts : next.hosts = work.hosts.set index new) (sameRedis : next.redis = work.redis)
    (same : ∀ field, new.sum (Worker.owes field) = old.sum (Worker.owes field)) :
    Accounted (past ++ [event]) next := by
  refine accounted.concat silent fun field => ?_
  rw [sameHosts, sameRedis, total_set_same _ found (same field)]

end Work

theorem Call.Publishes.isExecuted {old new : Call} {host : Nat} {payload : String} {heard : Bool}
    {event : WorkEvent} (publishes : old.Publishes host payload heard new event) :
    event.isExecuted = false := by
  cases publishes <;> rfl

namespace Work

variable {work next : Work} {event : WorkEvent} {past : List WorkEvent}

theorem Took.accounted (took : Took work next event) (accounted : Accounted past work) :
    Accounted (past ++ [event]) next := by
  cases took with
  | idle | called | moved | popped | poppedNone => exact accounted.concat rfl fun _ => rfl
  | unheard index old new host payload event found publishes =>
    exact accounted.concat publishes.isExecuted fun _ => rfl
  | delivered index old new host job channel workers payload event found isHost publishes =>
    exact accounted.of_host publishes.isExecuted isHost rfl rfl fun _ => rfl
  | refused index job found => exact accounted.of_host rfl found rfl rfl fun _ => rfl
  | subscribed index job count found =>
    refine accounted.of_host rfl found rfl rfl fun field => ?_
    refine total_eq_zero _ fun worker listed => ?_
    rw [(mem_replicate.mp listed).2]
    cases field <;> rfl
  | executed index job payload channel workers worker tally outcome found isWorker =>
    intro field
    have before := accounted field
    have moved := total_workers_set (Worker.owes field) found isWorker channel
      (.running (job.note tally payload outcome))
    have counted : past.countP (WorkEvent.countedBy field) +
        (if (WorkEvent.executed payload outcome.error.isSome).countedBy field then 1 else 0) =
        (past ++ [WorkEvent.executed payload outcome.error.isSome]).countP
          (WorkEvent.countedBy field) := by
      rw [countP_append, countP_singleton]
    simp only [Worker.owes, count_note] at moved
    simp only [setHost]
    omega
  | left index job channel later workers worker tally found taken isWorker =>
    refine accounted.of_host rfl found rfl rfl fun field => ?_
    exact total_set_same _ isWorker (increment_deferred job tally field)
  | flushed index job channel workers worker command commands found isWorker =>
    refine accounted.concat rfl fun field => ?_
    have moved := total_workers_set (Worker.owes field) found isWorker channel (.flushing commands)
    simp only [Worker.owes, total_cons] at moved
    simp only [setHost, count_exec]
    omega
  | stopped index job channel workers worker found isWorker =>
    refine accounted.of_host rfl found rfl rfl fun field => ?_
    exact total_set_same _ isWorker rfl
  | ended index job channel workers found allStopped =>
    refine accounted.of_host rfl found rfl rfl fun field => ?_
    refine (total_eq_zero _ fun worker listed => ?_).symm
    rw [allStopped worker listed]
    rfl

theorem newWork_accounted (jobs : List SimpleJob) : Accounted [] (newWork jobs) := by
  intro field
  have nothing : total (Host.sum (Worker.owes field)) (newWork jobs).hosts = 0 := by
    refine total_eq_zero _ fun host listed => ?_
    obtain ⟨job, _, rfl⟩ := mem_map.mp listed
    rfl
  rw [nothing]
  cases field <;> rfl

def Stopped (work : Work) : Prop :=
  ∀ host ∈ work.hosts, ∀ worker ∈ host.run.workers, worker = .stopped

instance : Decidable work.Stopped := decidableBAll _ _

theorem Stopped.owes_eq_zero (stopped : work.Stopped) (field : Counter) :
    total (Host.sum (Worker.owes field)) work.hosts = 0 := by
  refine total_eq_zero _ fun host listed => ?_
  refine total_eq_zero _ fun worker isWorker => ?_
  rw [stopped host listed worker isWorker]
  rfl

end Work

/-- When all workers of all hosts have stopped, the count of failures is right, and the count of
successes and the sum of both are right exactly when no work item has failed. -/
theorem counts_right_iff {jobs : List SimpleJob} {actions : List WorkAction} {work : Work}
    {events : List WorkEvent} (ran : run Work.step (newWork jobs) actions = some (work, events))
    (stopped : work.Stopped) :
    work.redis.doFailedCount = events.countP WorkEvent.failed ∧
      (work.redis.doOkCount = events.countP WorkEvent.succeeded ↔
        events.countP WorkEvent.failed = 0) ∧
      (work.redis.doOkCount + work.redis.doFailedCount = events.countP WorkEvent.isExecuted ↔
        events.countP WorkEvent.failed = 0) := by
  have accounted : Work.Accounted events work :=
    run_invariant
      (fun _ _ _ _ _ accounted stepped => (Work.took_of_step stepped).accounted accounted)
      ran (Work.newWork_accounted jobs)
  have ok : work.redis.doOkCount = events.countP WorkEvent.isExecuted := by
    have counted := accounted .doOkCount
    rw [stopped.owes_eq_zero] at counted
    exact counted
  have failed : work.redis.doFailedCount = events.countP WorkEvent.failed := by
    have counted := accounted .doFailedCount
    rw [stopped.owes_eq_zero] at counted
    exact counted
  have split := countP_isExecuted events
  omega

def oneWorker : SimpleJob where
  id := "id-Agent_Task-1"
  name := "Agent_Task"
  conNum := 1
  timeout := 60
  needRes := false

def oneItem : JobText := ⟨"\x7b\x7d", by decide⟩

def oneItemRun (outcome : Outcome) (flushes : Nat) : List WorkAction :=
  [.subscribe 0 false, .distribute 0 [0] (.ok [some oneItem]), .advance 0 false,
    .receive 0 0 outcome, .finish 0 [0], .advance 1 false, .receive 0 0 outcome] ++
    replicate flushes (.flush 0 0)

theorem counts_right_oneItem : ∃ work events,
      run Work.step (newWork [oneWorker]) (oneItemRun { error := none, result := none } 3) =
        some (work, events) ∧
      events.countP WorkEvent.failed = 0 ∧
        work.redis.doOkCount = events.countP WorkEvent.succeeded := by
  have ⟨work, events, ran, stopped, noneFailed⟩ : ∃ work events,
      run Work.step (newWork [oneWorker]) (oneItemRun { error := none, result := none } 3) =
        some (work, events) ∧ work.Stopped ∧ events.countP WorkEvent.failed = 0 :=
    ⟨_, _, rfl, by decide, rfl⟩
  exact ⟨work, events, ran, noneFailed, (counts_right_iff ran stopped).2.1.mpr noneFailed⟩

theorem oneItem_failed_counted_twice : ∃ work events,
      run Work.step (newWork [oneWorker]) (oneItemRun { error := some "error", result := none } 4) =
        some (work, events) ∧
      work.Stopped ∧ events.countP WorkEvent.isExecuted = 1 ∧
      events.countP WorkEvent.succeeded = 0 ∧ work.redis.doOkCount = 1 ∧
      work.redis.doFailedCount = 1 :=
  ⟨_, _, rfl, by decide, rfl, rfl, rfl, rfl⟩

end Elkeid.Job
