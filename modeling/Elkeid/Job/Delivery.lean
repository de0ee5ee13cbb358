import Elkeid.Job.Accounting

/-!
# No work item lost or repeated

What `Distribute` counts as distributed and what `Retry` pops is executed, waits in a channel or is
about to be published again, or was lost: published by `Retry` to a host that does not listen, or
still waiting when the run of its host ended. What fails is kept by its worker until it is in the
failed list, where it stays until `Retry` pops it.
-/

namespace Elkeid.Job

open Foundations Machine List Call

variable (item : JobText)

def Run.channel : Run → List String
  | .working channel _ => channel
  | _ => []

def Host.waiting (host : Host) : Nat := host.run.channel.count item.1

def Call.holds (call : Call) : Nat := if call.held = some item.1 then 1 else 0

/-- What a worker has of an item for the failed list. -/
def Worker.keeps : Worker → Nat
  | .running tally => tally.retryList.count item.1
  | .flushing commands => (commands.flatMap (Command.pushed .retry)).count item.1
  | .stopped => 0

namespace WorkEvent

def distributes : WorkEvent → Nat
  | .distributed _ other => if other = item then 1 else 0
  | _ => 0

def pops : WorkEvent → Nat
  | .popped jobData => if jobData = item.1 then 1 else 0
  | _ => 0

def executes : WorkEvent → Nat
  | .executed payload _ => if payload = item.1 then 1 else 0
  | _ => 0

def fails : WorkEvent → Nat
  | .executed payload true => if payload = item.1 then 1 else 0
  | _ => 0

def loses : WorkEvent → Nat
  | .republished _ jobData 0 => if jobData = item.1 then 1 else 0
  | .ended _ channel => channel.count item.1
  | _ => 0

theorem fails_le_executes (event : WorkEvent) : event.fails item ≤ event.executes item := by
  cases event with
  | executed payload failed =>
    cases failed with
    | true => exact Nat.le_refl _
    | false => exact Nat.zero_le _
  | _ => exact Nat.le_refl _

theorem not_executes_or_not_pops (event : WorkEvent) :
    event.executes item = 0 ∨ event.pops item = 0 := by
  cases event with
  | popped => exact .inl rfl
  | _ => exact .inr rfl

end WorkEvent

variable {item} {work next : Work} {event : WorkEvent} {past : List WorkEvent}

theorem Call.holds_of_empty {call : Call} (empty : call.held = none) : call.holds item = 0 := by
  rw [holds, empty]
  rfl

theorem Call.holds_republishing (hosts : List Nat) (position rLen : Nat) (jobData : String) :
    (Call.republishing hosts position rLen jobData).holds item =
      if jobData = item.1 then 1 else 0 := by
  simp [holds, held]

theorem count_text (text : String) : [text].count item.1 = if text = item.1 then 1 else 0 := by
  simp [count_singleton]

theorem count_finishFlag : [finishFlag].count item.1 = 0 := by
  rw [count_text, if_neg item.2.1.symm]

theorem Call.Publishes.balanced (item : JobText) {old new : Call} {host : Nat} {payload : String}
    {heard : Bool}
    (publishes : old.Publishes host payload heard new event) :
    event.executes item = 0 ∧
      new.holds item + (if heard then [payload].count item.1 else 0) + event.loses item =
        old.holds item + event.distributes item + event.pops item := by
  cases publishes with
  | item hosts other rest position retries ok failed host =>
    have sameText : other.1 = item.1 ↔ other = item := ⟨Subtype.ext, congrArg Subtype.val⟩
    refine ⟨rfl, ?_⟩
    rw [holds_of_empty rfl, holds_of_empty rfl, if_pos rfl, count_text, if_congr sameText rfl rfl]
    simp [WorkEvent.loses, WorkEvent.distributes, WorkEvent.pops]
  | again | gaveUp => exact ⟨rfl, rfl⟩
  | flag conNum host rest left heard =>
    refine ⟨rfl, ?_⟩
    rw [count_finishFlag, ite_self]
    rfl
  | republished hosts position rLen =>
    refine ⟨rfl, ?_⟩
    rw [holds_of_empty rfl, holds_republishing]
    cases heard with
    | true =>
      rw [if_pos rfl, count_text, Nat.zero_add]
      rfl
    | false =>
      rw [if_neg Bool.false_ne_true, Nat.zero_add]
      rfl

theorem Call.Publishes.neither (item : JobText) {old new : Call} {host : Nat}
    {payload : String} {heard : Bool} (publishes : old.Publishes host payload heard new event) :
    event.pops item = 0 ∧ event.fails item = 0 := by
  cases publishes <;> exact ⟨rfl, rfl⟩

namespace Work

def Balanced (item : JobText) (work next : Work) (event : WorkEvent) : Prop :=
  event.executes item + total (Host.waiting item) next.hosts + total (Call.holds item) next.calls +
      event.loses item =
    total (Host.waiting item) work.hosts + total (Call.holds item) work.calls +
      event.distributes item + event.pops item

theorem Balanced.silent (sameHosts : total (Host.waiting item) next.hosts =
      total (Host.waiting item) work.hosts)
    (sameCalls : total (Call.holds item) next.calls = total (Call.holds item) work.calls) :
    Balanced item work next .silent := by
  simp [Balanced, sameHosts, sameCalls, WorkEvent.executes, WorkEvent.loses, WorkEvent.distributes,
    WorkEvent.pops]

theorem Took.balanced (took : Took work next event) : Balanced item work next event := by
  cases took with
  | idle => exact .silent rfl rfl
  | called call empty =>
    refine .silent rfl ?_
    rw [total_concat, holds_of_empty empty, add_zero]
  | moved index old new distributed found oldEmpty newEmpty =>
    refine .silent rfl (total_set_same _ found ?_)
    rw [holds_of_empty oldEmpty, holds_of_empty newEmpty]
  | popped index old hosts position rLen jobData found oldEmpty isLast =>
    have calls := total_set (Call.holds item) found (.republishing hosts position rLen jobData)
    rw [holds_of_empty oldEmpty, holds_republishing] at calls
    simp only [Balanced, setCall, WorkEvent.executes, WorkEvent.loses, WorkEvent.distributes,
      WorkEvent.pops]
    omega
  | poppedNone index old hosts position rLen found oldEmpty =>
    refine .silent rfl (total_set_same _ found ?_)
    rw [holds_of_empty oldEmpty, holds_republishing, if_neg item.2.2.symm]
  | delivered index old new host job channel workers payload event found isHost publishes =>
    have hosts := total_set (Host.waiting item) isHost
      { job, run := .working (channel ++ [payload]) workers }
    have calls := total_set (Call.holds item) found new
    obtain ⟨notExecuted, given⟩ := publishes.balanced item
    simp only [Host.waiting, Run.channel, count_append] at hosts
    simp only [if_true] at given
    simp only [Balanced, setHost, setCall, notExecuted]
    omega
  | unheard index old new host payload event found publishes =>
    have calls := total_set (Call.holds item) found new
    obtain ⟨notExecuted, given⟩ := publishes.balanced item
    simp only [Bool.false_eq_true, if_false] at given
    simp only [Balanced, setCall, notExecuted]
    omega
  | refused index job found => exact .silent (total_set_same _ found rfl) rfl
  | subscribed index job count found => exact .silent (total_set_same _ found rfl) rfl
  | executed index job payload channel workers worker tally outcome found isWorker =>
    have hosts := total_set (Host.waiting item) found
      { job, run := .working channel
          (workers.set worker (.running (job.note tally payload outcome))) }
    simp only [Host.waiting, Run.channel, count_cons, beq_iff_eq] at hosts
    simp only [Balanced, setHost, WorkEvent.executes, WorkEvent.loses, WorkEvent.distributes,
      WorkEvent.pops]
    omega
  | left index job channel later workers worker tally found taken isWorker =>
    refine .silent (total_set_same _ found ?_) rfl
    rcases taken with rfl | rfl
    · rfl
    · exact (count_cons_of_ne item.2.1.symm).symm
  | flushed index job channel workers worker command commands found isWorker =>
    exact .silent (total_set_same _ found rfl) rfl
  | stopped index job channel workers worker found isWorker =>
    exact .silent (total_set_same _ found rfl) rfl
  | ended index job channel workers found allStopped =>
    have hosts := total_set (Host.waiting item) found { job, run := .over }
    simp only [Host.waiting, Run.channel, count_nil] at hosts
    simp only [Balanced, setHost, WorkEvent.executes, WorkEvent.loses, WorkEvent.distributes,
      WorkEvent.pops]
    omega

def Kept (item : JobText) (work next : Work) (event : WorkEvent) : Prop :=
  event.pops item + next.redis.retry.count item.1 +
      total (Host.sum (Worker.keeps item)) next.hosts =
    work.redis.retry.count item.1 + total (Host.sum (Worker.keeps item)) work.hosts +
      event.fails item

theorem Kept.same (notPopped : event.pops item = 0) (notFailed : event.fails item = 0)
    (sameList : next.redis.retry = work.redis.retry)
    (sameHosts : total (Host.sum (Worker.keeps item)) next.hosts =
      total (Host.sum (Worker.keeps item)) work.hosts) : Kept item work next event := by
  rw [Kept, notPopped, notFailed, sameList, sameHosts, zero_add, add_zero]

theorem retry_exec (redis : Redis) (command : Command) :
    (redis.exec command).retry = (command.pushed .retry).reverse ++ redis.retry := by
  cases command with
  | hIncrBy field increment => cases field <;> rfl
  | lPush key values => cases key <;> rfl

theorem Took.kept (took : Took work next event) : Kept item work next event := by
  cases took with
  | idle | called | moved | poppedNone => exact .same rfl rfl rfl rfl
  | popped index old hosts position rLen jobData found oldEmpty isLast =>
    have split : work.redis.retry.count item.1 =
        work.redis.retry.dropLast.count item.1 + [jobData].count item.1 := by
      rw [← count_append, dropLast_append_getLast? _ isLast]
    rw [count_text] at split
    simp only [Kept, setCall, WorkEvent.pops, WorkEvent.fails]
    omega
  | delivered index old new host job channel workers payload event found isHost publishes =>
    obtain ⟨notPopped, notFailed⟩ := publishes.neither item
    exact .same notPopped notFailed rfl (total_set_same _ isHost rfl)
  | unheard index old new host payload event found publishes =>
    obtain ⟨notPopped, notFailed⟩ := publishes.neither item
    exact .same notPopped notFailed rfl rfl
  | refused index job found => exact .same rfl rfl rfl (total_set_same _ found rfl)
  | subscribed index job count found =>
    refine .same rfl rfl rfl (total_set_same _ found (total_eq_zero _ fun worker listed => ?_))
    rw [(mem_replicate.mp listed).2]
    rfl
  | executed index job payload channel workers worker tally outcome found isWorker =>
    have moved := total_workers_set (Worker.keeps item) found isWorker channel
      (.running (job.note tally payload outcome))
    have failed : (if outcome.error.isSome then [payload] else []).count item.1 =
        (WorkEvent.executed payload outcome.error.isSome).fails item := by
      cases outcome.error with
      | none => rfl
      | some error => exact count_text payload
    simp only [Worker.keeps, SimpleJob.retryList_note, count_append, failed] at moved
    simp only [Kept, setHost, WorkEvent.pops]
    omega
  | left index job channel later workers worker tally found taken isWorker =>
    refine .same rfl rfl rfl (total_set_same _ found (total_set_same _ isWorker ?_))
    exact congrArg (count item.1) (job.pushed_deferred tally)
  | flushed index job channel workers worker command commands found isWorker =>
    have moved := total_workers_set (Worker.keeps item) found isWorker channel (.flushing commands)
    simp only [Worker.keeps, flatMap_cons, count_append] at moved
    simp only [Kept, setHost, retry_exec, count_append, count_reverse, WorkEvent.pops,
      WorkEvent.fails]
    omega
  | stopped index job channel workers worker found isWorker =>
    exact .same rfl rfl rfl (total_set_same _ found (total_set_same _ isWorker rfl))
  | ended index job channel workers found allStopped =>
    refine .same rfl rfl rfl (total_set_same _ found (total_eq_zero _ fun worker listed => ?_).symm)
    rw [allStopped worker listed]
    rfl

/-- What a run has done with an item, and where it is. -/
structure Followed (item : JobText) (past : List WorkEvent) (work : Work) : Prop where
  onTheWay : total (WorkEvent.executes item) past + total (Host.waiting item) work.hosts +
      total (Call.holds item) work.calls + total (WorkEvent.loses item) past =
    total (WorkEvent.distributes item) past + total (WorkEvent.pops item) past
  kept : total (WorkEvent.pops item) past + work.redis.retry.count item.1 +
      total (Host.sum (Worker.keeps item)) work.hosts = total (WorkEvent.fails item) past
  unseen : total (WorkEvent.distributes item) past = 0 → total (WorkEvent.executes item) past = 0

theorem Took.followed (took : Took work next event) (followed : Followed item past work) :
    Followed item (past ++ [event]) next := by
  obtain ⟨onTheWay, kept, unseen⟩ := followed
  have balanced : Balanced item work next event := took.balanced
  have keeps : Kept item work next event := took.kept
  rw [Balanced] at balanced
  rw [Kept] at keeps
  refine ⟨?_, ?_, ?_⟩
  · simp only [total_concat]
    omega
  · simp only [total_concat]
    omega
  · -- What was executed before is in the failed list at most, so that there is nothing to take.
    have failed : total (WorkEvent.fails item) past ≤ total (WorkEvent.executes item) past :=
      total_le_total (fun event => event.fails_le_executes item) past
    have either := event.not_executes_or_not_pops item
    simp only [total_concat]
    intro notDistributed
    omega

theorem newWork_followed (jobs : List SimpleJob) : Followed item [] (newWork jobs) := by
  have nothing (weight : Host → Nat) (weightless : ∀ job, weight { job, run := .starting } = 0) :
      total weight (newWork jobs).hosts = 0 := by
    refine total_eq_zero _ fun host listed => ?_
    obtain ⟨job, _, rfl⟩ := mem_map.mp listed
    exact weightless job
  refine ⟨?_, ?_, fun _ => rfl⟩
  all_goals
    rw [nothing _ fun _ => rfl]
    rfl

end Work

/-- Whatever was distributed or popped has been executed, waits or is held by `Retry`, each as often
as the other, exactly when nothing was lost. What was not distributed is not executed, and what has
failed was popped, is in the failed list or is kept for it by a worker. -/
theorem executed_once_iff {jobs : List SimpleJob} {actions : List WorkAction} {work : Work}
    {events : List WorkEvent} (ran : run Work.step (newWork jobs) actions = some (work, events))
    (item : JobText) :
    (total (WorkEvent.executes item) events + total (Host.waiting item) work.hosts +
        total (Call.holds item) work.calls =
      total (WorkEvent.distributes item) events + total (WorkEvent.pops item) events ↔
        total (WorkEvent.loses item) events = 0) ∧
    (total (WorkEvent.distributes item) events = 0 → total (WorkEvent.executes item) events = 0) ∧
    total (WorkEvent.pops item) events + work.redis.retry.count item.1 +
      total (Host.sum (Worker.keeps item)) work.hosts = total (WorkEvent.fails item) events := by
  have followed : Work.Followed item events work :=
    run_invariant (fun _ _ _ _ _ followed stepped => (Work.took_of_step stepped).followed followed)
      ran (Work.newWork_followed jobs)
  refine ⟨?_, followed.unseen, followed.kept⟩
  have onTheWay := followed.onTheWay
  omega

theorem executed_once_oneItem :
    ∃ work events,
      run Work.step (newWork [oneWorker]) (oneItemRun { error := none, result := none } 3) =
        some (work, events) ∧
      total (WorkEvent.distributes oneItem) events = 1 ∧
      total (WorkEvent.executes oneItem) events = 1 := by
  have ⟨work, events, ran, notLost, distributed, notPopped, notWaiting, notHeld⟩ : ∃ work events,
      run Work.step (newWork [oneWorker]) (oneItemRun { error := none, result := none } 3) =
        some (work, events) ∧
      total (WorkEvent.loses oneItem) events = 0 ∧
      total (WorkEvent.distributes oneItem) events = 1 ∧
      total (WorkEvent.pops oneItem) events = 0 ∧
      total (Host.waiting oneItem) work.hosts = 0 ∧ total (Call.holds oneItem) work.calls = 0 :=
    ⟨_, _, rfl, rfl, rfl, rfl, rfl, rfl⟩
  have once := (executed_once_iff ran oneItem).1.mpr notLost
  exact ⟨work, events, ran, distributed, by omega⟩

/-- The only item fails on the first of two hosts. `Finish` has reached that host, and its run is
over, when the manager of the second one retries; then the second host gets its flag. -/
def lateRetry : List WorkAction :=
  [.subscribe 0 false, .subscribe 1 false, .distribute 0 [0, 1] (.ok [some oneItem]),
    .advance 0 false, .receive 0 0 { error := some "error", result := none }, .finish 0 [0, 1],
    .advance 1 false, .receive 0 0 { error := none, result := none }, .flush 0 0, .flush 0 0,
    .flush 0 0, .flush 0 0, .finishRun 0, .retry 1 [0, 1], .advance 2 false, .advance 2 false,
    .advance 2 false, .advance 1 false, .advance 1 false,
    .receive 1 0 { error := none, result := none }, .flush 1 0, .flush 1 0, .flush 1 0,
    .finishRun 1]

theorem lateRetry_loses :
    ∃ work events,
      run Work.step (newWork [oneWorker, oneWorker]) lateRetry = some (work, events) ∧
      work.hosts.map Host.run = [.over, .over] ∧ work.redis.retry = [] ∧
      total (Call.holds oneItem) work.calls = 0 ∧
      total (WorkEvent.distributes oneItem) events = 1 ∧
      total (WorkEvent.pops oneItem) events = 1 ∧
      total (WorkEvent.executes oneItem) events = 1 :=
  ⟨_, _, rfl, rfl, rfl, rfl, rfl, rfl, rfl⟩

end Elkeid.Job
