import Elkeid.Foundations.Machine
import Elkeid.Foundations.Positions
import Elkeid.Job.Simple

/-!
# Work items on their way

`Distribute`, `Finish`, `Retry` and `Run` of `server/manager/distribute/job/job.go`: each manager
host runs an instance of the job, whose workers take messages from the host's channel; any number
of calls publish to the channels. A step is one command of redis, one message that a worker takes
and works on, or one worker or host that ends. A publish reaches the host that has subscribed, and
reports it.
-/

namespace Elkeid.Job

def finishFlag : String := "FINISH"

/-- What `json.Marshal` makes of a `JobArgs`: the text of an object. -/
def JobText : Type := { text : String // text ≠ finishFlag ∧ text ≠ "" }

instance : DecidableEq JobText := Subtype.instDecidableEq

/-- A goroutine of `Run`: in its loop, at the writes of its deferred function, or ended. -/
inductive Worker
  | running (tally : Tally)
  | flushing (commands : List Command)
  | stopped
  deriving DecidableEq

/-- `Run` of a host: before it has subscribed, with the messages that wait and the workers, or
returned. -/
inductive Run
  | starting
  | working (channel : List String) (workers : List Worker)
  | over
  deriving DecidableEq

structure Host where
  job : SimpleJob
  run : Run
  deriving DecidableEq

/-- A call under way. `Distribute` has the items that are left and the variables of its loop,
`Finish` the hosts and flags that are left; `Retry` is before its pop or before its publish. -/
inductive Call
  | distributing (hosts : List Nat) (items : List (Option JobText))
      (index retries distributeOkCount distributeFailedCount : Nat)
  | finishing (conNum : Nat) (hosts : List Nat) (left : Nat)
  | retrying (hosts : List Nat) (index rLen : Nat)
  | republishing (hosts : List Nat) (index rLen : Nat) (jobData : String)
  | returned

structure Work where
  hosts : List Host
  calls : List Call
  redis : Redis

def newWork (jobs : List SimpleJob) : Work where
  hosts := jobs.map (fun job => { job, run := .starting })
  calls := []
  redis := newRedis

inductive WorkAction
  | distribute (caller : Nat) (hosts : List Nat) (jobs : Except String (List (Option JobText)))
  | finish (caller : Nat) (hosts : List Nat)
  | retry (caller : Nat) (hosts : List Nat)
  /-- The next command of a call; a publish may get lost. -/
  | advance (call : Nat) (lost : Bool)
  | subscribe (host : Nat) (fails : Bool)
  | receive (host worker : Nat) (outcome : Outcome)
  /-- The timer of a worker fires, or `Done` is closed. -/
  | leave (host worker : Nat)
  | flush (host worker : Nat)
  | finishRun (host : Nat)

inductive WorkEvent
  | distributed (host : Nat) (item : JobText)
  | undistributed (item : JobText)
  | popped (jobData : String)
  | republished (host : Nat) (jobData : String) (receivers : Nat)
  | executed (payload : String) (failed : Bool)
  | ended (host : Nat) (channel : List String)
  | silent

def retriesMax : Nat := 10

namespace Work

def setHost (work : Work) (index : Nat) (host : Host) : Work :=
  { work with hosts := work.hosts.set index host }

def setCall (work : Work) (index : Nat) (call : Call) : Work :=
  { work with calls := work.calls.set index call }

/-- The second result is the number of receivers. -/
def publish (work : Work) (host : Nat) (payload : String) (lost : Bool) : Work × Nat :=
  match work.hosts[host]? with
  | some { job, run := .working channel workers } =>
    if lost then (work, 0)
    else (work.setHost host { job, run := .working (channel ++ [payload]) workers }, 1)
  | _ => (work, 0)

def knows (work : Work) (caller : Nat) : Option SimpleJob :=
  match work.hosts[caller]? with
  | some { job, run := .starting } | some { job, run := .working _ _ } => some job
  | _ => none

def call (work : Work) (caller : Nat) (begin : SimpleJob → Call) : Work × WorkEvent :=
  match work.knows caller with
  | some job => ({ work with calls := work.calls ++ [begin job] }, .silent)
  | none => (work, .silent)

/-- One round of the loop of `Distribute`, at most to the next publish. An item is missing where
`json.Marshal` fails. -/
def distribute (work : Work) (index : Nat) (hosts : List Nat) (items : List (Option JobText))
    (position retries ok failed : Nat) (lost : Bool) : Option (Work × WorkEvent) :=
  match items with
  | [] =>
    some ({ work.setCall index .returned with
      redis.distributed := some (failed, ok, items.length) }, .silent)
  | item :: rest => do
      let host ← hosts[position % hosts.length]?
      match item with
      | none =>
        return (work.setCall index (.distributing hosts rest (position + 1) 0 ok (failed + 1)),
          .silent)
      | some item =>
        let (work, receivers) := work.publish host item.1 lost
        if receivers = 1 then
          return (work.setCall index (.distributing hosts rest (position + 1) 0 (ok + 1) failed),
            .distributed host item)
        else if retries + 1 < retriesMax then
          return (work.setCall index (.distributing hosts items position (retries + 1) ok failed),
            .silent)
        else
          return (work.setCall index (.distributing hosts rest (position + 1) 0 ok (failed + 1)),
            .undistributed item)

def finish (work : Work) (index conNum : Nat) (hosts : List Nat) (left : Nat) (lost : Bool) :
    Work × WorkEvent :=
  match hosts, left with
  | [], _ => (work.setCall index .returned, .silent)
  | _ :: rest, 0 => (work.setCall index (.finishing conNum rest conNum), .silent)
  | host :: _, left + 1 =>
    ((work.publish host finishFlag lost).1.setCall index (.finishing conNum hosts left), .silent)

/-- `RPop` of an empty list gives the empty text. -/
def rPop (work : Work) (index : Nat) (hosts : List Nat) (position rLen : Nat) : Work × WorkEvent :=
  match work.redis.retry.getLast? with
  | some jobData =>
    ({ work.setCall index (.republishing hosts position rLen jobData) with
      redis.retry := work.redis.retry.dropLast }, .popped jobData)
  | none => (work.setCall index (.republishing hosts position rLen ""), .silent)

/-- The number of receivers is not looked at. -/
def republish (work : Work) (index : Nat) (hosts : List Nat) (position rLen : Nat)
    (jobData : String) (lost : Bool) : Option (Work × WorkEvent) := do
  let host ← hosts[position % hosts.length]?
  let (work, receivers) := work.publish host jobData lost
  return (work.setCall index (.retrying hosts (position + 1) rLen),
    .republished host jobData receivers)

def advance (work : Work) (index : Nat) (lost : Bool) : Option (Work × WorkEvent) :=
  match work.calls[index]? with
  | some (.distributing hosts items position retries ok failed) =>
    work.distribute index hosts items position retries ok failed lost
  | some (.finishing conNum hosts left) => some (work.finish index conNum hosts left lost)
  | some (.retrying hosts position rLen) =>
    if position < rLen then some (work.rPop index hosts position rLen)
    else some (work.setCall index .returned, .silent)
  | some (.republishing hosts position rLen jobData) =>
    work.republish index hosts position rLen jobData lost
  | _ => none

/-- `Subscribe` and `Receive`, and the start of the workers. A negative number of workers stops
the manager. -/
def subscribe (work : Work) (index : Nat) (fails : Bool) : Option (Work × WorkEvent) :=
  match work.hosts[index]? with
  | some { job, run := .starting } =>
    if fails then some (work.setHost index { job, run := .over }, .silent)
    else if job.conNum < 0 then none
    else
      some (work.setHost index
        { job, run := .working [] (List.replicate job.conNum.toNat (.running newTally)) }, .silent)
  | _ => none

/-- A worker takes a message, and does the work item or leaves its loop. -/
def receive (work : Work) (index worker : Nat) (outcome : Outcome) : Option (Work × WorkEvent) :=
  match work.hosts[index]? with
  | some { job, run := .working (payload :: channel) workers } =>
    match workers[worker]? with
    | some (.running tally) =>
      if payload = finishFlag then
        some (work.setHost index
          { job, run := .working channel (workers.set worker (.flushing (job.deferred tally))) },
          .silent)
      else
        some (work.setHost index
          { job, run := .working channel
              (workers.set worker (.running (job.note tally payload outcome))) },
          .executed payload outcome.error.isSome)
    | _ => none
  | _ => none

def leave (work : Work) (index worker : Nat) : Option (Work × WorkEvent) :=
  match work.hosts[index]? with
  | some { job, run := .working channel workers } =>
    match workers[worker]? with
    | some (.running tally) =>
      some (work.setHost index
        { job, run := .working channel (workers.set worker (.flushing (job.deferred tally))) },
        .silent)
    | _ => none
  | _ => none

def flush (work : Work) (index worker : Nat) : Option (Work × WorkEvent) :=
  match work.hosts[index]? with
  | some { job, run := .working channel workers } =>
    match workers[worker]? with
    | some (.flushing (command :: commands)) =>
      some ({ work.setHost index
          { job, run := .working channel (workers.set worker (.flushing commands)) } with
        redis := work.redis.exec command }, .silent)
    | some (.flushing []) =>
      some (work.setHost index
        { job, run := .working channel (workers.set worker .stopped) }, .silent)
    | _ => none
  | _ => none

/-- All workers are done, and the subscription is closed with what still waits. -/
def finishRun (work : Work) (index : Nat) : Option (Work × WorkEvent) :=
  match work.hosts[index]? with
  | some { job, run := .working channel workers } =>
    if workers.all (fun worker => worker = .stopped) then
      some (work.setHost index { job, run := .over }, .ended index channel)
    else none
  | _ => none

def step (work : Work) : WorkAction → Option (Work × WorkEvent)
  | .distribute caller hosts (.ok jobs) =>
    some (work.call caller fun _ => .distributing hosts jobs 0 0 0 0)
  | .distribute _ _ (.error _) => some (work, .silent)
  | .finish caller hosts =>
    some (work.call caller fun job => .finishing job.conNum.toNat hosts job.conNum.toNat)
  | .retry caller hosts =>
    some (work.call caller fun _ => .retrying hosts 0 work.redis.retry.length)
  | .advance index lost => work.advance index lost
  | .subscribe index fails => work.subscribe index fails
  | .receive index worker outcome => work.receive index worker outcome
  | .leave index worker => work.leave index worker
  | .flush index worker => work.flush index worker
  | .finishRun index => work.finishRun index

end Work

/-! ## Everything a step can do -/

def Call.held : Call → Option String
  | .republishing _ _ _ jobData => some jobData
  | _ => none

/-- The call publishes a text to a host, which hears it or not, and goes on. -/
inductive Call.Publishes : Call → Nat → String → Bool → Call → WorkEvent → Prop
  | item (hosts item rest position retries ok failed host) :
      Publishes (.distributing hosts (some item :: rest) position retries ok failed) host item.1
        true
        (.distributing hosts rest (position + 1) 0 (ok + 1) failed) (.distributed host item)
  | again (hosts item rest position retries ok failed host) :
      Publishes (.distributing hosts (some item :: rest) position retries ok failed) host item.1
        false
        (.distributing hosts (some item :: rest) position (retries + 1) ok failed) .silent
  | gaveUp (hosts item rest position retries ok failed host) :
      Publishes (.distributing hosts (some item :: rest) position retries ok failed) host item.1
        false
        (.distributing hosts rest (position + 1) 0 ok (failed + 1)) (.undistributed item)
  | flag (conNum host rest left heard) :
      Publishes (.finishing conNum (host :: rest) (left + 1)) host finishFlag heard
        (.finishing conNum (host :: rest) left) .silent
  | republished (hosts position rLen jobData host heard) :
      Publishes (.republishing hosts position rLen jobData) host jobData heard
        (.retrying hosts (position + 1) rLen) (.republished host jobData heard.toNat)

namespace Work

inductive Took (work : Work) : Work → WorkEvent → Prop
  | idle : Took work work .silent
  | called (call) (empty : call.held = none) :
      Took work { work with calls := work.calls ++ [call] } .silent
  | moved (index old new distributed) (found : work.calls[index]? = some old)
      (oldEmpty : old.held = none) (newEmpty : new.held = none) :
      Took work { work.setCall index new with redis.distributed := distributed } .silent
  | popped (index old hosts position rLen jobData) (found : work.calls[index]? = some old)
      (oldEmpty : old.held = none) (isLast : work.redis.retry.getLast? = some jobData) :
      Took work
        { work.setCall index (.republishing hosts position rLen jobData) with
          redis.retry := work.redis.retry.dropLast }
        (.popped jobData)
  | poppedNone (index old hosts position rLen) (found : work.calls[index]? = some old)
      (oldEmpty : old.held = none) :
      Took work (work.setCall index (.republishing hosts position rLen "")) .silent
  | delivered (index old new host job channel workers payload event)
      (found : work.calls[index]? = some old)
      (isHost : work.hosts[host]? = some { job, run := .working channel workers })
      (publishes : old.Publishes host payload true new event) :
      Took work
        ((work.setHost host { job, run := .working (channel ++ [payload]) workers }).setCall index
          new)
        event
  | unheard (index old new host payload event) (found : work.calls[index]? = some old)
      (publishes : old.Publishes host payload false new event) :
      Took work (work.setCall index new) event
  | refused (index job) (found : work.hosts[index]? = some { job, run := .starting }) :
      Took work (work.setHost index { job, run := .over }) .silent
  | subscribed (index job count) (found : work.hosts[index]? = some { job, run := .starting }) :
      Took work
        (work.setHost index { job, run := .working [] (List.replicate count (.running newTally)) })
        .silent
  | executed (index job payload channel workers worker tally outcome)
      (found : work.hosts[index]? = some { job, run := .working (payload :: channel) workers })
      (isWorker : workers[worker]? = some (.running tally)) :
      Took work
        (work.setHost index
          { job, run := .working channel
              (workers.set worker (.running (job.note tally payload outcome))) })
        (.executed payload outcome.error.isSome)
  | left (index job channel later workers worker tally)
      (found : work.hosts[index]? = some { job, run := .working channel workers })
      (taken : channel = later ∨ channel = finishFlag :: later)
      (isWorker : workers[worker]? = some (.running tally)) :
      Took work
        (work.setHost index
          { job, run := .working later (workers.set worker (.flushing (job.deferred tally))) })
        .silent
  | flushed (index job channel workers worker command commands)
      (found : work.hosts[index]? = some { job, run := .working channel workers })
      (isWorker : workers[worker]? = some (.flushing (command :: commands))) :
      Took work
        { work.setHost index
            { job, run := .working channel (workers.set worker (.flushing commands)) } with
          redis := work.redis.exec command }
        .silent
  | stopped (index job channel workers worker)
      (found : work.hosts[index]? = some { job, run := .working channel workers })
      (isWorker : workers[worker]? = some (.flushing [])) :
      Took work
        (work.setHost index { job, run := .working channel (workers.set worker .stopped) }) .silent
  | ended (index job channel workers)
      (found : work.hosts[index]? = some { job, run := .working channel workers })
      (allStopped : ∀ worker ∈ workers, worker = .stopped) :
      Took work (work.setHost index { job, run := .over }) (.ended index channel)

variable {work next : Work} {event : WorkEvent}

theorem publish_cases (work : Work) (host : Nat) (payload : String) (lost : Bool) :
    (∃ job channel workers, work.hosts[host]? = some { job, run := .working channel workers } ∧
      work.publish host payload lost =
        (work.setHost host { job, run := .working (channel ++ [payload]) workers }, 1)) ∨
      work.publish host payload lost = (work, 0) := by
  rw [publish]
  split
  next job channel workers isHost =>
    split
    next => exact .inr rfl
    next => exact .inl ⟨job, channel, workers, isHost, rfl⟩
  next => exact .inr rfl

theorem took_of_call {caller : Nat} {begin : SimpleJob → Call}
    (empty : ∀ job, (begin job).held = none) (called : work.call caller begin = (next, event)) :
    Took work next event := by
  rw [call] at called
  split at called <;> cases called
  next job _ => exact .called (begin job) (empty job)
  next => exact .idle

variable {index position worker : Nat} {hosts : List Nat} {lost : Bool}

theorem took_of_distribute {items : List (Option JobText)} {retries ok failed : Nat}
    (found : work.calls[index]? = some (.distributing hosts items position retries ok failed))
    (stepped : work.distribute index hosts items position retries ok failed lost =
      some (next, event)) : Took work next event := by
  cases items with
  | nil =>
    cases stepped
    exact .moved index _ .returned _ found rfl rfl
  | cons first rest =>
    obtain ⟨host, _, stepped⟩ := Option.bind_eq_some_iff.mp stepped
    cases first with
    | none =>
      cases stepped
      exact .moved index _ _ _ found rfl rfl
    | some item =>
      rcases work.publish_cases host item.1 lost with ⟨job, channel, workers, isHost, heard⟩ |
        unheard
      · simp only [heard, if_true] at stepped
        cases stepped
        exact .delivered index _ _ host job channel workers _ _ found isHost
          (.item hosts item rest position retries ok failed host)
      · simp only [unheard, Nat.zero_ne_one, if_false] at stepped
        split at stepped <;> cases stepped
        next =>
          exact .unheard index _ _ host _ _ found
            (.again hosts item rest position retries ok failed host)
        next =>
          exact .unheard index _ _ host _ _ found
            (.gaveUp hosts item rest position retries ok failed host)

theorem took_of_finish {conNum left : Nat}
    (found : work.calls[index]? = some (.finishing conNum hosts left))
    (finished : work.finish index conNum hosts left lost = (next, event)) :
    Took work next event := by
  cases hosts with
  | nil =>
    cases finished
    exact .moved index _ .returned _ found rfl rfl
  | cons host rest =>
    cases left with
    | zero =>
      cases finished
      exact .moved index _ _ _ found rfl rfl
    | succ left =>
      rw [finish] at finished
      rcases work.publish_cases host finishFlag lost with
        ⟨job, channel, workers, isHost, heard⟩ | unheard
      · rw [heard] at finished
        cases finished
        exact .delivered index _ _ host job channel workers _ _ found isHost
          (.flag conNum host rest left true)
      · rw [unheard] at finished
        cases finished
        exact .unheard index _ _ host _ _ found (.flag conNum host rest left false)

theorem took_of_rPop {rLen : Nat}
    (found : work.calls[index]? = some (.retrying hosts position rLen))
    (popped : work.rPop index hosts position rLen = (next, event)) : Took work next event := by
  rw [rPop] at popped
  split at popped <;> cases popped
  next jobData isLast => exact .popped index _ hosts position rLen jobData found rfl isLast
  next => exact .poppedNone index _ hosts position rLen found rfl

theorem took_of_republish {rLen : Nat} {jobData : String}
    (found : work.calls[index]? = some (.republishing hosts position rLen jobData))
    (stepped : work.republish index hosts position rLen jobData lost = some (next, event)) :
    Took work next event := by
  obtain ⟨host, _, stepped⟩ := Option.bind_eq_some_iff.mp stepped
  rcases work.publish_cases host jobData lost with ⟨job, channel, workers, isHost, heard⟩ | unheard
  · rw [heard] at stepped
    cases stepped
    exact .delivered index _ _ host job channel workers _ _ found isHost
      (.republished hosts position rLen jobData host true)
  · rw [unheard] at stepped
    cases stepped
    exact .unheard index _ _ host _ _ found (.republished hosts position rLen jobData host false)

theorem took_of_advance
    (stepped : work.advance index lost = some (next, event)) : Took work next event := by
  simp only [advance] at stepped
  split at stepped
  next hosts items position retries ok failed found => exact took_of_distribute found stepped
  next conNum hosts left found => exact took_of_finish found (Option.some.inj stepped)
  next hosts position rLen found =>
    split at stepped
    next => exact took_of_rPop found (Option.some.inj stepped)
    next =>
      cases stepped
      exact .moved index _ .returned _ found rfl rfl
  next hosts position rLen jobData found => exact took_of_republish found stepped
  next => cases stepped

theorem took_of_subscribe {fails : Bool}
    (stepped : work.subscribe index fails = some (next, event)) : Took work next event := by
  simp only [subscribe] at stepped
  split at stepped
  next job found =>
    split at stepped
    next =>
      cases stepped
      exact .refused index job found
    next =>
      split at stepped <;> cases stepped
      exact .subscribed index job _ found
  next => cases stepped

theorem took_of_receive {outcome : Outcome}
    (stepped : work.receive index worker outcome = some (next, event)) : Took work next event := by
  simp only [receive] at stepped
  split at stepped
  next job payload channel workers found =>
    split at stepped
    next tally isWorker =>
      split at stepped <;> cases stepped
      next isFlag =>
        exact .left index job _ channel workers worker tally found (.inr (isFlag ▸ rfl)) isWorker
      next => exact .executed index job payload channel workers worker tally outcome found isWorker
    next => cases stepped
  next => cases stepped

theorem took_of_leave (stepped : work.leave index worker = some (next, event)) :
    Took work next event := by
  simp only [leave] at stepped
  split at stepped
  next job channel workers found =>
    split at stepped <;> cases stepped
    next tally isWorker =>
      exact .left index job channel channel workers worker tally found (.inl rfl) isWorker
  next => cases stepped

theorem took_of_flush (stepped : work.flush index worker = some (next, event)) :
    Took work next event := by
  simp only [flush] at stepped
  split at stepped
  next job channel workers found =>
    split at stepped <;> cases stepped
    next command commands isWorker =>
      exact .flushed index job channel workers worker command commands found isWorker
    next isWorker => exact .stopped index job channel workers worker found isWorker
  next => cases stepped

theorem took_of_finishRun (stepped : work.finishRun index = some (next, event)) :
    Took work next event := by
  simp only [finishRun] at stepped
  split at stepped
  next job channel workers found =>
    obtain ⟨allStopped, ⟨⟩⟩ := Option.ite_none_right_eq_some.mp stepped
    refine .ended index job channel workers found fun worker listed => ?_
    exact of_decide_eq_true (List.all_eq_true.mp allStopped worker listed)
  next => cases stepped

theorem took_of_step {action : WorkAction} (stepped : work.step action = some (next, event)) :
    Took work next event := by
  cases action with
  | distribute caller hosts jobs =>
    cases jobs with
    | ok jobs => exact took_of_call (fun _ => rfl) (Option.some.inj stepped)
    | error message =>
      cases stepped
      exact .idle
  | finish | retry => exact took_of_call (fun _ => rfl) (Option.some.inj stepped)
  | advance => exact took_of_advance stepped
  | subscribe => exact took_of_subscribe stepped
  | receive => exact took_of_receive stepped
  | leave => exact took_of_leave stepped
  | flush => exact took_of_flush stepped
  | finishRun => exact took_of_finishRun stepped

end Work

end Elkeid.Job
