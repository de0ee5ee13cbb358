import Elkeid.Manager.AgentTask

/-!
# Rolling distribution of a task

The lock lets one run at a time read the task and hand out agents, but it is the goroutine that
unlocks, and it does not wait for the update of the task. Where no run reads the task while an
update is outstanding, and no update fails, the batches cut the list of the task into pieces.
-/

namespace Elkeid.Manager

open Foundations Machine TaskStore List Option Stage

namespace Stage

/-- Between its lock and its unlock. -/
def Holds : Stage → Prop
  | reading | finishing _ | creating _ | unlocking
  | spawned _ _ .distributing | spawned _ _ .unlocking => True
  | _ => False

def toCreate : Stage → Option Plan
  | creating plan => some plan
  | _ => none

def toUpdate : Stage → Option Plan
  | spawned plan false _ => some plan
  | _ => none

def toDistribute : Stage → Option (List Bytes)
  | spawned plan _ .distributing => some plan.todoList
  | _ => none

theorem Holds.spawned {plan : Plan} {updated : Bool} {worker : Worker}
    (holds : (spawned plan updated worker).Holds) (other : Bool) :
    (Stage.spawned plan other worker).Holds := by
  cases worker <;> exact holds

theorem holds_of_toCreate (stage : Stage) (plan : Plan) (shown : stage.toCreate = some plan) :
    stage.Holds := by
  cases stage with
  | creating => trivial
  | _ => cases shown

theorem holds_of_toDistribute (stage : Stage) (todoList : List Bytes)
    (shown : stage.toDistribute = some todoList) : stage.Holds := by
  cases stage with
  | spawned plan updated worker =>
    cases worker with
    | distributing => trivial
    | _ => cases shown
  | _ => cases shown

theorem toUpdate_spawned (plan : Plan) (updated : Bool) (worker other : Worker) :
    (spawned plan updated worker).toUpdate = (spawned plan updated other).toUpdate := by
  cases updated <;> rfl

theorem toDistribute_spawned (plan : Plan) (updated other : Bool) (worker : Worker) :
    (spawned plan updated worker).toDistribute = (spawned plan other worker).toDistribute := by
  cases worker <;> rfl

def InProgress (stage : Stage) : Prop := stage.Holds ∨ stage.toUpdate.isSome

instance : DecidablePred Holds := fun stage => by
  unfold Holds
  split <;> infer_instance

instance : DecidablePred InProgress := fun stage =>
  inferInstanceAs (Decidable (stage.Holds ∨ stage.toUpdate.isSome))

end Stage

/-- The plan takes the front of the list and counts it. -/
structure Plan.Takes (plan : Plan) (task : AgentConfigTask) : Prop where
  list : plan.todoList ++ plan.dbTask.todoList = task.todoList
  count : plan.dbTask.distributedCount = task.distributedCount + plan.todoList.length

theorem Plan.Takes.of_same {plan : Plan} {task other : AgentConfigTask} (takes : plan.Takes task)
    (sameList : other.todoList = task.todoList)
    (sameCount : other.distributedCount = task.distributedCount) : plan.Takes other :=
  ⟨takes.list.trans sameList.symm, takes.count.trans (by rw [sameCount])⟩

theorem AgentConfigTask.take_takes {dbTask changed : AgentConfigTask} (nCount : Nat)
    (sameList : changed.todoList = dbTask.todoList)
    (sameCount : changed.distributedCount = dbTask.distributedCount) :
    (changed.take nCount).Takes dbTask := by
  refine ⟨?_, ?_⟩
  · rw [← sameList]
    exact take_append_drop nCount changed.todoList
  · rw [← sameCount]
    rfl

theorem RunRequest.plan_takes {percents : Percents} (request : RunRequest percents)
    (dbTask : AgentConfigTask) : (request.plan dbTask).Takes dbTask := by
  cases request with
  | byPercent rollingPercent concurrence =>
    simp only [plan, planByPercent]
    split <;> split <;> exact AgentConfigTask.take_takes _ rfl rfl
  | byNum runNumber concurrence =>
    simp only [plan, planByNum]
    split <;> exact AgentConfigTask.take_takes _ rfl rfl

/-! ## What the events say -/

def Event.claim : Event → Option (List Bytes)
  | .spawned _ todoList => some todoList
  | _ => none

def Event.batch : Event → Option (List Bytes)
  | .distributed _ todoList => some todoList
  | _ => none

def claims (events : List Event) : List (List Bytes) := events.filterMap Event.claim

def batches (events : List Event) : List (List Bytes) := events.filterMap Event.batch

@[simp]
theorem claims_concat (past : List Event) (event : Event) :
    claims (past ++ [event]) = claims past ++ event.claim.toList :=
  filterMap_concat Event.claim past event

@[simp]
theorem batches_concat (past : List Event) (event : Event) :
    batches (past ++ [event]) = batches past ++ event.batch.toList :=
  filterMap_concat Event.batch past event

namespace TaskStore

variable {percents : Percents} {store : TaskStore percents}

def HoldsAt (store : TaskStore percents) (index : Nat) : Prop :=
  ∃ run, store.runs[index]? = some run ∧ run.stage.Holds

def toCreate (store : TaskStore percents) : Nat → Option Plan :=
  viewAt (fun run => run.stage.toCreate) store.runs

def toUpdate (store : TaskStore percents) : Nat → Option Plan :=
  viewAt (fun run => run.stage.toUpdate) store.runs

def toDistribute (store : TaskStore percents) : Nat → Option (List Bytes) :=
  viewAt (fun run => run.stage.toDistribute) store.runs

/-- No update of the task is outstanding. -/
def Written (store : TaskStore percents) : Prop := ∀ index, store.toUpdate index = none

def Idle (store : TaskStore percents) : Prop := ∀ run ∈ store.runs, ¬ run.stage.InProgress

instance : Decidable store.Idle := inferInstanceAs (Decidable (∀ run ∈ store.runs, _))

end TaskStore

/-- No run reads the task while an update is outstanding, and no update fails. -/
def Event.ReadsWritten {percents : Percents} (store : TaskStore percents) : Event → Prop
  | .taskRead _ => store.Written
  | .updateFailed _ => False
  | _ => True

namespace TaskStore

variable {percents : Percents} {store next : TaskStore percents} {event : Event}

/-! ## One holder -/

structure Exclusive (store : TaskStore percents) : Prop where
  locked : ∀ index, store.HoldsAt index → store.locked = true
  one : ∀ index position, store.HoldsAt index → store.HoldsAt position → position = index

theorem Exclusive.of_holders (exclusive : Exclusive store)
    (sameLock : next.locked = store.locked)
    (held : ∀ index, next.HoldsAt index → store.HoldsAt index) : Exclusive next where
  locked index holds := sameLock.trans (exclusive.locked index (held index holds))
  one index position holds otherHolds :=
    exclusive.one index position (held index holds) (held position otherHolds)

variable {index : Nat}

theorem holdsAt_setStage {position : Nat} {run : Run percents} {stage : Stage}
    (found : store.runs[index]? = some run) (was : stage.Holds → run.stage.Holds)
    (holds : (store.setStage index run stage).HoldsAt position) : store.HoldsAt position := by
  obtain ⟨other, otherFound, otherHolds⟩ := holds
  rcases getElem?_set_cases otherFound with ⟨rfl, rfl⟩ | ⟨_, same⟩
  · exact ⟨run, found, was otherHolds⟩
  · exact ⟨other, same, otherHolds⟩

theorem Took.exclusive (took : Took store next event) (exclusive : Exclusive store) :
    Exclusive next := by
  cases took with
  | idle | cancelled | queried | notWritten | statWritten =>
    exact exclusive.of_holders rfl (fun _ holds => holds)
  | started request =>
    refine exclusive.of_holders rfl ?_
    rintro position ⟨run, found, holds⟩
    rcases getElem?_concat_cases found with ⟨_, rfl⟩ | before
    · exact holds.elim
    · exact ⟨run, before, holds⟩
  | locked index run found atLock free =>
    -- the lock was free, so nobody else held it
    have only : ∀ position, (store.setStage index run .reading).HoldsAt position →
        position = index := by
      rintro position ⟨other, otherFound, holds⟩
      rcases getElem?_set_cases otherFound with ⟨same, _⟩ | ⟨_, before⟩
      · exact same
      · exact absurd (exclusive.locked position ⟨other, before, holds⟩) (by rw [free]; exact nofun)
    exact ⟨fun _ _ => rfl, fun position other holds otherHolds =>
      (only other otherHolds).trans (only position holds).symm⟩
  | unlocked index run old new locked found stage isLast kept =>
    have held : store.HoldsAt index := by
      refine ⟨run, found, ?_⟩
      rcases isLast with ⟨rfl, _⟩ | ⟨plan, updated, rfl, _⟩ <;> (rw [stage]; trivial)
    have none : ∀ position, ¬ (store.setStage index run new).HoldsAt position := by
      rintro position ⟨other, otherFound, holds⟩
      rcases getElem?_set_cases otherFound with ⟨_, rfl⟩ | ⟨differs, before⟩
      · rcases isLast with ⟨_, rfl⟩ | ⟨plan, updated, _, rfl⟩ <;> exact holds
      · exact differs (exclusive.one index position held ⟨other, before, holds⟩)
    exact ⟨fun position holds => (none position holds).elim,
      fun position _ holds => (none position holds).elim⟩
  | notLocked _ _ _ found =>
    exact exclusive.of_holders rfl fun _ => holdsAt_setStage found (fun holds => holds.elim)
  | notRead _ _ found stage | read _ _ found stage | notFinished _ _ _ found stage
  | finished _ _ _ found stage | notCreated _ _ _ found stage | spawned _ _ _ _ found stage
  | distributed _ _ _ _ found stage =>
    refine exclusive.of_holders rfl fun _ => holdsAt_setStage found (fun _ => ?_)
    rw [stage]
    trivial
  | updateFailed _ _ _ _ found stage | updated _ _ _ _ _ found stage =>
    refine exclusive.of_holders rfl fun _ => holdsAt_setStage found (fun holds => ?_)
    rw [stage]
    exact holds.spawned false

theorem holdsAt_of_found {run : Run percents} {stage : Stage}
    (found : store.runs[index]? = some run) (atStage : run.stage = stage) (holds : stage.Holds) :
    store.HoldsAt index :=
  ⟨run, found, atStage ▸ holds⟩

theorem Exclusive.viewAt_eq_none (exclusive : Exclusive store) {Seen : Type}
    {view : Stage → Option Seen} (ofHolder : ∀ stage seen, view stage = some seen → stage.Holds)
    {position : Nat} (held : store.HoldsAt index) (differs : position ≠ index) :
    viewAt (fun run => view run.stage) store.runs position = none := by
  by_contra shown
  obtain ⟨seen, isSeen⟩ := ne_none_iff_exists'.mp shown
  obtain ⟨run, found, view⟩ := viewAt_eq_some_iff.mp isSeen
  exact differs (exclusive.one index position held ⟨run, found, ofHolder _ _ view⟩)

section Steps

variable {past : List Event} {index : Nat} {run : Run percents}

/-! ## Jobs and batches -/

/-- Every job is distributed before the next one is created. -/
structure Handed (past : List Event) (store : TaskStore percents) : Prop where
  atWork : ∀ index todoList, store.toDistribute index = some todoList →
    claims past = batches past ++ [todoList]
  done : (∀ index, store.toDistribute index = none) → claims past = batches past

theorem Handed.unmoved (handed : Handed past store) (unclaimed : event.claim = none)
    (unbatched : event.batch = none)
    (sameWork : ∀ position, next.toDistribute position = store.toDistribute position) :
    Handed (past ++ [event]) next := by
  have sameClaims : claims (past ++ [event]) = claims past := by
    rw [claims_concat, unclaimed, toList_none, append_nil]
  have sameBatches : batches (past ++ [event]) = batches past := by
    rw [batches_concat, unbatched, toList_none, append_nil]
  refine ⟨?_, ?_⟩
  · intro position todoList found
    rw [sameClaims, sameBatches]
    exact handed.atWork position todoList ((sameWork position).symm.trans found)
  · intro none
    rw [sameClaims, sameBatches]
    exact handed.done fun position => (sameWork position).symm.trans (none position)

theorem Handed.setStage (handed : Handed past store) (unclaimed : event.claim = none)
    (unbatched : event.batch = none) (found : store.runs[index]? = some run) {stage : Stage}
    (same : stage.toDistribute = run.stage.toDistribute) :
    Handed (past ++ [event]) (store.setStage index run stage) :=
  handed.unmoved unclaimed unbatched (viewAt_set_same found same)

theorem Took.handed (took : Took store next event) (exclusive : Exclusive store)
    (handed : Handed past store) : Handed (past ++ [event]) next := by
  cases took with
  | idle _ unseen =>
    refine handed.unmoved ?_ ?_ fun _ => rfl <;> rcases unseen with rfl | ⟨_, rfl⟩ <;> rfl
  | started request => exact handed.unmoved rfl rfl (viewAt_concat rfl)
  | cancelled | queried | notWritten | statWritten => exact handed.unmoved rfl rfl fun _ => rfl
  | notLocked index run _ found stage unseen =>
    refine handed.setStage ?_ ?_ found (by rw [stage]; rfl) <;>
      rcases unseen with rfl | ⟨_, rfl⟩ <;> rfl
  | locked index run found stage =>
    exact handed.unmoved rfl rfl (viewAt_set_same found (by rw [stage]; rfl))
  | notRead _ _ found stage | notFinished _ _ _ found stage
  | finished _ _ _ found stage | notCreated _ _ _ found stage =>
    exact handed.unmoved rfl rfl (viewAt_set_same found (by rw [stage]; rfl))
  | read index run found stage =>
    refine handed.unmoved rfl rfl (viewAt_set_same found ?_)
    rw [stage, afterRead]
    split
    next => rfl
    next => split <;> rfl
  | unlocked index run old new locked found stage isLast =>
    refine handed.unmoved rfl rfl (viewAt_set_same found ?_)
    rw [stage]
    rcases isLast with ⟨rfl, rfl⟩ | ⟨plan, updated, rfl, rfl⟩ <;> rfl
  | updateFailed _ _ plan worker found stage | updated _ _ plan worker _ found stage =>
    refine handed.unmoved rfl rfl (viewAt_set_same found ?_)
    rw [stage]
    exact toDistribute_spawned plan true false worker
  | spawned index run plan jID found stage =>
    have held := holdsAt_of_found found stage trivial
    have caughtUp : claims past = batches past := by
      refine handed.done fun position => ?_
      by_cases same : position = index
      · rw [same]
        exact (viewAt_of_found found).trans (by rw [stage]; rfl)
      · exact exclusive.viewAt_eq_none holds_of_toDistribute held same
    refine ⟨?_, ?_⟩
    · intro position todoList seen
      rw [claims_concat, batches_concat, caughtUp]
      rw [toDistribute, setStage, viewAt_set found] at seen
      split at seen
      next =>
        cases seen
        exact congrArg (· ++ [_]) (append_nil _).symm
      next differs =>
        have unseen := exclusive.viewAt_eq_none holds_of_toDistribute held differs
        cases unseen.symm.trans seen
    · intro none
      have impossible := none index
      rw [toDistribute, setStage, viewAt_set found, if_pos rfl] at impossible
      cases impossible
  | distributed index run plan updated found stage =>
    have held := holdsAt_of_found found stage trivial
    have claimed := handed.atWork index plan.todoList
      ((viewAt_of_found found).trans (by rw [stage]; rfl))
    have idle : ∀ position,
        (store.setStage index run (.spawned plan updated .unlocking)).toDistribute position =
        none := by
      intro position
      rw [toDistribute, setStage, viewAt_set found]
      split
      next => rfl
      next differs => exact exclusive.viewAt_eq_none holds_of_toDistribute held differs
    refine ⟨fun position todoList seen => ?_, fun _ => ?_⟩
    · cases (idle position).symm.trans seen
    · rw [claims_concat, batches_concat, claimed]
      exact append_nil _

/-! ## The ledger -/

/-- The jobs so far have taken `ids` apart from the front; what is left stands in the plan of
the run that has still to update the task, or in the task itself. -/
structure Ledger (ids : List Bytes) (past : List Event) (store : TaskStore percents) : Prop where
  idCount : store.task.idCount = ids.length
  count : store.task.distributedCount + store.task.todoList.length = ids.length
  creating : ∀ index plan, store.toCreate index = some plan →
    plan.Takes store.task ∧ store.Written
  outstanding : ∀ index plan, store.toUpdate index = some plan →
    plan.Takes store.task ∧ (claims past).flatten ++ plan.dbTask.todoList = ids ∧
      ∀ position, position ≠ index → store.toUpdate position = none
  written : store.Written → (claims past).flatten ++ store.task.todoList = ids

variable {ids : List Bytes}

section

variable (ledger : Ledger ids past store)
include ledger

theorem Ledger.unmoved (unclaimed : event.claim = none)
    (sameIDs : next.task.idCount = store.task.idCount)
    (sameCount : next.task.distributedCount = store.task.distributedCount)
    (sameList : next.task.todoList = store.task.todoList)
    (created : ∀ position plan, next.toCreate position = some plan →
      store.toCreate position = some plan ∨ plan.Takes store.task ∧ store.Written)
    (sameUpdates : ∀ position, next.toUpdate position = store.toUpdate position) :
    Ledger ids (past ++ [event]) next := by
  have sameClaims : claims (past ++ [event]) = claims past := by
    rw [claims_concat, unclaimed, toList_none, append_nil]
  have sameWritten : next.Written ↔ store.Written :=
    forall_congr' fun position => by rw [sameUpdates position]
  refine ⟨sameIDs.trans ledger.idCount, ?_, ?_, ?_, ?_⟩
  · rw [sameCount, sameList, ledger.count]
  · intro position plan found
    rw [sameWritten]
    have ⟨takes, written⟩ : plan.Takes store.task ∧ store.Written := by
      rcases created position plan found with before | new
      · exact ledger.creating position plan before
      · exact new
    exact ⟨takes.of_same sameList sameCount, written⟩
  · intro position plan found
    rw [sameUpdates] at found
    obtain ⟨takes, cut, one⟩ := ledger.outstanding position plan found
    rw [sameClaims]
    refine ⟨takes.of_same sameList sameCount, cut, ?_⟩
    intro other differs
    exact (sameUpdates other).trans (one other differs)
  · rw [sameWritten, sameClaims, sameList]
    exact ledger.written

theorem Ledger.moved (unclaimed : event.claim = none)
    (sameIDs : next.task.idCount = store.task.idCount)
    (sameCount : next.task.distributedCount = store.task.distributedCount)
    (sameList : next.task.todoList = store.task.todoList)
    (found : store.runs[index]? = some run) {old stage : Stage} (atStage : run.stage = old)
    (runs : next.runs = store.runs.set index { run with stage := stage })
    (created : ∀ plan, stage.toCreate = some plan →
      old.toCreate = some plan ∨ plan.Takes store.task ∧ store.Written)
    (sameUpdate : stage.toUpdate = old.toUpdate) : Ledger ids (past ++ [event]) next := by
  refine ledger.unmoved unclaimed sameIDs sameCount sameList ?_ ?_
  · intro position plan seen
    rw [toCreate, runs, viewAt_set found] at seen
    split at seen
    next same =>
      refine (created plan seen).imp_left fun before => ?_
      rw [same]
      exact (viewAt_of_found found).trans (atStage ▸ before)
    next => exact .inl seen
  · intro position
    rw [toUpdate, runs]
    exact viewAt_set_same found (atStage ▸ sameUpdate) position

theorem Ledger.spawned (exclusive : Exclusive store)
    {plan : Plan} (jobList : List Bytes) (found : store.runs[index]? = some run)
    (stage : run.stage = .creating plan) :
    Ledger ids (past ++ [.spawned index plan.todoList])
      (store.setStage index run
        (.spawned ⟨{ plan.dbTask with jobList }, plan.todoList⟩ false .distributing)) := by
  obtain ⟨takes, written⟩ := ledger.creating index plan
    ((viewAt_of_found found).trans (by rw [stage]; rfl))
  refine ⟨ledger.idCount, ledger.count, ?_, ?_, ?_⟩
  · intro position other seen
    rw [toCreate, setStage, viewAt_set found] at seen
    split at seen
    next => cases seen
    next differs =>
      have held := holdsAt_of_found found stage trivial
      have unseen := exclusive.viewAt_eq_none holds_of_toCreate held differs
      cases unseen.symm.trans seen
  · intro position other seen
    rw [toUpdate, setStage, viewAt_set found] at seen
    split at seen
    next same =>
      cases seen
      refine ⟨⟨takes.list, takes.count⟩, ?_, ?_⟩
      · rw [claims_concat, flatten_append, append_assoc, ← ledger.written written,
          ← takes.list]
        exact congrArg (_ ++ ·) (congrArg (· ++ _) (flatten_singleton))
      · intro another differs
        rw [toUpdate, setStage, viewAt_set found, if_neg (same ▸ differs)]
        exact written another
    next => cases (written position).symm.trans seen
  · intro writtenNext
    have impossible := writtenNext index
    rw [toUpdate, setStage, viewAt_set found, if_pos rfl] at impossible
    cases impossible

theorem Ledger.update {plan : Plan} {worker : Worker} (now : Int)
    (found : store.runs[index]? = some run) (stage : run.stage = .spawned plan false worker) :
    Ledger ids (past ++ [.updated index])
      { store.setStage index run (.spawned plan true worker) with
        task := store.task.setRun plan.dbTask now } := by
  have outstanding : store.toUpdate index = some plan :=
    (viewAt_of_found found).trans (by rw [stage]; rfl)
  obtain ⟨takes, cut, one⟩ := ledger.outstanding index plan outstanding
  have written : (store.setStage index run (.spawned plan true worker)).Written := by
    intro position
    rw [toUpdate, setStage, viewAt_set found]
    split
    next => rfl
    next differs => exact one position differs
  refine ⟨ledger.idCount, ?_, ?_, ?_, ?_⟩
  · have count := ledger.count
    rw [← takes.list, length_append, ← add_assoc, ← takes.count] at count
    exact count
  · intro position other seen
    rw [toCreate, setStage, viewAt_set_same found (by rw [stage]; rfl)] at seen
    -- a run creates its job only where no update is outstanding
    cases ((ledger.creating position other seen).2 index).symm.trans outstanding
  · intro position other seen
    cases (written position).symm.trans seen
  · intro _
    rw [claims_concat]
    exact (congrArg (fun listed => listed.flatten ++ plan.dbTask.todoList) (append_nil _)).trans cut

end

theorem Took.ledger (took : Took store next event) (safe : event.ReadsWritten store)
    (exclusive : Exclusive store) (ledger : Ledger ids past store) :
    Ledger ids (past ++ [event]) next := by
  cases took with
  | idle _ unseen =>
    refine ledger.unmoved ?_ rfl rfl rfl (fun _ _ => .inl) fun _ => rfl
    rcases unseen with rfl | ⟨_, rfl⟩ <;> rfl
  | started request =>
    refine ledger.unmoved rfl rfl rfl rfl (fun position plan seen => .inl ?_) (viewAt_concat rfl)
    exact (viewAt_concat rfl position).symm.trans seen
  | cancelled | queried | notWritten | statWritten =>
    exact ledger.unmoved rfl rfl rfl rfl (fun _ _ => .inl) fun _ => rfl
  | spawned index run plan jID found stage => exact ledger.spawned exclusive _ found stage
  | updated index run plan worker now found stage => exact ledger.update now found stage
  | updateFailed => exact safe.elim
  | notLocked index run _ found stage unseen =>
    refine ledger.moved ?_ rfl rfl rfl found stage rfl nofun rfl
    rcases unseen with rfl | ⟨_, rfl⟩ <;> rfl
  | locked _ _ found stage | notRead _ _ found stage | notFinished _ _ _ found stage
  | finished _ _ _ found stage | notCreated _ _ _ found stage =>
    exact ledger.moved rfl rfl rfl rfl found stage rfl nofun rfl
  | distributed index run plan updated found stage =>
    exact ledger.moved rfl rfl rfl rfl found stage rfl nofun
      (toUpdate_spawned plan updated .unlocking .distributing)
  | unlocked index run old new locked found stage isLast =>
    refine ledger.moved rfl rfl rfl rfl found stage rfl ?_ ?_
    · rcases isLast with ⟨rfl, rfl⟩ | ⟨plan, updated, rfl, rfl⟩ <;> exact nofun
    · rcases isLast with ⟨rfl, rfl⟩ | ⟨plan, updated, rfl, rfl⟩
      · rfl
      · exact toUpdate_spawned plan updated .done .unlocking
  | read index run found stage =>
    refine ledger.moved rfl rfl rfl rfl found stage rfl ?_ ?_
    · intro plan created
      rw [afterRead] at created
      split at created
      next => cases created
      next =>
        split at created <;> cases created
        exact .inr ⟨run.request.plan_takes store.task, safe⟩
    · rw [afterRead]
      split
      next => rfl
      next => split <;> rfl

end Steps

/-! ## Whole runs -/

structure Rolled (ids : List Bytes) (past : List Event) (store : TaskStore percents) : Prop where
  exclusive : Exclusive store
  handed : Handed past store
  ledger : Ledger ids past store

theorem newTaskStore_rolled (taskType : String) (cursor : List (Option Bytes)) (now : Int) :
    Rolled (createTask taskType cursor now).todoList []
      (newTaskStore (createTask taskType cursor now) : TaskStore percents) where
  exclusive := by
    refine ⟨?_, ?_⟩
    · rintro index ⟨run, found, _⟩
      cases found
    · rintro index position ⟨run, found, _⟩
      cases found
  handed := by
    refine ⟨?_, fun _ => rfl⟩
    intro index todoList seen
    cases seen
  ledger := by
    refine ⟨rfl, zero_add _, ?_, ?_, fun _ => rfl⟩
    all_goals
      intro index plan seen
      cases seen

variable {ids : List Bytes} {past : List Event}

theorem Rolled.flatten_prefix (rolled : Rolled ids past store) :
    ∃ rest, (batches past).flatten ++ rest = ids := by
  have ⟨left, cut⟩ : ∃ left, (claims past).flatten ++ left = ids := by
    by_cases written : store.Written
    · exact ⟨_, rolled.ledger.written written⟩
    · obtain ⟨index, outstanding⟩ := not_forall.mp written
      obtain ⟨plan, seen⟩ := ne_none_iff_exists'.mp outstanding
      exact ⟨_, (rolled.ledger.outstanding index plan seen).2.1⟩
  by_cases done : ∀ index, store.toDistribute index = none
  · exact ⟨left, rolled.handed.done done ▸ cut⟩
  · obtain ⟨index, working⟩ := not_forall.mp done
    obtain ⟨todoList, seen⟩ := ne_none_iff_exists'.mp working
    rw [rolled.handed.atWork index todoList seen, flatten_append, append_assoc] at cut
    exact ⟨_, cut⟩

theorem written_of_runs (updated : ∀ run ∈ store.runs, run.stage.toUpdate = none) :
    store.Written := by
  intro index
  by_contra outstanding
  obtain ⟨plan, seen⟩ := ne_none_iff_exists'.mp outstanding
  obtain ⟨run, found, toUpdate⟩ := viewAt_eq_some_iff.mp seen
  cases (updated run (mem_of_getElem? found)).symm.trans toUpdate

theorem Idle.written (idle : store.Idle) : store.Written :=
  written_of_runs fun run listed =>
    not_isSome_iff_eq_none.mp fun outstanding => idle run listed (.inr outstanding)

theorem Idle.toDistribute_eq_none (idle : store.Idle) (index : Nat) :
    store.toDistribute index = none := by
  by_contra working
  obtain ⟨todoList, seen⟩ := ne_none_iff_exists'.mp working
  obtain ⟨run, found, atWork⟩ := viewAt_eq_some_iff.mp seen
  exact idle run (mem_of_getElem? found) (.inl (holds_of_toDistribute _ _ atWork))

end TaskStore

/-- Where no run reads the task while an update is outstanding and no update fails, no agent
is handed out twice. Whenever no run is at work, the batches and the list of the task put
together are the list the task was created with, and the counts agree with it. -/
theorem batches_cut {percents : Percents} {taskType : String} {cursor : List (Option Bytes)}
    {now : Int} {actions : List (Action percents)} {store : TaskStore percents}
    {events : List Event}
    (ordered : AllMeet TaskStore.step
      (OnOutput TaskStore.step (fun _ store event => event.ReadsWritten store)) []
      (newTaskStore (createTask taskType cursor now)) actions)
    (ran : run TaskStore.step (newTaskStore (createTask taskType cursor now)) actions =
      some (store, events)) :
    (batches events).flatten.Nodup ∧
      (store.Idle →
        store.task.distributedCount + store.task.todoList.length = store.task.idCount ∧
        (batches events).flatten ++ store.task.todoList =
          (createTask taskType cursor now).todoList) := by
  let ids := (createTask taskType cursor now).todoList
  have preserved : ∀ past (store : TaskStore percents) action next event,
      TaskStore.Rolled ids past store →
      OnOutput step (fun _ store event => event.ReadsWritten store) past store action →
      store.step action = some (next, event) → TaskStore.Rolled ids (past ++ [event]) next := by
    intro past store action next event rolled safe stepped
    have took := took_of_step stepped
    exact ⟨took.exclusive rolled.exclusive, took.handed rolled.exclusive rolled.handed,
      took.ledger (safe next event stepped) rolled.exclusive rolled.ledger⟩
  have rolled : TaskStore.Rolled ids events store :=
    ordered.invariant preserved ran (newTaskStore_rolled taskType cursor now)
  refine ⟨?_, fun idle => ⟨?_, ?_⟩⟩
  · obtain ⟨rest, cut⟩ := rolled.flatten_prefix
    have distinct : ids.Nodup := nodup_collectIDs [] cursor
    rw [← cut] at distinct
    exact (nodup_append.mp distinct).1
  · rw [rolled.ledger.count, rolled.ledger.idCount]
  · rw [← rolled.handed.done idle.toDistribute_eq_none]
    exact rolled.ledger.written idle.written

def twoRuns : List (Action hundredths) :=
  [.start (.byPercent (50 : Nat) 1), .lock 0 false, .read 0 false, .newJob 0 (some [0x6A]),
    .update 0 1 false,
    .distribute 0, .unlock 0 false,
    .start (.byNum 1 1), .lock 1 false, .read 1 false, .newJob 1 (some [0x6B]), .distribute 1,
    .update 1 2 false, .unlock 1 false]

theorem batches_cut_twoRuns :
    ∃ store events, run TaskStore.step
        (newTaskStore (createTask "Agent_Config" [some [0x61], some [0x62], some [0x63]] 0))
          twoRuns = some (store, events) ∧
      batches events = [[[0x61]], [[0x62]]] ∧ (batches events).flatten.Nodup ∧
      store.task.distributedCount + store.task.todoList.length = store.task.idCount ∧
      (batches events).flatten ++ store.task.todoList = [[0x61], [0x62], [0x63]] := by
  have ordered : AllMeet step
      (OnOutput step (fun _ store event => event.ReadsWritten store)) []
      (newTaskStore (createTask "Agent_Config" [some [0x61], some [0x62], some [0x63]] 0))
      twoRuns := by
    iterate 14
      refine allMeet_onOutput_cons rfl ?_ ?_
      first
        | trivial
        | exact written_of_runs (by decide)
    trivial
  have ⟨store, events, ran, shown, idle⟩ : ∃ store events, run step
      (newTaskStore (createTask "Agent_Config" [some [0x61], some [0x62], some [0x63]] 0))
        twoRuns = some (store, events) ∧
      batches events = [[[0x61]], [[0x62]]] ∧ store.Idle := by
    refine ⟨_, _, rfl, rfl, ?_⟩
    decide
  have ⟨distinct, partitioned⟩ := batches_cut ordered ran
  exact ⟨store, events, ran, shown, distinct, partitioned idle⟩

def unlockedEarly : List (Action hundredths) :=
  [.start (.byNum 1 1), .lock 0 false, .read 0 false, .newJob 0 (some [0x6A]), .distribute 0,
    .unlock 0 false, .start (.byNum 1 1), .lock 1 false, .read 1 false, .newJob 1 (some [0x6B]),
    .distribute 1, .unlock 1 false, .update 0 1 false, .update 1 2 false]

theorem unlockedEarly_twice :
    ∃ store events, run TaskStore.step
        (newTaskStore (createTask "Agent_Config" [some [0x61], some [0x62]] 0)) unlockedEarly =
          some (store, events) ∧
      store.Idle ∧ batches events = [[[0x61]], [[0x61]]] ∧ store.task.todoList = [[0x62]] := by
  refine ⟨_, _, rfl, ?_, rfl, rfl⟩
  decide

end Elkeid.Manager
