import Elkeid.Manager.AgentTask

/-!
# Cancelled tasks

A cancel request sets both statuses and takes no lock. The other requests write statuses that
they have computed from an earlier read. A cancelled task stays cancelled exactly when no run
writes the task after a cancel and every query that does so has read it after one; a run that
starts later then finds that out before it creates its job.
-/

namespace Elkeid.Manager

open Foundations Machine List

/-- After a cancel no run writes the task, and a query only from a read after a cancel. -/
def Event.KeepsCancelled (past : List Event) : Event → Prop
  | .setFinished _ | .updated _ => .cancelled ∉ past
  | .statWritten query => .cancelled ∈ past → List.Sublist [.cancelled, .queried query] past
  | _ => True

/-- A run that has read the task and has not turned back. -/
def Stage.Planned : Stage → Prop
  | finishing _ | creating _ | spawned _ _ _ => True
  | _ => False

structure AgentConfigTask.Cancelled (task : AgentConfigTask) : Prop where
  inner : task.innerStatus = .cancelled
  status : task.taskStatus = .cancelled

namespace AgentConfigTask

theorem not_cancelled_setFinished (task dbTask : AgentConfigTask) :
    ¬ (task.setFinished dbTask).Cancelled := by
  rintro ⟨impossible, _⟩
  cases impossible

theorem not_cancelled_setRun (task dbTask : AgentConfigTask) (now : Int) :
    ¬ (task.setRun dbTask now).Cancelled := by
  rintro ⟨_, impossible⟩
  cases impossible

/-- A query writes the status it has read or `finished`, and the latter only where the task it
has read was not cancelled. -/
theorem statStatus_eq_cancelled_iff {read : AgentConfigTask} (counts : SubTaskCounts) :
    read.statStatus counts = .cancelled ↔ read.taskStatus = .cancelled ∧
      ¬ (read.innerStatus ≠ .cancelled ∧ read.distributedCount ≠ 0 ∧ counts.running = 0 ∧
        read.distributedCount = counts.succeed + counts.failed) := by
  rw [statStatus]
  split
  next finished => exact iff_of_false nofun (fun isCancelled => isCancelled.2 finished)
  next unfinished => exact (and_iff_left unfinished).symm

end AgentConfigTask

/-- A run that has started after a cancel distributes nothing. -/
def NoLaterBatch (past : List Event) : Prop :=
  ∀ run todoList, .distributed run todoList ∈ past → ¬ List.Sublist [.cancelled, .started run] past

structure StaysCancelled {percents : Percents} (past : List Event) (store : TaskStore percents) :
    Prop where
  task : .cancelled ∈ past → store.task.Cancelled
  batches : NoLaterBatch past

namespace TaskStore

variable {percents : Percents} {store next : TaskStore percents} {event : Event}

theorem not_cancelled_of_planned {request : RunRequest percents} {dbTask : AgentConfigTask}
    (planned : (afterRead request dbTask).Planned) : dbTask.innerStatus ≠ .cancelled := by
  intro isCancelled
  rw [afterRead, if_pos (.inl isCancelled)] at planned
  exact planned

theorem Took.planned (took : Took store next event) {index : Nat} {run : Run percents}
    (found : next.runs[index]? = some run) (planned : run.stage.Planned) :
    (event ≠ .started index ∧ ∃ old, store.runs[index]? = some old ∧ old.stage.Planned) ∨
      store.task.innerStatus ≠ .cancelled := by
  have changed : ∀ {position : Nat} {old : Run percents} {stage : Stage},
      store.runs[position]? = some old →
      (store.runs.set position { old with stage := stage })[index]? = some run →
      (stage.Planned → old.stage.Planned) →
      ∃ old, store.runs[index]? = some old ∧ old.stage.Planned := by
    intro position old stage before after was
    rcases getElem?_set_cases after with ⟨rfl, rfl⟩ | ⟨_, same⟩
    · exact ⟨old, before, was planned⟩
    · exact ⟨run, same, planned⟩
  cases took with
  | idle _ unseen =>
    refine .inl ⟨?_, run, found, planned⟩
    rcases unseen with rfl | ⟨_, rfl⟩ <;> exact nofun
  | started request =>
    rcases getElem?_concat_cases found with ⟨_, rfl⟩ | before
    · exact planned.elim
    · refine .inl ⟨?_, run, before, planned⟩
      rintro ⟨⟩
      exact Nat.lt_irrefl _ (List.getElem?_eq_some_iff.mp before).1
  | notLocked _ _ _ before _ unseen =>
    refine .inl ⟨?_, changed before found (fun impossible => impossible.elim)⟩
    rcases unseen with rfl | ⟨_, rfl⟩ <;> exact nofun
  | locked _ _ before | notRead _ _ before | notFinished _ _ _ before | finished _ _ _ before
  | notCreated _ _ _ before =>
    exact .inl ⟨nofun, changed before found (fun impossible => impossible.elim)⟩
  | read position old before atRead =>
    rcases getElem?_set_cases found with ⟨rfl, rfl⟩ | ⟨_, same⟩
    · exact .inr (not_cancelled_of_planned planned)
    · exact .inl ⟨nofun, run, same, planned⟩
  | spawned _ _ _ _ before atStage | distributed _ _ _ _ before atStage
  | updateFailed _ _ _ _ before atStage | updated _ _ _ _ _ before atStage =>
    refine .inl ⟨nofun, changed before found (fun _ => ?_)⟩
    rw [atStage]
    trivial
  | unlocked _ _ _ _ _ before atUnlock isLast =>
    refine .inl ⟨nofun, changed before found ?_⟩
    rcases isLast with ⟨rfl, rfl⟩ | ⟨plan, updated, rfl, rfl⟩
    · exact fun impossible => impossible.elim
    · rw [atUnlock]
      exact id
  | cancelled | queried | notWritten | statWritten => exact .inl ⟨nofun, run, found, planned⟩

theorem Took.distributed_planned {index : Nat} {todoList : List Bytes}
    (took : Took store next (.distributed index todoList)) :
    ∃ run, store.runs[index]? = some run ∧ run.stage.Planned := by
  cases took with
  | idle _ unseen => rcases unseen with impossible | ⟨_, impossible⟩ <;> cases impossible
  | notLocked _ _ _ _ _ unseen =>
    rcases unseen with impossible | ⟨_, impossible⟩ <;> cases impossible
  | distributed _ run plan updated found atWork =>
    refine ⟨run, found, ?_⟩
    rw [atWork]
    trivial

theorem Took.length_runs_le (took : Took store next event) :
    store.runs.length ≤ next.runs.length := by
  cases took with
  | started request => exact length_append ▸ Nat.le_add_right _ _
  | idle | cancelled | queried | notWritten | statWritten => exact le_refl _
  | _ => exact le_of_eq length_set.symm

theorem Took.task_cases (took : Took store next event) :
    (event ≠ .cancelled ∧ next.task = store.task ∧ ∀ past, event.KeepsCancelled past) ∨
    (event = .cancelled ∧ next.task.Cancelled) ∨
    ((∃ run, event = .updated run ∨ event = .setFinished run) ∧ ¬ next.task.Cancelled ∧
      (store.task.taskStatus ≠ .cancelled → next.task.taskStatus ≠ .cancelled)) ∨
    ∃ index read counts, event = .statWritten index ∧
      store.queries[index]? = some (.computing read) ∧
      next.task = store.task.setStat read counts := by
  cases took with
  | idle _ unseen | notLocked _ _ _ _ _ unseen =>
    rcases unseen with rfl | ⟨_, rfl⟩ <;> exact .inl ⟨nofun, rfl, fun _ => trivial⟩
  | cancelled => exact .inr (.inl ⟨rfl, rfl, rfl⟩)
  | finished index run dbTask =>
    exact .inr (.inr (.inl ⟨⟨index, .inr rfl⟩, AgentConfigTask.not_cancelled_setFinished _ _, id⟩))
  | updated index run plan worker now =>
    exact .inr (.inr (.inl ⟨⟨index, .inl rfl⟩, AgentConfigTask.not_cancelled_setRun _ _ _,
      fun _ => by rintro ⟨⟩⟩))
  | statWritten index read counts found =>
    exact .inr (.inr (.inr ⟨index, read, counts, rfl, found, rfl⟩))
  | _ => exact .inl ⟨nofun, rfl, fun _ => trivial⟩

theorem Took.computing (took : Took store next event) {index : Nat} {read : AgentConfigTask}
    (found : next.queries[index]? = some (.computing read)) :
    store.queries[index]? = some (.computing read) ∧ event ≠ .queried index ∨
      event = .queried index ∧ read = store.task := by
  cases took with
  | idle _ unseen =>
    refine .inl ⟨found, ?_⟩
    rcases unseen with rfl | ⟨_, rfl⟩ <;> exact nofun
  | notLocked _ _ _ _ _ unseen =>
    refine .inl ⟨found, ?_⟩
    rcases unseen with rfl | ⟨_, rfl⟩ <;> exact nofun
  | queried =>
    rcases getElem?_concat_cases found with ⟨rfl, same⟩ | before
    · cases same
      exact .inr ⟨rfl, rfl⟩
    · refine .inl ⟨before, ?_⟩
      rintro ⟨⟩
      exact Nat.lt_irrefl _ (List.getElem?_eq_some_iff.mp before).1
  | notWritten _ _ _ | statWritten _ _ _ _ =>
    rcases getElem?_set_cases found with ⟨_, impossible⟩ | ⟨_, same⟩
    · cases impossible
    · exact .inl ⟨same, nofun⟩
  | _ => exact .inl ⟨found, nofun⟩

/-- What the requests under way know of the cancels so far. -/
structure Informed (past : List Event) (store : TaskStore percents) : Prop where
  task : .cancelled ∉ past → store.task.taskStatus ≠ .cancelled
  before : ∀ index read, store.queries[index]? = some (.computing read) →
    ¬ List.Sublist [.cancelled, .queried index] past → read.taskStatus ≠ .cancelled
  after : ∀ index read, store.queries[index]? = some (.computing read) →
    List.Sublist [.cancelled, .queried index] past → read.Cancelled
  runs : ∀ index run, store.runs[index]? = some run →
    List.Sublist [.cancelled, .started index] past → ¬ run.stage.Planned
  batches : ∀ index todoList, .distributed index todoList ∈ past → index < store.runs.length

variable {past : List Event}

theorem Took.informed (took : Took store next event)
    (informed : Informed past store) (stays : StaysCancelled past store) :
    Informed (past ++ [event]) next where
  task := by
    intro notCancelled
    rw [mem_append, mem_singleton, not_or] at notCancelled
    obtain ⟨notBefore, other⟩ := notCancelled
    rcases took.task_cases with ⟨_, same, _⟩ | ⟨rfl, _⟩ | ⟨_, _, kept⟩ |
      ⟨index, read, counts, rfl, found, written⟩
    · rw [same]
      exact informed.task notBefore
    · exact absurd rfl other
    · exact kept (informed.task notBefore)
    · rw [written]
      intro isCancelled
      refine informed.before index read found ?_
        ((AgentConfigTask.statStatus_eq_cancelled_iff counts).mp isCancelled).1
      exact fun sublist => notBefore (sublist.mem mem_cons_self)
  before := by
    intro index read found notAfter
    rw [pair_sublist_concat, not_or] at notAfter
    rcases took.computing found with ⟨before, _⟩ | ⟨rfl, rfl⟩
    · exact informed.before index read before notAfter.2
    · exact informed.task (fun isCancelled => notAfter.1 ⟨rfl, isCancelled⟩)
  after := by
    intro index read found sublist
    rcases took.computing found with ⟨before, other⟩ | ⟨rfl, rfl⟩
    · rcases pair_sublist_concat.mp sublist with ⟨same, _⟩ | earlier
      · exact absurd same.symm other
      · exact informed.after index read before earlier
    · exact stays.task (mem_of_pair_sublist_concat sublist)
  runs := by
    intro index run found sublist planned
    rcases took.planned found planned with ⟨other, old, before, wasPlanned⟩ | notCancelled
    · rcases pair_sublist_concat.mp sublist with ⟨same, _⟩ | earlier
      · exact other same.symm
      · exact informed.runs index old before earlier wasPlanned
    · exact notCancelled (stays.task (mem_of_pair_sublist_concat sublist)).inner
  batches := by
    intro index todoList listed
    refine Nat.lt_of_lt_of_le ?_ took.length_runs_le
    rcases mem_append.mp listed with old | new
    · exact informed.batches index todoList old
    · cases mem_singleton.mp new
      obtain ⟨run, found, _⟩ := took.distributed_planned
      exact (List.getElem?_eq_some_iff.mp found).1

theorem Took.noLaterBatch (took : Took store next event)
    (informed : Informed past store) (stays : StaysCancelled past store) :
    NoLaterBatch (past ++ [event]) := by
  intro index todoList listed sublist
  rcases mem_append.mp listed with old | new
  · rcases pair_sublist_concat.mp sublist with ⟨rfl, _⟩ | earlier
    · cases took with
      | idle _ unseen | notLocked _ _ _ _ _ unseen =>
        rcases unseen with impossible | ⟨_, impossible⟩ <;> cases impossible
      | started request => exact lt_irrefl _ (informed.batches _ todoList old)
    · exact stays.batches index todoList old earlier
  · cases mem_singleton.mp new
    obtain ⟨run, found, planned⟩ := took.distributed_planned
    rcases pair_sublist_concat.mp sublist with ⟨impossible, _⟩ | earlier
    · cases impossible
    · exact informed.runs index run found earlier planned

theorem Took.task_cancelled_iff (took : Took store next event)
    (informed : Informed past store) (stays : StaysCancelled past store) :
    (.cancelled ∈ past ++ [event] → next.task.Cancelled) ↔ event.KeepsCancelled past := by
  have earlier : event ≠ .cancelled → (.cancelled ∈ past ++ [event] ↔ .cancelled ∈ past) := by
    intro other
    rw [mem_append, mem_singleton, or_iff_left (Ne.symm other)]
  rcases took.task_cases with ⟨other, same, keeps⟩ | ⟨rfl, isCancelled⟩ |
    ⟨⟨run, isWrite⟩, notCancelled, _⟩ | ⟨index, read, counts, rfl, found, written⟩
  · rw [earlier other, same]
    exact iff_of_true stays.task (keeps past)
  · exact iff_of_true (fun _ => isCancelled) trivial
  · have shape : event.KeepsCancelled past ↔ .cancelled ∉ past := by
      rcases isWrite with rfl | rfl <;> exact Iff.rfl
    rw [shape, earlier (by rcases isWrite with rfl | rfl <;> exact nofun)]
    exact ⟨fun kept listed => notCancelled (kept listed), fun never listed => absurd listed never⟩
  · rw [earlier nofun, written]
    -- the write leaves the inner status alone, so the status it brings along decides
    refine forall_congr' fun listed => ?_
    constructor
    · intro isCancelled
      by_contra notAfter
      exact informed.before index read found notAfter
        ((AgentConfigTask.statStatus_eq_cancelled_iff counts).mp isCancelled.status).1
    · intro after
      have readCancelled := informed.after index read found after
      refine ⟨(stays.task listed).inner, ?_⟩
      exact (AgentConfigTask.statStatus_eq_cancelled_iff counts).mpr
        ⟨readCancelled.status, fun finished => finished.1 readCancelled.inner⟩

end TaskStore

/-- After a cancel both statuses stay cancelled and no later run distributes an agent, exactly
when no run writes the task after a cancel and no query writes back what it has read before. -/
theorem stays_cancelled_iff (percents : Percents) (taskType : String)
    (cursor : List (Option Bytes)) (now : Int) (actions : List (Action percents)) :
    Always TaskStore.step StaysCancelled []
      (newTaskStore (createTask taskType cursor now)) actions ↔
      AllMeet TaskStore.step
        (OnOutput TaskStore.step (fun past _ event => event.KeepsCancelled past))
        [] (newTaskStore (createTask taskType cursor now)) actions := by
  refine always_iff_allMeet TaskStore.Informed ?_ ?_ ?_ ?_ actions
  · intro past store action next event informed stays stepped
    exact (TaskStore.took_of_step stepped).informed informed stays
  · intro past store action next event informed stays stepped
    have took := TaskStore.took_of_step stepped
    rw [← took.task_cancelled_iff informed stays]
    exact ⟨StaysCancelled.task, fun isCancelled => ⟨isCancelled, took.noLaterBatch informed stays⟩⟩
  · refine ⟨fun _ => nofun, ?_, ?_, ?_, ?_⟩
    · intro index read found
      cases found
    · intro index read found
      cases found
    · intro index run found
      cases found
    · intro index todoList listed
      cases listed
  · refine ⟨?_, ?_⟩
    · intro listed
      cases listed
    · intro run todoList listed
      cases listed

def lateUpdate : List (Action hundredths) :=
  [.start (.byNum 1 1), .lock 0 false, .read 0 false, .cancel 5 false, .newJob 0 (some [0x6A]),
    .distribute 0, .update 0 6 false, .unlock 0 false,
    .start (.byNum 1 1), .lock 1 false, .read 1 false, .newJob 1 (some [0x6B]), .distribute 1]

theorem lateUpdate_not_cancelled : ∃ last events, run TaskStore.step
        (newTaskStore (createTask "Agent_Config" [some [0x61], some [0x62]] 0)) lateUpdate =
          some (last, events) ∧
      last.task.innerStatus = .created ∧ last.task.taskStatus = .running ∧
      List.Sublist [.cancelled, .started 1, .distributed 1 [[0x62]]] events := by
  refine ⟨_, _, rfl, rfl, rfl, ?_⟩
  decide

end Elkeid.Manager
