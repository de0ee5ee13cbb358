import Elkeid.Manager.Rolling

/-!
# Two ways to run a task

`ControlAgentTask` and `ControlAgentTaskByNum` on one stored task, while no other request comes.
-/

namespace Elkeid.Manager

open Foundations Machine

variable {percents : Percents}

/-- A request from its lock to the update of the task. -/
def wholeRun (request : RunRequest percents) (jID : Bytes) (now : Int) : List (Action percents) :=
  [.start request, .lock 0 false, .read 0 false, .newJob 0 (some jID), .distribute 0,
    .unlock 0 false,
    .update 0 now false]

/-- The batches that a request distributes, and the task that it leaves. -/
def RunRequest.outcome (request : RunRequest percents) (task : AgentConfigTask) (jID : Bytes)
    (now : Int) : Option (List (List Bytes) × AgentConfigTask) :=
  (run TaskStore.step (newTaskStore task) (wholeRun request jID now)).map fun (store, events) =>
    (batches events, store.task)

def AgentConfigTask.FinishedWhenEmpty (task : AgentConfigTask) : Prop :=
  task.innerStatus = .finished ↔ task.todoList = []

structure Agree (first second : List (List Bytes) × AgentConfigTask) : Prop where
  batches : first.1 = second.1
  todoList : first.2.todoList = second.2.todoList
  distributedCount : first.2.distributedCount = second.2.distributedCount
  taskStatus : first.2.taskStatus = second.2.taskStatus
  innerStatus : first.2.innerStatus = second.2.innerStatus
  finished : first.2.FinishedWhenEmpty ∧ second.2.FinishedWhenEmpty

variable {task : AgentConfigTask} {m : Nat}

theorem RunRequest.outcome_eq {request : RunRequest percents} (valid : request.invalid = none)
    (active : task.innerStatus ≠ .cancelled ∧ task.innerStatus ≠ .finished)
    (todo : task.todoList ≠ []) (jID : Bytes) (now : Int) :
    request.outcome task jID now = some ([(request.plan task).todoList], task.setRun
      { (request.plan task).dbTask with jobList := (request.plan task).dbTask.jobList ++ [jID] }
        now) := by
  simp [outcome, wholeRun, run, TaskStore.step, newTaskStore, valid, TaskStore.onRun,
    TaskStore.advance,
    TaskStore.setStage, TaskStore.afterRead, active, todo]
  rfl

theorem take_eq {nCount : Nat} {few all : AgentConfigTask} (sameFew : few.todoList = task.todoList)
    (sameAll : all.todoList = task.todoList)
    (size : (if nCount < task.todoList.length then few.take nCount
      else all.take task.todoList.length).todoList.length = m) :
    (if nCount < task.todoList.length then few.take nCount else all.take task.todoList.length) =
      (if m < task.todoList.length then few else all).take m := by
  by_cases h : nCount < task.todoList.length
  · simp only [if_pos h, AgentConfigTask.take, List.length_take, sameFew] at size
    obtain rfl : nCount = m := by omega
    simp [if_pos h]
  · simp only [if_neg h, AgentConfigTask.take, List.length_take, sameAll] at size
    obtain rfl : task.todoList.length = m := by omega
    simp [if_neg h]

/-- The handlers agree exactly on a task that is running already and is not emptied:
`ControlAgentTaskByNum` never changes `inner_status`. -/
theorem two_ways_agree_iff {rollingPercent : percents.Percent}
    {runNumber concurrence concurrence' : Int}
    (valid : (RunRequest.byPercent rollingPercent concurrence).invalid = none)
    (valid' : (RunRequest.byNum runNumber concurrence' : RunRequest percents).invalid = none)
    (active : task.innerStatus ≠ .cancelled ∧ task.innerStatus ≠ .finished) (positive : 1 ≤ m)
    (size : (planByPercent rollingPercent task).todoList.length = m)
    (size' : (planByNum runNumber task).todoList.length = m) (jID jID' : Bytes) (now now' : Int) :
    ∃ first second, (RunRequest.byPercent rollingPercent concurrence).outcome task jID now =
      some first ∧
      (RunRequest.byNum runNumber concurrence' : RunRequest percents).outcome task jID' now' =
        some second ∧
      (Agree first second ↔ task.innerStatus = .running ∧ m < task.todoList.length) := by
  have plan : planByPercent rollingPercent task = _ := take_eq rfl rfl size
  have plan' : planByNum runNumber task = _ := take_eq rfl rfl size'
  have todo : task.todoList ≠ [] := by
    intro empty
    simp [planByNum, AgentConfigTask.take, empty] at size'
    omega
  refine ⟨_, _, RunRequest.outcome_eq valid active todo jID now,
    RunRequest.outcome_eq valid' active todo jID' now', ?_⟩
  simp only [RunRequest.plan, plan, plan']
  constructor
  · rintro ⟨_, _, _, _, inner, _⟩
    simp only [AgentConfigTask.setRun, AgentConfigTask.take] at inner
    split at inner
    next inside => exact ⟨inner.symm, inside⟩
    next => exact absurd inner.symm active.2
  · rintro ⟨running, inside⟩
    simp only [if_pos inside]
    have left : task.todoList.drop m ≠ [] := by simpa using inside
    refine ⟨rfl, rfl, rfl, rfl, running.symm, ?_, ?_⟩ <;>
      simp [AgentConfigTask.FinishedWhenEmpty, AgentConfigTask.setRun, AgentConfigTask.take,
        running, left]

def startedTask (innerStatus : TaskStatus) : AgentConfigTask :=
  { createTask "Agent_Config" [some [0x61], some [0x62]] 0 with innerStatus }

theorem two_ways_agree_running :
    ∃ first second, (.byPercent (50 : Nat) 1 : RunRequest hundredths).outcome
        (startedTask .running) [1] 0 =
        some first ∧
      (.byNum 1 1 : RunRequest hundredths).outcome (startedTask .running) [1] 0 = some second ∧
      Agree first second := by
  obtain ⟨first, second, h, h', agree⟩ :=
    @two_ways_agree_iff hundredths (startedTask .running) 1 (50 : Nat)
    1 1 1 rfl rfl (by decide) (by decide) rfl rfl [1] [1] 0 0
  exact ⟨first, second, h, h', agree.mpr (by decide)⟩

/-- The only batch of a new task: with `ControlAgentTaskByNum` the task is not finished. -/
theorem last_batch_disagrees :
    ((.byPercent (100 : Nat) 1 : RunRequest hundredths).outcome (startedTask .created) [1] 0).map
        (fun result => (result.2.todoList, result.2.innerStatus)) = some ([], .finished) ∧
      ((.byNum 2 1 : RunRequest hundredths).outcome (startedTask .created) [1] 0).map
        (fun result => (result.2.todoList, result.2.innerStatus)) = some ([], .created) := by
  decide

end Elkeid.Manager
