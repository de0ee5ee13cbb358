import Elkeid.Foundations.Machine

/-!
# Automatic attach

The inspect and operation threads of `internal_main` in `rasp/plugin/src/monitor.rs`. The inspect
thread sends the attach message of a process and then records the process; the operation thread
takes messages and looks their pids up. The agent and the cleaner send into the same channel.
Processes come and go, and a pid can be used again.
-/

namespace Elkeid.Rasp.Attach

open Foundations Machine List Option Function

inductive TracingState where
  | inspected
  | attached

/-- `ProcessInfo` of one of the processes that had the pid. -/
structure Tracked where
  pid : Int
  process : Nat
  tracingState : TracingState

inductive State where
  | waitAttach
  | missing
  | other (text : String)

/-- `RASPCommand`, with the pid that `get_pid_i32` gives. -/
structure Command where
  pid : Option Int
  state : State
  /-- the process that the inspect thread has sent it for -/
  inspected : Option Nat

structure Settings where
  autoAttachRuntime : List String
  externalMessageCapability : Nat

structure Monitor where
  alive : Int → Option Nat
  fresh : Nat
  tracing : Int → Option Tracked
  commands : List Command
  /-- the process that the inspect thread has still to record -/
  inspecting : Option Tracked
  operating : Option (Command × Tracked)

inductive Action where
  | spawn (pid : Int)
  | exit (pid : Int)
  /-- the inspect thread finds a process with its runtime and goes on to the lock -/
  | inspect (pid : Int) (runtime : String)
  | record
  /-- a message of the agent or of the cleaner -/
  | command (pid : Option Int) (state : State)
  | receive
  /-- `op` has returned -/
  | update (succeeded : Bool)

inductive Event where
  | sent (command : Command)
  /-- a message is taken, with the record found and the process that has the pid -/
  | taken (command : Command) (found : Option Tracked) (alive : Option Nat)
  | other

def Event.sent? : Event → Option Command
  | .sent command => some command
  | _ => none

def Event.taken? : Event → Option Command
  | .taken command _ _ => some command
  | _ => none

/-- A message that is taken has found the record of its process. -/
def Event.Found : Event → Prop
  | .taken command found alive => ∀ process, command.inspected = some process →
      alive = some process → found.map Tracked.process = some process
  | _ => True

namespace Monitor

def start : Monitor := ⟨fun _ => none, 0, fun _ => none, [], none, none⟩

/-- `send` waits while the channel is full. -/
def inspect (settings : Settings) (monitor : Monitor) (pid : Int) (runtime : String) :
    Option (Monitor × Event) :=
  match monitor.inspecting, monitor.alive pid with
  | none, some process =>
    let command := ⟨some pid, .waitAttach, some process⟩
    let monitor := { monitor with inspecting := some ⟨pid, process, .inspected⟩ }
    if settings.autoAttachRuntime.contains runtime then
      if monitor.commands.length < settings.externalMessageCapability then
        some ({ monitor with commands := monitor.commands ++ [command] }, .sent command)
      else none
    else some (monitor, .other)
  | _, _ => none

/-- What the operation thread writes under the pid after a success. -/
def written (command : Command) (tracked : Tracked) : Option (Option Tracked) :=
  match command.state with
  | .waitAttach => some (some { tracked with tracingState := .attached })
  | .missing => some none
  | .other _ => none

def step (settings : Settings) (monitor : Monitor) : Action → Option (Monitor × Event)
  | .spawn pid =>
    if monitor.alive pid = none then
      some ({ monitor with
        alive := update monitor.alive pid (some monitor.fresh)
        fresh := monitor.fresh + 1 }, .other)
    else none
  | .exit pid => some ({ monitor with alive := update monitor.alive pid none }, .other)
  | .inspect pid runtime => monitor.inspect settings pid runtime
  | .record =>
    match monitor.inspecting with
    | none => none
    | some tracked => some ({ monitor with
        tracing := update monitor.tracing tracked.pid (some tracked)
        inspecting := none }, .other)
  | .command pid state =>
    if monitor.commands.length < settings.externalMessageCapability then
      some ({ monitor with commands := monitor.commands ++ [⟨pid, state, none⟩] },
        .sent ⟨pid, state, none⟩)
    else some (monitor, .other)
  | .receive =>
    match monitor.operating, monitor.commands with
    | none, command :: rest =>
      let found := command.pid.bind monitor.tracing
      some ({ monitor with commands := rest, operating := found.map (command, ·) },
        .taken command found (command.pid.bind monitor.alive))
    | _, _ => none
  | .update succeeded =>
    match monitor.operating with
    | none => none
    | some (command, tracked) =>
      match succeeded, written command tracked with
      | true, some new => some ({ monitor with
          tracing := update monitor.tracing tracked.pid new
          operating := none }, .other)
      | _, _ => some ({ monitor with operating := none }, .other)

def Waits (commands : List Command) (pid : Int) (process : Nat) : Prop :=
  ∃ command ∈ commands, command.pid = some pid ∧ command.inspected = some process

/-- The operation thread takes an attach message only after its process is recorded, and an update
leaves this record in place while the message waits. -/
def Timely (monitor : Monitor) : Action → Prop
  | .receive => ∀ command ∈ monitor.commands.head?, ∀ tracked ∈ monitor.inspecting,
      command.inspected ≠ some tracked.process
  | .update true => ∀ command tracked new, monitor.operating = some (command, tracked) →
      written command tracked = some new → ∀ process, Waits monitor.commands tracked.pid process →
        (∀ inspecting ∈ monitor.inspecting, inspecting.pid ≠ tracked.pid) →
          new.map Tracked.process = some process
  | _ => True

/-- The process is being recorded under the pid, or it is recorded and no other will be. -/
def Settled (monitor : Monitor) (inspecting : Option Tracked) (pid : Int) (process : Nat) : Prop :=
  (∃ tracked ∈ inspecting, tracked.pid = pid ∧ tracked.process = process) ∨
    (∀ tracked ∈ inspecting, tracked.pid ≠ pid) ∧
      (monitor.tracing pid).map Tracked.process = some process

/-- The living processes of the attach messages that wait are settled. -/
structure Recorded (monitor : Monitor) : Prop where
  old : ∀ pid process, monitor.alive pid = some process → process < monitor.fresh
  waiting : ∀ pid process, Waits monitor.commands pid process → process < monitor.fresh
  found : ∀ pid process, Waits monitor.commands pid process → monitor.alive pid = some process →
    monitor.Settled monitor.inspecting pid process

variable {settings : Settings} {monitor next : Monitor} {action : Action} {event : Event}

@[simp]
theorem waits_concat {commands : List Command} {command : Command} {pid : Int} {process : Nat} :
    Waits (commands ++ [command]) pid process ↔ Waits commands pid process ∨
      command.pid = some pid ∧ command.inspected = some process := by
  simp [Waits, or_and_right, exists_or]

theorem Recorded.step (recorded : monitor.Recorded) (timely : monitor.Timely action)
    (taken : monitor.step settings action = some (next, event)) :
    next.Recorded ∧ event.Found := by
  obtain ⟨old, waiting, found⟩ := recorded
  cases action with
  | spawn pid =>
    obtain ⟨_, ⟨⟩⟩ := ite_none_right_eq_some.mp taken
    refine ⟨⟨?_, ?_, ?_⟩, trivial⟩
    · intro other process isAlive
      simp only [update_apply] at isAlive
      split at isAlive
      next =>
        cases isAlive
        exact Nat.lt_succ_self _
      next => exact Nat.lt_succ_of_lt (old other process isAlive)
    · exact fun other process waits => Nat.lt_succ_of_lt (waiting other process waits)
    · intro other process waits isAlive
      simp only [update_apply] at isAlive
      split at isAlive
      next =>
        -- the messages that wait are for older processes
        cases isAlive
        exact absurd (waiting other _ waits) (lt_irrefl _)
      next => exact found other process waits isAlive
  | exit pid =>
    cases taken
    have same {other : Int} {process : Nat}
        (isAlive : update monitor.alive pid none other = some process) :
        monitor.alive other = some process := by
      simp only [update_apply] at isAlive
      split at isAlive
      next => cases isAlive
      next => exact isAlive
    exact ⟨⟨fun other process isAlive => old other process (same isAlive), waiting,
      fun other process waits isAlive => found other process waits (same isAlive)⟩, trivial⟩
  | inspect pid runtime =>
    simp only [Monitor.step, inspect] at taken
    split at taken
    next process notInspecting isAlive =>
      -- no other process of the pid is alive
      have stays {other : Int} {p : Nat} (waits : Waits monitor.commands other p)
          (isOther : monitor.alive other = some p) :
          monitor.Settled (some ⟨pid, process, .inspected⟩) other p := by
        by_cases here : pid = other
        · subst here
          exact .inl ⟨_, rfl, rfl, some.inj (isAlive.symm.trans isOther)⟩
        · refine .inr ⟨by rintro _ ⟨⟩; exact here, ?_⟩
          rcases found other p waits isOther with ⟨_, listed, _⟩ | ⟨_, traced⟩
          · cases notInspecting.symm.trans listed
          · exact traced
      split at taken
      next =>
        split at taken <;> cases taken
        next =>
          refine ⟨⟨old, ?_, ?_⟩, trivial⟩
          · intro other p waits
            rcases waits_concat.mp waits with early | ⟨_, ⟨⟩⟩
            · exact waiting other p early
            · exact old pid process isAlive
          · intro other p waits isOther
            rcases waits_concat.mp waits with early | ⟨⟨⟩, ⟨⟩⟩
            · exact stays early isOther
            · exact .inl ⟨_, rfl, rfl, rfl⟩
      next =>
        cases taken
        exact ⟨⟨old, waiting, fun _ _ => stays⟩, trivial⟩
    next => cases taken
  | record =>
    simp only [Monitor.step] at taken
    split at taken <;> cases taken
    next tracked isInspecting =>
      refine ⟨⟨old, waiting, fun other process waits isAlive => .inr ⟨nofun, ?_⟩⟩, trivial⟩
      rcases found other process waits isAlive with ⟨_, listed, rfl, rfl⟩ | ⟨elsewhere, traced⟩
      · cases isInspecting.symm.trans listed
        simp
      · simpa only [update_of_ne (elsewhere tracked isInspecting).symm] using traced
  | command pid state =>
    simp only [Monitor.step] at taken
    split at taken <;> cases taken
    next =>
      have before {other : Int} {process : Nat} :
          Waits (monitor.commands ++ [⟨pid, state, none⟩]) other process →
            Waits monitor.commands other process := by
        intro waits
        rcases waits_concat.mp waits with early | ⟨_, ⟨⟩⟩
        exact early
      exact ⟨⟨old, fun other process waits => waiting other process (before waits),
        fun other process waits => found other process (before waits)⟩, trivial⟩
    next => exact ⟨⟨old, waiting, found⟩, trivial⟩
  | receive =>
    simp only [Monitor.step] at taken
    split at taken <;> cases taken
    next command rest _ isFirst =>
      rw [isFirst] at waiting found
      have before {other : Int} {process : Nat} :
          Waits rest other process → Waits (command :: rest) other process := by
        rintro ⟨later, listed, isLater⟩
        exact ⟨later, mem_cons_of_mem _ listed, isLater⟩
      refine ⟨⟨old, fun other process waits => waiting other process (before waits),
        fun other process waits => found other process (before waits)⟩, ?_⟩
      intro process isInspected isAlive
      obtain ⟨pid, isPid, isAlive⟩ := bind_eq_some_iff.mp isAlive
      rw [isPid, bind_some]
      rcases found pid process ⟨command, mem_cons_self, isPid, isInspected⟩ isAlive with
        ⟨tracked, isInspecting, _, rfl⟩ | ⟨_, traced⟩
      · exact absurd isInspected (timely command (by rw [isFirst]; rfl) tracked isInspecting)
      · exact traced
  | update succeeded =>
    simp only [Monitor.step] at taken
    split at taken
    next => cases taken
    next command tracked isOperating =>
      split at taken <;> cases taken
      next new isWritten =>
        refine ⟨⟨old, waiting, fun other process waits isAlive => ?_⟩, trivial⟩
        rcases found other process waits isAlive with isInspecting | ⟨elsewhere, traced⟩
        · exact .inl isInspecting
        · refine .inr ⟨elsewhere, ?_⟩
          simp only [update_apply]
          split
          next here =>
            subst here
            exact timely command tracked new isOperating isWritten process waits elsewhere
          next => exact traced
      next => exact ⟨⟨old, waiting, found⟩, trivial⟩

theorem commands_of_step (taken : monitor.step settings action = some (next, event)) :
    monitor.commands ++ event.sent?.toList = event.taken?.toList ++ next.commands := by
  cases action <;> simp only [step, inspect] at taken
  all_goals repeat' split at taken
  all_goals cases taken
  all_goals simp_all [Event.sent?, Event.taken?]

/-- In a run whose steps are timely every attach message that was taken has found the record of its
process if that process was alive, and no message is lost in the channel. -/
theorem attach_found {actions : List Action} {last : Monitor} {events : List Event}
    (ran : run (step settings) start actions = some (last, events))
    (timely : AllMeet (step settings) (fun _ => Timely) [] start actions) :
    (∀ event ∈ events, event.Found) ∧
      events.filterMap Event.sent? = events.filterMap Event.taken? ++ last.commands := by
  have kept := @AllMeet.invariant _ _ _ _ _ _ _ _ _ (fun past monitor => monitor.Recorded ∧
    (∀ event ∈ past, event.Found) ∧
      past.filterMap Event.sent? = past.filterMap Event.taken? ++ monitor.commands) _ ?_ timely
    ran ⟨⟨nofun, nofun, nofun⟩, nofun, rfl⟩
  · exact kept.2
  · rintro past monitor action next event ⟨recorded, found, line⟩ isTimely taken
    obtain ⟨recordedNext, foundNext⟩ := recorded.step isTimely taken
    refine ⟨recordedNext, ?_, ?_⟩
    · intro seen listed
      rcases mem_append.mp listed with early | now
      · exact found seen early
      · exact mem_singleton.mp now ▸ foundNext
    · rw [filterMap_concat, filterMap_concat, line, append_assoc, append_assoc]
      exact congrArg _ (commands_of_step taken)

theorem attach_found_recorded : ∃ last events, run (step ⟨["CPython"], 5⟩) start
    [.spawn 1, .inspect 1 "CPython", .record, .receive] = some (last, events) ∧
      (∀ event ∈ events, event.Found) ∧ last.operating.isSome = true := by
  have ran : run (step ⟨["CPython"], 5⟩) start
    [.spawn 1, .inspect 1 "CPython", .record, .receive] = some (_, _) := rfl
  exact ⟨_, _, ran, (attach_found ran ⟨trivial, trivial, trivial, nofun, trivial⟩).1, rfl⟩

theorem attach_dropped : ∃ last,
    run (step ⟨["CPython"], 5⟩) start [.spawn 1, .inspect 1 "CPython", .receive] =
      some (last, [.other, .sent ⟨some 1, .waitAttach, some 0⟩,
        .taken ⟨some 1, .waitAttach, some 0⟩ none (some 0)]) :=
  ⟨_, rfl⟩

end Monitor

end Elkeid.Rasp.Attach
