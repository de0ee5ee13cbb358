import Elkeid.Agent.Daemon

/-!
# From the server to the plugin daemon

`handleReceive` of `agent/transport/transfer.go` hands every configuration set to
`Sync`, which puts it into a channel with one place unless that place is taken. The
daemon takes a set from there whenever it is idle. The sets that `Sync` accepts are
applied in their order; a set that comes while an earlier one waits is refused.
-/

namespace Elkeid.Agent

open Foundations Machine List Option

structure Task where
  objectName : Bytes
  dataType : Int

structure Command where
  task : Option Task
  configs : List Config

structure Transport where
  /-- `syncCh` -/
  slot : Option ConfigSet
  daemon : Daemon
  /-- the context is done -/
  cancelled : Bool

namespace Transport

inductive Action where
  /-- a command arrives; `updates` says whether an update of the agent would succeed -/
  | receive (command : Command) (updates : Bool)
  /-- the daemon takes the set that waits, which it will range over in the given order -/
  | take (order : List Config)
  /-- any other step of the daemon or of a process -/
  | daemon (action : Daemon.Action)

inductive Event where
  | silent
  | accepted (cfgs : ConfigSet)
  /-- "plugins are syncing or context has been cancled" -/
  | refused (cfgs : ConfigSet)
  /-- the agent has updated itself and will exit -/
  | updated (cfgs : ConfigSet)
  | applied (cfgs : ConfigSet)

def start (disk : Disk) : Transport := ⟨none, Daemon.start disk, false⟩

def sync (transport : Transport) (cfgs : ConfigSet) : Transport × Event :=
  match transport.slot with
  | none => ({ transport with slot := some cfgs }, .accepted cfgs)
  | some _ => (transport, .refused cfgs)

section Setting

variable (setting : Setting) (agentVersion : Bytes)

/-- One turn of the loop of `handleReceive`; the tasks that do not end the agent have no
part in the configuration. -/
def handleReceive (transport : Transport) (command : Command) (updates : Bool) :
    Transport × Event :=
  match command.task with
  | some task =>
    if task.objectName = setting.product ∧ task.dataType = 1060 then
      ({ transport with cancelled := true }, .silent)
    else (transport, .silent)
  | none =>
    let cfgs := command.configs.foldl ConfigSet.insert .empty
    match cfgs.configs.lookup setting.product with
    | none => transport.sync (cfgs.delete setting.product)
    | some cfg =>
      if cfg.version ≠ agentVersion ∧ updates then
        ({ transport with cancelled := true }, .updated (cfgs.delete setting.product))
      else transport.sync (cfgs.delete setting.product)

/-- Sets come from the channel only, and the daemon stops only when the context is done. -/
def allows (transport : Transport) : Daemon.Action → Bool
  | .sync _ _ => false
  | .cancel => transport.cancelled
  | _ => true

def step (transport : Transport) : Action → Option (Transport × Event)
  | .receive command updates => some (transport.handleReceive setting agentVersion command updates)
  | .take order =>
    match transport.slot with
    | none => none
    | some cfgs => do
        let (daemon, _) ← transport.daemon.step setting (.sync cfgs order)
        return ({ transport with slot := none, daemon }, .silent)
  | .daemon action =>
    if transport.allows action then do
      match ← transport.daemon.step setting action with
      | (daemon, .finished cfgs _) => return ({ transport with daemon }, .applied cfgs)
      | (daemon, .silent) => return ({ transport with daemon }, .silent)
    else none

end Setting

namespace Event

def asReceived : Event → Option ConfigSet
  | accepted cfgs => some cfgs
  | refused cfgs => some cfgs
  | updated cfgs => some cfgs
  | _ => none

def asAccepted : Event → Option ConfigSet
  | accepted cfgs => some cfgs
  | _ => none

def asApplied : Event → Option ConfigSet
  | applied cfgs => some cfgs
  | _ => none

end Event

def received (events : List Event) : List ConfigSet := events.filterMap Event.asReceived

def accepted (events : List Event) : List ConfigSet := events.filterMap Event.asAccepted

def applied (events : List Event) : List ConfigSet := events.filterMap Event.asApplied

end Transport

def Phase.current : Phase → Option ConfigSet
  | .loading cfgs _ _ => some cfgs
  | .stopping cfgs _ _ _ => some cfgs
  | .launching cfgs _ _ _ => some cfgs
  | .removing cfgs _ _ => some cfgs
  | _ => none

/-- What an event of the daemon says about the set it works on. -/
def Daemon.Event.Moves : Daemon.Event → Option ConfigSet → Option ConfigSet → Prop
  | .silent, before, after => after = before
  | .finished cfgs _, before, after => before = some cfgs ∧ after = none

namespace Daemon

variable {setting : Setting} {daemon next : Daemon} {event : Event}

theorem Advanced.moves (advanced : Advanced setting daemon next event) :
    event.Moves daemon.phase.current next.phase.current := by
  cases advanced with
  | finished cfgs good phase => exact ⟨congrArg Phase.current phase, rfl⟩
  | skipped _ _ _ _ phase _ | waits _ _ _ _ phase _ | proceeds _ _ _ _ phase _ _
  | waited _ _ _ _ phase _ | started _ _ _ _ _ phase | failed _ _ _ _ _ phase
  | kept _ _ _ _ phase _ | deleted _ _ _ _ _ phase _ _ | closed phase _ =>
    exact (congrArg Phase.current phase).symm

theorem step_moves {action : Action} (notSync : ∀ cfgs order, action ≠ .sync cfgs order)
    (taken : daemon.step setting action = some (next, event)) :
    event.Moves daemon.phase.current next.phase.current := by
  cases action with
  | exit | reap =>
    obtain ⟨changed, isChanged, ⟨⟩⟩ := map_eq_some_iff.mp taken
    exact congrArg Phase.current (aged_of_change (by decide) isChanged).phase
  | sync cfgs order => exact absurd rfl (notSync cfgs order)
  | advance calls => exact (advanced_of_advance taken).moves
  | getAll order =>
    simp only [step] at taken
    split at taken
    next phase =>
      split at taken <;> cases taken
      exact (congrArg Phase.current phase).symm
    next => cases taken
  | cancel =>
    simp only [step] at taken
    split at taken <;> cases taken
    next phase => exact (congrArg Phase.current phase).symm

theorem sync_moves {cfgs : ConfigSet} {order : List Config}
    (taken : daemon.step setting (.sync cfgs order) = some (next, event)) :
    daemon.phase.current = none ∧ next.phase.current = some cfgs := by
  simp only [step] at taken
  split at taken
  next phase =>
    split at taken <;> cases taken
    exact ⟨congrArg Phase.current phase, rfl⟩
  next => cases taken

end Daemon

namespace Transport

variable {setting : Setting} {agentVersion : Bytes} {transport next : Transport}

/-- The accepted sets are those that were applied, the one that the daemon works on and
the one that waits, in this order. -/
def InOrder (events : List Event) (transport : Transport) : Prop :=
  accepted events = applied events ++ transport.daemon.phase.current.toList ++ transport.slot.toList

@[simp]
theorem accepted_concat (events : List Event) (event : Event) :
    accepted (events ++ [event]) = accepted events ++ event.asAccepted.toList :=
  filterMap_concat _ _ _

@[simp]
theorem applied_concat (events : List Event) (event : Event) :
    applied (events ++ [event]) = applied events ++ event.asApplied.toList :=
  filterMap_concat _ _ _

variable {events : List Event} {event : Event}

section

variable (inOrder : InOrder events transport)
include inOrder

theorem InOrder.silent (slot : next.slot = transport.slot)
    (current : next.daemon.phase.current = transport.daemon.phase.current) :
    InOrder (events ++ [.silent]) next := by
  rw [InOrder] at inOrder
  rw [InOrder, accepted_concat, applied_concat, slot, current]
  simpa only [Event.asAccepted, Event.asApplied, toList_none, append_nil] using inOrder

theorem InOrder.sync (cfgs : ConfigSet) :
    InOrder (events ++ [(transport.sync cfgs).2]) (transport.sync cfgs).1 := by
  rw [InOrder] at inOrder
  cases slot : transport.slot with
  | none | some =>
    simp [Transport.sync, slot, InOrder, inOrder, Event.asAccepted, Event.asApplied]

theorem InOrder.receive (command : Command) (updates : Bool) :
    InOrder (events ++ [(transport.handleReceive setting agentVersion command updates).2])
      (transport.handleReceive setting agentVersion command updates).1 := by
  rw [handleReceive]
  split
  next =>
    split
    all_goals exact inOrder.silent rfl rfl
  next =>
    simp only
    split
    next => exact inOrder.sync _
    next =>
      split
      next =>
        rw [InOrder] at inOrder
        rw [InOrder, accepted_concat, applied_concat]
        simpa only [Event.asAccepted, Event.asApplied, toList_none, append_nil] using inOrder
      next => exact inOrder.sync _

theorem InOrder.take {order : List Config}
    (taken : transport.step setting agentVersion (.take order) = some (next, event)) :
    InOrder (events ++ [event]) next := by
  rw [InOrder] at inOrder
  simp only [step] at taken
  split at taken
  next => cases taken
  next cfgs slot =>
    obtain ⟨⟨daemon, _⟩, began, ⟨⟩⟩ := bind_eq_some_iff.mp taken
    obtain ⟨before, after⟩ := Daemon.sync_moves began
    simp only [before, slot, toList_none, toList_some, append_nil] at inOrder
    simp [InOrder, inOrder, after, Event.asAccepted, Event.asApplied]

theorem InOrder.daemon {action : Daemon.Action}
    (taken : transport.step setting agentVersion (.daemon action) = some (next, event)) :
    InOrder (events ++ [event]) next := by
  simp only [step] at taken
  split at taken
  next allowed =>
    have notSync : ∀ cfgs order, action ≠ .sync cfgs order := by
      rintro cfgs order rfl
      cases allowed
    obtain ⟨⟨daemon, moved⟩, isMoved, result⟩ := bind_eq_some_iff.mp taken
    have moves := Daemon.step_moves notSync isMoved
    cases moved with
    | silent =>
      cases result
      exact inOrder.silent rfl moves
    | finished cfgs good =>
      cases result
      obtain ⟨before, after⟩ := moves
      rw [InOrder, before] at inOrder
      simp [InOrder, inOrder, after, Event.asAccepted, Event.asApplied]
  next => cases taken

theorem InOrder.step {action : Action}
    (taken : transport.step setting agentVersion action = some (next, event)) :
    InOrder (events ++ [event]) next := by
  cases action with
  | receive command updates =>
    obtain ⟨rfl, rfl⟩ := Prod.mk.inj (some.inj taken)
    exact inOrder.receive command updates
  | take order => exact inOrder.take taken
  | daemon action => exact inOrder.daemon taken

end

theorem run_inOrder {disk : Disk} {actions : List Action} {last : Transport}
    (ran : run (step setting agentVersion) (start disk) actions = some (last, events)) :
    InOrder events last :=
  run_invariant (fun _ _ _ _ _ inOrder taken => InOrder.step inOrder taken) ran rfl

theorem refused_of_full {command : Command} {updates : Bool} {cfgs : ConfigSet}
    (refused : transport.handleReceive setting agentVersion command updates =
      (next, .refused cfgs)) :
    transport.slot.isSome := by
  have full {other : ConfigSet} (isSync : transport.sync other = (next, .refused cfgs)) :
      transport.slot.isSome := by
    rw [sync] at isSync
    cases slot : transport.slot with
    | none =>
      rw [slot] at isSync
      cases isSync
    | some waiting => rfl
  rw [handleReceive] at refused
  split at refused
  next =>
    split at refused <;> cases refused
  next =>
    simp only at refused
    split at refused
    next => exact full refused
    next =>
      split at refused
      next => cases refused
      next => exact full refused

/-- The sets that `Sync` accepts are applied in their order. Once none of them waits and
the daemon is idle, all of them have been applied, the last one last. A set is refused
only while an accepted one waits. -/
theorem accepted_applied {disk : Disk} {actions : List Action} {last : Transport}
    {events : List Event}
    (ran : run (step setting agentVersion) (start disk) actions = some (last, events)) :
    accepted events = applied events ++ last.daemon.phase.current.toList ++ last.slot.toList ∧
      (last.slot = none → last.daemon.phase = .idle →
        (applied events).getLast? = (accepted events).getLast?) ∧
      ∀ command updates next cfgs,
        last.handleReceive setting agentVersion command updates = (next, .refused cfgs) →
          ∃ waiting, last.slot = some waiting ∧ waiting ∈ accepted events := by
  have inOrder := run_inOrder ran
  refine ⟨inOrder, ?_, ?_⟩
  · intro empty idle
    rw [inOrder, empty, idle]
    simp [Phase.current]
  · intro command updates next cfgs refused
    obtain ⟨waiting, slot⟩ := isSome_iff_exists.mp (refused_of_full refused)
    refine ⟨waiting, slot, ?_⟩
    rw [inOrder, slot]
    exact mem_concat_self

theorem handleReceive_daemon (command : Command) (updates : Bool) :
    (transport.handleReceive setting agentVersion command updates).1.daemon = transport.daemon := by
  have unchanged (cfgs : ConfigSet) : (transport.sync cfgs).1.daemon = transport.daemon := by
    rw [sync]
    split <;> rfl
  rw [handleReceive]
  split
  next => split <;> rfl
  next =>
    simp only
    split
    next => exact unchanged _
    next =>
      split
      next => rfl
      next => exact unchanged _

/-- Plugins stay supervised. Once all have exited, which a shutdown awaits, no process is left. -/
theorem transport_supervised {disk : Disk} {actions : List Action} {last : Transport}
    (ran : run (step setting agentVersion) (start disk) actions = some (last, events)) :
    last.daemon.Supervised setting ∧ (last.daemon.allExited → ∀ process found,
      last.daemon.processes process = some found → found.status = .reaped) := by
  have preserved : ∀ (past : List Event) (transport : Transport) (action : Action)
      (next : Transport) (event : Event), transport.daemon.Supervised setting →
        transport.step setting agentVersion action = some (next, event) →
          next.daemon.Supervised setting := by
    intro past transport action next event supervised taken
    cases action with
    | receive command updates =>
      have isNext := congrArg (fun result => result.1.daemon) (some.inj taken)
      rw [← isNext]
      exact (handleReceive_daemon command updates).symm ▸ supervised
    | take order =>
      simp only [step] at taken
      split at taken
      next => cases taken
      next =>
        obtain ⟨⟨daemon, _⟩, began, ⟨⟩⟩ := bind_eq_some_iff.mp taken
        exact (supervised.step began).1
    | daemon action =>
      simp only [step] at taken
      split at taken
      next =>
        obtain ⟨⟨daemon, moved⟩, isMoved, result⟩ := bind_eq_some_iff.mp taken
        have isNext : next.daemon = daemon := by
          cases moved <;> cases result <;> rfl
        exact isNext ▸ (supervised.step isMoved).1
      next => cases taken
  have supervised := run_invariant preserved ran (.start setting disk)
  refine ⟨supervised, fun exited process found isProcess => ?_⟩
  by_contra alive
  obtain ⟨plugin, stored, isPlugin⟩ := supervised.kept process found isProcess alive
  apply Daemon.not_exited isPlugin isProcess alive
  exact all_eq_true.mp exited _ (AList.mem_lookup_iff.mp stored)

def configure (version : Bytes) : Action := .receive ⟨none, [Daemon.xConfig version]⟩ false

def xSet (version : Bytes) : ConfigSet :=
  (ConfigSet.empty.insert (Daemon.xConfig version)).delete Daemon.plainSetting.product

def load (version : Bytes) (process : Nat) : List Action :=
  [.daemon (.advance allSucceed), .daemon (.advance allSucceed),
    .daemon (.getAll [⟨(Daemon.xConfig version).withSignature, process⟩]),
    .daemon (.advance allSucceed), .daemon (.advance allSucceed)]

theorem accepted_applied_once : ∃ last events, run (step Daemon.plainSetting []) (start oldFile)
        (configure [0x31] :: .take [Daemon.xConfig [0x31]] :: load [0x31] 0) = some (last, events) ∧
      (applied events).getLast? = (accepted events).getLast? := by
  have ran : run (step Daemon.plainSetting []) (start oldFile)
    (configure [0x31] :: .take [Daemon.xConfig [0x31]] :: load [0x31] 0) = some (_, _) := rfl
  exact ⟨_, _, ran, (accepted_applied ran).2.1 rfl rfl⟩

def threeSets : List Action :=
  configure [0x31] :: .take [Daemon.xConfig [0x31]] :: configure [0x32] :: configure [0x33] ::
    load [0x31] 0 ++
  .take [Daemon.xConfig [0x32]] :: .daemon (.advance allSucceed) :: .daemon (.exit 0) ::
    .daemon (.reap 0) :: load [0x32] 1

theorem transport_supervised_threeSets : ∃ last,
    (run (step Daemon.plainSetting []) (start oldFile) threeSets).map Prod.fst = some last ∧
      last.daemon.Supervised Daemon.plainSetting := by
  have ran : run (step Daemon.plainSetting []) (start oldFile) threeSets = some (_, _) := rfl
  exact ⟨_, rfl, (transport_supervised ran).1⟩

/-- The set applied last is the second one, though the third was received last. -/
theorem threeSets_second_wins :
    ∃ last events, run (step Daemon.plainSetting []) (start oldFile) threeSets =
      some (last, events) ∧
      last.slot = none ∧ last.daemon.phase = .idle ∧
      (applied events).getLast? = some (xSet [0x32]) ∧
      (received events).getLast? = some (xSet [0x33]) ∧ xSet [0x32] ≠ xSet [0x33] := by
  have ran : run (step Daemon.plainSetting []) (start oldFile) threeSets = some (_, _) := rfl
  refine ⟨_, _, ran, rfl, rfl, rfl, rfl, ?_⟩
  intro same
  have versions := congrArg (fun cfgs => cfgs.values.map Config.version) same
  exact absurd versions (by decide)

end Transport

end Elkeid.Agent
