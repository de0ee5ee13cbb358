import Elkeid.Probe.DnsSwitch

/-!
# Probes are registered and unregistered in turn

Seen from one switch, whatever the worker, the traffic and the exit of the module do is a move of a
small machine: the probe is off or on, or the worker is between the switch and the call that follows
it. The driver refines one such machine for each switch, and the calls of the machine alternate.
-/

namespace Elkeid.Probe

open Foundations Machine List Option

/-! ## One switch -/

/-- What one switch is doing: `disarmed` and `arming` are between the switch and the call. -/
inductive Mode
  | off
  | on
  | disarmed
  | arming
  | removed (armed : Bool)
  deriving DecidableEq

def Mode.registered : Mode → Bool
  | .on | .disarmed => true
  | _ => false

inductive Moves : Mode → Option Call → Mode → Prop
  | stay (mode) : Moves mode none mode
  | disarm : Moves .on none .disarmed
  | unregister : Moves .disarmed (some .unregister) .off
  | arm : Moves .off none .arming
  | register : Moves .arming (some (.register false)) .on
  | refuse : Moves .arming (some (.register true)) .arming
  | rollback : Moves .arming none .off
  | remove : Moves .on (some .unregister) (.removed true)
  | skip : Moves .off none (.removed false)

/-- What a call makes of the probe: a register call while it is registered and an unregister call
while it is not are out of turn. -/
def Call.next : Bool → Call → Option Bool
  | false, .register failed => some (!failed)
  | true, .unregister => some false
  | _, _ => none

/-- The calls are in turn, and leave the probe registered or not. -/
def follow (calls : List Call) : Option Bool := calls.foldlM Call.next false

@[simp]
theorem follow_append (calls later : List Call) :
    follow (calls ++ later) = (follow calls).bind (later.foldlM Call.next) :=
  foldlM_append

variable {mode : Mode} {switch : DnsSwitch}

theorem Moves.follow {later : Mode} {call : Option Call} (moves : Moves mode call later)
    {calls : List Call} (followed : Probe.follow calls = some mode.registered) :
    Probe.follow (calls ++ call.toList) = some later.registered := by
  rw [follow_append, followed, bind_some]
  cases moves <;> rfl

def Call.isRegister : Call → Bool
  | .register _ => true
  | .unregister => false

/-- Register and unregister in turn, register first. -/
def Alternate (calls : List Call) : Prop :=
  ∀ position call, calls[position]? = some call → (call.isRegister = true ↔ position % 2 = 0)

/-- A failed registration leaves nothing behind. -/
def effective (calls : List Call) : List Call := calls.filter (· ≠ .register true)

theorem Alternate.concat {calls : List Call} (alternate : Alternate calls) {call : Call}
    (turn : call.isRegister = true ↔ calls.length % 2 = 0) : Alternate (calls ++ [call]) := by
  intro position other found
  rcases getElem?_concat_cases found with ⟨rfl, rfl⟩ | earlier
  · exact turn
  · exact alternate position other earlier

theorem alternate_of_follow {calls : List Call} {registered : Bool}
    (followed : follow calls = some registered) :
    Alternate (effective calls) ∧ (registered = true ↔ (effective calls).length % 2 = 1) := by
  induction calls using reverseRecOn generalizing registered with
  | nil =>
    cases followed
    refine ⟨fun position call found => ?_, by decide⟩
    cases found
  | append_singleton calls call ih =>
    rw [follow_append, bind_eq_some_iff] at followed
    obtain ⟨before, followedBefore, called⟩ := followed
    obtain ⟨alternate, parity⟩ := ih followedBefore
    rw [effective, filter_append, ← effective]
    cases before with
    | true =>
      cases call with
      | register failed => cases called
      | unregister =>
        cases called
        have odd := parity.mp rfl
        have turn : Call.unregister.isRegister = true ↔ (effective calls).length % 2 = 0 := by
          rw [odd]
          decide
        have kept : [Call.unregister].filter (· ≠ .register true) = [.unregister] := rfl
        rw [kept, length_append, length_singleton]
        refine ⟨alternate.concat turn, ?_⟩
        simp only [Bool.false_eq_true, false_iff]
        omega
    | false =>
      cases call with
      | unregister => cases called
      | register failed =>
        cases called
        have even : (effective calls).length % 2 = 0 := by
          have notOdd : ¬ (effective calls).length % 2 = 1 := fun odd => nomatch parity.mpr odd
          omega
        cases failed with
        | true =>
          have nothing : [Call.register true].filter (· ≠ .register true) = [] := rfl
          rw [nothing, append_nil]
          exact ⟨alternate, parity⟩
        | false =>
          have turn : (Call.register false).isRegister = true ↔
              (effective calls).length % 2 = 0 := by
            rw [even]
            decide
          have kept : [Call.register false].filter (· ≠ .register true) = [.register false] := rfl
          rw [kept, length_append, length_singleton]
          refine ⟨alternate.concat turn, ?_⟩
          simp only [Bool.not_false, true_iff]
          omega

/-! ## The driver moves every switch -/

inductive Pending
  | nothing
  | disabling
  | enabling
  deriving DecidableEq

def Point.pending : Point → Pending
  | .disable => .disabling
  | .enable | .rollback => .enabling
  | _ => .nothing

def Worker.pending (index : Nat) : Worker → Pending
  | .working position point => if position = index then point.pending else .nothing
  | _ => .nothing

/-- The exit of the module has dealt with the probe. -/
def Exit.gone (index : Nat) : Exit → Bool
  | .uninstalling position => index < position
  | _ => false

def DriverEvent.call (index : Nat) : DriverEvent → Option Call
  | .called position call => if position = index then some call else none
  | .silent => none

structure Facts where
  armed : Bool
  regs : Bool
  registered : Bool
  pending : Pending
  gone : Bool

def Mode.facts : Mode → Facts
  | .off => ⟨false, false, false, .nothing, false⟩
  | .on => ⟨true, true, true, .nothing, false⟩
  | .disarmed => ⟨false, true, true, .disabling, false⟩
  | .arming => ⟨true, false, false, .enabling, false⟩
  | .removed armed => ⟨armed, false, false, .nothing, true⟩

def DnsSwitch.facts (switch : DnsSwitch) (pending : Pending) (gone : Bool) : Facts :=
  ⟨switch.armed, switch.regs, switch.registered, pending, gone⟩

def DnsSwitch.seen (pending : Pending) (gone : Bool) (switch : DnsSwitch) : Option Facts :=
  some (switch.facts pending gone)

inductive DnsSwitch.Works (switch : DnsSwitch) : Pending → Option Call → DnsSwitch → Pending → Prop
  | counts (next) (sameArmed : next.armed = switch.armed) (sameRegs : next.regs = switch.regs)
      (sameRegistered : next.registered = switch.registered) :
      Works switch .nothing none next .nothing
  | disarms (isArmed : switch.armed = true) :
      Works switch .nothing none { switch with armed := false } .disabling
  | disables : Works switch .disabling (some .unregister) switch.disable .nothing
  | arms (notArmed : switch.armed = false) :
      Works switch .nothing none { switch with armed := true } .enabling
  | enables (free : switch.registered = false) :
      Works switch .enabling (some (.register false))
        { switch with registered := true, regs := true } .nothing
  | refused : Works switch .enabling (some (.register true)) switch .enabling
  | rollsBack : Works switch .enabling none { switch with armed := false } .nothing

theorem DnsSwitch.Works.moves {next : DnsSwitch} {before after : Pending} {call : Option Call}
    (works : switch.Works before call next after) (shows : switch.facts before false = mode.facts) :
    ∃ later, Moves mode call later ∧ next.facts after false = later.facts := by
  obtain ⟨armed, krp, ops, start, regs, registered⟩ := switch
  cases works with
  | counts next sameArmed sameRegs sameRegistered =>
    refine ⟨mode, .stay mode, ?_⟩
    rw [← shows]
    simp [facts, sameArmed, sameRegs, sameRegistered]
  | disarms isArmed =>
    cases mode with
    | on =>
      cases shows
      exact ⟨.disarmed, .disarm, rfl⟩
    | off =>
      cases shows
      cases isArmed
    | _ => cases shows
  | disables =>
    cases mode with
    | disarmed =>
      cases shows
      exact ⟨.off, .unregister, rfl⟩
    | _ => cases shows
  | arms notArmed =>
    cases mode with
    | off =>
      cases shows
      exact ⟨.arming, .arm, rfl⟩
    | on =>
      cases shows
      cases notArmed
    | _ => cases shows
  | enables free =>
    cases mode with
    | arming =>
      cases shows
      exact ⟨.on, .register, rfl⟩
    | _ => cases shows
  | refused =>
    cases mode with
    | arming => exact ⟨.arming, .refuse, shows⟩
    | _ => cases shows
  | rollsBack =>
    cases mode with
    | arming =>
      cases shows
      exact ⟨.off, .rollback, rfl⟩
    | _ => cases shows

theorem DnsSwitch.remove_moves (shows : switch.facts .nothing false = mode.facts) :
    ∃ later, Moves mode (if switch.regs then some .unregister else none) later ∧
      (if switch.regs then switch.disable else switch).facts .nothing true = later.facts := by
  obtain ⟨armed, krp, ops, start, regs, registered⟩ := switch
  cases mode with
  | on =>
    cases shows
    exact ⟨.removed true, .remove, rfl⟩
  | off =>
    cases shows
    exact ⟨.removed false, .skip, rfl⟩
  | _ => cases shows

namespace Driver

variable {driver next : Driver} {event : DriverEvent} {index : Nat} {switch : DnsSwitch}

/-- The worker has changed one switch and is about to do something with it, or not. -/
structure Worked (driver : Driver) (index : Nat) (switch : DnsSwitch) (before : Pending)
    (next : Driver) (event : DriverEvent) : Prop where
  works : ∃ later after, switch.Works before (event.call index) later after ∧
    next.switches = driver.switches.set index later ∧ next.worker.pending index = after
  elsewhere : ∀ other, other ≠ index →
    next.worker.pending other = .nothing ∧ event.call other = none
  sameExit : next.exit = driver.exit

theorem worked_goOn {later : DnsSwitch} {point : Point} {before : Pending}
    (works : switch.Works before (event.call index) later point.pending)
    (alone : ∀ other, other ≠ index → event.call other = none) :
    Worked driver index switch before (driver.goOn index later point) event where
  works := ⟨later, point.pending, works, rfl, if_pos rfl⟩
  elsewhere other different := ⟨if_neg (Ne.symm different), alone other different⟩
  sameExit := rfl

theorem worked_leave {later : DnsSwitch} (sameArmed : later.armed = switch.armed)
    (sameRegs : later.regs = switch.regs) (sameRegistered : later.registered = switch.registered) :
    Worked driver index switch .nothing (driver.leave index later) .silent where
  works := ⟨later, .nothing, .counts later sameArmed sameRegs sameRegistered, rfl, ite_self _⟩
  elsewhere _ _ := ⟨ite_self _, rfl⟩
  sameExit := rfl

theorem worked_workAt (driver : Driver) (index : Nat) (switch : DnsSwitch) (now : BitVec 64)
    (fails : Bool) (point : Point) :
    Worked driver index switch point.pending (driver.workAt index switch now fails point).1
      (driver.workAt index switch now fails point).2 := by
  have counting {later : DnsSwitch} {after : Point} (isCounting : after.pending = .nothing)
      (sameArmed : later.armed = switch.armed) (sameRegs : later.regs = switch.regs)
      (sameRegistered : later.registered = switch.registered) :
      Worked driver index switch .nothing (driver.goOn index later after) .silent := by
    refine worked_goOn ?_ fun _ _ => rfl
    rw [isCounting]
    exact .counts later sameArmed sameRegs sameRegistered
  have alone (call : Call) (other : Nat) (different : other ≠ index) :
      (DriverEvent.called index call).call other = none := if_neg (Ne.symm different)
  have called (call : Call) : (DriverEvent.called index call).call index = some call := if_pos rfl
  cases point with
  | check | offKrp | offOps | onOps =>
    refine counting ?_ rfl rfl rfl
    split <;> rfl
  | off =>
    simp only [workAt]
    split
    next => exact counting rfl rfl rfl rfl
    next => exact worked_leave rfl rfl rfl
  | disarm =>
    simp only [workAt]
    split
    next isArmed => exact worked_goOn (.disarms isArmed) fun _ _ => rfl
    next => exact counting rfl rfl rfl rfl
  | disable =>
    simp only [workAt]
    refine worked_goOn ?_ (alone .unregister)
    rw [called]
    exact .disables
  | on =>
    simp only [workAt]
    split
    next => exact worked_leave rfl rfl rfl
    next =>
      split
      next => exact counting rfl rfl rfl rfl
      next => exact worked_leave rfl rfl rfl
  | arm =>
    simp only [workAt]
    split
    next => exact counting rfl rfl rfl rfl
    next notArmed => exact worked_goOn (.arms (Bool.eq_false_iff.mpr notArmed)) fun _ _ => rfl
  | enable =>
    simp only [workAt, DnsSwitch.enable]
    split
    next =>
      refine worked_goOn ?_ (alone _)
      rw [called]
      exact .refused
    next accepted =>
      refine worked_goOn ?_ (alone _)
      rw [called]
      exact .enables (Bool.eq_false_iff.mpr (not_or.mp accepted).2)
  | rollback => exact worked_goOn .rollsBack fun _ _ => rfl
  | clearKrp | clearOps => exact counting rfl rfl rfl rfl
  | restart => exact worked_leave rfl rfl rfl

/-- The machine of a switch is in a mode. -/
def Shows (driver : Driver) (index : Nat) (mode : Mode) : Prop :=
  viewAt (DnsSwitch.seen (driver.worker.pending index) (driver.exit.gone index)) driver.switches
    index = some mode.facts

/-- Probes are removed when the worker has exited. -/
def Orderly (driver : Driver) : Prop :=
  ∀ position, driver.exit = .uninstalling position → driver.worker = .exited

variable {mode : Mode}

theorem Shows.frame (shows : driver.Shows index mode)
    (sameSwitches : next.switches = driver.switches)
    (samePending : next.worker.pending index = driver.worker.pending index)
    (sameGone : next.exit.gone index = driver.exit.gone index) : next.Shows index mode := by
  unfold Shows
  rw [sameSwitches, samePending, sameGone]
  exact shows

theorem Shows.count (shows : driver.Shows index mode) {position : Nat} {old new : DnsSwitch}
    (found : driver.switches[position]? = some old)
    (counted : next.switches = driver.switches.set position new)
    (sameFacts : ∀ pending gone, new.seen pending gone = old.seen pending gone)
    (samePending : next.worker.pending index = driver.worker.pending index)
    (sameExit : next.exit = driver.exit) : next.Shows index mode := by
  unfold Shows
  rw [counted, samePending, sameExit]
  have same := sameFacts (driver.worker.pending index) (driver.exit.gone index)
  exact (viewAt_set_same found same index).trans shows

theorem Worked.moves {position : Nat} {point : Point}
    (worked : Worked driver position switch point.pending next event)
    (found : driver.switches[position]? = some switch)
    (isWorking : driver.worker = .working position point) (present : driver.exit.gone index = false)
    (shows : driver.Shows index mode) :
    ∃ later, Moves mode (event.call index) later ∧ next.Shows index later := by
  obtain ⟨⟨later, after, works, changed, isAfter⟩, elsewhere, sameExit⟩ := worked
  unfold Shows at shows ⊢
  rw [present] at shows
  rw [changed, sameExit, present, viewAt_set found]
  by_cases same : index = position
  · subst same
    rw [viewAt_of_found found, isWorking, Worker.pending, if_pos rfl] at shows
    rw [if_pos rfl, isAfter]
    obtain ⟨final, moves, fits⟩ := works.moves (some.inj shows)
    exact ⟨final, moves, congrArg some fits⟩
  · obtain ⟨notPending, notCalled⟩ := elsewhere index same
    rw [isWorking, Worker.pending, if_neg (Ne.symm same)] at shows
    rw [if_neg same, notPending, notCalled]
    exact ⟨mode, .stay mode, shows⟩

theorem work_moves {now : BitVec 64} {fails : Bool}
    (stepped : driver.work now fails = some (next, event)) (orderly : driver.Orderly)
    (shows : driver.Shows index mode) :
    ∃ later, Moves mode (event.call index) later ∧ next.Shows index later := by
  rw [work] at stepped
  split at stepped
  next position isWorker =>
    split at stepped <;> cases stepped
    next switch found =>
      refine ⟨mode, .stay mode, shows.count found rfl (fun _ _ => rfl) ?_ rfl⟩
      rw [isWorker]
      rfl
    next =>
      refine ⟨mode, .stay mode, shows.frame rfl ?_ rfl⟩
      rw [isWorker]
      rfl
  next position point isWorker =>
    split at stepped
    next switch found =>
      have worked := driver.worked_workAt position switch now fails point
      rw [some.inj stepped] at worked
      have present : driver.exit.gone index = false := by
        cases isExit : driver.exit with
        | uninstalling reached =>
          have exited := orderly reached isExit
          rw [isWorker] at exited
          cases exited
        | _ => rfl
      exact worked.moves found isWorker present shows
    next missing =>
      cases stepped
      have other : position ≠ index := by
        rintro rfl
        unfold Shows viewAt at shows
        rw [missing] at shows
        cases shows
      refine ⟨mode, .stay mode, shows.frame rfl ?_ rfl⟩
      rw [isWorker, Worker.pending, if_neg other]
      rfl
  next isWorker =>
    cases stepped
    refine ⟨mode, .stay mode, shows.frame rfl ?_ rfl⟩
    rw [isWorker]
    split <;> rfl
  next => cases stepped

theorem uninstall_moves (stepped : driver.uninstall = some (next, event)) (orderly : driver.Orderly)
    (shows : driver.Shows index mode) :
    ∃ later, Moves mode (event.call index) later ∧ next.Shows index later := by
  rw [uninstall] at stepped
  split at stepped
  next isExit =>
    obtain ⟨_, ⟨⟩⟩ := ite_none_right_eq_some.mp stepped
    refine ⟨mode, .stay mode, shows.frame rfl rfl ?_⟩
    rw [isExit]
    exact decide_eq_false (Nat.not_lt_zero index)
  next position isExit =>
    have exited := orderly position isExit
    -- Only the probe at this position is dealt with now.
    have gone_of_ne (other : index ≠ position) :
        (Exit.uninstalling (position + 1)).gone index =
          (Exit.uninstalling position).gone index := by
      simp only [Exit.gone, decide_eq_decide]
      omega
    have gone_after : (Exit.uninstalling (position + 1)).gone position = true :=
      decide_eq_true (Nat.lt_succ_self position)
    have gone_before : (Exit.uninstalling position).gone position = false :=
      decide_eq_false (lt_irrefl position)
    split at stepped
    next switch found =>
      unfold Shows at shows
      rw [exited, isExit] at shows
      split at stepped <;> cases stepped
      next isRegs =>
        unfold Shows
        rw [viewAt_set found, exited]
        by_cases same : index = position
        · subst same
          rw [viewAt_of_found found, gone_before] at shows
          obtain ⟨later, moves, fits⟩ := DnsSwitch.remove_moves (some.inj shows)
          rw [isRegs, if_pos rfl] at moves fits
          rw [if_pos rfl, gone_after, DriverEvent.call, if_pos rfl]
          exact ⟨later, moves, congrArg some fits⟩
        · rw [if_neg same, gone_of_ne same, DriverEvent.call, if_neg (Ne.symm same)]
          exact ⟨mode, .stay mode, shows⟩
      next notRegs =>
        unfold Shows
        rw [exited]
        by_cases same : index = position
        · subst same
          rw [viewAt_of_found found, gone_before] at shows
          obtain ⟨later, moves, fits⟩ := DnsSwitch.remove_moves (some.inj shows)
          rw [if_neg notRegs] at moves fits
          rw [viewAt_of_found found, gone_after]
          exact ⟨later, moves, congrArg some fits⟩
        · rw [gone_of_ne same]
          exact ⟨mode, .stay mode, shows⟩
    next => cases stepped
  next => cases stepped

variable {action : DriverAction}

theorem step_moves (stepped : driver.step action = some (next, event))
    (orderly : driver.Orderly) (shows : driver.Shows index mode) :
    ∃ later, Moves mode (event.call index) later ∧ next.Shows index later := by
  cases action with
  | packet position =>
    simp only [step] at stepped
    split at stepped <;> cases stepped
    next switch found => exact ⟨mode, .stay mode, shows.count found rfl (fun _ _ => rfl) rfl rfl⟩
  | request position =>
    simp only [step] at stepped
    split at stepped
    next switch found =>
      obtain ⟨_, ⟨⟩⟩ := ite_none_right_eq_some.mp stepped
      exact ⟨mode, .stay mode, shows.count found rfl (fun _ _ => rfl) rfl rfl⟩
    next => cases stepped
  | wake signalled =>
    obtain ⟨isWorker, ⟨⟩⟩ := ite_none_right_eq_some.mp stepped
    refine ⟨mode, .stay mode, shows.frame rfl ?_ rfl⟩
    rw [isWorker]
    cases signalled with
    | true => rfl
    | false => exact ite_self _
  | work now fails => exact work_moves stepped orderly shows
  | smithExit =>
    obtain ⟨isExit, ⟨⟩⟩ := ite_none_right_eq_some.mp stepped
    refine ⟨mode, .stay mode, shows.frame rfl rfl ?_⟩
    rw [isExit]
    rfl
  | abandon =>
    obtain ⟨⟨isWorker, _⟩, ⟨⟩⟩ := ite_none_right_eq_some.mp stepped
    refine ⟨mode, .stay mode, shows.frame rfl ?_ rfl⟩
    rw [isWorker]
    rfl
  | uninstall => exact uninstall_moves stepped orderly shows

theorem work_exit {now : BitVec 64} {fails : Bool}
    (stepped : driver.work now fails = some (next, event)) :
    driver.worker ≠ .exited ∧ next.exit = driver.exit := by
  rw [work] at stepped
  split at stepped
  next position isWorker =>
    refine ⟨by rw [isWorker]; exact Worker.noConfusion, ?_⟩
    split at stepped <;> cases stepped <;> rfl
  next position point isWorker =>
    refine ⟨by rw [isWorker]; exact Worker.noConfusion, ?_⟩
    split at stepped
    next switch found =>
      have worked := driver.worked_workAt position switch now fails point
      rw [some.inj stepped] at worked
      exact worked.sameExit
    next =>
      cases stepped
      rfl
  next isWorker =>
    cases stepped
    exact ⟨by rw [isWorker]; exact Worker.noConfusion, rfl⟩
  next => cases stepped

theorem step_orderly (stepped : driver.step action = some (next, event))
    (orderly : driver.Orderly) : next.Orderly := by
  cases action with
  | packet position =>
    simp only [step] at stepped
    split at stepped <;> cases stepped
    exact orderly
  | request position =>
    simp only [step] at stepped
    split at stepped
    next =>
      obtain ⟨_, ⟨⟩⟩ := ite_none_right_eq_some.mp stepped
      exact orderly
    next => cases stepped
  | wake signalled =>
    obtain ⟨isWorker, ⟨⟩⟩ := ite_none_right_eq_some.mp stepped
    intro position isExit
    have exited := orderly position isExit
    rw [isWorker] at exited
    cases exited
  | work now fails =>
    obtain ⟨notExited, sameExit⟩ := work_exit stepped
    intro position isExit
    rw [sameExit] at isExit
    exact absurd (orderly position isExit) notExited
  | smithExit =>
    obtain ⟨_, ⟨⟩⟩ := ite_none_right_eq_some.mp stepped
    intro position isExit
    cases isExit
  | abandon =>
    obtain ⟨_, ⟨⟩⟩ := ite_none_right_eq_some.mp stepped
    intro _ _
    rfl
  | uninstall =>
    simp only [step, uninstall] at stepped
    split at stepped
    next =>
      obtain ⟨exited, ⟨⟩⟩ := ite_none_right_eq_some.mp stepped
      intro _ _
      exact exited
    next position isExit =>
      have exited := orderly position isExit
      split at stepped
      next =>
        split at stepped <;> cases stepped <;> exact fun _ _ => exited
      next => cases stepped
    next => cases stepped

def calls (index : Nat) (events : List DriverEvent) : List Call :=
  events.filterMap (DriverEvent.call index)

/-- A switch is in the mode in which its calls have left it. -/
structure Follows (index : Nat) (past : List DriverEvent) (driver : Driver) : Prop where
  orderly : driver.Orderly
  inMode : ∃ mode, driver.Shows index mode ∧ follow (calls index past) = some mode.registered

theorem Follows.step {past : List DriverEvent}
    (follows : Follows index past driver) (stepped : driver.step action = some (next, event)) :
    Follows index (past ++ [event]) next := by
  obtain ⟨orderly, mode, shows, followed⟩ := follows
  refine ⟨step_orderly stepped orderly, ?_⟩
  obtain ⟨later, moves, showsLater⟩ := step_moves stepped orderly shows
  refine ⟨later, showsLater, ?_⟩
  rw [calls, filterMap_concat]
  exact moves.follow followed

theorem newDriver_follows (dnsHook : Bool) {count : Nat} (created : Bool)
    (configured : index < count) :
    Follows index [] (newDriver dnsHook count created) := by
  refine ⟨fun _ isExit => (nomatch isExit), .off, ?_, rfl⟩
  have idle : (newDriver dnsHook count created).worker.pending index = .nothing := by
    cases created <;> rfl
  have found : (newDriver dnsHook count created).switches[index]? = some newDnsSwitch := by
    rw [newDriver, getElem?_replicate, if_pos configured]
  unfold Shows
  rw [viewAt_of_found found, idle]
  rfl

/-- The worker is between two rounds, and no probe is being removed. -/
def Between (driver : Driver) : Prop :=
  (∀ position point, driver.worker ≠ .working position point) ∧
    ∀ position, driver.exit ≠ .uninstalling position

theorem Between.idle (between : driver.Between) (index : Nat) :
    driver.worker.pending index = .nothing ∧ driver.exit.gone index = false := by
  obtain ⟨notWorking, notRemoving⟩ := between
  constructor
  · cases isWorker : driver.worker with
    | working position point => exact absurd isWorker (notWorking position point)
    | _ => rfl
  · cases isExit : driver.exit with
    | uninstalling position => exact absurd isExit (notRemoving position)
    | _ => rfl

end Driver

theorem registered_of_last_failed {calls : List Call} {registered : Bool}
    (followed : follow calls = some registered)
    (failed : calls.getLast? = some (.register true)) : registered = false := by
  obtain ⟨before, rfl⟩ := getLast?_eq_some_iff.mp failed
  rw [follow_append, bind_eq_some_iff] at followed
  obtain ⟨middle, _, called⟩ := followed
  cases middle <;> cases called
  rfl

theorem DnsSwitch.facts_idle
    (shows : switch.facts .nothing false = mode.facts) : switch.armed = switch.registered := by
  obtain ⟨armed, krp, ops, start, regs, registered⟩ := switch
  cases mode <;> cases shows <;> rfl

theorem DnsSwitch.facts_registered {pending : Pending} {gone : Bool}
    (shows : switch.facts pending gone = mode.facts) :
    switch.registered = mode.registered ∧ (gone = true → switch.registered = false) := by
  obtain ⟨armed, krp, ops, start, regs, registered⟩ := switch
  cases mode <;> cases shows <;> exact ⟨rfl, fun isGone => by first | rfl | cases isGone⟩

/-- The successful register calls and the unregister calls of a probe alternate, register first.
Between the rounds of the worker a switch is armed if and only if its probe is registered, and not
armed after a failed registration. The exit of the module leaves nothing registered. -/
theorem probes_in_turn {dnsHook : Bool} {count : Nat} {created : Bool} {actions : List DriverAction}
    {driver : Driver} {events : List DriverEvent}
    (ran : run Driver.step (newDriver dnsHook count created) actions = some (driver, events))
    {index : Nat} (configured : index < count) :
    ∃ switch, driver.switches[index]? = some switch ∧
      Alternate (effective (Driver.calls index events)) ∧
      (driver.Between → (switch.armed = true ↔ switch.registered = true) ∧
        ((Driver.calls index events).getLast? = some (.register true) → switch.armed = false)) ∧
      (driver.exit = .uninstalling count → switch.registered = false) := by
  have follows : Driver.Follows index events driver :=
    run_invariant (fun _ _ _ _ _ follows stepped => follows.step stepped) ran
      (Driver.newDriver_follows dnsHook created configured)
  obtain ⟨_, mode, shows, followed⟩ := follows
  obtain ⟨switch, found, isFacts⟩ := viewAt_eq_some_iff.mp shows
  have fits := some.inj isFacts
  have isRegistered := (DnsSwitch.facts_registered fits).1
  refine ⟨switch, found, (alternate_of_follow followed).1, ?_, ?_⟩
  · intro between
    obtain ⟨idle, present⟩ := between.idle index
    rw [idle, present] at fits
    have same := DnsSwitch.facts_idle fits
    refine ⟨by rw [same], fun failed => ?_⟩
    rw [same, isRegistered]
    exact registered_of_last_failed followed failed
  · intro isExit
    rw [isExit] at fits
    exact (DnsSwitch.facts_registered fits).2 (decide_eq_true configured)

def secondAttempt : List DriverAction :=
  replicate 2 (.work 0 false) ++ .wake false :: replicate 11 (.work 21 true) ++
    .wake false :: replicate 10 (.work 42 false)

def thenExit : List DriverAction :=
  secondAttempt ++ [.smithExit, .wake true, .work 42 false, .uninstall, .uninstall]

theorem probes_in_turn_thenExit :
    ∃ driver events switch, run Driver.step (newDriver true 1 true) thenExit =
      some (driver, events) ∧
      Driver.calls 0 events = [.register true, .register false, .unregister] ∧
      driver.switches[0]? = some switch ∧ switch.registered = false := by
  have ⟨driver, events, ran, isCalls, isExit⟩ : ∃ driver events,
      run Driver.step (newDriver true 1 true) thenExit = some (driver, events) ∧
      Driver.calls 0 events = [.register true, .register false, .unregister] ∧
      driver.exit = .uninstalling 1 := ⟨_, _, rfl, rfl, rfl⟩
  obtain ⟨switch, found, _, _, removed⟩ := probes_in_turn ran Nat.zero_lt_one
  exact ⟨driver, events, switch, ran, isCalls, found, removed isExit⟩

/-- A failed register call is followed by another register call. -/
theorem secondAttempt_not_alternate : ∃ driver events,
      run Driver.step (newDriver true 1 true) secondAttempt = some (driver, events) ∧
      Driver.calls 0 events = [.register true, .register false] ∧
      ¬ Alternate (Driver.calls 0 events) := by
  refine ⟨_, _, rfl, rfl, fun alternate => ?_⟩
  exact absurd ((alternate 1 (.register false) rfl).mp rfl) (by decide)

end Elkeid.Probe
