import Elkeid.Foundations.Locks
import Elkeid.Foundations.Machine
import Elkeid.Kmod.Filters

/-!
# The mutexes of the driver plugin

The threads `record_send`, `ttl_filters` and `heartbeat` of `plugins/driver/src` share
the controler and the two queues, each behind a mutex. `add_filtered_exe` and
`add_filtered_argv` lock the controler before the queue, `ttl_filters` locks the queues
and then, for each entry it takes back, the controler. Guards are dropped in the reverse
of the order in which they were taken.
-/

namespace Elkeid.Kmod

open Foundations Locks Machine List Option Function

inductive Thread where
  | recordSend
  | ttlFilters
  | heartbeat
  deriving DecidableEq

inductive Lock where
  | controler
  | filteredExeEntries
  | filteredArgvEntries
  deriving DecidableEq

inductive Request where
  | exe (text : Bytes)
  | argv (text : Bytes)
  deriving DecidableEq

def Request.entries : Request → Lock
  | exe _ => .filteredExeEntries
  | argv _ => .filteredArgvEntries

def Request.perform (queues : Queues) (now : Nat) : Request → Option Queues
  | exe text => (queues.addFilteredExe now text).map Prod.fst
  | argv text => (queues.addFilteredArgv now text).map Prod.fst

inductive Place where
  -- `record_send`, and the drop of its `Kmod` when it ends
  | idle
  | addLocksControler (request : Request)
  | addLocksEntries (request : Request)
  | addUpdates (request : Request)
  | addUnlocks
  | dropLocks
  | dropCloses
  | ended
  -- `ttl_filters`
  | asleep
  | sweepLocksExe
  | exeLoop
  | exeLocksControler (entry : Entry)
  | exeControls (entry : Entry)
  | sweepLocksArgv
  | argvLoop
  | argvLocksControler (entry : Entry)
  | argvControls (entry : Entry)
  | sweepUnlocksArgv
  | sweepUnlocksExe
  -- `heartbeat`
  | resting
  | beatLocksExe
  | beatLocksArgv
  | beatReports
  | beatUnlocksExe
  | beatSends
  | beatEnded
  deriving DecidableEq

namespace Place

def thread : Place → Thread
  | idle | addLocksControler _ | addLocksEntries _ | addUpdates _ | addUnlocks | dropLocks
  | dropCloses | ended => .recordSend
  | asleep | sweepLocksExe | exeLoop | exeLocksControler _ | exeControls _ | sweepLocksArgv
  | argvLoop | argvLocksControler _ | argvControls _ | sweepUnlocksArgv | sweepUnlocksExe =>
    .ttlFilters
  | resting | beatLocksExe | beatLocksArgv | beatReports | beatUnlocksExe | beatSends
  | beatEnded => .heartbeat

def held : Place → List Lock
  | addLocksEntries _ | addUnlocks | dropCloses => [.controler]
  | addUpdates request => [request.entries, .controler]
  | exeLoop | exeLocksControler _ | sweepLocksArgv | sweepUnlocksExe => [.filteredExeEntries]
  | exeControls _ => [.controler, .filteredExeEntries]
  | argvLoop | argvLocksControler _ | sweepUnlocksArgv =>
    [.filteredArgvEntries, .filteredExeEntries]
  | argvControls _ => [.controler, .filteredArgvEntries, .filteredExeEntries]
  | beatLocksArgv | beatUnlocksExe => [.filteredExeEntries]
  | beatReports => [.filteredArgvEntries, .filteredExeEntries]
  | _ => []

def waits : Place → Option Lock
  | addLocksControler _ | dropLocks | exeLocksControler _ | argvLocksControler _ => some .controler
  | addLocksEntries request => some request.entries
  | sweepLocksExe | beatLocksExe => some .filteredExeEntries
  | sweepLocksArgv | beatLocksArgv => some .filteredArgvEntries
  | _ => none

end Place

def code : Code Lock Place := ⟨Place.held, Place.waits⟩

/-- The thread that goes on, and what is decided outside of these locks. -/
inductive Action where
  /-- `transform` calls one of the two functions -/
  | request (request : Request)
  /-- the loop over the records ends, and the `Kmod` is dropped -/
  | finish
  | send (now : Nat)
  | sweep (now : Nat)
  | beat
  /-- the heartbeat cannot be sent -/
  | endBeat
  deriving DecidableEq

def Action.thread : Action → Thread
  | request _ | finish | send _ => .recordSend
  | sweep _ => .ttlFilters
  | beat | endBeat => .heartbeat

/-- The next place of the thread, what it does to the mutexes and the queues behind it. -/
def move (queues : Queues) : Action → Place → Option (Place × Effect Lock × Queues)
  | .request request, .idle => some (.addLocksControler request, .pass, queues)
  | .finish, .idle => some (.dropLocks, .pass, queues)
  | .send _, .addLocksControler request =>
    some (.addLocksEntries request, .acquire .controler, queues)
  | .send _, .addLocksEntries request =>
    some (.addUpdates request, .acquire request.entries, queues)
  | .send now, .addUpdates request =>
    (request.perform queues now).map (fun queues => (.addUnlocks, .release request.entries, queues))
  | .send _, .addUnlocks => some (.idle, .release .controler, queues)
  | .send _, .dropLocks => some (.dropCloses, .acquire .controler, queues)
  | .send _, .dropCloses => some (.ended, .release .controler, { queues with controler := false })
  | .sweep _, .asleep => some (.sweepLocksExe, .pass, queues)
  | .sweep _, .sweepLocksExe => some (.exeLoop, .acquire .filteredExeEntries, queues)
  | .sweep now, .exeLoop =>
    match queues.filteredExeEntries with
    | [] => some (.sweepLocksArgv, .pass, queues)
    | front :: rest =>
      if front.elapsed now < exeFilterTime then some (.sweepLocksArgv, .pass, queues)
      else some (.exeLocksControler front, .pass, { queues with filteredExeEntries := rest })
  | .sweep _, .exeLocksControler entry => some (.exeControls entry, .acquire .controler, queues)
  | .sweep _, .exeControls _ =>
    some (if queues.controler then .exeLoop else .sweepLocksArgv, .release .controler, queues)
  | .sweep _, .sweepLocksArgv => some (.argvLoop, .acquire .filteredArgvEntries, queues)
  | .sweep now, .argvLoop =>
    match queues.filteredArgvEntries with
    | [] => some (.sweepUnlocksArgv, .pass, queues)
    | front :: rest =>
      if front.elapsed now < argvFilterTime then
        -- the young entry goes to the front of the exe queue
        some (.sweepUnlocksArgv, .pass, { queues with
          filteredExeEntries := front :: queues.filteredExeEntries
          filteredArgvEntries := rest })
      else some (.argvLocksControler front, .pass, { queues with filteredArgvEntries := rest })
  | .sweep _, .argvLocksControler entry => some (.argvControls entry, .acquire .controler, queues)
  | .sweep _, .argvControls _ =>
    some (if queues.controler then .argvLoop else .sweepUnlocksArgv, .release .controler, queues)
  | .sweep _, .sweepUnlocksArgv => some (.sweepUnlocksExe, .release .filteredArgvEntries, queues)
  | .sweep _, .sweepUnlocksExe => some (.asleep, .release .filteredExeEntries, queues)
  | .beat, .resting => some (.beatLocksExe, .pass, queues)
  | .beat, .beatLocksExe => some (.beatLocksArgv, .acquire .filteredExeEntries, queues)
  | .beat, .beatLocksArgv => some (.beatReports, .acquire .filteredArgvEntries, queues)
  | .beat, .beatReports => some (.beatUnlocksExe, .release .filteredArgvEntries, queues)
  | .beat, .beatUnlocksExe => some (.beatSends, .release .filteredExeEntries, queues)
  | .beat, .beatSends => some (.resting, .pass, queues)
  | .endBeat, .beatSends => some (.beatEnded, .pass, queues)
  | _, _ => none

structure Plugin where
  owner : Lock → Option Thread
  place : Thread → Place
  queues : Queues

def Plugin.start : Plugin where
  owner _ := none
  place
    | .recordSend => .idle
    | .ttlFilters => .asleep
    | .heartbeat => .resting
  queues := ⟨[], [], true⟩

def Plugin.step (plugin : Plugin) (action : Action) : Option (Plugin × Action) := do
  let (place, effect, queues) ← move plugin.queues action (plugin.place action.thread)
  let owner ← effect.apply action.thread plugin.owner
  some (⟨owner, Function.update plugin.place action.thread place, queues⟩, action)

def Plugin.Deadlocked (plugin : Plugin) : Prop :=
  Locks.Deadlocked code plugin.owner plugin.place

theorem Request.entries_ne_controler (request : Request) : request.entries ≠ .controler := by
  cases request <;> exact nofun

theorem move_leads {queues later : Queues} {action : Action} {place next : Place}
    {effect : Effect Lock} (moved : move queues action place = some (next, effect, later)) :
    code.Leads place next effect ∧ place.thread = action.thread ∧ next.thread = action.thread := by
  cases action with
  | request | finish =>
    cases place with
    | idle =>
      cases moved
      exact ⟨rfl, rfl, rfl⟩
    | _ => cases moved
  | send now =>
    cases place with
    | addLocksControler request | addLocksEntries request | dropLocks =>
      cases moved
      exact ⟨⟨rfl, rfl⟩, rfl, rfl⟩
    | addUpdates request =>
      obtain ⟨_, _, ⟨⟩⟩ := map_eq_some_iff.mp moved
      exact ⟨⟨rfl, fun listed => request.entries_ne_controler (mem_singleton.mp listed)⟩, rfl, rfl⟩
    | addUnlocks | dropCloses =>
      cases moved
      exact ⟨⟨rfl, not_mem_nil⟩, rfl, rfl⟩
    | _ => cases moved
  | sweep now =>
    cases place with
    | asleep =>
      cases moved
      exact ⟨rfl, rfl, rfl⟩
    | sweepLocksExe | exeLocksControler _ | sweepLocksArgv | argvLocksControler _ =>
      cases moved
      exact ⟨⟨rfl, rfl⟩, rfl, rfl⟩
    | exeLoop | argvLoop =>
      rw [move] at moved
      split at moved
      next =>
        cases moved
        exact ⟨rfl, rfl, rfl⟩
      next =>
        split at moved <;> cases moved
        all_goals exact ⟨rfl, rfl, rfl⟩
    | exeControls _ | argvControls _ =>
      cases moved
      cases queues.controler <;> exact ⟨⟨rfl, by decide⟩, rfl, rfl⟩
    | sweepUnlocksArgv | sweepUnlocksExe =>
      cases moved
      exact ⟨⟨rfl, by decide⟩, rfl, rfl⟩
    | _ => cases moved
  | beat =>
    cases place with
    | resting | beatSends =>
      cases moved
      exact ⟨rfl, rfl, rfl⟩
    | beatLocksExe | beatLocksArgv =>
      cases moved
      exact ⟨⟨rfl, rfl⟩, rfl, rfl⟩
    | beatReports | beatUnlocksExe =>
      cases moved
      exact ⟨⟨rfl, by decide⟩, rfl, rfl⟩
    | _ => cases moved
  | endBeat =>
    cases place with
    | beatSends =>
      cases moved
      exact ⟨rfl, rfl, rfl⟩
    | _ => cases moved

namespace Plugin

structure Invariant (plugin : Plugin) : Prop where
  consistent : Consistent code plugin.owner plugin.place
  ownPlace : ∀ thread, (plugin.place thread).thread = thread

theorem invariant_start : start.Invariant where
  consistent lock thread := by
    refine iff_of_false nofun ?_
    cases thread <;> exact not_mem_nil
  ownPlace thread := by cases thread <;> rfl

theorem step_cases {plugin next : Plugin} {action output : Action}
    (stepped : plugin.step action = some (next, output)) :
    ∃ effect, move plugin.queues action (plugin.place action.thread) =
        some (next.place action.thread, effect, next.queues) ∧
      effect.apply action.thread plugin.owner = some next.owner ∧
      next.place = Function.update plugin.place action.thread (next.place action.thread) ∧
      output = action := by
  obtain ⟨⟨place, effect, queues⟩, moved, rest⟩ := bind_eq_some_iff.mp stepped
  obtain ⟨owner, applied, ⟨⟩⟩ := bind_eq_some_iff.mp rest
  dsimp only
  rw [update_self]
  exact ⟨effect, moved, applied, rfl, rfl⟩

theorem Invariant.step {plugin next : Plugin} {action output : Action}
    (invariant : plugin.Invariant) (stepped : plugin.step action = some (next, output)) :
    next.Invariant := by
  obtain ⟨effect, moved, applied, placed, _⟩ := step_cases stepped
  obtain ⟨leads, _, nextThread⟩ := move_leads moved
  constructor
  · rw [placed]
    exact invariant.consistent.step leads applied
  · intro thread
    rw [placed]
    by_cases same : thread = action.thread
    · rw [same, update_self]
      exact nextThread
    · rw [update_of_ne same]
      exact invariant.ownPlace thread

end Plugin

theorem Place.holds_and_waits {place : Place} {lock waited : Lock} (isHeld : lock ∈ place.held)
    (isWaited : place.waits = some waited) :
    (∃ request, place = .addLocksEntries request ∧ lock = .controler) ∨
    (place.thread = .ttlFilters ∧ waited = .controler ∧ lock ≠ .controler ∧
      .filteredExeEntries ∈ place.held) ∨
    (lock = .filteredExeEntries ∧ waited = .filteredArgvEntries) := by
  cases place with
  | addLocksEntries request => exact .inl ⟨request, rfl, mem_singleton.mp isHeld⟩
  | exeLocksControler entry =>
    cases isWaited
    rw [mem_singleton.mp isHeld]
    exact .inr (.inl ⟨rfl, rfl, nofun, mem_singleton_self _⟩)
  | argvLocksControler entry =>
    cases isWaited
    refine .inr (.inl ⟨rfl, rfl, ?_, by simp [Place.held]⟩)
    rintro rfl
    simp [Place.held] at isHeld
  | sweepLocksArgv | beatLocksArgv =>
    cases isWaited
    exact .inr (.inr ⟨mem_singleton.mp isHeld, rfl⟩)
  | addLocksControler _ | dropLocks | sweepLocksExe | beatLocksExe => cases isHeld
  | _ => cases isWaited

namespace Plugin

/-- `record_send` has the controler and waits for a queue of `ttl_filters`, which waits
for the controler. -/
def Crossed (plugin : Plugin) : Prop :=
  ∃ request, plugin.place .recordSend = .addLocksEntries request ∧
    plugin.owner request.entries = some .ttlFilters ∧
    (plugin.place .ttlFilters).waits = some .controler

variable {plugin : Plugin}

theorem Invariant.deadlocked_of_crossed (invariant : plugin.Invariant) (crossed : plugin.Crossed) :
    plugin.Deadlocked := by
  obtain ⟨request, sends, owned, sweeps⟩ := crossed
  refine ⟨{.recordSend, .ttlFilters}, Finset.insert_nonempty _ _, ?_⟩
  intro thread isStuck
  rcases Finset.mem_insert.mp isStuck with rfl | isSweep
  · refine ⟨request.entries, ?_, .ttlFilters, by simp, nofun, owned⟩
    rw [sends]
    rfl
  · rw [Finset.mem_singleton.mp isSweep]
    refine ⟨.controler, sweeps, .recordSend, by simp, nofun, ?_⟩
    rw [invariant.consistent, sends]
    exact mem_singleton_self _

section Stuck

variable {stuck : Finset Thread} (invariant : plugin.Invariant)
  (closed : ∀ thread ∈ stuck, ∃ lock, code.waits (plugin.place thread) = some lock ∧
    ∃ other ∈ stuck, other ≠ thread ∧ plugin.owner lock = some other)

include invariant closed

variable {thread : Thread}

section

variable (isStuck : thread ∈ stuck)
include isStuck

theorem stuck_blocker {lock : Lock} (waits : (plugin.place thread).waits = some lock) :
    ∃ other ∈ stuck, plugin.owner lock = some other ∧ lock ∈ (plugin.place other).held ∧
      ∃ waited, (plugin.place other).waits = some waited := by
  obtain ⟨_, other, alsoWaits, otherStuck, owned, isHeld⟩ :=
    invariant.consistent.blocker closed isStuck
  cases waits.symm.trans alsoWaits
  obtain ⟨waited, _, otherWaits, _⟩ := invariant.consistent.blocker closed otherStuck
  exact ⟨other, otherStuck, owned, isHeld, waited, otherWaits⟩

theorem crossed_of_waits_controler
    (waits : (plugin.place thread).waits = some .controler) : plugin.Crossed := by
  obtain ⟨sender, senderStuck, _, senderHolds, _, senderWaits⟩ :=
    stuck_blocker invariant closed isStuck waits
  obtain ⟨request, senderPlace, _⟩ | ⟨_, _, notControler, _⟩ | ⟨isExe, _⟩ :=
    Place.holds_and_waits senderHolds senderWaits
  · have isSender : sender = .recordSend := by
      rw [← invariant.ownPlace sender, senderPlace]
      rfl
    subst isSender
    have requested : (plugin.place .recordSend).waits = some request.entries := by
      rw [senderPlace]
      rfl
    obtain ⟨sweeper, sweeperStuck, owned, sweeperHolds, waited, sweeperWaits⟩ :=
      stuck_blocker invariant closed senderStuck requested
    obtain ⟨_, _, isControler⟩ | ⟨isSweep, waitsControler, _, _⟩ | ⟨isExe, waitsArgv⟩ :=
      Place.holds_and_waits sweeperHolds sweeperWaits
    · exact absurd isControler request.entries_ne_controler
    · rw [invariant.ownPlace] at isSweep
      subst isSweep waitsControler
      exact ⟨request, senderPlace, owned, sweeperWaits⟩
    · -- whoever has locked the argv queue and waits has locked the exe queue as well
      subst waitsArgv
      obtain ⟨third, _, _, thirdHolds, _, thirdWaits⟩ :=
        stuck_blocker invariant closed sweeperStuck sweeperWaits
      obtain ⟨_, _, isControler⟩ | ⟨_, waitsControler, _, thirdHoldsExe⟩ | ⟨isOther, _⟩ :=
        Place.holds_and_waits thirdHolds thirdWaits
      · cases isControler
      · have sameOwner := (invariant.consistent _ _).mpr thirdHoldsExe
        rw [← isExe, owned] at sameOwner
        cases sameOwner
        subst waitsControler
        cases sweeperWaits.symm.trans thirdWaits
      · cases isOther
  · exact absurd rfl notControler
  · cases isExe

theorem crossed_of_waits_argv
    (waits : (plugin.place thread).waits = some .filteredArgvEntries) : plugin.Crossed := by
  obtain ⟨other, otherStuck, _, isHeld, _, otherWaits⟩ :=
    stuck_blocker invariant closed isStuck waits
  obtain ⟨_, _, isControler⟩ | ⟨_, waitsControler, _⟩ | ⟨isExe, _⟩ :=
    Place.holds_and_waits isHeld otherWaits
  · cases isControler
  · exact crossed_of_waits_controler invariant closed otherStuck (waitsControler ▸ otherWaits)
  · cases isExe

theorem crossed_of_waits_exe
    (waits : (plugin.place thread).waits = some .filteredExeEntries) : plugin.Crossed := by
  obtain ⟨other, otherStuck, _, isHeld, _, otherWaits⟩ :=
    stuck_blocker invariant closed isStuck waits
  obtain ⟨_, _, isControler⟩ | ⟨_, waitsControler, _⟩ | ⟨_, waitsArgv⟩ :=
    Place.holds_and_waits isHeld otherWaits
  · cases isControler
  · exact crossed_of_waits_controler invariant closed otherStuck (waitsControler ▸ otherWaits)
  · exact crossed_of_waits_argv invariant closed otherStuck (waitsArgv ▸ otherWaits)

end

end Stuck

theorem Invariant.deadlocked_iff (invariant : plugin.Invariant) :
    plugin.Deadlocked ↔ plugin.Crossed := by
  refine ⟨?_, invariant.deadlocked_of_crossed⟩
  rintro ⟨stuck, ⟨thread, isStuck⟩, closed⟩
  obtain ⟨lock, waits, _⟩ := closed thread isStuck
  cases lock with
  | controler => exact crossed_of_waits_controler invariant closed isStuck waits
  | filteredExeEntries => exact crossed_of_waits_exe invariant closed isStuck waits
  | filteredArgvEntries => exact crossed_of_waits_argv invariant closed isStuck waits

/-- The entry that `ttl_filters` looks at is too old, so that it goes for the controler. -/
def findsExpired (plugin : Plugin) (now : Nat) : Bool :=
  match plugin.place .ttlFilters with
  | .exeLoop => plugin.queues.filteredExeEntries.head?.any (Entry.expired exeFilterTime now)
  | .argvLoop => plugin.queues.filteredArgvEntries.head?.any (Entry.expired argvFilterTime now)
  | _ => false

/-- The step takes the second of two mutexes that the threads hold against each other:
`record_send` locks the controler for a queue of `ttl_filters`, which is already waiting
for the controler, or `ttl_filters` finds an old entry while `record_send` has the
controler and is waiting for a queue of `ttl_filters`. -/
def Crosses (plugin : Plugin) : Action → Prop
  | .send _ => ∃ request, plugin.place .recordSend = .addLocksControler request ∧
      plugin.owner request.entries = some .ttlFilters ∧
      (plugin.place .ttlFilters).waits = some .controler
  | .sweep now => ∃ request, plugin.place .recordSend = .addLocksEntries request ∧
      plugin.owner request.entries = some .ttlFilters ∧ plugin.findsExpired now = true
  | _ => False

variable {next : Plugin} {action output : Action}

theorem move_addLocksEntries {queues later : Queues} {place nextPlace : Place}
    {effect : Effect Lock} {sent : Action} (sends : sent.thread = .recordSend)
    (moved : move queues sent place = some (nextPlace, effect, later)) (request : Request) :
    nextPlace = .addLocksEntries request ↔
      (∃ now, sent = .send now) ∧ place = .addLocksControler request := by
  cases sent with
  | request _ | finish =>
    refine iff_of_false ?_ (fun both => nomatch both.1)
    rintro rfl
    cases place <;> cases moved
  | send now =>
    rw [and_iff_right ⟨now, rfl⟩]
    cases place with
    | addLocksControler other =>
      cases moved
      simp
    | addUpdates other =>
      obtain ⟨_, _, ⟨⟩⟩ := map_eq_some_iff.mp moved
      exact iff_of_false nofun nofun
    | addLocksEntries _ | addUnlocks | dropLocks | dropCloses =>
      cases moved
      exact iff_of_false nofun nofun
    | _ => cases moved
  | sweep _ | beat | endBeat => cases sends

theorem move_waits_controler {later : Queues} {nextPlace : Place} {effect : Effect Lock} {now : Nat}
    (moved : move plugin.queues (.sweep now) (plugin.place .ttlFilters) =
      some (nextPlace, effect, later)) :
    (nextPlace.waits = some .controler ↔ plugin.findsExpired now = true) ∧
      (plugin.findsExpired now = true → effect = .pass) := by
  rw [findsExpired]
  cases place : plugin.place .ttlFilters with
  | exeLoop | argvLoop =>
    rw [place, move] at moved
    split at moved
    next none =>
      cases moved
      rw [none]
      exact ⟨iff_of_false (by rintro ⟨⟩) (by rintro ⟨⟩), by rintro ⟨⟩⟩
    next front rest queued =>
      rw [queued, head?_cons, any_some, Entry.expired, decide_eq_true_iff]
      split at moved <;> cases moved
      next young => exact ⟨iff_of_false (by rintro ⟨⟩) young.not_ge, fun _ => rfl⟩
      next old => exact ⟨iff_of_true rfl (not_lt.mp old), fun _ => rfl⟩
  | asleep | sweepLocksExe | exeLocksControler _ | sweepLocksArgv | argvLocksControler _
  | sweepUnlocksArgv | sweepUnlocksExe =>
    rw [place] at moved
    cases moved
    exact ⟨iff_of_false (by rintro ⟨⟩) (by rintro ⟨⟩), by rintro ⟨⟩⟩
  | exeControls _ | argvControls _ =>
    rw [place] at moved
    cases moved
    refine ⟨iff_of_false ?_ (by rintro ⟨⟩), by rintro ⟨⟩⟩
    split <;> rintro ⟨⟩
  | _ =>
    rw [place] at moved
    cases moved

theorem step_crossed_iff (invariant : plugin.Invariant) (notCrossed : ¬ plugin.Crossed)
    (stepped : plugin.step action = some (next, output)) :
    next.Crossed ↔ plugin.Crosses action := by
  obtain ⟨effect, moved, applied, placed, rfl⟩ := step_cases stepped
  have owners : ∀ other, other ≠ output.thread → ∀ lock,
      next.owner lock = some other ↔ plugin.owner lock = some other := fun _ differs =>
    invariant.consistent.owner_iff (move_leads moved).1 applied differs
  have stands : ∀ other, other ≠ output.thread → next.place other = plugin.place other := by
    intro other differs
    rw [placed, update_of_ne differs]
  cases output with
  | request _ | finish =>
    refine iff_of_false ?_ id
    rintro ⟨request, sends, _⟩
    obtain ⟨⟨_, isSend⟩, _⟩ := (move_addLocksEntries rfl moved request).mp sends
    cases isSend
  | send now =>
    refine exists_congr (fun request => ?_)
    rw [stands .ttlFilters nofun, owners .ttlFilters nofun]
    have comes := move_addLocksEntries rfl moved request
    rw [and_iff_right ⟨now, rfl⟩] at comes
    exact and_congr_left' comes
  | sweep now =>
    obtain ⟨goes, passes⟩ := move_waits_controler moved
    refine exists_congr (fun request => ?_)
    rw [stands .recordSend nofun]
    refine and_congr_right' ?_
    rw [← goes]
    refine and_congr_left (fun waits => ?_)
    -- to look at an entry is no step of a mutex
    rw [passes (goes.mp waits)] at applied
    rw [some.inj applied]
  | beat | endBeat =>
    refine iff_of_false (fun crossed => notCrossed ?_) id
    obtain ⟨request, sends, owned, sweeps⟩ := crossed
    rw [stands .recordSend nofun] at sends
    rw [owners .ttlFilters nofun] at owned
    rw [stands .ttlFilters nofun] at sweeps
    exact ⟨request, sends, owned, sweeps⟩

/-- The plugin never deadlocks in a run exactly if no step of the run crosses. -/
theorem deadlockFree_iff (actions : List Action) :
    Always step (fun _ plugin => ¬ plugin.Deadlocked) [] start actions ↔
      Machine.AllMeet step (OnOutput step fun _ plugin action => ¬ plugin.Crosses action) [] start
        actions := by
  refine always_iff_allMeet (fun _ plugin => plugin.Invariant) ?_ ?_ invariant_start ?_ actions
  · intro _ plugin action next output invariant _ stepped
    exact invariant.step stepped
  · intro _ plugin action next output invariant free stepped
    rw [invariant.deadlocked_iff] at free
    rw [(invariant.step stepped).deadlocked_iff, step_crossed_iff invariant free stepped]
    obtain ⟨_, _, _, _, rfl⟩ := step_cases stepped
    exact Iff.rfl
  · rw [invariant_start.deadlocked_iff]
    rintro ⟨_, sends, _⟩
    cases sends

def crossingRun : List Action :=
  [.request (.exe [0x78]), .send 0, .send 0, .send 0, .send 0,
    .sweep exeFilterTime, .sweep exeFilterTime, .sweep exeFilterTime,
    .request (.exe [0x79]), .send exeFilterTime]

theorem crossingRun_deadlocked :
    ∃ last outputs, run step start crossingRun = some (last, outputs) ∧ last.Deadlocked := by
  refine ⟨_, crossingRun, rfl, {.recordSend, .ttlFilters}, by decide, ?_⟩
  intro thread isStuck
  cases thread with
  | recordSend => exact ⟨.filteredExeEntries, rfl, .ttlFilters, by decide, nofun, rfl⟩
  | ttlFilters => exact ⟨.controler, rfl, .recordSend, by decide, nofun, rfl⟩
  | heartbeat => exact absurd isStuck (by decide)

end Plugin

end Elkeid.Kmod
