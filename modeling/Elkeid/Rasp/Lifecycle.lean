import Elkeid.Foundations.Since
import Elkeid.Rasp.Comm

/-!
# When a RASP server runs

The tracer keeps only the pid that has started a server: a later start in the same namespace
reuses the server and is not added. The server is killed when that pid stops, and since the id of
the child is never stored, the signal goes to the manager's own process group. So a kill ends all
servers and the manager, and the servers follow the started pids exactly when no pid is left at the
first kill.
-/

namespace Elkeid.Rasp

open Foundations Machine List Option AList

/-- A pid that was started in a mount namespace and not stopped since. -/
def Live (past : List Event) (pid : Int) (mntNamespace : String) : Prop :=
  Since (· = .started pid mntNamespace) (· = .stopped pid mntNamespace) past

variable {past : List Event} {pid other : Int} {mntNamespace elsewhere : String}

theorem live_failed {message : String} :
    Live (past ++ [.failed message]) other elsewhere ↔ Live past other elsewhere := by
  simp [Live]

theorem live_started : Live (past ++ [.started pid mntNamespace]) other elsewhere ↔
      (other = pid ∧ elsewhere = mntNamespace) ∨ Live past other elsewhere := by
  simp [Live, eq_comm]

theorem live_stopped : Live (past ++ [.stopped pid mntNamespace]) other elsewhere ↔
      Live past other elsewhere ∧ ¬ (other = pid ∧ elsewhere = mntNamespace) := by
  simp [Live, eq_comm]

theorem exists_live_started :
    (∃ other, Live (past ++ [.started pid mntNamespace]) other elsewhere) ↔
      elsewhere = mntNamespace ∨ ∃ other, Live past other elsewhere := by
  simp [live_started, exists_or]

namespace MntNamespaceTracer

variable {tracer : MntNamespaceTracer}

theorem serverState_eq_none : tracer.serverState mntNamespace = none ↔
    tracer.tracer.lookup mntNamespace = none :=
  map_eq_none_iff

theorem lookup_track (absent : tracer.tracer.lookup mntNamespace = none) :
    ((tracer.add mntNamespace pid).serverStateOn mntNamespace).tracer.lookup elsewhere =
      if elsewhere = mntNamespace then some ([pid], true) else tracer.tracer.lookup elsewhere := by
  have added : tracer.add mntNamespace pid =
      ⟨tracer.tracer.insert mntNamespace ([pid], false)⟩ := by
    rw [add, absent]
  rw [added, serverStateOn]
  simp only [lookup_insert]
  split
  next same => rw [same, lookup_insert]
  next differs => rw [lookup_insert_ne differs, lookup_insert_ne differs]

theorem serverStateOff_self {started : Bool}
    (found : tracer.tracer.lookup mntNamespace = some ([pid], started)) :
    tracer.serverStateOff mntNamespace pid = (⟨tracer.tracer.erase mntNamespace⟩, true) := by
  simp [serverStateOff, found]

theorem serverStateOff_other {started : Bool} (differs : other ≠ pid)
    (found : tracer.tracer.lookup mntNamespace = some ([pid], started)) :
    tracer.serverStateOff mntNamespace other =
      (⟨tracer.tracer.insert mntNamespace ([pid], started)⟩, false) := by
  simp [serverStateOff, found, differs]

theorem serverStateOff_absent (absent : tracer.tracer.lookup mntNamespace = none) :
    tracer.serverStateOff mntNamespace pid = (tracer, false) := by
  simp [serverStateOff, absent]

end MntNamespaceTracer

namespace Host

variable {host next : Host} {event : Event}

def Serves (host : Host) (mntNamespace : String) : Prop :=
  ∃ process ∈ host.processes, process.serves = some mntNamespace

def entry (host : Host) (mntNamespace : String) : Option (List Int × Bool) :=
  host.manager.namespaceTracer.tracer.lookup mntNamespace

structure Tracked (past : List Event) (host : Host) (comm : ProcessMode) : Prop where
  noThread : host.manager.threadComm = none
  isComm : host.manager.processComm = some comm
  entries : ∀ mntNamespace entry, host.entry mntNamespace = some entry →
    ∃ pid, entry = ([pid], true) ∧ Live past pid mntNamespace
  servers : ∀ mntNamespace, host.entry mntNamespace ≠ none →
    ∃ server, comm.mntNamespaceServerMap.lookup mntNamespace = some server ∧ server.childID = 0
  serves : ∀ mntNamespace, host.Serves mntNamespace ↔ host.entry mntNamespace ≠ none
  group : ∀ process ∈ host.processes, process.group = host.self.group

variable {comm : ProcessMode}

theorem Tracked.serverState (tracked : Tracked past host comm) {started : Bool}
    (state : host.manager.namespaceTracer.serverState mntNamespace = some started) :
    started = true := by
  obtain ⟨entry, found, rfl⟩ := map_eq_some_iff.mp state
  obtain ⟨pid, rfl, _⟩ := tracked.entries mntNamespace entry found
  rfl

/-- What a call leaves alone when no server starts or ends. -/
structure Same (host next : Host) : Prop where
  self : next.self = host.self
  processes : next.processes = host.processes
  noThread : next.manager.threadComm = host.manager.threadComm
  entry : ∀ mntNamespace, next.entry mntNamespace = host.entry mntNamespace

theorem Same.serves_iff (same : Same host next) :
    next.Serves mntNamespace ↔ host.Serves mntNamespace := by
  rw [Serves, Serves, same.processes]

theorem Tracked.of_same (tracked : Tracked past host comm) (same : Same host next)
    {later : ProcessMode} (isComm : next.manager.processComm = some later)
    (servers : ∀ mntNamespace server, comm.mntNamespaceServerMap.lookup mntNamespace = some server →
      ∃ new, later.mntNamespaceServerMap.lookup mntNamespace = some new ∧
        new.childID = server.childID)
    (live : ∀ pid mntNamespace, host.entry mntNamespace = some ([pid], true) →
      Live past pid mntNamespace → Live (past ++ [event]) pid mntNamespace) :
    Tracked (past ++ [event]) next later where
  noThread := same.noThread.trans tracked.noThread
  isComm := isComm
  entries := by
    intro mntNamespace entry found
    rw [same.entry] at found
    obtain ⟨pid, rfl, isLive⟩ := tracked.entries mntNamespace entry found
    exact ⟨pid, rfl, live pid mntNamespace found isLive⟩
  servers := by
    intro mntNamespace isListed
    rw [same.entry] at isListed
    obtain ⟨server, found, zero⟩ := tracked.servers mntNamespace isListed
    obtain ⟨new, isNew, sameChild⟩ := servers mntNamespace server found
    exact ⟨new, isNew, sameChild.trans zero⟩
  serves := by
    intro mntNamespace
    rw [same.serves_iff, same.entry]
    exact tracked.serves mntNamespace
  group := by
    rw [same.processes, same.self]
    exact tracked.group

/-! ## Starting -/

theorem childID_updatePatchField (server : ServerProcess) (patchField : List (String × String)) :
    (server.updatePatchField patchField).childID = server.childID := by
  rw [ServerProcess.updatePatchField]
  split <;> rfl

theorem same_updatePatchField (patchField : List (String × String)) :
    Same host (host.updatePatchField comm mntNamespace patchField) := by
  rw [updatePatchField]
  split <;> exact ⟨rfl, rfl, rfl, fun _ => rfl⟩

theorem Tracked.reused (tracked : Tracked past host comm) (patchField : List (String × String))
    (live : ∀ pid mntNamespace, Live past pid mntNamespace →
      Live (past ++ [event]) pid mntNamespace) :
    ∃ later, Tracked (past ++ [event])
      (host.updatePatchField comm mntNamespace patchField) later := by
  have same : Same host (host.updatePatchField comm mntNamespace patchField) :=
    same_updatePatchField patchField
  rw [updatePatchField] at same ⊢
  split at same
  next runner found =>
    refine ⟨_, tracked.of_same same rfl ?_ fun pid elsewhere _ => live pid elsewhere⟩
    intro elsewhere server isServer
    by_cases here : elsewhere = mntNamespace
    · subst here
      cases found.symm.trans isServer
      exact ⟨_, lookup_insert _, childID_updatePatchField runner patchField⟩
    · exact ⟨server, (lookup_insert_ne here).trans isServer, rfl⟩
  next =>
    exact ⟨comm, tracked.of_same same tracked.isComm (fun _ server found => ⟨server, found, rfl⟩)
      fun pid elsewhere _ => live pid elsewhere⟩

theorem serves_spawned {server : ServerProcess} {id : Nat} :
    ((host.withServer comm mntNamespace server id).track mntNamespace pid).Serves elsewhere ↔
      elsewhere = mntNamespace ∨ host.Serves elsewhere := by
  rw [Serves, Serves, track, withServer]
  simp only [mem_append, mem_singleton, or_and_right, exists_or, exists_eq_left, Option.some.injEq]
  rw [or_comm, eq_comm]

theorem Tracked.spawned (tracked : Tracked past host comm)
    (absent : host.entry mntNamespace = none) (patchField : List (String × String)) (id : Nat) :
    ∃ later, Tracked (past ++ [.started pid mntNamespace])
      ((host.withServer comm mntNamespace (.new pid patchField) id).track mntNamespace pid)
        later := by
  have entries : ∀ elsewhere,
      ((host.withServer comm mntNamespace (.new pid patchField) id).track mntNamespace pid).entry
        elsewhere = if elsewhere = mntNamespace then some ([pid], true) else host.entry elsewhere :=
    fun elsewhere => MntNamespaceTracer.lookup_track absent
  refine ⟨_, tracked.noThread, rfl, ?_, ?_, ?_, ?_⟩
  · intro elsewhere entry found
    rw [entries] at found
    split at found
    next same =>
      cases found
      exact ⟨pid, rfl, live_started.mpr (.inl ⟨rfl, same⟩)⟩
    next =>
      obtain ⟨first, rfl, isLive⟩ := tracked.entries elsewhere entry found
      exact ⟨first, rfl, live_started.mpr (.inr isLive)⟩
  · intro elsewhere isListed
    rw [entries] at isListed
    split at isListed
    next same =>
      subst same
      exact ⟨_, lookup_insert _, childID_updatePatchField _ patchField⟩
    next differs =>
      obtain ⟨server, found, zero⟩ := tracked.servers elsewhere isListed
      exact ⟨server, (lookup_insert_ne differs).trans found, zero⟩
  · intro elsewhere
    rw [serves_spawned, entries, tracked.serves]
    split
    next same => exact iff_of_true (.inl same) nofun
    next differs => exact or_iff_right differs
  · intro process listed
    rcases mem_append.mp listed with old | new
    · exact tracked.group process old
    · cases mem_singleton.mp new
      rfl

/-! ## Stopping -/

theorem Tracked.stop_kills (tracked : Tracked past host comm)
    (isFirst : host.entry mntNamespace = some ([pid], true)) :
    (host.manager.namespaceTracer.serverStateOff mntNamespace pid).2 = true ∧
      (host.stopComm pid mntNamespace).1.processes = [] := by
  have off := MntNamespaceTracer.serverStateOff_self isFirst
  refine ⟨by rw [off], ?_⟩
  obtain ⟨server, found, zero⟩ := tracked.servers mntNamespace (by rw [isFirst]; exact nofun)
  have nobody : killpg host.self 0 host.processes = [] := by
    rw [killpg, filter_eq_nil_iff]
    intro process listed
    rw [if_pos rfl, tracked.group process listed, bne_self_eq_false]
    exact Bool.false_ne_true
  simp only [stopComm, off, stopProcess, tracked.isComm, found, if_true, ServerProcess.kill, zero,
    nobody]
  rfl

theorem Tracked.stop_spares (tracked : Tracked past host comm)
    (notFirst : host.entry mntNamespace ≠ some ([pid], true)) :
    (host.manager.namespaceTracer.serverStateOff mntNamespace pid).2 = false ∧
      Same host (host.stopComm pid mntNamespace).1 ∧
      (host.stopComm pid mntNamespace).1.manager.processComm = host.manager.processComm := by
  cases found : host.entry mntNamespace with
  | none =>
    have off : host.manager.namespaceTracer.serverStateOff mntNamespace pid = _ :=
      MntNamespaceTracer.serverStateOff_absent found
    simp only [stopComm, off, Bool.false_eq_true, if_false]
    exact ⟨trivial, ⟨rfl, rfl, rfl, fun _ => rfl⟩, trivial⟩
  | some entry =>
    obtain ⟨first, rfl, _⟩ := tracked.entries mntNamespace entry found
    have differs : pid ≠ first := by
      rintro rfl
      exact notFirst found
    have off := MntNamespaceTracer.serverStateOff_other differs found
    simp only [stopComm, off, Bool.false_eq_true, if_false]
    refine ⟨trivial, ⟨rfl, rfl, rfl, fun elsewhere => ?_⟩, trivial⟩
    by_cases here : elsewhere = mntNamespace
    · subst here
      exact (lookup_insert _).trans found.symm
    · exact lookup_insert_ne here

/-! ## Runs -/

/-- In a namespace a server runs exactly when a started pid was not stopped. -/
def ServersMatch (past : List Event) (host : Host) : Prop :=
  ∀ mntNamespace, host.Serves mntNamespace ↔ ∃ pid, Live past pid mntNamespace

/-- A stop that kills finds no pid left, in any namespace. -/
def StopsLast (past : List Event) (host : Host) : Event → Prop
  | .stopped pid mntNamespace =>
    (host.manager.namespaceTracer.serverStateOff mntNamespace pid).2 = true →
      ∀ other elsewhere, ¬ Live (past ++ [.stopped pid mntNamespace]) other elsewhere
  | _ => True

theorem Took.tracked (took : Took host comm next event) (tracked : Tracked past host comm)
    (alive : next.Alive) : ∃ later, Tracked (past ++ [event]) next later := by
  have unmoved : Same host host := ⟨rfl, rfl, rfl, fun _ => rfl⟩
  cases took with
  | failed message =>
    exact ⟨comm, tracked.of_same unmoved tracked.isComm (fun _ server found => ⟨server, found, rfl⟩)
      fun _ _ _ => live_failed.mpr⟩
  | reused pid mntNamespace patchField =>
    exact tracked.reused patchField fun _ _ isLive => live_started.mpr (.inr isLive)
  | reopened pid mntNamespace closed => cases tracked.serverState closed
  | spawned pid mntNamespace patchField id absent =>
    exact tracked.spawned (MntNamespaceTracer.serverState_eq_none.mp absent) patchField id
  | stopped pid mntNamespace =>
    by_cases isFirst : host.entry mntNamespace = some ([pid], true)
    · rw [Alive, (tracked.stop_kills isFirst).2] at alive
      cases alive
    · obtain ⟨_, same, isComm⟩ := tracked.stop_spares isFirst
      refine ⟨comm, tracked.of_same same (isComm.trans tracked.isComm)
        (fun _ server found => ⟨server, found, rfl⟩) ?_⟩
      intro first elsewhere found isLive
      refine live_stopped.mpr ⟨isLive, ?_⟩
      rintro ⟨rfl, rfl⟩
      exact isFirst found

theorem Tracked.first_of_serves (tracked : Tracked past host comm)
    (serves : host.Serves elsewhere) :
    ∃ first, host.entry elsewhere = some ([first], true) ∧ Live past first elsewhere := by
  obtain ⟨entry, found⟩ := ne_none_iff_exists'.mp ((tracked.serves elsewhere).mp serves)
  obtain ⟨first, rfl, isLive⟩ := tracked.entries elsewhere entry found
  exact ⟨first, found, isLive⟩

theorem Took.match_iff (took : Took host comm next event) (tracked : Tracked past host comm)
    (before : ServersMatch past host) :
    ServersMatch (past ++ [event]) next ↔ StopsLast past host event := by
  cases took with
  | failed message =>
    refine iff_of_true (fun elsewhere => (before elsewhere).trans ?_) trivial
    simp [live_failed]
  | reused pid mntNamespace patchField isOpen =>
    refine iff_of_true (fun elsewhere => ?_) trivial
    rw [(same_updatePatchField patchField).serves_iff, before elsewhere, exists_live_started]
    refine (or_iff_right_of_imp ?_).symm
    rintro rfl
    refine (before elsewhere).mp ((tracked.serves elsewhere).mpr fun absent => ?_)
    cases (MntNamespaceTracer.serverState_eq_none.mpr absent).symm.trans isOpen
  | reopened pid mntNamespace closed => cases tracked.serverState closed
  | spawned pid mntNamespace patchField id absent =>
    refine iff_of_true (fun elsewhere => ?_) trivial
    rw [serves_spawned, exists_live_started, before elsewhere]
  | stopped pid mntNamespace =>
    by_cases isFirst : host.entry mntNamespace = some ([pid], true)
    · obtain ⟨kills, nobody⟩ := tracked.stop_kills isFirst
      have noServer : ∀ elsewhere, ¬ (host.stopComm pid mntNamespace).1.Serves elsewhere := by
        rintro elsewhere ⟨process, listed, _⟩
        rw [nobody] at listed
        cases listed
      constructor
      · intro after _ other elsewhere isLive
        exact noServer elsewhere ((after elsewhere).mpr ⟨other, isLive⟩)
      · intro last elsewhere
        exact iff_of_false (noServer elsewhere) fun ⟨other, isLive⟩ =>
          last kills other elsewhere isLive
    · obtain ⟨spares, same, _⟩ := tracked.stop_spares isFirst
      refine iff_of_true (fun elsewhere => ?_) fun kills => ?_
      · rw [same.serves_iff]
        constructor
        · intro serves
          obtain ⟨first, found, isLive⟩ := tracked.first_of_serves serves
          refine ⟨first, live_stopped.mpr ⟨isLive, ?_⟩⟩
          rintro ⟨rfl, rfl⟩
          exact isFirst found
        · rintro ⟨other, isLive⟩
          exact (before elsewhere).mpr ⟨other, (live_stopped.mp isLive).1⟩
      · cases spares.symm.trans kills

theorem alive_of_step {action : Action} (stepped : host.step action = some (next, event)) :
    host.Alive := by
  simp only [step, ite_none_right_eq_some] at stepped
  exact stepped.1

theorem newServerHost_tracked (self : Process) (servesNone : self.serves = none) :
    Tracked [] (newServerHost self) ⟨∅⟩ where
  noThread := rfl
  isComm := rfl
  entries := nofun
  servers := fun _ isListed => absurd rfl isListed
  serves := by
    intro mntNamespace
    refine iff_of_false ?_ fun isListed => isListed rfl
    rintro ⟨process, listed, serves⟩
    rw [mem_singleton.mp listed, servesNone] at serves
    cases serves
  group := fun process listed => by rw [mem_singleton.mp listed]; rfl

end Host

open Host in
/-- Whatever is started and stopped in server mode, the servers match the started pids after every
call exactly when no pid is left in any namespace at a stop that kills. -/
theorem servers_match_iff (id group : Nat) (actions : List Action) :
    Always Host.step ServersMatch [] (newServerHost ⟨id, group, none⟩) actions ↔
      AllMeet Host.step (OnOutput Host.step StopsLast) [] (newServerHost ⟨id, group, none⟩)
        actions := by
  refine always_iff_allMeet (fun past host => host.Alive → ∃ comm, Tracked past host comm)
    ?_ ?_ ?_ ?_ actions
  · intro past host action next event isTracked _ stepped alive
    obtain ⟨comm, tracked⟩ := isTracked (alive_of_step stepped)
    exact (took_of_step tracked.noThread tracked.isComm stepped).tracked tracked alive
  · intro past host action next event isTracked before stepped
    obtain ⟨comm, tracked⟩ := isTracked (alive_of_step stepped)
    exact (took_of_step tracked.noThread tracked.isComm stepped).match_iff tracked before
  · exact fun _ => ⟨_, newServerHost_tracked _ rfl⟩
  · intro mntNamespace
    refine iff_of_false ?_ fun ⟨_, isLive⟩ => Since.not_nil isLive
    rintro ⟨process, listed, serves⟩
    cases mem_singleton.mp listed
    cases serves

def inNamespace (pid : Int) (mntNamespace : String) : ProcessInfo where
  pid := pid
  cmdline := none
  exePath := none
  sid := pid
  ruid := 0
  rgid := 0
  euid := 0
  egid := 0
  suid := 0
  sgid := 0
  fuid := 0
  fgid := 0
  ppid := 1
  tgid := pid
  namespaceInfo := some (some mntNamespace)

def spawning (id : Nat) : Answers where
  nspid := .ok none
  mounted := .ok ()
  linked := .ok ()
  spawned := .ok id

def firstStops : List Action :=
  [.start (inNamespace 10 "mnt") (spawning 100), .start (inNamespace 11 "mnt") (spawning 101),
    .stop (inNamespace 10 "mnt")]

theorem firstStops_no_server :
    ∃ host events, run Host.step (newServerHost ⟨1, 1, none⟩) firstStops = some (host, events) ∧
      Live events 11 "mnt" ∧ ¬ host.Serves "mnt" ∧ ¬ host.Alive := by
  refine ⟨_, _, rfl, ?_, ?_, ?_⟩
  · unfold Live
    decide
  · rintro ⟨process, listed, _⟩
    cases listed
  · exact nofun

end Elkeid.Rasp
