import Elkeid.Agent.Load
import Elkeid.Foundations.Machine

/-!
# The plugin daemon

`Startup` of `agent/plugin/plugin.go` with the map of plugins and their processes. A
process exits at any moment, and the goroutine that waits for it reaps it later. A
sync loads the configurations one after another, in any order, and then removes the
plugins that are not configured. A shutdown waits until the process is reaped. The
part of `Load` that starts the process and stores the plugin is one step.
-/

namespace Elkeid.Agent

open Foundations Machine List Function AList

structure Setting where
  hash : Bytes → Bytes
  unpack : Bytes → Option Archive
  agentDirectory : Path
  product : Bytes

/-- A `map[string]*proto.Config` with every configuration under its name. -/
structure ConfigSet where
  configs : AList (fun _ : Bytes => Config)
  named : ∀ name config, configs.lookup name = some config → config.name = name

namespace ConfigSet

def empty : ConfigSet := ⟨∅, fun _ _ isConfigured => by cases isConfigured⟩

def insert (cfgs : ConfigSet) (config : Config) : ConfigSet where
  configs := cfgs.configs.insert config.name config
  named := by
    intro name other isConfigured
    by_cases same : name = config.name
    · subst same
      cases (AList.lookup_insert _).symm.trans isConfigured
      rfl
    · exact cfgs.named name other ((AList.lookup_insert_ne same).symm.trans isConfigured)

def delete (cfgs : ConfigSet) (name : Bytes) : ConfigSet where
  configs := cfgs.configs.erase name
  named := by
    intro other config isConfigured
    by_cases same : other = name
    · subst same
      cases (AList.lookup_erase _ _).symm.trans isConfigured
    · exact cfgs.named other config ((AList.lookup_erase_ne same).symm.trans isConfigured)

def values (cfgs : ConfigSet) : List Config := cfgs.configs.entries.map Sigma.snd

end ConfigSet

inductive Status where
  | running
  /-- exited and not yet waited for -/
  | zombie
  /-- `cmd.ProcessState != nil` -/
  | reaped
  deriving DecidableEq

structure Process where
  name : Bytes
  status : Status

/-- `process` is the process that `cmd` has started. -/
structure PluginEntry where
  config : Config
  process : Nat
  deriving DecidableEq

inductive Phase where
  | idle
  | loading (cfgs : ConfigSet) (rest : List Config) (good : Bool)
  /-- `Load` waits for the process of the other version -/
  | stopping (cfgs : ConfigSet) (config : Config) (rest : List Config) (good : Bool)
  | launching (cfgs : ConfigSet) (config : Config) (rest : List Config) (good : Bool)
  | removing (cfgs : ConfigSet) (rest : List PluginEntry) (good : Bool)
  | closing
  | stopped

abbrev PluginMap := AList (fun _ : Bytes => PluginEntry)

/-- `good` in a phase says that no `Load` of the sync has failed so far. -/
structure Daemon where
  plugins : PluginMap
  processes : Nat → Option Process
  /-- the next process -/
  fresh : Nat
  disk : Disk
  phase : Phase

namespace Daemon

inductive Action where
  | exit (process : Nat)
  | reap (process : Nat)
  /-- the daemon takes a set, which it will range over in the given order -/
  | sync (cfgs : ConfigSet) (order : List Config)
  | advance (calls : LoadCalls)
  /-- `GetAll` returns the plugins in the given order -/
  | getAll (order : List PluginEntry)
  | cancel

inductive Event where
  | silent
  | finished (cfgs : ConfigSet) (good : Bool)

def start (disk : Disk) : Daemon := ⟨∅, fun _ => none, 0, disk, .idle⟩

def statusOf (daemon : Daemon) (process : Nat) : Option Status :=
  (daemon.processes process).map Process.status

def isExited (daemon : Daemon) (plugin : PluginEntry) : Bool :=
  daemon.statusOf plugin.process = some .reaped

def stored (daemon : Daemon) (name : Bytes) : Option Stored :=
  (daemon.plugins.lookup name).map (fun plugin => ⟨plugin.config.version, daemon.isExited plugin⟩)

def change (daemon : Daemon) (process : Nat) (before after : Status) : Option Daemon :=
  match daemon.processes process with
  | none => none
  | some found =>
    if found.status = before then
      some { daemon with
        processes :=
          Function.update daemon.processes process (some { found with status := after }) }
    else none

def allExited (daemon : Daemon) : Bool :=
  daemon.plugins.entries.all (fun entry => daemon.isExited entry.2)

/-- The end of a `Load` that has started a process. -/
def store (daemon : Daemon) (config : Config) (disk : Disk) (phase : Phase) : Daemon :=
  { plugins := daemon.plugins.insert config.name ⟨config, daemon.fresh⟩
    processes := Function.update daemon.processes daemon.fresh (some ⟨config.name, .running⟩)
    fresh := daemon.fresh + 1
    disk, phase }

section Setting

variable (setting : Setting)

def advance (daemon : Daemon) (calls : LoadCalls) : Option (Daemon × Event) :=
  match daemon.phase with
  | .idle => none
  | .loading _ [] _ => none
  | .loading cfgs (config :: rest) good =>
    if config.name = setting.product then
      some ({ daemon with phase := .loading cfgs rest good }, .silent)
    else
      match lookup (daemon.stored config.name) config with
      | .duplicate => some ({ daemon with phase := .loading cfgs rest good }, .silent)
      | .proceed true => some ({ daemon with phase := .stopping cfgs config rest good }, .silent)
      | .proceed false => some ({ daemon with phase := .launching cfgs config rest good }, .silent)
  | .stopping cfgs config rest good =>
    match daemon.plugins.lookup config.name with
    | none => none
    | some plugin =>
      if daemon.isExited plugin then
        some ({ daemon with phase := .launching cfgs config rest good }, .silent)
      else none
  | .launching cfgs config rest good =>
    match launch setting.hash setting.unpack setting.agentDirectory calls
        { daemon.disk with wrote := [] } config with
    | (.started _, disk) =>
      some (daemon.store config.withSignature disk (.loading cfgs rest good), .silent)
    | (_, disk) => some ({ daemon with disk, phase := .loading cfgs rest false }, .silent)
  | .removing cfgs [] good => some ({ daemon with phase := .idle }, .finished cfgs good)
  | .removing cfgs (plugin :: rest) good =>
    if plugin.config.name ∈ cfgs.configs then
      some ({ daemon with phase := .removing cfgs rest good }, .silent)
    else if daemon.isExited plugin then
      some ({ daemon with
        plugins := daemon.plugins.erase plugin.config.name
        disk := daemon.disk.removeAll
          (workingDirectory setting.agentDirectory plugin.config.name)
        phase := .removing cfgs rest good }, .silent)
    else none
  | .closing =>
    if daemon.allExited then some ({ daemon with plugins := ∅, phase := .stopped }, .silent)
    else none
  | .stopped => none

def step (daemon : Daemon) : Action → Option (Daemon × Event)
  | .exit process => (daemon.change process .running .zombie).map (·, .silent)
  | .reap process => (daemon.change process .zombie .reaped).map (·, .silent)
  | .sync cfgs order =>
    match daemon.phase with
    | .idle =>
      if order.Perm cfgs.values then
        some ({ daemon with phase := .loading cfgs order true }, .silent)
      else none
    | _ => none
  | .advance calls => daemon.advance setting calls
  | .getAll order =>
    match daemon.phase with
    | .loading cfgs [] good =>
      if order.Perm (daemon.plugins.entries.map Sigma.snd) then
        some ({ daemon with phase := .removing cfgs order good }, .silent)
      else none
    | _ => none
  | .cancel =>
    match daemon.phase with
    | .idle => some ({ daemon with phase := .closing }, .silent)
    | _ => none

end Setting

section Invariant

variable (setting : Setting) (plugins : PluginMap)

def Vacant (daemon : Daemon) (name : Bytes) : Prop :=
  ∀ plugin, daemon.plugins.lookup name = some plugin → daemon.isExited plugin = true

def Loaded (config : Config) : Prop :=
  ∃ plugin, plugins.lookup config.name = some plugin ∧ plugin.config.version = config.version

/-- The configurations that still have to be loaded; the others are, unless a `Load` failed. -/
structure Pending (cfgs : ConfigSet) (pending : List Config) (good : Bool) : Prop where
  configured : ∀ config ∈ pending, cfgs.configs.lookup config.name = some config
  distinct : pending.Nodup
  loaded : good = true → ∀ name config, cfgs.configs.lookup name = some config →
    name ≠ setting.product → config ∉ pending → Loaded plugins config

/-- The plugins that the second pass still has to look at. -/
structure Removing (cfgs : ConfigSet) (rest : List PluginEntry) : Prop where
  present : ∀ plugin ∈ rest, plugins.lookup plugin.config.name = some plugin
  distinct : (rest.map (fun plugin => plugin.config.name)).Nodup
  listed : ∀ name plugin, plugins.lookup name = some plugin → name ∉ cfgs.configs → plugin ∈ rest

def InPhase (daemon : Daemon) : Prop :=
  match daemon.phase with
  | .idle => True
  | .loading cfgs rest good => Pending setting daemon.plugins cfgs rest good
  | .stopping cfgs config rest good =>
    Pending setting daemon.plugins cfgs (config :: rest) good ∧ config.name ≠ setting.product
  | .launching cfgs config rest good =>
    Pending setting daemon.plugins cfgs (config :: rest) good ∧ config.name ≠ setting.product ∧
      daemon.Vacant config.name
  | .removing cfgs rest good =>
    Pending setting daemon.plugins cfgs [] good ∧ Removing daemon.plugins cfgs rest
  | .closing => True
  | .stopped => True

/-- Every process that is not reaped belongs to the plugin stored under its name. -/
structure Supervised (daemon : Daemon) : Prop where
  kept : ∀ process found, daemon.processes process = some found → found.status ≠ .reaped →
    ∃ plugin, daemon.plugins.lookup found.name = some plugin ∧ plugin.process = process
  entries : ∀ name plugin, daemon.plugins.lookup name = some plugin →
    plugin.config.name = name ∧ name ≠ setting.product ∧ plugin.process < daemon.fresh
  unused : ∀ process, daemon.fresh ≤ process → daemon.processes process = none
  inPhase : daemon.InPhase setting

def Matches (cfgs : ConfigSet) (daemon : Daemon) : Prop :=
  ∀ name version, (∃ plugin, daemon.plugins.lookup name = some plugin ∧
      plugin.config.version = version) ↔
    ∃ config, cfgs.configs.lookup name = some config ∧ config.version = version ∧
      name ≠ setting.product

end Invariant

theorem Supervised.start (setting : Setting) (disk : Disk) : (start disk).Supervised setting where
  kept := fun _ _ isProcess => by cases isProcess
  entries := fun _ _ isStored => by cases isStored
  unused := fun _ _ => rfl
  inPhase := trivial

section Steps

variable {setting : Setting} {daemon next : Daemon} {plugin : PluginEntry} {config : Config}
  {cfgs : ConfigSet} {rest : List Config} {event : Event}

theorem isExited_iff : daemon.isExited plugin = true ↔
    ∃ found, daemon.processes plugin.process = some found ∧ found.status = .reaped := by
  rw [isExited, decide_eq_true_iff, statusOf, Option.map_eq_some_iff]

theorem not_exited {process : Nat} {found : Process}
    (isProcessOf : plugin.process = process) (isProcess : daemon.processes process = some found)
    (notReaped : found.status ≠ .reaped) : daemon.isExited plugin ≠ true := by
  intro exited
  obtain ⟨seen, isSeen, reaped⟩ := isExited_iff.mp exited
  rw [isProcessOf, isProcess] at isSeen
  cases isSeen
  exact notReaped reaped

/-- Processes have only gone on to later statuses. -/
structure Aged (daemon next : Daemon) : Prop where
  plugins : next.plugins = daemon.plugins
  fresh : next.fresh = daemon.fresh
  phase : next.phase = daemon.phase
  backward : ∀ process found, next.processes process = some found →
    ∃ was, daemon.processes process = some was ∧ found.name = was.name ∧
      (was.status = .reaped → found.status = .reaped)
  exited : ∀ plugin, daemon.isExited plugin = true → next.isExited plugin = true

section

variable (aged : Aged daemon next)
include aged

theorem Aged.inPhase (inPhase : daemon.InPhase setting) : next.InPhase setting := by
  rw [InPhase, aged.phase, aged.plugins]
  rw [InPhase] at inPhase
  cases phase : daemon.phase with
  | launching cfgs config rest good =>
    rw [phase] at inPhase
    refine ⟨inPhase.1, inPhase.2.1, ?_⟩
    intro plugin isStored
    rw [aged.plugins] at isStored
    exact aged.exited plugin (inPhase.2.2 plugin isStored)
  | _ =>
    rw [phase] at inPhase
    exact inPhase

end

theorem Supervised.aged (supervised : daemon.Supervised setting) (aged : Aged daemon next) :
    next.Supervised setting := by
  refine ⟨?_, ?_, ?_, aged.inPhase supervised.inPhase⟩
  · intro process found isProcess notReaped
    obtain ⟨was, wasProcess, sameName, stays⟩ := aged.backward process found isProcess
    rw [aged.plugins, sameName]
    exact supervised.kept process was wasProcess (fun reaped => notReaped (stays reaped))
  · rw [aged.plugins, aged.fresh]
    exact supervised.entries
  · intro process beyond
    rw [aged.fresh] at beyond
    cases isProcess : next.processes process with
    | none => rfl
    | some found =>
      obtain ⟨was, wasProcess, _⟩ := aged.backward process found isProcess
      cases wasProcess.symm.trans (supervised.unused process beyond)

theorem aged_of_change {process : Nat} {before after : Status} (early : before ≠ .reaped)
    (changed : daemon.change process before after = some next) : Aged daemon next := by
  rw [change] at changed
  split at changed
  next => cases changed
  next found isProcess =>
    split at changed <;> cases changed
    next isBefore =>
      refine ⟨rfl, rfl, rfl, ?_, ?_⟩
      · intro other seen isOther
        by_cases same : other = process
        · subst same
          simp only [update_self, Option.some.injEq] at isOther
          subst isOther
          exact ⟨found, isProcess, rfl, fun reaped => absurd (isBefore.symm.trans reaped) early⟩
        · simp only [update_of_ne same] at isOther
          exact ⟨seen, isOther, rfl, id⟩
      · intro plugin exited
        obtain ⟨seen, isSeen, reaped⟩ := isExited_iff.mp exited
        refine isExited_iff.mpr ⟨seen, ?_, reaped⟩
        by_cases same : plugin.process = process
        · cases isProcess.symm.trans (same ▸ isSeen)
          exact absurd (isBefore.symm.trans reaped) early
        · exact (update_of_ne same _ _).trans isSeen

theorem Supervised.withPhase (supervised : daemon.Supervised setting) (disk : Disk) {phase : Phase}
    (inPhase : InPhase setting { daemon with disk, phase }) :
    Supervised setting { daemon with disk, phase } :=
  ⟨supervised.kept, supervised.entries, supervised.unused, inPhase⟩

theorem Pending.tail {plugins : PluginMap} {good : Bool}
    (pending : Pending setting plugins cfgs (config :: rest) good)
    (settled : config.name ≠ setting.product → Loaded plugins config) :
    Pending setting plugins cfgs rest good where
  configured := fun other listed => pending.configured other (mem_cons_of_mem _ listed)
  distinct := pending.distinct.of_cons
  loaded := by
    intro isGood name other isConfigured notProduct notPending
    by_cases same : other = config
    · subst same
      exact settled (cfgs.named name other isConfigured ▸ notProduct)
    · exact pending.loaded isGood name other isConfigured notProduct
        (not_mem_cons_of_ne_of_not_mem same notPending)

theorem loaded_of_duplicate
    (looked : lookup (daemon.stored config.name) config = .duplicate) :
    Loaded daemon.plugins config := by
  cases isStored : daemon.plugins.lookup config.name with
  | none =>
    simp only [lookup, stored, isStored, Option.map_none] at looked
    cases looked
  | some plugin =>
    simp only [lookup, stored, isStored, Option.map_some] at looked
    split at looked
    next same => exact ⟨plugin, isStored, same.1⟩
    next => cases looked

theorem vacant_of_proceed (looked : lookup (daemon.stored config.name) config = .proceed false) :
    daemon.Vacant config.name := by
  intro plugin isStored
  simp only [lookup, stored, isStored, Option.map_some] at looked
  split at looked
  next => cases looked
  next notSame =>
    simp only [Lookup.proceed.injEq, decide_eq_false_iff_not] at looked
    cases exited : daemon.isExited plugin with
    | true => rfl
    | false =>
      refine absurd ⟨fun same => notSame ⟨same, exited⟩, exited⟩ looked

theorem Supervised.store (supervised : daemon.Supervised setting)
    (vacant : daemon.Vacant config.name) (notProduct : config.name ≠ setting.product) (disk : Disk)
    {phase : Phase} (inPhase : (daemon.store config disk phase).InPhase setting) :
    (daemon.store config disk phase).Supervised setting := by
  refine ⟨?_, ?_, ?_, inPhase⟩
  · intro process found isProcess notReaped
    by_cases isNew : process = daemon.fresh
    · subst isNew
      simp only [Daemon.store, update_self, Option.some.injEq] at isProcess
      subst isProcess
      exact ⟨⟨config, daemon.fresh⟩, lookup_insert _, rfl⟩
    · simp only [Daemon.store, update_of_ne isNew] at isProcess
      obtain ⟨plugin, isStored, isProcessOf⟩ := supervised.kept process found isProcess notReaped
      refine ⟨plugin, ?_, isProcessOf⟩
      rw [← isStored]
      apply lookup_insert_ne
      intro sameName
      rw [sameName] at isStored
      exact not_exited isProcessOf isProcess notReaped (vacant plugin isStored)
  · intro name plugin isStored
    by_cases sameName : name = config.name
    · subst sameName
      cases (lookup_insert _).symm.trans isStored
      exact ⟨rfl, notProduct, Nat.lt_succ_self _⟩
    · have wasStored := (lookup_insert_ne sameName).symm.trans isStored
      obtain ⟨named, notAgent, old⟩ := supervised.entries name plugin wasStored
      exact ⟨named, notAgent, Nat.lt_succ_of_lt old⟩
  · intro process beyond
    have isOther : process ≠ daemon.fresh := by
      rintro rfl
      exact absurd beyond (Nat.not_succ_le_self _)
    exact (update_of_ne isOther _ _).trans (supervised.unused process (Nat.le_of_succ_le beyond))

theorem Pending.store {good : Bool}
    (pending : Pending setting daemon.plugins cfgs (config :: rest) good) (disk : Disk)
    (phase : Phase) :
    Pending setting (daemon.store config.withSignature disk phase).plugins cfgs rest good where
  configured := fun other listed => pending.configured other (mem_cons_of_mem _ listed)
  distinct := pending.distinct.of_cons
  loaded := by
    intro isGood name other isConfigured notProduct notPending
    have isNamed := cfgs.named name other isConfigured
    by_cases same : other = config
    · subst same
      refine ⟨⟨other.withSignature, daemon.fresh⟩, ?_, withSignature_version⟩
      rw [← @withSignature_name other]
      exact lookup_insert _
    · obtain ⟨plugin, isStored, version⟩ := pending.loaded isGood name other isConfigured notProduct
        (not_mem_cons_of_ne_of_not_mem same notPending)
      refine ⟨plugin, ?_, version⟩
      rw [← isStored]
      apply lookup_insert_ne
      rw [withSignature_name]
      intro sameName
      have isOther := pending.configured config mem_cons_self
      rw [← sameName, isNamed] at isOther
      exact same (Option.some.inj (isConfigured.symm.trans isOther))

inductive Advanced (setting : Setting) (daemon : Daemon) : Daemon → Event → Prop
  | skipped (cfgs config rest good) (phase : daemon.phase = .loading cfgs (config :: rest) good)
      (settled : config.name ≠ setting.product → Loaded daemon.plugins config) :
      Advanced setting daemon { daemon with phase := .loading cfgs rest good } .silent
  | waits (cfgs config rest good) (phase : daemon.phase = .loading cfgs (config :: rest) good)
      (notProduct : config.name ≠ setting.product) :
      Advanced setting daemon { daemon with phase := .stopping cfgs config rest good } .silent
  | proceeds (cfgs config rest good) (phase : daemon.phase = .loading cfgs (config :: rest) good)
      (notProduct : config.name ≠ setting.product) (vacant : daemon.Vacant config.name) :
      Advanced setting daemon { daemon with phase := .launching cfgs config rest good } .silent
  | waited (cfgs config rest good) (phase : daemon.phase = .stopping cfgs config rest good)
      (vacant : daemon.Vacant config.name) :
      Advanced setting daemon { daemon with phase := .launching cfgs config rest good } .silent
  | started (cfgs config rest good disk) (phase : daemon.phase = .launching cfgs config rest good) :
      Advanced setting daemon
        (daemon.store config.withSignature disk (.loading cfgs rest good)) .silent
  | failed (cfgs config rest good disk) (phase : daemon.phase = .launching cfgs config rest good) :
      Advanced setting daemon { daemon with disk, phase := .loading cfgs rest false } .silent
  | finished (cfgs good) (phase : daemon.phase = .removing cfgs [] good) :
      Advanced setting daemon { daemon with phase := .idle } (.finished cfgs good)
  | kept (cfgs plugin rest good) (phase : daemon.phase = .removing cfgs (plugin :: rest) good)
      (listed : plugin.config.name ∈ cfgs.configs) :
      Advanced setting daemon { daemon with phase := .removing cfgs rest good } .silent
  | deleted (cfgs plugin rest good disk)
      (phase : daemon.phase = .removing cfgs (plugin :: rest) good)
      (notListed : plugin.config.name ∉ cfgs.configs) (exited : daemon.isExited plugin = true) :
      Advanced setting daemon
        { daemon with
          plugins := daemon.plugins.erase plugin.config.name
          disk
          phase := .removing cfgs rest good }
        .silent
  | closed (phase : daemon.phase = .closing) (allGone : daemon.allExited = true) :
      Advanced setting daemon { daemon with plugins := ∅, phase := .stopped } .silent

theorem advanced_of_advance {calls : LoadCalls}
    (taken : daemon.advance setting calls = some (next, event)) :
    Advanced setting daemon next event := by
  rw [advance] at taken
  split at taken
  next => cases taken
  next => cases taken
  next cfgs config rest good phase =>
    split at taken
    next isProduct =>
      cases taken
      exact .skipped cfgs config rest good phase fun notProduct => absurd isProduct notProduct
    next notProduct =>
      split at taken <;> cases taken
      next looked => exact .skipped cfgs config rest good phase fun _ => loaded_of_duplicate looked
      next => exact .waits cfgs config rest good phase notProduct
      next looked =>
        exact .proceeds cfgs config rest good phase notProduct (vacant_of_proceed looked)
  next cfgs config rest good phase =>
    split at taken
    next => cases taken
    next plugin isStored =>
      split at taken <;> cases taken
      next exited =>
        refine .waited cfgs config rest good phase ?_
        intro other isOther
        cases isStored.symm.trans isOther
        exact exited
  next cfgs config rest good phase =>
    split at taken <;> cases taken
    next => exact .started cfgs config rest good _ phase
    next => exact .failed cfgs config rest good _ phase
  next cfgs good phase =>
    cases taken
    exact .finished cfgs good phase
  next cfgs plugin rest good phase =>
    split at taken
    next listed =>
      cases taken
      exact .kept cfgs plugin rest good phase listed
    next notListed =>
      split at taken <;> cases taken
      next exited => exact .deleted cfgs plugin rest good _ phase notListed exited
  next phase =>
    split at taken <;> cases taken
    next allGone => exact .closed phase allGone
  next => cases taken

section

variable (supervised : daemon.Supervised setting)
include supervised

theorem Supervised.delete {good : Bool} {others : List PluginEntry}
    (phase : daemon.phase = .removing cfgs (plugin :: others) good)
    (notListed : plugin.config.name ∉ cfgs.configs) (exited : daemon.isExited plugin = true)
    (disk : Disk) :
    Supervised setting { daemon with
      plugins := daemon.plugins.erase plugin.config.name
      disk
      phase := .removing cfgs others good } := by
  have inPhase := supervised.inPhase
  simp only [InPhase, phase] at inPhase
  obtain ⟨pending, present, distinct, listed⟩ := inPhase
  have isStored := present plugin mem_cons_self
  rw [map_cons, nodup_cons] at distinct
  have before {name : Bytes} {other : PluginEntry}
      (isOther : (daemon.plugins.erase plugin.config.name).lookup name = some other) :
      name ≠ plugin.config.name ∧ daemon.plugins.lookup name = some other := by
    by_cases same : name = plugin.config.name
    · subst same
      cases (lookup_erase _ _).symm.trans isOther
    · exact ⟨same, (lookup_erase_ne same).symm.trans isOther⟩
  refine ⟨?_, ?_, supervised.unused, ⟨pending.configured, pending.distinct, ?_⟩, ?_, distinct.2, ?_⟩
  · intro process found isProcess notReaped
    obtain ⟨other, isOther, isProcessOf⟩ := supervised.kept process found isProcess notReaped
    refine ⟨other, ?_, isProcessOf⟩
    rw [← isOther]
    apply lookup_erase_ne
    intro sameName
    rw [sameName, isStored] at isOther
    cases isOther
    exact not_exited isProcessOf isProcess notReaped exited
  · intro name other isOther
    exact supervised.entries name other (before isOther).2
  · intro isGood name config isConfigured notProduct notPending
    obtain ⟨other, isOther, version⟩ :=
      pending.loaded isGood name config isConfigured notProduct notPending
    refine ⟨other, ?_, version⟩
    rw [← isOther]
    apply lookup_erase_ne
    intro sameName
    apply notListed
    rw [← sameName, cfgs.named name config isConfigured, ← lookup_isSome, isConfigured]
    rfl
  · intro other isOther
    rw [← present other (mem_cons_of_mem _ isOther)]
    apply lookup_erase_ne
    intro sameName
    exact distinct.1 (sameName ▸ mem_map_of_mem isOther)
  · intro name other isOther notConfigured
    obtain ⟨notSame, wasStored⟩ := before isOther
    cases mem_cons.mp (listed name other wasStored notConfigured) with
    | inl same =>
      subst same
      exact absurd (supervised.entries name other wasStored).1.symm notSame
    | inr later => exact later

theorem Supervised.keep {good : Bool} {others : List PluginEntry}
    (phase : daemon.phase = .removing cfgs (plugin :: others) good)
    (isListed : plugin.config.name ∈ cfgs.configs) :
    Supervised setting { daemon with phase := .removing cfgs others good } := by
  have inPhase := supervised.inPhase
  simp only [InPhase, phase] at inPhase
  obtain ⟨pending, present, distinct, listed⟩ := inPhase
  refine supervised.withPhase _ ⟨pending,
    fun other isOther => present other (mem_cons_of_mem _ isOther), distinct.of_cons, ?_⟩
  intro name other isStored notConfigured
  cases mem_cons.mp (listed name other isStored notConfigured) with
  | inl same =>
    subst same
    rw [(supervised.entries name other isStored).1] at isListed
    exact absurd isListed notConfigured
  | inr later => exact later

theorem Supervised.close (allGone : daemon.allExited = true) :
    Supervised setting { daemon with plugins := ∅, phase := .stopped } := by
  refine ⟨?_, fun _ _ isStored => (by cases isStored), supervised.unused, trivial⟩
  intro process found isProcess notReaped
  obtain ⟨plugin, isStored, isProcessOf⟩ := supervised.kept process found isProcess notReaped
  have exited := all_eq_true.mp allGone ⟨found.name, plugin⟩ (mem_lookup_iff.mp isStored)
  exact absurd exited (not_exited isProcessOf isProcess notReaped)

theorem Supervised.advance (advanced : Advanced setting daemon next event) :
    next.Supervised setting := by
  have inPhase := supervised.inPhase
  cases advanced with
  | skipped cfgs config rest good phase settled =>
    simp only [InPhase, phase] at inPhase
    exact supervised.withPhase _ (inPhase.tail settled)
  | waits cfgs config rest good phase notProduct =>
    simp only [InPhase, phase] at inPhase
    exact supervised.withPhase _ ⟨inPhase, notProduct⟩
  | proceeds cfgs config rest good phase notProduct vacant =>
    simp only [InPhase, phase] at inPhase
    exact supervised.withPhase _ ⟨inPhase, notProduct, vacant⟩
  | waited cfgs config rest good phase vacant =>
    simp only [InPhase, phase] at inPhase
    exact supervised.withPhase _ ⟨inPhase.1, inPhase.2, vacant⟩
  | started cfgs config rest good disk phase =>
    simp only [InPhase, phase] at inPhase
    obtain ⟨pending, notProduct, vacant⟩ := inPhase
    rw [← @withSignature_name config] at vacant notProduct
    exact supervised.store vacant notProduct disk (pending.store disk _)
  | failed cfgs config rest good disk phase =>
    simp only [InPhase, phase] at inPhase
    obtain ⟨pending, _⟩ := inPhase
    refine supervised.withPhase disk
      ⟨fun other listed => pending.configured other (mem_cons_of_mem _ listed),
        pending.distinct.of_cons, ?_⟩
    intro isGood
    cases isGood
  | finished cfgs good phase => exact supervised.withPhase _ trivial
  | kept cfgs plugin rest good phase listed => exact supervised.keep phase listed
  | deleted cfgs plugin rest good disk phase notListed exited =>
    exact supervised.delete phase notListed exited disk
  | closed phase allGone => exact supervised.close allGone

theorem matches_of_finished {calls : LoadCalls}
    (taken : daemon.advance setting calls = some (next, .finished cfgs true)) :
    next.Matches setting cfgs := by
  obtain ⟨phase, plugins⟩ : daemon.phase = .removing cfgs [] true ∧
      next.plugins = daemon.plugins := by
    cases advanced_of_advance taken with
    | finished _ _ phase => exact ⟨phase, rfl⟩
  have inPhase := supervised.inPhase
  simp only [InPhase, phase] at inPhase
  obtain ⟨pending, removing⟩ := inPhase
  have loaded {name : Bytes} {config : Config}
      (isConfigured : cfgs.configs.lookup name = some config)
      (notProduct : name ≠ setting.product) :
      ∃ plugin, daemon.plugins.lookup name = some plugin ∧
        plugin.config.version = config.version := by
    have isLoaded := pending.loaded rfl name config isConfigured notProduct not_mem_nil
    rw [Loaded, cfgs.named name config isConfigured] at isLoaded
    exact isLoaded
  intro name version
  rw [plugins]
  constructor
  · rintro ⟨plugin, isStored, rfl⟩
    have notProduct := (supervised.entries name plugin isStored).2.1
    by_cases isConfigured : name ∈ cfgs.configs
    · obtain ⟨config, isConfig⟩ := Option.isSome_iff_exists.mp (lookup_isSome.mpr isConfigured)
      obtain ⟨other, isOther, sameVersion⟩ := loaded isConfig notProduct
      cases isStored.symm.trans isOther
      exact ⟨config, isConfig, sameVersion.symm, notProduct⟩
    · exact absurd (removing.listed name plugin isStored isConfigured) not_mem_nil
  · rintro ⟨config, isConfigured, rfl, notProduct⟩
    exact loaded isConfigured notProduct

end

theorem mem_values (listed : config ∈ cfgs.values) :
    cfgs.configs.lookup config.name = some config := by
  obtain ⟨⟨name, _⟩, isEntry, rfl⟩ := mem_map.mp listed
  have isConfigured := mem_lookup_iff.mpr isEntry
  rw [cfgs.named name _ isConfigured]
  exact isConfigured

theorem Supervised.sync (supervised : daemon.Supervised setting)
    {order : List Config} (isOrder : order.Perm cfgs.values) :
    Supervised setting { daemon with phase := .loading cfgs order true } := by
  refine supervised.withPhase _ ⟨?_, ?_, ?_⟩
  · intro config listed
    exact mem_values (isOrder.mem_iff.mp listed)
  · refine isOrder.nodup_iff.mpr (List.Nodup.map_on ?_ cfgs.configs.nodupKeys.nodup)
    rintro ⟨name, config⟩ isEntry ⟨other, _⟩ isOther rfl
    have first := cfgs.named name config (mem_lookup_iff.mpr isEntry)
    have second := cfgs.named other config (mem_lookup_iff.mpr isOther)
    rw [← first, ← second]
  · intro _ name config isConfigured _ notPending
    refine absurd (isOrder.mem_iff.mpr ?_) notPending
    exact mem_map_of_mem (mem_lookup_iff.mp isConfigured)

theorem Supervised.getAll (supervised : daemon.Supervised setting) {good : Bool}
    (phase : daemon.phase = .loading cfgs [] good) {order : List PluginEntry}
    (isOrder : order.Perm (daemon.plugins.entries.map Sigma.snd)) :
    Supervised setting { daemon with phase := .removing cfgs order good } := by
  have pending := supervised.inPhase
  simp only [InPhase, phase] at pending
  refine supervised.withPhase _ ⟨pending, ?_, ?_, ?_⟩
  · intro plugin listed
    obtain ⟨⟨name, _⟩, isEntry, rfl⟩ := mem_map.mp (isOrder.mem_iff.mp listed)
    have isStored := mem_lookup_iff.mpr isEntry
    rw [(supervised.entries name _ isStored).1]
    exact isStored
  · refine (isOrder.map _).nodup_iff.mpr ?_
    rw [map_map]
    have keys : daemon.plugins.entries.map ((fun plugin => plugin.config.name) ∘ Sigma.snd) =
        daemon.plugins.keys := by
      apply map_congr_left
      rintro ⟨name, plugin⟩ isEntry
      exact (supervised.entries name plugin (mem_lookup_iff.mpr isEntry)).1
    rw [keys]
    exact daemon.plugins.keys_nodup
  · intro name plugin isStored _
    exact isOrder.mem_iff.mpr (mem_map_of_mem (mem_lookup_iff.mp isStored))

theorem Supervised.step {action : Action} (supervised : daemon.Supervised setting)
    (taken : daemon.step setting action = some (next, event)) :
    next.Supervised setting ∧ ∀ cfgs, event = .finished cfgs true → next.Matches setting cfgs := by
  cases action with
  | exit process | reap process =>
    obtain ⟨changed, isChanged, ⟨⟩⟩ := Option.map_eq_some_iff.mp taken
    exact ⟨supervised.aged (aged_of_change (by decide) isChanged), by rintro _ ⟨⟩⟩
  | sync cfgs order =>
    simp only [Daemon.step] at taken
    split at taken
    next =>
      split at taken <;> cases taken
      next isOrder => exact ⟨supervised.sync isOrder, by rintro _ ⟨⟩⟩
    next => cases taken
  | advance calls =>
    refine ⟨supervised.advance (advanced_of_advance taken), ?_⟩
    rintro cfgs rfl
    exact matches_of_finished supervised taken
  | getAll order =>
    simp only [Daemon.step] at taken
    split at taken
    next phase =>
      split at taken <;> cases taken
      next isOrder => exact ⟨supervised.getAll phase isOrder, by rintro _ ⟨⟩⟩
    next => cases taken
  | cancel =>
    simp only [Daemon.step] at taken
    split at taken <;> cases taken
    exact ⟨supervised.withPhase _ trivial, by rintro _ ⟨⟩⟩

end Steps

/-- Every run keeps the plugins supervised, and a last step that ends a sync without
failures leaves the plugins of its set. -/
theorem run_supervised {setting : Setting} {disk : Disk} {actions : List Action} {last : Daemon}
    {events : List Event} (ran : run (step setting) (start disk) actions = some (last, events)) :
    last.Supervised setting ∧
      ∀ cfgs, events.getLast? = some (.finished cfgs true) → last.Matches setting cfgs := by
  have preserved : ∀ (past : List Event) (daemon : Daemon) (action : Action) (next : Daemon)
      (event : Event), (daemon.Supervised setting ∧
          ∀ cfgs, past.getLast? = some (.finished cfgs true) → daemon.Matches setting cfgs) →
        daemon.step setting action = some (next, event) → next.Supervised setting ∧
          ∀ cfgs, (past ++ [event]).getLast? = some (.finished cfgs true) →
            next.Matches setting cfgs := by
    rintro past daemon action next event ⟨supervised, _⟩ taken
    obtain ⟨supervisedNext, finished⟩ := supervised.step taken
    refine ⟨supervisedNext, fun cfgs isLast => finished cfgs ?_⟩
    rw [getLast?_concat] at isLast
    exact Option.some.inj isLast
  refine run_invariant preserved ran ⟨.start setting disk, fun cfgs isLast => ?_⟩
  cases isLast

/-- Plugin supervision: a live process is the one stored under its name, so there is at
most one for each name, and after a sync in which no `Load` failed the stored plugins
are those of the configuration. -/
theorem plugins_supervised {setting : Setting} {disk : Disk} {actions : List Action} {last : Daemon}
    {events : List Event} (ran : run (step setting) (start disk) actions = some (last, events)) :
    (∀ process found, last.processes process = some found → found.status = .running →
      ∃ plugin, last.plugins.lookup found.name = some plugin ∧ plugin.process = process) ∧
    (∀ first second one other, last.processes first = some one →
      last.processes second = some other →
      one.status = .running → other.status = .running → one.name = other.name → first = second) ∧
    ∀ cfgs, events.getLast? = some (.finished cfgs true) → last.Matches setting cfgs := by
  obtain ⟨supervised, finished⟩ := run_supervised ran
  have isStored : ∀ process found, last.processes process = some found → found.status = .running →
      ∃ plugin, last.plugins.lookup found.name = some plugin ∧ plugin.process = process := by
    intro process found isProcess live
    exact supervised.kept process found isProcess (fun reaped => by simp [live] at reaped)
  refine ⟨isStored, ?_, finished⟩
  intro first second one other isOne isOther oneLive otherLive sameName
  obtain ⟨plugin, stored, rfl⟩ := isStored first one isOne oneLive
  obtain ⟨_, alsoStored, rfl⟩ := isStored second other isOther otherLive
  rw [sameName] at stored
  cases stored.symm.trans alsoStored
  rfl

/-- SHA-256 stands in for the identity, and nothing can be unpacked. -/
def plainSetting : Setting := ⟨id, fun _ => none, [], Text.ofChars ['a', 'g', 'e', 'n', 't']⟩

def xConfig (version : Bytes) : Config :=
  ⟨[0x78], [], version, Text.ofChars ['5', '5'], [], []⟩

def oneSync : List Action :=
  [.sync (ConfigSet.empty.insert (xConfig [0x31])) [xConfig [0x31]], .advance allSucceed,
    .advance allSucceed, .exit 0, .getAll [⟨(xConfig [0x31]).withSignature, 0⟩],
    .advance allSucceed,
    .advance allSucceed]

theorem plugins_supervised_oneSync :
    ∃ last events, run (step plainSetting) (start oldFile) oneSync = some (last, events) ∧
      last.Matches plainSetting (ConfigSet.empty.insert (xConfig [0x31])) := by
  have ran : run (step plainSetting) (start oldFile) oneSync = some (_, _) := rfl
  exact ⟨_, _, ran, (plugins_supervised ran).2.2 _ rfl⟩

end Daemon

end Elkeid.Agent
