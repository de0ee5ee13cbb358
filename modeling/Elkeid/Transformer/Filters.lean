import Elkeid.Foundations.Text

/-!
# Adaptive filtering of execve events

The block of the arm for data type 59 in `Transformer::transform` that counts the
events of an exe path and of an argv, and hands what occurs too often to the
filters of the driver. The caches are maps whose entries live until their
deadline. An event counts itself in `exe_filter` under its argv as well, and no
event is ever entered in `argv_filter`.
-/

namespace Elkeid.Transformer

open Foundations List Function

def exeFilterQuota : Nat := 9000

def exeFilterWindow : Nat := 60 * 10 ^ 9

def argvFilterQuota : Nat := 1500

def argvFilterWindow : Nat := 60 * 60 * 10 ^ 9

structure Counter where
  value : Nat
  deadline : Nat
  deriving DecidableEq

/-- A cache that has room for all its keys. -/
abbrev TtlCache := Bytes → Option Counter

namespace TtlCache

def empty : TtlCache := fun _ => none

def getMut (cache : TtlCache) (now : Nat) (key : Bytes) : Option Counter :=
  match cache key with
  | some counter => if counter.deadline < now then none else some counter
  | none => none

def insert (cache : TtlCache) (now : Nat) (key : Bytes) (value window : Nat) : TtlCache :=
  update cache key (some ⟨value, now + window⟩)

/-- The body of `if let Some(value) = cache.get_mut(key)`, and whether the key is
handed to the driver. -/
def count (cache : TtlCache) (key : Bytes) (quota : Nat) (counter : Counter) : TtlCache × Bool :=
  let full := decide (quota < counter.value)
  let value := if full then 1 else counter.value
  (update cache key (some ⟨value + 1, counter.deadline⟩), full)

end TtlCache

/-- The values of a record of type 59 and the time it is handled at. -/
structure Execve where
  time : Nat
  values : List Bytes

def Execve.exe (event : Execve) : Bytes := event.values.getD 1 []

def Execve.argv (event : Execve) : Bytes := event.values.getD 12 []

/-- The exe paths that are never filtered: those under `/bin/`, `/sbin/`, `/usr/bin/`
and `/usr/sbin/`, the error values and the empty path. -/
def excluded (exe : Bytes) : Bool :=
  [0x2f, 0x62, 0x69, 0x6e, 0x2f].isPrefixOf exe ||
    [0x2f, 0x73, 0x62, 0x69, 0x6e, 0x2f].isPrefixOf exe ||
    [0x2f, 0x75, 0x73, 0x72, 0x2f, 0x62, 0x69, 0x6e, 0x2f].isPrefixOf exe ||
    [0x2f, 0x75, 0x73, 0x72, 0x2f, 0x73, 0x62, 0x69, 0x6e, 0x2f].isPrefixOf exe ||
    exe == [0x2d, 0x31] || exe == [0x2d, 0x32] || exe == []

structure Filters where
  exeFilter : TtlCache
  argvFilter : TtlCache

inductive Call where
  | addFilteredExe (exe : Bytes)
  | addFilteredArgv (argv : Bytes)
  deriving DecidableEq

/-- `counted` are the keys of `exe_filter` in which the event has been counted. -/
structure Outcome where
  event : Execve
  calls : List Call
  counted : List Bytes

/-- The first half: the exe path in `exe_filter`. -/
def countExe (exeFilter : TtlCache) (event : Execve) : TtlCache × List Call :=
  match exeFilter.getMut event.time event.exe with
  | some counter =>
    let (exeFilter, full) := exeFilter.count event.exe exeFilterQuota counter
    (exeFilter, if full then [.addFilteredExe event.exe] else [])
  | none => (exeFilter.insert event.time event.exe 1 exeFilterWindow, [])

def filterExecve (filters : Filters) (event : Execve) : Filters × Outcome :=
  if excluded event.exe then (filters, ⟨event, [], []⟩)
  else
    let (exeFilter, calls) := countExe filters.exeFilter event
    match filters.argvFilter.getMut event.time event.argv with
    | some counter =>
      let (argvFilter, full) := filters.argvFilter.count event.argv argvFilterQuota counter
      (⟨exeFilter, argvFilter⟩,
        ⟨event, calls ++ if full then [.addFilteredArgv event.argv] else [], [event.exe]⟩)
    | none =>
      -- the first occurrence of an argv goes to `exe_filter`
      (⟨exeFilter.insert event.time event.argv 1 argvFilterWindow, filters.argvFilter⟩,
        ⟨event, calls, [event.exe, event.argv]⟩)

def runExecve (filters : Filters) : List Execve → List Outcome
  | [] => []
  | event :: rest =>
    let (next, outcome) := filterExecve filters event
    outcome :: runExecve next rest

/-- How often an argv has occurred since it was handed to the driver. -/
def sinceSubmitted (argv : Bytes) (log : List Outcome) : Nat :=
  (log.reverse.takeWhile (fun outcome => .addFilteredArgv argv ∉ outcome.calls)).countP
    (fun outcome => outcome.event.argv == argv)

/-- What the filtering is for, over a run. -/
structure FilteredRight (log : List Outcome) : Prop where
  submitted : ∀ argv, sinceSubmitted argv log ≤ argvFilterQuota + 1
  ownExe : ∀ outcome ∈ log, ∀ key ∈ outcome.counted, key = outcome.event.exe

theorem countExe_calls (exeFilter : TtlCache) (event : Execve) (argv : Bytes) :
    .addFilteredArgv argv ∉ (countExe exeFilter event).2 := by
  rw [countExe]
  split
  · dsimp only [TtlCache.count]
    split <;> simp
  · exact not_mem_nil

theorem countExe_frame (exeFilter : TtlCache) (event : Execve) {key : Bytes}
    (other : key ≠ event.exe) :
    (countExe exeFilter event).1 key = exeFilter key := by
  rw [countExe]
  split <;> exact update_of_ne other _ exeFilter

/-- An event leaves all entries of `exe_filter` alone in which it is not counted. -/
theorem filterExecve_frame (filters : Filters) (event : Execve) {key : Bytes}
    (other : key ∉ (filterExecve filters event).2.counted) :
    (filterExecve filters event).1.exeFilter key = filters.exeFilter key := by
  revert other
  rw [filterExecve]
  split
  · exact fun _ => rfl
  · dsimp only
    split
    · intro other
      exact countExe_frame _ event (mt mem_singleton.mpr other)
    · intro other
      obtain ⟨notExe, notArgv⟩ := not_or.mp (mt mem_pair.mpr other)
      exact (update_of_ne notArgv _ _).trans (countExe_frame _ event notExe)

/-- With no argv counted, an event that is not excluded leaves it so and counts itself
twice in `exe_filter`. -/
theorem filterExecve_spec {filters : Filters} (noArgv : filters.argvFilter = TtlCache.empty)
    {event : Execve} (plain : excluded event.exe = false) :
    (filterExecve filters event).1.argvFilter = TtlCache.empty ∧
      (filterExecve filters event).2 =
        ⟨event, (countExe filters.exeFilter event).2, [event.exe, event.argv]⟩ := by
  have missing : filters.argvFilter.getMut event.time event.argv = none := by
    rw [noArgv]
    rfl
  rw [filterExecve, plain, if_neg Bool.false_ne_true]
  simp only [missing]
  exact ⟨noArgv, trivial⟩

theorem runExecve_spec {filters : Filters} (noArgv : filters.argvFilter = TtlCache.empty)
    {events : List Execve} (plain : ∀ event ∈ events, excluded event.exe = false) :
    (runExecve filters events).map Outcome.event = events ∧
      ∀ outcome ∈ runExecve filters events,
        outcome.counted = [outcome.event.exe, outcome.event.argv] ∧
          ∀ argv, .addFilteredArgv argv ∉ outcome.calls := by
  induction events generalizing filters with
  | nil => exact ⟨rfl, fun _ listed => absurd listed not_mem_nil⟩
  | cons event rest ih =>
    obtain ⟨stillNone, outcome⟩ := filterExecve_spec noArgv (plain event mem_cons_self)
    obtain ⟨sameEvents, later⟩ := ih stillNone
      (forall_mem_cons.mp plain).2
    simp only [runExecve, outcome]
    refine ⟨?_, ?_⟩
    · rw [map_cons, sameEvents]
    · intro other listed
      rcases mem_cons.mp listed with rfl | inRest
      · exact ⟨rfl, countExe_calls filters.exeFilter event⟩
      · exact later other inRest

theorem sinceSubmitted_eq_count {log : List Outcome} {argv : Bytes}
    (never : ∀ outcome ∈ log, .addFilteredArgv argv ∉ outcome.calls) :
    sinceSubmitted argv log = (log.map (fun outcome => outcome.event.argv)).count argv := by
  have whole : log.reverse.takeWhile (fun outcome => .addFilteredArgv argv ∉ outcome.calls) =
      log.reverse := by
    apply takeWhile_eq_self_iff.mpr
    intro outcome listed
    exact decide_eq_true (never outcome (mem_reverse.mp listed))
  rw [sinceSubmitted, whole, countP_reverse, count_eq_countP, countP_map]
  rfl

/-- From a state in which no argv is counted, as it is in the beginning, the filtering
is right after every event exactly when no argv occurs too often and every event has
its exe path for argv. -/
theorem filteredRight_iff {filters : Filters} (noArgv : filters.argvFilter = TtlCache.empty)
    {events : List Execve} (plain : ∀ event ∈ events, excluded event.exe = false) :
    (∀ before, before <+: events → FilteredRight (runExecve filters before)) ↔
      (∀ argv, (events.map Execve.argv).count argv ≤ argvFilterQuota + 1) ∧
        ∀ event ∈ events, event.argv = event.exe := by
  have sublist {before : List Execve} (isPrefix : before <+: events) :=
    runExecve_spec noArgv (fun event listed => plain event (isPrefix.subset listed))
  have occurrences {before : List Execve} (isPrefix : before <+: events) (argv : Bytes) :
      sinceSubmitted argv (runExecve filters before) = (before.map Execve.argv).count argv := by
    obtain ⟨sameEvents, spec⟩ := sublist isPrefix
    rw [sinceSubmitted_eq_count (fun outcome listed => (spec outcome listed).2 argv)]
    nth_rewrite 2 [← sameEvents]
    rw [map_map]
    rfl
  constructor
  · intro right
    obtain ⟨submitted, ownExe⟩ := right events (prefix_refl events)
    refine ⟨?_, ?_⟩
    · intro argv
      rw [← occurrences (prefix_refl events)]
      exact submitted argv
    · intro event listed
      obtain ⟨sameEvents, spec⟩ := sublist (prefix_refl events)
      rw [← sameEvents] at listed
      obtain ⟨outcome, inLog, rfl⟩ := mem_map.mp listed
      apply ownExe outcome inLog
      rw [(spec outcome inLog).1]
      exact mem_cons_of_mem _ mem_cons_self
  · rintro ⟨few, own⟩ before isPrefix
    refine ⟨?_, ?_⟩
    · intro argv
      rw [occurrences isPrefix]
      exact ((isPrefix.sublist.map _).count_le argv).trans (few argv)
    · intro outcome inLog key counted
      obtain ⟨sameEvents, spec⟩ := sublist isPrefix
      have inBefore : outcome.event ∈ before := by
        rw [← sameEvents]
        exact mem_map_of_mem inLog
      have same := own outcome.event (isPrefix.subset inBefore)
      rw [(spec outcome inLog).1, same] at counted
      rcases mem_cons.mp counted with isExe | isArgv
      · exact isExe
      · exact mem_singleton.mp isArgv

def execveOf (exe argv : Bytes) : Execve :=
  ⟨0, [[], exe, [], [], [], [], [], [], [], [], [], [], argv]⟩

theorem filteredRight_twice : FilteredRight (runExecve ⟨TtlCache.empty, TtlCache.empty⟩
      [execveOf [0x2f, 0x78] [0x2f, 0x78], execveOf [0x2f, 0x78] [0x2f, 0x78]]) := by
  refine (filteredRight_iff rfl (by decide)).mpr ⟨?_, by decide⟩ _ (prefix_refl _)
  intro argv
  exact count_le_length.trans (by decide)

/-- An argv that occurs 1502 times is never handed to the driver. -/
theorem argv_never_submitted :
    sinceSubmitted [0x2f, 0x78] (runExecve ⟨TtlCache.empty, TtlCache.empty⟩
      (replicate 1502 (execveOf [0x2f, 0x78] [0x2f, 0x78]))) = 1502 := by
  decide +kernel

end Elkeid.Transformer
