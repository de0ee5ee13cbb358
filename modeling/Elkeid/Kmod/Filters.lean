import Elkeid.Foundations.Text

/-!
# The filter queues of the plugin

`plugins/driver/src/kmod.rs` keeps the strings it has sent to the kernel in two
queues with the instant of the call, and the `ttl_filters` thread takes the old
ones back. Instants and durations are nanoseconds. A function gives the new
queues and the buffers it writes to the controler, in order; `none` is a panic.
-/

namespace Elkeid.Kmod

open Foundations List

def removeExeFilterFlag : Bytes := [0x46]

def addExeFilterFlag : Bytes := [0x59]

def removeAllExeFilterFlag : Bytes := [0x77]

def removeArgvFilterFlag : Bytes := [0x4a]

def addArgvFilterFlag : Bytes := [0x6d]

def removeAllArgvFilterFlag : Bytes := [0x75]

/-- The bytes of `elkeid`. -/
def paddingContent : Bytes := [0x65, 0x6c, 0x6b, 0x65, 0x69, 0x64]

def exeFilterTime : Nat := 60 * 10 * 10 ^ 9

def argvFilterTime : Nat := 60 * 10 ^ 9

def exeWhitelist : List Bytes := []

def argvWhitelist : List Bytes := []

/-- The buffer that `control` writes. -/
def control (flag contents : Bytes) : Bytes := flag ++ contents ++ [0x0a]

structure Entry where
  instant : Nat
  text : Bytes
  deriving DecidableEq

def Entry.elapsed (entry : Entry) (now : Nat) : Nat := now - entry.instant

/-- The front of a queue is the head of its list. -/
structure Queues where
  filteredExeEntries : List Entry
  filteredArgvEntries : List Entry
  /-- whether the controler is open -/
  controler : Bool
  deriving DecidableEq

def Queues.addFilteredArgv (queues : Queues) (now : Nat) (argv : Bytes) :
    Option (Queues × List Bytes) :=
  if queues.controler then
    if 128 - argvWhitelist.length ≤ queues.filteredArgvEntries.length then
      match queues.filteredArgvEntries with
      | [] => none
      | front :: rest =>
        some ({ queues with filteredArgvEntries := rest ++ [⟨now, argv⟩] },
          [control removeArgvFilterFlag front.text, control addArgvFilterFlag argv])
    else
      some ({ queues with filteredArgvEntries := queues.filteredArgvEntries ++ [⟨now, argv⟩] },
        [control addArgvFilterFlag argv])
  else none

/-- The limit is tested by `>` here and by `>=` for the argv queue. -/
def Queues.addFilteredExe (queues : Queues) (now : Nat) (exe : Bytes) :
    Option (Queues × List Bytes) :=
  if queues.controler then
    if 128 - exeWhitelist.length < queues.filteredExeEntries.length then
      match queues.filteredExeEntries with
      | [] => none
      | front :: rest =>
        some ({ queues with filteredExeEntries := rest ++ [⟨now, exe⟩] },
          [control removeExeFilterFlag front.text, control addExeFilterFlag exe])
    else
      some ({ queues with filteredExeEntries := queues.filteredExeEntries ++ [⟨now, exe⟩] },
        [control addExeFilterFlag exe])
  else none

/-- The loop that `ttl_filters` runs on each queue: the young entry it has popped, the
rest of the queue and what it has written. With a closed controler the popped entry
is lost. -/
def popExpired (flag : Bytes) (time now : Nat) (controler : Bool) :
    List Entry → (Option Entry × List Entry) × List Bytes
  | [] => ((none, []), [])
  | front :: rest =>
    if front.elapsed now < time then ((some front, rest), [])
    else if controler then
      let (left, written) := popExpired flag time now controler rest
      (left, control flag front.text :: written)
    else ((none, rest), [])

/-- One pass of the `ttl_filters` thread. -/
def Queues.ttlFilters (queues : Queues) (now : Nat) : Queues × List Bytes :=
  let ((young, exe), writtenExe) :=
    popExpired removeExeFilterFlag exeFilterTime now queues.controler queues.filteredExeEntries
  let exe := young.toList ++ exe
  let ((young, argv), writtenArgv) :=
    popExpired removeArgvFilterFlag argvFilterTime now queues.controler queues.filteredArgvEntries
  -- the young argv entry goes to the front of the exe queue too
  let exe := young.toList ++ exe
  (⟨exe, argv, queues.controler⟩, writtenExe ++ writtenArgv)

def Entry.expired (time now : Nat) (entry : Entry) : Bool := time ≤ entry.elapsed now

theorem Entry.expired_iff {time now : Nat} {entry : Entry} :
    entry.expired time now = true ↔ time ≤ now - entry.instant := decide_eq_true_iff

theorem Entry.not_expired (time now : Nat) (entry : Entry) :
    (!entry.expired time now) = decide (entry.elapsed now < time) := by
  rw [expired, ← decide_not, decide_eq_decide]
  exact not_le

theorem popExpired_eq (flag : Bytes) (time now : Nat) (entries : List Entry) :
    popExpired flag time now true entries = (((entries.dropWhile (Entry.expired time now)).head?,
        (entries.dropWhile (Entry.expired time now)).tail),
        (entries.takeWhile (Entry.expired time now)).map
          (fun entry => control flag entry.text)) := by
  induction entries with
  | nil => rfl
  | cons front rest ih =>
    rw [popExpired, ih]
    by_cases young : front.elapsed now < time
    · have kept : ¬ front.expired time now = true := by simpa [Entry.expired] using young
      rw [if_pos young, dropWhile_cons_of_neg kept, takeWhile_cons_of_neg kept]
      rfl
    · have old : front.expired time now = true := by simpa [Entry.expired] using young
      rw [if_neg young, if_pos rfl, dropWhile_cons_of_pos old, takeWhile_cons_of_pos old]
      rfl

theorem toList_head?_append_tail {α : Type} (entries : List α) :
    entries.head?.toList ++ entries.tail = entries := by
  cases entries <;> rfl

theorem Queues.ttlFilters_eq (exe argv : List Entry) (now : Nat) :
    Queues.ttlFilters ⟨exe, argv, true⟩ now =
      (⟨(argv.dropWhile (Entry.expired argvFilterTime now)).head?.toList ++
          exe.dropWhile (Entry.expired exeFilterTime now),
        (argv.dropWhile (Entry.expired argvFilterTime now)).tail, true⟩,
        (exe.takeWhile (Entry.expired exeFilterTime now)).map
            (fun entry => control removeExeFilterFlag entry.text) ++
          (argv.takeWhile (Entry.expired argvFilterTime now)).map
            (fun entry => control removeArgvFilterFlag entry.text)) := by
  rw [ttlFilters, popExpired_eq, popExpired_eq]
  dsimp only
  rw [toList_head?_append_tail]

def Ordered (entries : List Entry) : Prop :=
  entries.Pairwise (fun first second => first.instant ≤ second.instant)

instance (entries : List Entry) : Decidable (Ordered entries) :=
  inferInstanceAs (Decidable (entries.Pairwise _))

theorem ordered_expired {entries : List Entry} (ordered : Ordered entries) (time now : Nat) :
    entries.takeWhile (Entry.expired time now) = entries.filter (Entry.expired time now) ∧
      entries.dropWhile (Entry.expired time now) =
        entries.filter (fun entry => !entry.expired time now) := by
  induction entries with
  | nil => exact ⟨rfl, rfl⟩
  | cons front rest ih =>
    obtain ⟨before, orderedRest⟩ := pairwise_cons.mp ordered
    obtain ⟨taken, dropped⟩ := ih orderedRest
    by_cases old : front.expired time now = true
    · simp [takeWhile_cons_of_pos old, dropWhile_cons_of_pos old, taken, dropped, old]
    · have young : ∀ entry ∈ front :: rest, entry.expired time now = false := by
        intro entry listed
        have noEarlier : front.instant ≤ entry.instant := by
          rcases mem_cons.mp listed with rfl | later
          · exact le_refl _
          · exact before entry later
        apply Bool.eq_false_iff.mpr
        intro laterOld
        apply old
        rw [Entry.expired_iff] at laterOld ⊢
        exact le_trans laterOld (Nat.sub_le_sub_left noEarlier now)
      rw [takeWhile_cons_of_neg old, dropWhile_cons_of_neg old]
      constructor
      · exact (filter_eq_nil_iff.mpr (fun entry listed => by simp [young entry listed])).symm
      · exact (filter_eq_self.mpr (fun entry listed => by simp [young entry listed])).symm

/-- A pass keeps the young entries of each queue in their order and takes back the
expired ones, first those of the exe queue. -/
structure SweptRight (before : Queues) (now : Nat) : Prop where
  exe : (before.ttlFilters now).1.filteredExeEntries =
    before.filteredExeEntries.filter (fun entry => entry.elapsed now < exeFilterTime)
  argv : (before.ttlFilters now).1.filteredArgvEntries =
    before.filteredArgvEntries.filter (fun entry => entry.elapsed now < argvFilterTime)
  written : (before.ttlFilters now).2 =
    (before.filteredExeEntries.filter (fun entry => exeFilterTime ≤ entry.elapsed now)).map
        (fun entry => control removeExeFilterFlag entry.text) ++
      (before.filteredArgvEntries.filter (fun entry => argvFilterTime ≤ entry.elapsed now)).map
        (fun entry => control removeArgvFilterFlag entry.text)

/-- A pass over ordered queues is right exactly when it finds no young argv entry. -/
theorem sweptRight_iff_noYoungArgv {exe argv : List Entry} (orderedExe : Ordered exe)
    (orderedArgv : Ordered argv) (now : Nat) :
    SweptRight ⟨exe, argv, true⟩ now ↔ ∀ entry ∈ argv, argvFilterTime ≤ entry.elapsed now := by
  obtain ⟨takenExe, droppedExe⟩ := ordered_expired orderedExe exeFilterTime now
  obtain ⟨takenArgv, droppedArgv⟩ := ordered_expired orderedArgv argvFilterTime now
  have pass := Queues.ttlFilters_eq exe argv now
  rw [takenExe, droppedExe, takenArgv, droppedArgv] at pass
  simp only [Entry.not_expired] at pass
  constructor
  · intro right entry listed
    have kept := right.argv
    rw [pass] at kept
    -- a young entry would have been popped and not put back
    have noYoung : argv.filter (fun entry => entry.elapsed now < argvFilterTime) = [] := by
      cases young : argv.filter (fun entry => entry.elapsed now < argvFilterTime) with
      | nil => rfl
      | cons front rest =>
        rw [young] at kept
        exact absurd kept.symm (cons_ne_self front rest)
    have old := filter_eq_nil_iff.mp noYoung entry listed
    simpa using old
  · intro allOld
    have noYoung : argv.filter (fun entry => entry.elapsed now < argvFilterTime) = [] := by
      apply filter_eq_nil_iff.mpr
      intro entry listed
      simpa using allOld entry listed
    rw [noYoung] at pass
    refine ⟨?_, ?_, ?_⟩
    · rw [pass]
      rfl
    · rw [pass, noYoung]
      rfl
    · rw [pass]
      rfl

theorem sweptRight_after_hour :
    SweptRight ⟨[⟨0, [0x61, 0x62]⟩, ⟨3590 * 10 ^ 9, [0x63]⟩], [⟨0, [0x64]⟩], true⟩
      (3600 * 10 ^ 9) :=
  (sweptRight_iff_noYoungArgv (by decide) (by decide) _).mpr (by decide)

theorem youngArgv_moved :
    Queues.ttlFilters ⟨[], [⟨0, [0x64]⟩], true⟩ 0 = (⟨[⟨0, [0x64]⟩], [], true⟩, []) ∧
      ¬ SweptRight ⟨[], [⟨0, [0x64]⟩], true⟩ 0 :=
  ⟨by decide, fun right => absurd right.argv (by decide)⟩

end Elkeid.Kmod
