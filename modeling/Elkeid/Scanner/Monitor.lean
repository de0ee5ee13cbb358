import Elkeid.Scanner.Detector

/-!
# The file monitor of the ransomware trap

The loop of `FileMonitor::new` in `fmonitor.rs` over the events of one read; nothing is kept from
one read to the next. What the system calls and the queue come to is given with each event.
-/

namespace Elkeid.Scanner

open Foundations List

def honeypotsSha256 : List (Bytes × Bytes) :=
  [("csv", "668f23ce53e38f964564ecdc3e5f1a646169ed779d774fda1009d23f9e52bce0"),
    ("doc", "4974f533cbc6bb6df5d5a99c3ef94240d9e3076a227fde44fc00a240d70bc71b"),
    ("pdf", "20b3b1d7d0440fbe57f9f5e6998d660890892c9c7703de787c9de66fc2368636"),
    ("png", "86dbc28537142e8fba1bb58b801889cb6a61d50ba60f1e6ca9ba879cb297cfa7"),
    ("txt", "55ccb1e3b83ca0bfbccd9c2cc1cd1b8ac3d04c21853a6209f23e2592e63f9f65"),
    ("xls", "5d9d6e5ed89989c44e50a1bd8d3722869d4ffb8b7e9b0dbb1a30a242dfb727b4")].map
    (fun (extension, hash) =>
      (Text.ofChars ("0_elkeid_hids_anti_ransom.".toList ++ extension.toList),
        Text.ofChars hash.toList))

def skippedSuffixes : List Bytes :=
  [".swp", "(deleted)", ".swa", ".svz", ".swn", ".swo", ".tmp", ".bash_history", ".dpkg-new"].map
    (fun suffix => Text.ofChars suffix.toList)

def clamavMaxFilesize : Nat := 1024 * 1024 * 18

inductive ProcLink where
  | exe (pid : Int)
  | fd (pid fd : Int)

structure FanotifyEvent where
  mask : BitVec 64
  fd : Int
  pid : Int
  readLink : ProcLink → Option Bytes
  /-- a link that is read for the second time -/
  readAgain : ProcLink → Option Bytes
  /-- `none` for a path that is not UTF-8 -/
  intoString : Bytes → Option Bytes
  sha256 : Bytes → Bytes
  /-- `is_dir` with the rest -/
  metadata : Bytes → Option (Bool × Metadata)
  /-- `try_send` -/
  sends : Bool

structure FileMonitor where
  pid : Int
  /-- The kernel is 5.1 or later. -/
  h51 : Bool

/-- What became of an event. Only `closed` and `abandoned` have closed its descriptor, and
`abandoned` leaves the loop. -/
inductive Handled where
  | closed
  | unmatched
  | sent (task : DetectTask)
  | abandoned
  deriving DecidableEq

namespace FileMonitor

variable (monitor : FileMonitor) (event : FanotifyEvent)

def matchEventMask : Bool :=
  event.mask &&& (if monitor.h51 then 0x48000fca else 0xa) ≠ 0

/-- The table has the hash of the file under this name. -/
def unmodified (name path : Bytes) : Bool :=
  honeypotsSha256.lookup name = some (event.sha256 path)

def accessed : Bytes :=
  match event.readLink (.fd monitor.pid event.fd) with
  | none => Text.ofChars ['-', '3']
  | some path => (event.intoString path).getD (Text.ofChars ['-', '1'])

/-- `fpath_real`, which is read from the link of the executable. -/
def fpathReal : Bytes := (event.readAgain (.exe event.pid)).getD []

/-- The task for an event that no test skips. -/
def accept : Option DetectTask :=
  if skippedSuffixes.any (fun suffix => suffix.isSuffixOf (monitor.accessed event)) then none
  else
    match event.readLink (.exe event.pid) with
    | none => none
    | some exeReal =>
      if unmodified event (fpathReal event) (fpathReal event) then none
      else
        match event.metadata exeReal with
        | none => none
        | some (isDir, metadata) =>
          if isDir ∨ metadata.len = 0 ∨ clamavMaxFilesize < metadata.len then none
          else some ⟨.antiRansom, monitor.pid, exeReal, fpathReal event, metadata.len,
            metadata.btime, metadata.mtime, event.sha256 (fpathReal event), none⟩

def handle : Handled :=
  match monitor.accept event with
  | none => .closed
  | some task =>
    if ¬ monitor.matchEventMask event then .unmatched
    else if event.sends then .sent task
    else .abandoned

/-- The events that are handled before the loop is left. -/
def handleBatch : List FanotifyEvent → List (FanotifyEvent × Handled)
  | [] => []
  | event :: rest =>
    (event, monitor.handle event) ::
      if monitor.handle event = .abandoned then [] else handleBatch rest

def closedFds (handled : List (FanotifyEvent × Handled)) : List Int :=
  (handled.filter (fun each => each.2 = .closed ∨ each.2 = .abandoned)).map (fun each => each.1.fd)

/-! ## Descriptors -/

/-- The event reaches a send that fails. -/
def fails : Bool :=
  (monitor.accept event).isSome && monitor.matchEventMask event && !event.sends

variable {monitor event} {rest : List FanotifyEvent}

theorem closedFds_cons : closedFds (monitor.handleBatch (event :: rest)) =
    if monitor.accept event = none then event.fd :: closedFds (monitor.handleBatch rest)
    else if monitor.fails event then [event.fd] else closedFds (monitor.handleBatch rest) := by
  cases accepted : monitor.accept event with
  | none => simp [handleBatch, closedFds, handle, accepted]
  | some task =>
    cases matching : monitor.matchEventMask event <;> cases sends : event.sends <;>
      simp [handleBatch, closedFds, handle, fails, accepted, matching, sends]

theorem count_closed_of_absent {fd : Int} (absent : ∀ event ∈ rest, event.fd ≠ fd) :
    (closedFds (monitor.handleBatch rest)).count fd = 0 := by
  induction rest with
  | nil => rfl
  | cons event rest ih =>
    rw [forall_mem_cons] at absent
    rw [closedFds_cons]
    split_ifs
    · rw [count_cons_of_ne absent.1, ih absent.2]
    · rw [count_cons_of_ne absent.1, count_nil]
    · exact ih absent.2

/-- The events of one read. Descriptors that are open together differ. -/
structure Batch where
  events : List FanotifyEvent
  distinct : events.Pairwise (fun event later => 0 ≤ event.fd → event.fd ≠ later.fd)

/-- Each valid descriptor of a batch is closed once exactly when its event is skipped or the send
for it fails, and no valid descriptor comes after a send that fails. -/
theorem descriptors_closed_iff (monitor : FileMonitor) (batches : List Batch) :
    (∀ batch ∈ batches, ∀ event ∈ batch.events, 0 ≤ event.fd →
        (closedFds (monitor.handleBatch batch.events)).count event.fd = 1) ↔
      ∀ batch ∈ batches, (∀ event ∈ batch.events, 0 ≤ event.fd →
          monitor.accept event = none ∨ monitor.fails event) ∧
        batch.events.Pairwise (fun event later => monitor.fails event → later.fd < 0) := by
  refine forall₂_congr ?_
  rintro ⟨events, distinct⟩ listed
  clear listed
  induction events with
  | nil => simp
  | cons event rest ih =>
    obtain ⟨apart, restApart⟩ := pairwise_cons.mp distinct
    have once : 0 ≤ event.fd → (closedFds (monitor.handleBatch rest)).count event.fd = 0 :=
      fun valid => count_closed_of_absent fun later listed => (apart later listed valid).symm
    have others : ∀ later ∈ rest, 0 ≤ later.fd → event.fd ≠ later.fd := by
      intro later listed valid same
      exact apart later listed (same ▸ valid) same
    replace ih := ih restApart
    rw [forall_mem_cons, forall_mem_cons, pairwise_cons, closedFds_cons]
    split_ifs with skipped fails
    · -- closed here and not again, and the rest is handled as before
      have passes : monitor.fails event = false := by rw [fails, skipped]; rfl
      rw [count_cons_self]
      grind
    · -- the only descriptor that is closed
      grind
    · -- the descriptor stays open
      grind

def encryptedLinks : ProcLink → Option Bytes
  | .exe _ => some [0x2f, 0x61]
  | .fd _ _ => some [0x2f, 0x30]

/-- Process 9, `/a`, writes to `/0`, which is open as descriptor 5. -/
def encrypted : FanotifyEvent where
  mask := 2
  fd := 5
  pid := 9
  readLink := encryptedLinks
  readAgain := encryptedLinks
  intoString := some
  sha256 path := path
  metadata _ := some (false, ⟨true, 1, 0, 0⟩)
  sends := true

theorem sent_leaks : closedFds (FileMonitor.handleBatch ⟨7, false⟩ [encrypted]) = [] := by decide

/-! ## Reports -/

def baseName (path : Bytes) : Bytes := (path.reverse.takeWhile (· ≠ 0x2f)).reverse

/-- The event is not of a file that is passed over, the process lives and its executable can be
scanned, and the mask matches and the queue has room. -/
structure Reportable (monitor : FileMonitor) (event : FanotifyEvent) : Prop where
  kept : ∀ suffix ∈ skippedSuffixes, ¬ suffix <:+ monitor.accessed event
  lives : event.readAgain = event.readLink
  scanned : ∃ exe metadata, event.readLink (.exe event.pid) = some exe ∧
    event.metadata exe = some (false, metadata) ∧ metadata.len ≠ 0 ∧
      metadata.len ≤ clamavMaxFilesize
  matching : monitor.matchEventMask event
  sends : event.sends

/-- What should become of an event. -/
def Correct (monitor : FileMonitor) (event : FanotifyEvent) (handled : Handled) : Prop :=
  let file := monitor.accessed event
  if unmodified event (baseName file) file then ∀ task, handled ≠ .sent task
  else ∃ task, handled = .sent task ∧ task.rpath = file ∧ task.token = event.sha256 file ∧
    event.readLink (.exe event.pid) = some task.path ∧ task.pid = event.pid

/-- The executable is the file itself and the process is the monitor, or for a honeypot the
executable's whole path is in the table with its hash. -/
def Coincides (monitor : FileMonitor) (event : FanotifyEvent) : Prop :=
  let file := monitor.accessed event
  ∃ exe, event.readLink (.exe event.pid) = some exe ∧
    if unmodified event (baseName file) file then unmodified event exe exe
    else ¬ unmodified event exe exe ∧ exe = file ∧ monitor.pid = event.pid

theorem Reportable.correct_iff (reportable : Reportable monitor event) :
    Correct monitor event (monitor.handle event) ↔ Coincides monitor event := by
  obtain ⟨kept, lives, ⟨exe, metadata, isExe, isMetadata, nonzero, bounded⟩, matching, sends⟩ :=
    reportable
  replace bounded := Nat.not_lt.mpr bounded
  have real : fpathReal event = exe := by simp [fpathReal, lives, isExe]
  have passes : skippedSuffixes.any (fun suffix => suffix.isSuffixOf (monitor.accessed event)) =
      false := by simpa using kept
  by_cases same : unmodified event exe exe
  · have closed : monitor.handle event = .closed := by
      simp [handle, accept, passes, isExe, real, same]
    simp [Correct, Coincides, closed, isExe, same]
  · have sent : monitor.handle event = .sent ⟨.antiRansom, monitor.pid, exe, exe, metadata.len,
        metadata.btime, metadata.mtime, event.sha256 exe, none⟩ := by
      simp [handle, accept, passes, isExe, real, same, isMetadata, nonzero, bounded, matching,
        sends]
    grind [Correct, Coincides]

/-- The events of a batch are reported as they should be exactly when each of them coincides. -/
theorem events_reported_iff {batch : List FanotifyEvent}
    (reportable : ∀ event ∈ batch, Reportable monitor event) :
    (∀ event ∈ batch, ∃ handled, (event, handled) ∈ monitor.handleBatch batch ∧
        Correct monitor event handled) ↔ ∀ event ∈ batch, Coincides monitor event := by
  have all : monitor.handleBatch batch =
      batch.map (fun event => (event, monitor.handle event)) := by
    induction batch with
    | nil => rfl
    | cons event rest ih =>
      have goesOn : monitor.handle event ≠ .abandoned := by
        have sends := (reportable event mem_cons_self).sends
        rw [handle]
        grind
      rw [handleBatch, if_neg goesOn, ih (forall_mem_cons.mp reportable).2, map_cons]
  refine forall₂_congr fun event listed => ?_
  rw [← (reportable event listed).correct_iff, all]
  grind

theorem events_reported_encrypted :
    (∀ event ∈ [encrypted], ∃ handled, (event, handled) ∈ handleBatch ⟨7, false⟩ [encrypted] ∧
        Correct ⟨7, false⟩ event handled) ↔ ∀ event ∈ [encrypted], Coincides ⟨7, false⟩ event :=
  events_reported_iff (forall_mem_singleton.mpr
    ⟨by decide, rfl, ⟨_, _, rfl, rfl, by decide, by decide⟩, rfl, rfl⟩)

theorem monitor_reported : FileMonitor.handle ⟨7, false⟩ encrypted =
      .sent ⟨.antiRansom, 7, [0x2f, 0x61], [0x2f, 0x61], 1, 0, 0, [0x2f, 0x61], none⟩ ∧
    ¬ Correct ⟨7, false⟩ encrypted (FileMonitor.handle ⟨7, false⟩ encrypted) := by
  have handled : FileMonitor.handle ⟨7, false⟩ encrypted =
      .sent ⟨.antiRansom, 7, [0x2f, 0x61], [0x2f, 0x61], 1, 0, 0, [0x2f, 0x61], none⟩ := by
    decide
  refine ⟨handled, ?_⟩
  rw [handled, Correct, if_neg (by decide)]
  rintro ⟨task, same, _, _, _, isPid⟩
  cases same
  exact absurd isPid (by decide)

end FileMonitor

end Elkeid.Scanner
