import Elkeid.Allowlist.Writes
import Elkeid.Foundations.Machine
import Elkeid.Kmod.Filters

/-!
# The plugin's queues against the driver's lists

The plugin and the driver each keep the filtered strings: the plugin in queues
that forget the oldest entry, the driver in search trees of trimmed texts. Every
buffer the plugin writes is one `device_write`. The two agree while the strings
are such that the driver keeps them as they are, no step drops one of two equal
entries, and no sweep meets a young argv entry.
-/

namespace Elkeid.Kmod

open Foundations Machine Allowlist List

structure System where
  queues : Queues
  driver : Driver

inductive Step where
  | addFilteredExe (now : Nat) (exe : Bytes)
  | addFilteredArgv (now : Nat) (argv : Bytes)
  | ttlFilters (now : Nat)

section Execution

variable (allocator : Allocator) (balancer : SearchTree.Balancer AllowlistNode.key)

def send (driver : Driver) (buffers : List Bytes) : Option Driver :=
  buffers.foldlM (fun driver buffer =>
    deviceWrite allocator balancer driver ⟨buffer, buffer.length⟩) driver

/-- The lists of a module that is loaded are emptied, otherwise a fresh one is loaded. -/
def install : Option Driver → Option Driver
  | none => some Driver.initial
  | some driver => send allocator balancer driver
      [control removeAllArgvFilterFlag paddingContent,
        control removeAllExeFilterFlag paddingContent]

def newKmod (loaded : Option Driver) : Option System := do
  let driver ← install allocator balancer loaded
  let driver ← send allocator balancer driver (argvWhitelist.map (control addArgvFilterFlag))
  let driver ← send allocator balancer driver (exeWhitelist.map (control addExeFilterFlag))
  return ⟨⟨[], [], true⟩, driver⟩

def System.deliver (system : System) (outcome : Queues × List Bytes) : Option System := do
  return ⟨outcome.1, ← send allocator balancer system.driver outcome.2⟩

def Step.run (system : System) : Step → Option System
  | addFilteredExe now exe => do
      system.deliver allocator balancer (← system.queues.addFilteredExe now exe)
  | addFilteredArgv now argv => do
      system.deliver allocator balancer (← system.queues.addFilteredArgv now argv)
  | ttlFilters now => system.deliver allocator balancer (system.queues.ttlFilters now)

def Step.step (system : System) (step : Step) : Option (System × Unit) :=
  (step.run allocator balancer system).map fun next => (next, ())

end Execution

def Queues.entries (queues : Queues) : Which → List Entry
  | .exe => queues.filteredExeEntries
  | .argv => queues.filteredArgvEntries

def whitelist : Which → List Bytes
  | .exe => exeWhitelist
  | .argv => argvWhitelist

def texts (entries : List Entry) : Finset Bytes := (entries.map Entry.text).toFinset

/-- Each list of the driver holds the whitelist and the strings of the queue. -/
def Agrees (system : System) : Prop :=
  ∀ which, contents (system.driver.lists which) =
    (whitelist which).toFinset ∪ texts (system.queues.entries which)

/-- The driver takes such a string and stores it as it is. -/
structure Verbatim (text : Bytes) : Prop where
  long : 3 ≤ text.length
  short : text.length ≤ 4088
  nulFree : 0 ∉ text
  trimmed : trim text = text

def addFlag : Which → Bytes
  | .exe => addExeFilterFlag
  | .argv => addArgvFilterFlag

def removeFlag : Which → Bytes
  | .exe => removeExeFilterFlag
  | .argv => removeArgvFilterFlag

theorem trim_newline (text : Bytes) : trim (text ++ [0x0a]) = trim text := by
  rw [trim, rdropWhile_concat_pos _ _ _ (by decide), trim]

theorem accepted_control {driver : Driver} {byte : UInt8} {text : Bytes}
    (verbatim : Verbatim text) (admitted : driver.exceeds (Flag.ofByte byte) = false) :
    accepted driver ⟨control [byte] text, (control [byte] text).length⟩ =
      (Flag.ofByte byte).change text := by
  have size : (control [byte] text).length = text.length + 2 := by simp [control]
  have content : Write.text ⟨control [byte] text, text.length + 2⟩ = text ++ [0x0a] := by
    have noNul : ∀ other ∈ text ++ [0x0a], decide (other ≠ 0) = true := by
      intro other listed
      rcases mem_append.mp listed with inText | isNewline
      · exact decide_eq_true (fun isNul => verbatim.nulFree (isNul ▸ inText))
      · rw [mem_singleton.mp isNewline]
        decide
    rw [Write.text, control, append_assoc, singleton_append, drop_one,
      tail_cons, take_of_length_le (by simp), takeWhile_eq_self_iff.mpr noNul]
  have inside : ¬ (text.length + 2 < allowlistNodeMin ∨ allowlistNodeMax < text.length + 2) := by
    have := verbatim.long
    have := verbatim.short
    simp only [allowlistNodeMin, allowlistNodeMax]
    omega
  rw [size]
  simp only [accepted, content, trim_newline, verbatim.trimmed]
  rw [control, append_assoc, singleton_append]
  dsimp only
  rw [if_neg inside, admitted, if_neg Bool.false_ne_true, if_neg (by simp)]

section Sending

variable {allocator : Allocator} (balancer : SearchTree.Balancer AllowlistNode.key)
  {driver : Driver}

@[simp]
theorem send_append (first second : List Bytes) : send allocator balancer driver (first ++ second) =
      (send allocator balancer driver first).bind
        (fun next => send allocator balancer next second) := by
  simp only [send, foldlM_append]
  rfl

@[simp]
theorem send_singleton (buffer : Bytes) : send allocator balancer driver [buffer] =
      deviceWrite allocator balancer driver ⟨buffer, buffer.length⟩ := by
  simp [send]

variable {text : Bytes}

section

variable (serves : allocator.Serves)
include serves

section

variable (sound : Sound driver [])
include sound

theorem sendOne_spec (byte : UInt8) (verbatim : Verbatim text)
    (admitted : driver.exceeds (Flag.ofByte byte) = false) {which : Which} {change : Change}
    (asked : (Flag.ofByte byte).change text = some (which, change)) :
    ∃ next, send allocator balancer driver [control [byte] text] = some next ∧ Sound next [] ∧
      Performs driver next which change := by
  obtain ⟨next, written, nextSound, follows⟩ := deviceWrite_spec balancer serves sound
    ⟨control [byte] text, (control [byte] text).length⟩
  rw [accepted_control verbatim admitted, asked] at follows
  exact ⟨next, (send_singleton balancer _).trans written, nextSound, follows⟩

theorem sendRemove_spec (verbatim : Verbatim text) (which : Which) :
    ∃ next, send allocator balancer driver [control (removeFlag which) text] = some next ∧
      Sound next [] ∧ Performs driver next which (.del text) := by
  cases which with
  | exe => exact sendOne_spec balancer serves sound 0x46 verbatim rfl rfl
  | argv => exact sendOne_spec balancer serves sound 0x4a verbatim rfl rfl

theorem sendAdd_spec
    (verbatim : Verbatim text) {which : Which} (room : (contents (driver.lists which)).card ≤ 128) :
    ∃ next, send allocator balancer driver [control (addFlag which) text] = some next ∧
      Sound next [] ∧ Performs driver next which (.add text) := by
  have counted := sound.counted which
  have admitted : decide (allowlistLimit < (driver.lists which).limit) = false := by
    rw [card_contents counted.sorted] at room
    rw [decide_eq_false_iff_not, counted.counted, Int.not_lt]
    exact Int.ofNat_le.mpr room
  cases which with
  | exe => exact sendOne_spec balancer serves sound 0x59 verbatim admitted rfl
  | argv => exact sendOne_spec balancer serves sound 0x6d verbatim admitted rfl

theorem sendRemoves_spec (which : Which)
    {removed : List Entry} (verbatim : ∀ entry ∈ removed, Verbatim entry.text) :
    ∃ next, send allocator balancer driver
        ((removed.map Entry.text).map (control (removeFlag which))) = some next ∧
      Sound next [] ∧ ∀ other, contents (next.lists other) =
        if other = which then contents (driver.lists other) \ texts removed
        else contents (driver.lists other) := by
  induction removed generalizing driver with
  | nil => exact ⟨driver, rfl, sound, fun other => by simp [texts]⟩
  | cons entry removed ih =>
    obtain ⟨middle, first, middleSound, performs⟩ := sendRemove_spec balancer serves sound
      (verbatim entry mem_cons_self) which
    obtain ⟨next, rest, nextSound, changed⟩ := ih middleSound
      (forall_mem_cons.mp verbatim).2
    refine ⟨next, ?_, nextSound, ?_⟩
    · rw [map_cons, map_cons, ← singleton_append, send_append, first]
      exact rest
    · intro other
      rw [changed other, performs other]
      split
      next =>
        rw [Change.apply, texts, texts, map_cons, toFinset_cons, Finset.sdiff_insert,
          Finset.erase_sdiff_comm]
      next => rfl

end

end

end Sending

def Spares (dropped kept : List Entry) : Prop := ∀ entry ∈ dropped, entry.text ∉ texts kept

/-- The strings are stored as they are, no step drops one of two equal entries and
no sweep meets a young argv entry. -/
def Step.Meets (system : System) : Step → Prop
  | addFilteredExe _ exe => Verbatim exe ∧
      ∀ front rest, system.queues.filteredExeEntries = front :: rest →
        128 - exeWhitelist.length < (front :: rest).length →
          front.text ≠ exe → Spares [front] rest
  | addFilteredArgv _ argv => Verbatim argv ∧
      ∀ front rest, system.queues.filteredArgvEntries = front :: rest →
        128 - argvWhitelist.length ≤ (front :: rest).length →
          front.text ≠ argv → Spares [front] rest
  | ttlFilters now =>
    (∀ entry ∈ system.queues.filteredArgvEntries, argvFilterTime ≤ entry.elapsed now) ∧
      Spares (system.queues.filteredExeEntries.takeWhile (Entry.expired exeFilterTime now))
        (system.queues.filteredExeEntries.dropWhile (Entry.expired exeFilterTime now))

/-- The most entries that a queue can have after a call. -/
def capacity : Which → Nat
  | .exe => 129
  | .argv => 128

/-- What a run keeps besides the agreement: the strings in the queues are stored as
they are, and the driver has room for the next one. -/
structure Tracked (system : System) : Prop where
  sound : Sound system.driver []
  opened : system.queues.controler = true
  agrees : ∀ which, contents (system.driver.lists which) = texts (system.queues.entries which)
  verbatim : ∀ which, ∀ entry ∈ system.queues.entries which, Verbatim entry.text
  size : ∀ which, (system.queues.entries which).length ≤ capacity which

theorem Tracked.toAgrees {system : System} (tracked : Tracked system) : Agrees system := by
  intro which
  rw [tracked.agrees which]
  cases which <;> exact (Finset.empty_union _).symm

theorem Which.eq_or_eq_other (which other : Which) : other = which ∨ other = which.other := by
  cases which <;> cases other <;> decide

theorem mem_texts {entries : List Entry} {text : Bytes} :
    text ∈ texts entries ↔ ∃ entry ∈ entries, entry.text = text := by
  rw [texts, mem_toFinset, mem_map]

@[simp]
theorem texts_append (first second : List Entry) :
    texts (first ++ second) = texts first ∪ texts second := by
  rw [texts, map_append, toFinset_append]
  rfl

theorem card_texts_le (entries : List Entry) : (texts entries).card ≤ entries.length := by
  apply (toFinset_card_le _).trans
  rw [length_map]

section Steps

variable {allocator : Allocator} (balancer : SearchTree.Balancer AllowlistNode.key)
  {system : System}

theorem Tracked.changed (tracked : Tracked system) (which : Which)
    {queues : Queues} {driver : Driver} (sound : Sound driver []) (opened : queues.controler = true)
    {kept : List Entry} {new : Entry} (added : queues.entries which = kept ++ [new])
    (agrees : contents (driver.lists which) = texts (kept ++ [new]))
    (old : ∀ entry ∈ kept, Verbatim entry.text) (verbatim : Verbatim new.text)
    (room : kept.length < capacity which)
    (sameEntries : queues.entries which.other = system.queues.entries which.other)
    (sameContents : contents (driver.lists which.other) =
      contents (system.driver.lists which.other)) : Tracked ⟨queues, driver⟩ := by
  refine ⟨sound, opened, ?_, ?_, ?_⟩
  · intro other
    rcases Which.eq_or_eq_other which other with rfl | rfl
    · exact agrees.trans (congrArg texts added.symm)
    · dsimp only
      rw [sameContents, sameEntries, tracked.agrees]
  · intro other
    rcases Which.eq_or_eq_other which other with rfl | rfl
    · intro entry listed
      rw [added] at listed
      rcases mem_append.mp listed with inKept | isNew
      · exact old entry inKept
      · rw [mem_singleton.mp isNew]
        exact verbatim
    · dsimp only
      rw [sameEntries]
      exact tracked.verbatim _
  · intro other
    rcases Which.eq_or_eq_other which other with rfl | rfl
    · rw [added, length_append]
      exact room
    · dsimp only
      rw [sameEntries]
      exact tracked.size _

variable {driver : Driver}

theorem append_spec (serves : allocator.Serves) (sound : Sound driver []) (which : Which)
    {entries : List Entry} {new : Entry} (verbatim : Verbatim new.text)
    (agrees : contents (driver.lists which) = texts entries) (room : entries.length ≤ 128) :
    ∃ next, send allocator balancer driver [control (addFlag which) new.text] = some next ∧
      Sound next [] ∧ contents (next.lists which) = texts (entries ++ [new]) ∧
      contents (next.lists which.other) = contents (driver.lists which.other) := by
  have fits : (contents (driver.lists which)).card ≤ 128 := by
    rw [agrees]
    exact (card_texts_le entries).trans room
  obtain ⟨next, sent, nextSound, performs⟩ := sendAdd_spec balancer serves sound verbatim fits
  refine ⟨next, sent, nextSound, ?_, ?_⟩
  · rw [performs which, if_pos rfl, agrees, texts_append, Finset.union_comm]
    rfl
  · exact (performs which.other).trans (if_neg (by cases which <;> decide))

theorem evict_spec (serves : allocator.Serves) (sound : Sound driver []) (which : Which)
    {front new : Entry} {rest : List Entry} (verbatimFront : Verbatim front.text)
    (verbatim : Verbatim new.text) (agrees : contents (driver.lists which) = texts (front :: rest))
    (room : rest.length ≤ 128) (spares : front.text ≠ new.text → Spares [front] rest) :
    ∃ next, send allocator balancer driver
        [control (removeFlag which) front.text, control (addFlag which) new.text] = some next ∧
      Sound next [] ∧ contents (next.lists which) = texts (rest ++ [new]) ∧
      contents (next.lists which.other) = contents (driver.lists which.other) := by
  obtain ⟨middle, removed, middleSound, performs⟩ :=
    sendRemove_spec balancer serves sound verbatimFront which
  have others : contents (middle.lists which.other) = contents (driver.lists which.other) :=
    (performs which.other).trans (if_neg (by cases which <;> decide))
  have left : contents (middle.lists which) = (texts rest).erase front.text := by
    rw [performs which, if_pos rfl, agrees, texts, map_cons, toFinset_cons]
    exact Finset.erase_insert_eq_erase _ _
  have fits : (contents (middle.lists which)).card ≤ 128 := by
    rw [left]
    exact (Finset.card_le_card (Finset.erase_subset _ _)).trans ((card_texts_le rest).trans room)
  obtain ⟨next, added, nextSound, adds⟩ := sendAdd_spec balancer serves middleSound verbatim fits
  have kept : insert new.text ((texts rest).erase front.text) = insert new.text (texts rest) := by
    by_cases same : front.text = new.text
    · ext text
      rw [Finset.mem_insert, Finset.mem_insert, Finset.mem_erase, same]
      tauto
    · rw [Finset.erase_eq_of_notMem (spares same front mem_cons_self)]
  refine ⟨next, ?_, nextSound, ?_, ?_⟩
  · rw [← singleton_append, send_append, removed]
    exact added
  · rw [adds which, if_pos rfl, left, Change.apply, kept, texts_append, Finset.union_comm]
    rfl
  · rw [adds which.other, if_neg (by cases which <;> decide), others]

theorem capacity_le (which : Which) : capacity which ≤ 129 := by cases which <;> decide

section Delivery

variable {system : System} {queues : Queues} (new : Entry)

theorem deliver_append (serves : allocator.Serves) (tracked : Tracked system) (which : Which)
    (opened : queues.controler = true) (verbatim : Verbatim new.text)
    (appended : queues.entries which = system.queues.entries which ++ [new])
    (sameEntries : queues.entries which.other = system.queues.entries which.other)
    (room : (system.queues.entries which).length < capacity which) :
    ∃ next, system.deliver allocator balancer (queues, [control (addFlag which) new.text]) =
      some next ∧ Tracked next := by
  have atMost : (system.queues.entries which).length ≤ 128 :=
    Nat.le_of_lt_succ (room.trans_le (capacity_le which))
  obtain ⟨next, sent, sound, changed, others⟩ := append_spec balancer serves tracked.sound which
    verbatim (tracked.agrees which) atMost
  refine ⟨⟨queues, next⟩, ?_, ?_⟩
  · rw [System.deliver, sent]
    rfl
  · exact tracked.changed which sound opened appended changed (tracked.verbatim which) verbatim room
      sameEntries others

theorem deliver_evict (serves : allocator.Serves) (tracked : Tracked system) (which : Which)
    (opened : queues.controler = true) (verbatim : Verbatim new.text) {front : Entry}
    {rest : List Entry} (before : system.queues.entries which = front :: rest)
    (shifted : queues.entries which = rest ++ [new])
    (sameEntries : queues.entries which.other = system.queues.entries which.other)
    (spares : front.text ≠ new.text → Spares [front] rest) :
    ∃ next, system.deliver allocator balancer
        (queues, [control (removeFlag which) front.text, control (addFlag which) new.text]) =
      some next ∧ Tracked next := by
  have size := tracked.size which
  have agrees := tracked.agrees which
  have old := tracked.verbatim which
  rw [before] at size agrees old
  have room : rest.length ≤ 128 := Nat.le_of_succ_le_succ (size.trans (capacity_le which))
  obtain ⟨next, sent, sound, changed, others⟩ := evict_spec balancer serves tracked.sound which
    (old front mem_cons_self) verbatim agrees room spares
  refine ⟨⟨queues, next⟩, ?_, ?_⟩
  · rw [System.deliver, sent]
    rfl
  · exact tracked.changed which sound opened shifted changed
      (forall_mem_cons.mp old).2 verbatim size sameEntries others

end Delivery

theorem removed_texts {taken kept : List Entry} (spares : Spares taken kept) :
    texts (taken ++ kept) \ texts taken = texts kept := by
  rw [texts_append, Finset.union_sdiff_left]
  apply Finset.sdiff_eq_self_of_disjoint
  rw [Finset.disjoint_right]
  intro text dropped
  obtain ⟨entry, listed, rfl⟩ := mem_texts.mp dropped
  exact spares entry listed

theorem ttlFilters_old {queues : Queues} (opened : queues.controler = true) {now : Nat}
    (old : ∀ entry ∈ queues.filteredArgvEntries, argvFilterTime ≤ entry.elapsed now) :
    queues.ttlFilters now =
      (⟨queues.filteredExeEntries.dropWhile (Entry.expired exeFilterTime now), [], true⟩,
        ((queues.filteredExeEntries.takeWhile (Entry.expired exeFilterTime now)).map
            Entry.text).map (control (removeFlag .exe)) ++
          (queues.filteredArgvEntries.map Entry.text).map (control (removeFlag .argv))) := by
  obtain ⟨exe, argv, controler⟩ := queues
  cases opened
  have allOld : ∀ entry ∈ argv, entry.expired argvFilterTime now = true :=
    fun entry listed => Entry.expired_iff.mpr (old entry listed)
  rw [Queues.ttlFilters_eq, dropWhile_eq_nil_iff.mpr allOld,
    takeWhile_eq_self_iff.mpr allOld, map_map, map_map]
  rfl

theorem sweep_spec (serves : allocator.Serves) (tracked : Tracked system)
    {now : Nat} (meets : Step.Meets system (.ttlFilters now)) :
    ∃ next, Step.run allocator balancer system (.ttlFilters now) = some next ∧ Tracked next := by
  obtain ⟨old, spares⟩ := meets
  have split : system.queues.filteredExeEntries.takeWhile (Entry.expired exeFilterTime now) ++
      system.queues.filteredExeEntries.dropWhile (Entry.expired exeFilterTime now) =
        system.queues.filteredExeEntries := takeWhile_append_dropWhile
  have agreesExe := tracked.agrees .exe
  have verbatimExe := tracked.verbatim .exe
  have sizeExe := tracked.size .exe
  simp only [Queues.entries] at agreesExe verbatimExe sizeExe
  rw [Step.run, ttlFilters_old tracked.opened old, System.deliver, send_append]
  rw [← split] at agreesExe verbatimExe sizeExe
  generalize system.queues.filteredExeEntries.takeWhile (Entry.expired exeFilterTime now) = taken
    at *
  generalize system.queues.filteredExeEntries.dropWhile (Entry.expired exeFilterTime now) = kept
    at *
  obtain ⟨middle, sentExe, middleSound, exeChanged⟩ := sendRemoves_spec balancer serves
    tracked.sound .exe (fun entry listed => verbatimExe entry (mem_append_left kept listed))
  obtain ⟨next, sentArgv, nextSound, argvChanged⟩ := sendRemoves_spec balancer serves
    middleSound .argv (tracked.verbatim .argv)
  refine ⟨⟨⟨kept, [], true⟩, next⟩, ?_, ?_⟩
  · simp only [Queues.entries] at sentArgv
    rw [sentExe, Option.bind_some, sentArgv]
    rfl
  · refine ⟨nextSound, rfl, ?_, ?_, ?_⟩
    · intro which
      rw [argvChanged which, exeChanged which]
      cases which with
      | exe =>
        dsimp only [Queues.entries]
        rw [if_neg (by decide), if_pos rfl, agreesExe, removed_texts spares]
      | argv =>
        rw [if_pos rfl, if_neg (by decide), tracked.agrees .argv, Finset.sdiff_self]
        rfl
    · intro which entry listed
      cases which with
      | exe => exact verbatimExe entry (mem_append_right taken listed)
      | argv => cases listed
    · intro which
      cases which with
      | exe => exact (length_append.symm ▸ Nat.le_add_left _ _).trans sizeExe
      | argv => exact Nat.zero_le _

theorem step_spec (serves : allocator.Serves) (tracked : Tracked system)
    {step : Step} (meets : step.Meets system) :
    ∃ next, step.run allocator balancer system = some next ∧ Tracked next := by
  cases step with
  | ttlFilters now => exact sweep_spec balancer serves tracked meets
  | addFilteredExe now exe =>
    obtain ⟨verbatim, spares⟩ := meets
    simp only [Step.run, Queues.addFilteredExe, tracked.opened, if_true]
    split
    next full =>
      cases entries : system.queues.filteredExeEntries with
      | nil =>
        rw [entries] at full
        exact absurd full (by decide)
      | cons front rest =>
        rw [entries] at full
        exact deliver_evict balancer ⟨now, exe⟩ serves tracked .exe rfl verbatim entries rfl rfl
          (spares front rest entries full)
    next notFull =>
      exact deliver_append balancer ⟨now, exe⟩ serves tracked .exe rfl verbatim rfl rfl
        (Nat.lt_succ_of_le (Nat.le_of_not_lt notFull))
  | addFilteredArgv now argv =>
    obtain ⟨verbatim, spares⟩ := meets
    simp only [Step.run, Queues.addFilteredArgv, tracked.opened, if_true]
    split
    next full =>
      cases entries : system.queues.filteredArgvEntries with
      | nil =>
        rw [entries] at full
        exact absurd full (by decide)
      | cons front rest =>
        rw [entries] at full
        exact deliver_evict balancer ⟨now, argv⟩ serves tracked .argv rfl verbatim entries rfl
          rfl (spares front rest entries full)
    next notFull =>
      exact deliver_append balancer ⟨now, argv⟩ serves tracked .argv rfl verbatim rfl rfl
        (Nat.lt_of_not_le notFull)

theorem tracked_new {driver : Driver} (sound : Sound driver [])
    (empty : ∀ which, contents (driver.lists which) = ∅) : Tracked ⟨⟨[], [], true⟩, driver⟩ := by
  refine ⟨sound, rfl, ?_, ?_, ?_⟩
  · intro which
    rw [empty which]
    cases which <;> rfl
  · intro which entry listed
    cases which <;> cases listed
  · intro which
    cases which <;> exact Nat.zero_le _

theorem install_spec (serves : allocator.Serves) {loaded : Option Driver}
    (sound : ∀ driver ∈ loaded, Sound driver []) :
    ∃ driver, install allocator balancer loaded = some driver ∧ Sound driver [] ∧
      ∀ which, contents (driver.lists which) = ∅ := by
  cases loaded with
  | none => exact ⟨Driver.initial, rfl, sound_initial, fun _ => rfl⟩
  | some driver =>
    have padding : Verbatim paddingContent := ⟨by decide, by decide, by decide, by decide⟩
    obtain ⟨middle, emptiedArgv, middleSound, first⟩ :=
      sendOne_spec balancer serves (sound driver rfl) 0x75 padding rfl rfl
    obtain ⟨next, emptiedExe, nextSound, second⟩ :=
      sendOne_spec balancer serves middleSound 0x77 padding rfl rfl
    refine ⟨next, ?_, nextSound, ?_⟩
    · rw [install, ← singleton_append, send_append]
      exact (congrArg (Option.bind · _) emptiedArgv).trans emptiedExe
    · intro which
      rw [second which, first which]
      cases which <;> rfl

end Steps

/-- After `Kmod::new`, in every run whose steps meet the condition, the driver's lists
hold the whitelist and the strings in the queues after each step. -/
theorem agrees_of_allMeet (allocator : Allocator) (serves : allocator.Serves)
    (balancer : SearchTree.Balancer AllowlistNode.key) (loaded : Option Driver)
    (sound : ∀ driver ∈ loaded, Sound driver []) (steps : List Step) :
    ∃ start, newKmod allocator balancer loaded = some start ∧
      (AllMeet (Step.step allocator balancer) (fun _ system step => step.Meets system) [] start
          steps →
        Succeeds (Step.step allocator balancer) (fun _ system => Agrees system) [] start
          steps) := by
  obtain ⟨driver, installed, driverSound, empty⟩ := install_spec balancer serves sound
  refine ⟨⟨⟨[], [], true⟩, driver⟩, ?_, ?_⟩
  · rw [newKmod, installed]
    rfl
  · refine AllMeet.succeeds (fun _ system => Tracked system) ?_ (fun _ _ => Tracked.toAgrees)
      (tracked_new driverSound empty)
    intro _ system step _ tracked meets
    obtain ⟨next, ran, trackedNext⟩ := step_spec balancer serves tracked meets
    refine ⟨next, (), ?_, trackedNext⟩
    rw [Step.step, ran]
    rfl

theorem deliver_queues {allocator : Allocator} {balancer : SearchTree.Balancer AllowlistNode.key}
    {system next : System} {outcome : Queues × List Bytes}
    (delivered : system.deliver allocator balancer outcome = some next) :
    next.queues = outcome.1 := by
  rw [System.deliver, Option.bind_eq_bind, Option.bind_eq_some_iff] at delivered
  obtain ⟨driver, _, ⟨⟩⟩ := delivered
  rfl

def addAndSweep : List Step :=
  [.addFilteredExe 0 [0x61, 0x62, 0x63], .ttlFilters (700 * 10 ^ 9)]

theorem agrees_addAndSweep : Succeeds (Step.step .rising (.plain _))
    (fun _ system => Agrees system) [] ⟨⟨[], [], true⟩, Driver.initial⟩ addAndSweep := by
  obtain ⟨start, isNew, holds⟩ := agrees_of_allMeet .rising Allocator.rising_serves (.plain _) none
    (fun _ absent => nomatch absent) addAndSweep
  cases isNew
  refine holds ⟨⟨⟨by decide, by decide, by decide, by decide⟩, ?_⟩, ?_⟩
  · intro front rest entries
    cases entries
  · split
    next => trivial
    next next _ taken =>
      obtain ⟨_, ran, ⟨⟩⟩ := Option.map_eq_some_iff.mp taken
      have delivered : System.deliver .rising (.plain _) ⟨⟨[], [], true⟩, Driver.initial⟩
          (⟨[⟨0, [0x61, 0x62, 0x63]⟩], [], true⟩,
            [control addExeFilterFlag [0x61, 0x62, 0x63]]) = some next := ran
      have queues := deliver_queues delivered
      refine ⟨⟨?_, ?_⟩, by split <;> trivial⟩
      · rw [queues]
        intro entry listed
        cases listed
      · rw [queues]
        intro entry _
        exact Finset.notMem_empty _

theorem shortExe_notStored : ((newKmod .rising (.plain _) none).bind (fun start =>
        Step.run .rising (.plain _) start (.addFilteredExe 0 [0x61, 0x62]))).map
      (fun system => (contents (system.driver.lists .exe),
        texts system.queues.filteredExeEntries)) = some (∅, {[0x61, 0x62]}) := by
  decide +kernel

end Elkeid.Kmod
