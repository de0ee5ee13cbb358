import Elkeid.Allowlist.Writes
import Elkeid.Foundations.Machine
import Elkeid.Foundations.Since

/-!
# The allowlists over a run of writes

Whatever is written, the lists hold what the accepted changes say and the heap
holds what the lists point to. The limit is different: the test lets one write
through when a list is full, so the number of nodes stays within the limit
exactly when no write uses this.
-/

namespace Elkeid.Allowlist

open Foundations Machine List Finset

def onList (which : Which) : Option (Which × Change) → List Change
  | some (other, change) => if other = which then [change] else []
  | none => []

theorem Follows.contents_eq {driver next : Driver} {step : Option (Which × Change)}
    (follows : Follows driver next step) (which : Which) :
    contents (next.lists which) =
      (onList which step).foldl Change.apply (contents (driver.lists which)) := by
  match step, follows with
  | none, same => exact same which
  | some (other, change), performs =>
    rw [performs which, onList]
    by_cases same : which = other
    · rw [if_pos same, if_pos same.symm]
      rfl
    · rw [if_neg same, if_neg (Ne.symm same)]
      rfl

def Stands (text : Bytes) (changes : List Change) : Prop :=
  Since (· = .add text) (fun change => change = .del text ∨ change = .deleteAll) changes

theorem mem_foldl_iff_stands (text : Bytes) (changes : List Change) :
    text ∈ changes.foldl Change.apply ∅ ↔ Stands text changes := by
  apply Since.foldl_iff (text ∈ ·) (notMem_empty text)
  intro texts change
  cases change with
  | add other => simp [Change.apply, eq_comm]
  | del other =>
    simp only [Change.apply, mem_erase, ne_eq, reduceCtorEq, or_false, false_or, Change.del.injEq]
    rw [and_comm, eq_comm]
  | deleteAll => simp [Change.apply]

section Checks

variable {list : Records}

theorem existRb_ne_zero_iff (counted : list.Counted) (text : Bytes) :
    existRb text list.tree ≠ 0 ↔ text ∈ contents list := by
  rw [existRb, ← search_isSome_iff counted.sorted]
  split
  next found => exact iff_of_true Nat.one_ne_zero found
  next missing => exact iff_of_false (fun nonzero => nonzero rfl) missing

theorem execveExeCheck_spec (counted : list.Counted) (s : CString) :
    execveExeCheck list (some s) ≠ 0 ↔
      s.bytes ∈ contents list ∧ s.bytes ≠ minusOne ∧ s.bytes ≠ minusTwo := by
  rw [execveExeCheck]
  split
  next reserved =>
    refine iff_of_false (fun nonzero => nonzero rfl) ?_
    rintro ⟨_, notOne, notTwo⟩
    exact reserved.elim notOne notTwo
  next plain =>
    rw [existRb_ne_zero_iff counted]
    exact (and_iff_left (not_or.mp plain)).symm

theorem execveArgvCheck_spec (counted : list.Counted) (s : CString) :
    ∃ res, execveArgvCheck list (some s) = some res ∧
      (res ≠ 0 ↔ trim s.bytes ∈ contents list ∧ s.bytes ≠ minusOne ∧ s.bytes ≠ minusTwo) := by
  rw [execveArgvCheck]
  split
  next reserved =>
    refine ⟨0, rfl, iff_of_false (fun nonzero => nonzero rfl) ?_⟩
    rintro ⟨_, notOne, notTwo⟩
    exact reserved.elim notOne notTwo
  next plain =>
    obtain ⟨offset, block, trimmed, text⟩ := strim_spec s.nulFree []
    refine ⟨existRb (trim s.bytes) list.tree, ?_, ?_⟩
    · simp only [trimmed, text, Option.bind_eq_bind, Option.bind_some]
      rfl
    · rw [existRb_ne_zero_iff counted]
      exact (and_iff_left (not_or.mp plain)).symm

end Checks

def Bounded (driver : Driver) : Prop :=
  ∀ which, ((driver.lists which).tree.inorder.length : Int) ≤ allowlistLimit

/-- The state is what the changes so far call for. -/
structure Correct (driver : Driver) (past : Which → List Change) : Prop where
  sorted : ∀ which, (driver.lists which).tree.Sorted AllowlistNode.key
  counted : ∀ which, (driver.lists which).limit = (driver.lists which).tree.inorder.length
  bounded : Bounded driver
  owned : driver.heap.Owns driver.owned
  exeCheck : ∀ s : CString, execveExeCheck (driver.lists .exe) (some s) ≠ 0 ↔
    Stands s.bytes (past .exe) ∧ s.bytes ≠ minusOne ∧ s.bytes ≠ minusTwo
  argvCheck : ∀ s : CString, ∃ res, execveArgvCheck (driver.lists .argv) (some s) = some res ∧
    (res ≠ 0 ↔ Stands (trim s.bytes) (past .argv) ∧ s.bytes ≠ minusOne ∧ s.bytes ≠ minusTwo)

section Runs

variable (allocator : Allocator) (balancer : SearchTree.Balancer AllowlistNode.key)

/-- A write, with the change that is accepted of it. -/
def writeStep (driver : Driver) (write : Write) : Option (Driver × Option (Which × Change)) :=
  (deviceWrite allocator balancer driver write).map fun next => (next, accepted driver write)

def changes (past : List (Option (Which × Change))) (which : Which) : List Change :=
  past.flatMap (onList which)

/-- An accepted add brings a text the list has already, or finds room. -/
def Meets (driver : Driver) (write : Write) : Prop :=
  ∀ which text, accepted driver write = some (which, .add text) →
    text ∈ contents (driver.lists which) ∨
      ((driver.lists which).tree.inorder.length : Int) < allowlistLimit

/-- The lists hold what the accepted changes say. -/
structure Explained (past : List (Option (Which × Change))) (driver : Driver) : Prop where
  sound : Sound driver []
  contents_eq : ∀ which,
    contents (driver.lists which) = (changes past which).foldl Change.apply ∅

variable {allocator} {driver : Driver} {past : List (Option (Which × Change))}

theorem Explained.correct_iff (explained : Explained past driver) :
    Correct driver (changes past) ↔ Bounded driver := by
  have sound := explained.sound
  have stands (which : Which) (text : Bytes) :
      text ∈ contents (driver.lists which) ↔ Stands text (changes past which) := by
    rw [explained.contents_eq which]
    exact mem_foldl_iff_stands text _
  refine ⟨Correct.bounded, fun bounded => ⟨?_, ?_, bounded, sound.owned, ?_, ?_⟩⟩
  · exact fun which => (sound.counted which).sorted
  · exact fun which => (sound.counted which).counted
  · intro s
    rw [execveExeCheck_spec (sound.counted .exe), stands]
  · intro s
    obtain ⟨res, checked, spec⟩ := execveArgvCheck_spec (sound.counted .argv) s
    rw [stands] at spec
    exact ⟨res, checked, spec⟩

theorem Explained.step (serves : allocator.Serves) (explained : Explained past driver)
    (write : Write) : ∃ next, writeStep allocator balancer driver write =
        some (next, accepted driver write) ∧ Follows driver next (accepted driver write) ∧
      Explained (past ++ [accepted driver write]) next := by
  obtain ⟨next, written, sound, follows⟩ :=
    deviceWrite_spec balancer serves explained.sound write
  refine ⟨next, ?_, follows, sound, fun which => ?_⟩
  · rw [writeStep, written]
    rfl
  · rw [follows.contents_eq which, explained.contents_eq which, changes, changes, flatMap_concat,
      foldl_append]

theorem Change.apply_subset {texts : Finset Bytes} {change : Change}
    (old : ∀ text, change = .add text → text ∈ texts) : change.apply texts ⊆ texts := by
  cases change with
  | add text => exact insert_subset (old text rfl) (Finset.Subset.refl _)
  | del text => exact erase_subset _ _
  | deleteAll => exact empty_subset _

variable {next : Driver}

theorem length_le_of_subset (sound : Sound driver []) (nextSound : Sound next [])
    {which : Which} (fewer : contents (next.lists which) ⊆ contents (driver.lists which)) :
    (next.lists which).tree.inorder.length ≤ (driver.lists which).tree.inorder.length := by
  rw [← card_contents (sound.counted which).sorted,
    ← card_contents (nextSound.counted which).sorted]
  exact card_le_card fewer

theorem length_of_newAdd (sound : Sound driver []) (nextSound : Sound next [])
    {which : Which} {text : Bytes} (performs : Performs driver next which (.add text))
    (new : text ∉ contents (driver.lists which)) :
    (next.lists which).tree.inorder.length = (driver.lists which).tree.inorder.length + 1 := by
  rw [← card_contents (sound.counted which).sorted,
    ← card_contents (nextSound.counted which).sorted, performs which, if_pos rfl, Change.apply,
    card_insert_of_notMem new]

theorem bounded_iff_meets {write : Write} (sound : Sound driver [])
    (nextSound : Sound next []) (follows : Follows driver next (accepted driver write))
    (bounded : Bounded driver) : Bounded next ↔ Meets driver write := by
  have within {which : Which}
      (fewer : contents (next.lists which) ⊆ contents (driver.lists which)) :
      ((next.lists which).tree.inorder.length : Int) ≤ allowlistLimit :=
    (Int.ofNat_le.mpr (length_le_of_subset sound nextSound fewer)).trans (bounded which)
  cases step : accepted driver write with
  | none =>
    rw [step] at follows
    refine iff_of_true (fun which => within (follows which).subset) ?_
    intro which text isAdd
    rw [step] at isAdd
    cases isAdd
  | some pair =>
    obtain ⟨target, change⟩ := pair
    rw [step] at follows
    by_cases grows : ∃ text, change = .add text ∧ text ∉ contents (driver.lists target)
    · obtain ⟨text, rfl, new⟩ := grows
      have larger := length_of_newAdd sound nextSound follows new
      constructor
      · intro nextBounded which other isAdd
        rw [step] at isAdd
        cases isAdd
        have fits := nextBounded target
        rw [larger, Int.natCast_succ] at fits
        exact .inr (Int.lt_of_add_one_le fits)
      · intro meets which
        by_cases isTarget : which = target
        · subst isTarget
          rcases meets which text step with old | room
          · exact absurd old new
          · rw [larger, Int.natCast_succ]
            exact Int.add_one_le_of_lt room
        · apply within
          rw [follows which, if_neg isTarget]
    · have old : ∀ text, change = .add text → text ∈ contents (driver.lists target) := by
        intro text isAdd
        by_contra new
        exact grows ⟨text, isAdd, new⟩
      refine iff_of_true ?_ ?_
      · intro which
        apply within
        rw [follows which]
        split
        next isTarget =>
          subst isTarget
          exact Change.apply_subset old
        next => exact Finset.Subset.refl _
      · intro which text isAdd
        rw [step] at isAdd
        cases isAdd
        exact .inl (old text rfl)

end Runs

theorem bounded_initial : Bounded Driver.initial := fun which => by cases which <;> decide

/-- The lists are correct after every write of a run exactly when no accepted add
brings a new text to a full list. -/
theorem correct_iff_allMeet (allocator : Allocator) (serves : allocator.Serves)
    (balancer : SearchTree.Balancer AllowlistNode.key) (writes : List Write) :
    Succeeds (writeStep allocator balancer) (fun past driver => Correct driver (changes past)) []
        Driver.initial writes ↔
      AllMeet (writeStep allocator balancer) (fun _ driver write => Meets driver write) []
        Driver.initial writes := by
  have initially : Explained [] Driver.initial ∧ Bounded Driver.initial :=
    ⟨⟨sound_initial, fun _ => rfl⟩, bounded_initial⟩
  constructor
  · refine Succeeds.allMeet (fun past driver => Explained past driver ∧ Bounded driver) ?_ initially
    rintro past driver write next change ⟨explained, bounded⟩ stepped correct
    obtain ⟨other, again, follows, explainedNext⟩ := explained.step balancer serves write
    cases stepped.symm.trans again
    have step := bounded_iff_meets explained.sound explainedNext.sound follows bounded
    exact ⟨step.mp correct.bounded, explainedNext, correct.bounded⟩
  · refine AllMeet.succeeds (fun past driver => Explained past driver ∧ Bounded driver) ?_ ?_
      initially
    · rintro past driver write _ ⟨explained, bounded⟩ meets
      obtain ⟨next, stepped, follows, explainedNext⟩ := explained.step balancer serves write
      have step := bounded_iff_meets explained.sound explainedNext.sound follows bounded
      exact ⟨next, _, stepped, explainedNext, step.mpr meets⟩
    · rintro past driver ⟨explained, bounded⟩
      exact explained.correct_iff.mpr bounded

def addAndDelete : List Write := [⟨[89, 32, 97, 98, 99, 10], 6⟩, ⟨[70, 97, 98, 99, 10], 5⟩]

theorem correct_addAndDelete : Succeeds (writeStep .rising (.plain _))
    (fun past driver => Correct driver (changes past)) [] Driver.initial addAndDelete := by
  refine (correct_iff_allMeet .rising Allocator.rising_serves (.plain _) addAndDelete).mpr
    ⟨?_, ?_⟩
  · intro which _ _
    exact .inr (by cases which <;> decide)
  · split
    next => trivial
    next middle _ _ =>
      refine ⟨fun which text isAdd => ?_, by split <;> trivial⟩
      have isDelete : accepted middle ⟨[70, 97, 98, 99, 10], 5⟩ = some (.exe, .del [97, 98, 99]) :=
        rfl
      cases isDelete.symm.trans isAdd

def oneTooMany : List Write :=
  (List.range 129).map (fun n =>
    ⟨[89, 97, 97, UInt8.ofNat (97 + n / 16), UInt8.ofNat (97 + n % 16)], 5⟩)

theorem oneTooMany_exceeds_limit : (run (writeStep .rising (.plain _)) Driver.initial
      oneTooMany).map (fun (driver, _) => (driver.lists .exe).tree.inorder.length) = some 129 := by
  decide +kernel

end Elkeid.Allowlist
