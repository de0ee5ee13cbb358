import Elkeid.FileNotify.Checklist
import Elkeid.Foundations.Since

/-!
# The checklist refines its history

What a query should answer is said by the operations alone: a bit is recorded
for a uuid, an inode and a name when some `add` set it and no later operation
cleared it.
-/

namespace Elkeid.FileNotify

open Foundations Machine Function

def Operation.Sets (uuid : Uuid) (ino : Nat) (name : CString) (bit : Nat) : Operation → Prop
  | add _ ino' item =>
    ino' = ino ∧ item.uuid = uuid ∧ item.name = name ∧ item.mask.getLsbD bit = true
  | del _ _ => False
  | deleteAll => False

def Operation.Clears (uuid : Uuid) (ino : Nat) (name : CString) (bit : Nat) : Operation → Prop
  | add _ _ _ => False
  | del ino' item =>
    ino' = ino ∧ item.uuid = uuid ∧ item.name = name ∧ item.mask.getLsbD bit = true
  | deleteAll => True

def Recorded (operations : List Operation) (uuid : Uuid) (ino : Nat) (name : CString)
    (bit : Nat) : Prop :=
  Since (Operation.Sets uuid ino name bit) (Operation.Clears uuid ino name bit) operations

section History

variable {uuid : Uuid} {ino : Nat} {name : CString} {bit : Nat}

theorem apply_getLsbD (tables : Tables) (operation : Operation) :
    (operation.apply tables ino uuid name).getLsbD bit = true ↔
      operation.Sets uuid ino name bit ∨
        ((tables ino uuid name).getLsbD bit = true ∧ ¬ operation.Clears uuid ino name bit) := by
  cases operation with
  | add grant ino' item =>
    simp only [Operation.apply, Operation.Sets, Operation.Clears, not_false_eq_true, and_true]
    by_cases sameIno : ino = ino'
    · subst sameIno
      rw [update_self, Table.add]
      by_cases isItem : uuid = item.uuid ∧ name = item.name
      · obtain ⟨rfl, rfl⟩ := isItem
        simp [or_comm]
      · rw [if_neg isItem]
        constructor
        · exact Or.inr
        · rintro (⟨_, sameUuid, sameName, _⟩ | old)
          · exact absurd ⟨sameUuid.symm, sameName.symm⟩ isItem
          · exact old
    · rw [update_of_ne sameIno]
      constructor
      · exact Or.inr
      · rintro (⟨same, _⟩ | old)
        · exact absurd same.symm sameIno
        · exact old
  | del ino' item =>
    simp only [Operation.apply, Operation.Sets, Operation.Clears, false_or]
    by_cases sameIno : ino = ino'
    · subst sameIno
      rw [update_self, Table.remove]
      by_cases isItem : uuid = item.uuid ∧ name = item.name
      · obtain ⟨rfl, rfl⟩ := isItem
        by_cases inWord : bit < 32
        · simp [inWord]
        · simp [BitVec.getLsbD_of_ge _ _ (Nat.le_of_not_lt inWord)]
      · rw [if_neg isItem]
        constructor
        · intro old
          refine ⟨old, ?_⟩
          rintro ⟨_, sameUuid, sameName, _⟩
          exact isItem ⟨sameUuid.symm, sameName.symm⟩
        · exact And.left
    · rw [update_of_ne sameIno]
      constructor
      · intro old
        refine ⟨old, ?_⟩
        rintro ⟨same, _⟩
        exact sameIno same.symm
      · exact And.left
  | deleteAll => simp [Operation.apply, Operation.Sets, Operation.Clears, Tables.empty]

theorem tables_recorded (operations : List Operation) :
    (operations.foldl (fun tables operation => operation.apply tables) Tables.empty ino uuid
      name).getLsbD bit = true ↔ Recorded operations uuid ino name bit := by
  have blank : ¬ (Tables.empty ino uuid name).getLsbD bit = true := by simp [Tables.empty]
  exact Since.foldl_iff (fun tables : Tables => (tables ino uuid name).getLsbD bit = true) blank
    apply_getLsbD operations

theorem and_ne_zero_iff {first second : BitVec 32} :
    first &&& second ≠ 0 ↔ ∃ bit, second.getLsbD bit = true ∧ first.getLsbD bit = true := by
  constructor
  · intro nonzero
    by_contra noBit
    apply nonzero
    apply BitVec.eq_of_getLsbD_eq
    intro bit _
    rw [BitVec.getLsbD_and]
    cases inFirst : first.getLsbD bit with
    | false => simp
    | true =>
      cases inSecond : second.getLsbD bit with
      | false => simp
      | true => exact absurd ⟨bit, inSecond, inFirst⟩ noBit
  · rintro ⟨bit, inSecond, inFirst⟩ zero
    have cleared : (first &&& second).getLsbD bit = false := by
      rw [zero]
      exact BitVec.getLsbD_zero
    rw [BitVec.getLsbD_and, inFirst, inSecond] at cleared
    cases cleared

end History

theorem check_spec {list : Checklist} {tables : Tables} (represents : Represents list tables)
    (ino : Nat) (item : MaskItem) :
    ∃ answer, fileNotifyCheck ino item list = .ok answer ∧
      (answer = true ↔ tables ino item.uuid item.name &&& item.mask ≠ 0) := by
  cases found : fileNotifySearchRb list ino with
  | none =>
    refine ⟨false, ?_, ?_⟩
    · rw [fileNotifyCheck, found]
      rfl
    · rw [represents.absent ino (represents.search_none found)]
      simp
  | some slot =>
    obtain ⟨listed, rfl⟩ := represents.search found
    obtain ⟨volumes, packed, stands⟩ := represents.present slot listed
    obtain ⟨mi, lookup, spec⟩ := maskLookup_spec packed item
    refine ⟨mi.item.isSome, ?_, ?_⟩
    · simp [fileNotifyCheck, found, lookup]
    · rw [← stands]
      exact spec

/-- In every run whose insertions are roomy no operation faults, and when every
allocation was served each query answers by the history of the run. -/
theorem check_iff_recorded (balancer : SearchTree.Balancer Slot.ino) (operations : List Operation)
    (meets : AllMeet (Operation.step balancer) (fun _ list operation => operation.Meets list) []
      .leaf operations) :
    ∃ list served, run (Operation.step balancer) .leaf operations = some (list, served) ∧
      ((∀ flag ∈ served, flag = true) → ∀ ino item, ∃ answer,
        fileNotifyCheck ino item list = .ok answer ∧
          (answer = true ↔ ∃ bit, item.mask.getLsbD bit = true ∧
            Recorded operations item.uuid ino item.name bit)) := by
  obtain ⟨list, served, final, ran, represents, table⟩ :=
    run_represents balancer represents_empty meets
  refine ⟨list, served, ran, ?_⟩
  intro allServed ino item
  obtain ⟨answer, checked, spec⟩ := check_spec represents ino item
  refine ⟨answer, checked, ?_⟩
  rw [spec, table allServed, and_ne_zero_iff]
  constructor
  · rintro ⟨bit, inMask, set⟩
    exact ⟨bit, inMask, (tables_recorded operations).mp set⟩
  · rintro ⟨bit, inMask, recorded⟩
    exact ⟨bit, inMask, (tables_recorded operations).mpr recorded⟩

theorem check_after_add_and_del :
    ∃ list served, run (Operation.step (SearchTree.Balancer.plain Slot.ino)) .leaf
        [.add (fun _ => true) 5 (plainItem 97 (by decide) 3),
          .del 5 (plainItem 98 (by decide) 3)] = some (list, served) ∧
      ((∀ flag ∈ served, flag = true) → ∀ ino item, ∃ answer,
        fileNotifyCheck ino item list = .ok answer ∧
          (answer = true ↔ ∃ bit, item.mask.getLsbD bit = true ∧
            Recorded [.add (fun _ => true) 5 (plainItem 97 (by decide) 3),
              .del 5 (plainItem 98 (by decide) 3)] item.uuid ino item.name bit)) := by
  apply check_iff_recorded
  refine ⟨?_, ?_⟩
  · intro slot found
    cases found
  · split
    next => trivial
    next => exact ⟨trivial, by split <;> trivial⟩

/-- Two names of one volume and inode whose second insertion is not roomy: the
run writes outside the buffer of the node, so no later query has a defined answer. -/
theorem checklist_outOfBounds :
    ((Operation.run (.plain Slot.ino) .leaf
        (.add (fun _ => true) 5 (plainItem 97 (by decide) 300))).bind fun first =>
      Operation.run (.plain Slot.ino) first.1
        (.add (fun _ => true) 5 (plainItem 98 (by decide) 170))) = .error .outOfBounds := by
  decide +kernel

end Elkeid.FileNotify
