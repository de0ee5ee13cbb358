import Elkeid.FileNotify.Packed

/-!
# The table a list of volumes stands for

The store maps a uuid and a name to a mask; a pair that is not there has the
mask 0. Replacing, adding and dropping one volume or one entry changes the table
in one place only.
-/

namespace Elkeid.FileNotify

open Foundations List

abbrev Table := Uuid → CString → BitVec 32

def entryMask : List Entry → CString → BitVec 32
  | [], _ => 0
  | entry :: rest, name => if name = entry.name then entry.mask else entryMask rest name

def maskOf : List Volume → Table
  | [], _, _ => 0
  | volume :: rest, uuid, name =>
    if uuid = volume.uuid then entryMask volume.entries name else maskOf rest uuid name

def Table.add (table : Table) (item : MaskItem) : Table := fun uuid name =>
  if uuid = item.uuid ∧ name = item.name then table uuid name ||| item.mask
  else table uuid name

def Table.remove (table : Table) (item : MaskItem) : Table := fun uuid name =>
  if uuid = item.uuid ∧ name = item.name then table uuid name &&& ~~~item.mask
  else table uuid name

theorem first_split {α : Type} (accepted : α → Prop) (items : List α) :
    (∃ skipped item rest, items = skipped ++ item :: rest ∧
      (∀ other ∈ skipped, ¬ accepted other) ∧ accepted item) ∨
    ∀ item ∈ items, ¬ accepted item := by
  classical
  cases found : items.find? (fun item => decide (accepted item)) with
  | none => exact Or.inr (by simpa using found)
  | some item =>
    obtain ⟨hit, skipped, rest, parts, misses⟩ := find?_eq_some_iff_append.mp found
    exact Or.inl ⟨skipped, item, rest, parts, by simpa using misses, by simpa using hit⟩

theorem entryMask_split {skipped rest : List Entry} {entry : Entry}
    (fresh : ∀ other ∈ skipped, other.name ≠ entry.name) (name : CString) :
    entryMask (skipped ++ entry :: rest) name =
      if name = entry.name then entry.mask else entryMask (skipped ++ rest) name := by
  induction skipped with
  | nil => rfl
  | cons head tail ih =>
    have distinct := fresh head mem_cons_self
    have later := ih (forall_mem_cons.mp fresh).2
    rw [cons_append, cons_append, entryMask, entryMask, later]
    by_cases isHead : name = head.name
    · have notEntry : ¬ name = entry.name := by
        rw [isHead]
        exact distinct
      rw [if_pos isHead, if_neg notEntry, if_pos isHead]
    · rw [if_neg isHead, if_neg isHead]

theorem entryMask_absent {entries : List Entry} {name : CString}
    (absent : ∀ entry ∈ entries, entry.name ≠ name) : entryMask entries name = 0 := by
  induction entries with
  | nil => rfl
  | cons head tail ih =>
    have distinct := absent head mem_cons_self
    rw [entryMask, if_neg (fun equal => distinct equal.symm)]
    exact ih (forall_mem_cons.mp absent).2

variable {before later : List Volume} {volume : Volume}

theorem maskOf_split
    (fresh : ∀ other ∈ before, other.uuid ≠ volume.uuid) (uuid : Uuid) (name : CString) :
    maskOf (before ++ volume :: later) uuid name =
      if uuid = volume.uuid then entryMask volume.entries name
      else maskOf (before ++ later) uuid name := by
  induction before with
  | nil => rfl
  | cons head tail ih =>
    have distinct := fresh head mem_cons_self
    have rest := ih (forall_mem_cons.mp fresh).2
    rw [cons_append, cons_append, maskOf, maskOf, rest]
    by_cases isHead : uuid = head.uuid
    · have notVolume : ¬ uuid = volume.uuid := by
        rw [isHead]
        exact distinct
      rw [if_pos isHead, if_neg notVolume, if_pos isHead]
    · rw [if_neg isHead, if_neg isHead]

theorem maskOf_absent {volumes : List Volume} {uuid : Uuid} {name : CString}
    (absent : ∀ volume ∈ volumes, volume.uuid ≠ uuid) : maskOf volumes uuid name = 0 := by
  induction volumes with
  | nil => rfl
  | cons head tail ih =>
    have distinct := absent head mem_cons_self
    rw [maskOf, if_neg (fun equal => distinct equal.symm)]
    exact ih (forall_mem_cons.mp absent).2

theorem maskOf_exchange {changed : Volume}
    (fresh : ∀ other ∈ before, other.uuid ≠ volume.uuid) (same : changed.uuid = volume.uuid)
    (uuid : Uuid) (name : CString) :
    maskOf (before ++ changed :: later) uuid name =
      if uuid = volume.uuid then entryMask changed.entries name
      else maskOf (before ++ volume :: later) uuid name := by
  have freshChanged : ∀ other ∈ before, other.uuid ≠ changed.uuid := by
    rw [same]
    exact fresh
  rw [maskOf_split freshChanged, maskOf_split fresh, same]
  by_cases isVolume : uuid = volume.uuid
  · rw [if_pos isVolume, if_pos isVolume]
  · rw [if_neg isVolume, if_neg isVolume, if_neg isVolume]

/-- A change of the entries of the item's volume that acts on the item's name
alone acts on the table in the same way. -/
theorem maskOf_update (changed : Volume) {item : MaskItem} (update : BitVec 32 → BitVec 32)
    (fresh : ∀ other ∈ before, other.uuid ≠ volume.uuid) (same : changed.uuid = volume.uuid)
    (isVolume : volume.uuid = item.uuid) (entries : ∀ name, entryMask changed.entries name =
      if name = item.name then update (entryMask volume.entries name)
      else entryMask volume.entries name) (uuid : Uuid) (name : CString) :
    maskOf (before ++ changed :: later) uuid name = if uuid = item.uuid ∧ name = item.name then
        update (maskOf (before ++ volume :: later) uuid name)
      else maskOf (before ++ volume :: later) uuid name := by
  rw [maskOf_exchange fresh same, maskOf_split fresh]
  by_cases sameUuid : uuid = volume.uuid
  · rw [if_pos sameUuid, if_pos sameUuid, entries]
    by_cases sameName : name = item.name
    · rw [if_pos sameName, if_pos ⟨sameUuid.trans isVolume, sameName⟩]
    · rw [if_neg sameName, if_neg (fun both => sameName both.2)]
  · have notItem : ¬ (uuid = item.uuid ∧ name = item.name) := by
      rintro ⟨sameItem, _⟩
      exact sameUuid (sameItem.trans isVolume.symm)
    rw [if_neg sameUuid, if_neg notItem, if_neg sameUuid]

end Elkeid.FileNotify
