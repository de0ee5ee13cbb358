import Mathlib

/-!
# Positions of a list that changes

What stands at a position after one place of a list was overwritten or one value added at
its end, and which values survive.
-/

namespace Elkeid.Foundations

open List Option

variable {Value : Type} {values : List Value} {index position : Nat} {value old new : Value}

theorem getElem?_set_cases (found : (values.set index new)[position]? = some value) :
    position = index ∧ value = new ∨ position ≠ index ∧ values[position]? = some value := by
  by_cases same : position = index
  · subst same
    refine .inl ⟨rfl, ?_⟩
    have inside := (List.getElem?_eq_some_iff.mp found).1
    rw [List.length_set] at inside
    exact (some.inj ((List.getElem?_set_self inside).symm.trans found)).symm
  · exact .inr ⟨same, (List.getElem?_set_ne (Ne.symm same)).symm.trans found⟩

theorem getElem?_concat_cases (found : (values ++ [new])[position]? = some value) :
    position = values.length ∧ value = new ∨ values[position]? = some value := by
  rcases Nat.lt_trichotomy position values.length with inside | rfl | outside
  · exact .inr ((getElem?_append_left inside).symm.trans found)
  · exact .inl ⟨rfl, (some.inj (List.getElem?_concat_length.symm.trans found)).symm⟩
  · have beyond := (List.getElem?_eq_some_iff.mp found).1
    rw [List.length_append, List.length_singleton] at beyond
    omega

theorem position_ne (atIndex : values[index]? = some old) (found : values[position]? = some value)
    (differs : value ≠ old) : position ≠ index := by
  intro same
  subst same
  cases atIndex.symm.trans found
  exact differs rfl

theorem mem_set_of_ne (listed : value ∈ values) (atIndex : values[index]? = some old)
    (differs : value ≠ old) : value ∈ values.set index new := by
  obtain ⟨position, found⟩ := mem_iff_getElem?.mp listed
  have otherPosition := (position_ne atIndex found differs).symm
  exact mem_of_getElem? ((getElem?_set_ne otherPosition).trans found)

theorem mem_set_at (atIndex : values[index]? = some old) : new ∈ values.set index new :=
  List.mem_set (List.getElem?_eq_some_iff.mp atIndex).1 new

theorem mem_eraseIdx_of_ne (listed : value ∈ values) (atIndex : values[index]? = some old)
    (differs : value ≠ old) : value ∈ values.eraseIdx index := by
  obtain ⟨position, found⟩ := mem_iff_getElem?.mp listed
  exact mem_eraseIdx_iff_getElem?.mpr ⟨position, position_ne atIndex found differs, found⟩

theorem not_mem_eraseIdx (distinct : values.Nodup) (atIndex : values[index]? = some value) :
    value ∉ values.eraseIdx index := by
  intro listed
  obtain ⟨position, differs, found⟩ := List.mem_eraseIdx_iff_getElem?.mp listed
  have inside := (List.getElem?_eq_some_iff.mp atIndex).1
  exact differs ((List.getElem?_inj inside distinct).mp (atIndex.trans found.symm)).symm

theorem mem_eraseIdx_iff_of_nodup (distinct : values.Nodup) (atIndex : values[index]? = some old) :
    value ∈ values.eraseIdx index ↔ value ∈ values ∧ value ≠ old := by
  constructor
  · intro listed
    refine ⟨mem_of_mem_eraseIdx listed, ?_⟩
    rintro rfl
    exact not_mem_eraseIdx distinct atIndex listed
  · rintro ⟨listed, differs⟩
    exact mem_eraseIdx_of_ne listed atIndex differs

/-! ## Removing at positions, one after the other -/

/-- `Vec::remove` at each of the positions. A position beyond the end has no result. -/
def removeEach : List Nat → List Value → Option (List Value)
  | [], values => some values
  | index :: rest, values =>
    if index < values.length then removeEach rest (values.eraseIdx index) else none

@[simp]
theorem removeEach_append (first second : List Nat) (values : List Value) :
    removeEach (first ++ second) values = (removeEach first values).bind (removeEach second) := by
  induction first generalizing values with
  | nil => rfl
  | cons index rest ih =>
    rw [cons_append, removeEach, removeEach]
    split
    next => exact ih _
    next => rfl

theorem removeEach_sublist {indexes : List Nat} {rest : List Value}
    (removed : removeEach indexes values = some rest) : rest.Sublist values := by
  induction indexes generalizing values with
  | nil =>
    cases removed
    exact List.Sublist.refl _
  | cons index more ih =>
    rw [removeEach] at removed
    split at removed
    next => exact (ih removed).trans (eraseIdx_sublist _ _)
    next => cases removed

theorem drop_removeEach {indexes : List Nat} {rest : List Value}
    (removed : removeEach indexes values = some rest)
    (before : ∀ index ∈ indexes, index ≤ position) :
    rest.drop position = values.drop (position + indexes.length) := by
  induction indexes generalizing values with
  | nil =>
    cases removed
    rfl
  | cons index more ih =>
    obtain ⟨isBefore, moreBefore⟩ := forall_mem_cons.mp before
    rw [removeEach] at removed
    split at removed
    next inside =>
      rw [ih removed moreBefore, length_cons, eraseIdx_eq_take_drop_succ,
        drop_append, length_take_of_le (le_of_lt inside),
        drop_eq_nil_of_le (by rw [length_take]; omega), nil_append, drop_drop]
      congr 1
      omega
    next => cases removed

/-! ## What can be seen at a position -/

section View

variable {Seen : Type} (view : Value → Option Seen)

def viewAt (values : List Value) (index : Nat) : Option Seen := (values[index]?).bind view

variable {view}

theorem viewAt_of_found (found : values[index]? = some value) :
    viewAt view values index = view value := by
  rw [viewAt, found, Option.bind_some]

theorem viewAt_eq_some_iff {seen : Seen} : viewAt view values index = some seen ↔
      ∃ value, values[index]? = some value ∧ view value = some seen :=
  Option.bind_eq_some_iff

theorem viewAt_set (found : values[index]? = some old) (position : Nat) :
    viewAt view (values.set index new) position =
      if position = index then view new else viewAt view values position := by
  split
  next same =>
    subst same
    exact viewAt_of_found (List.getElem?_set_self (List.getElem?_eq_some_iff.mp found).1)
  next differs => rw [viewAt, viewAt, List.getElem?_set_ne (Ne.symm differs)]

theorem viewAt_set_same (found : values[index]? = some old) (same : view new = view old)
    (position : Nat) :
    viewAt view (values.set index new) position = viewAt view values position := by
  rw [viewAt_set found]
  split
  next isIndex => rw [isIndex, same, viewAt_of_found found]
  next => rfl

theorem viewAt_concat (unseen : view new = none) (position : Nat) :
    viewAt view (values ++ [new]) position = viewAt view values position := by
  by_cases inside : position < values.length
  · rw [viewAt, viewAt, getElem?_append_left inside]
  · have absent : viewAt view values position = none := by
      rw [viewAt, getElem?_eq_none (Nat.le_of_not_lt inside), Option.bind_none]
    rw [absent, viewAt]
    cases found : (values ++ [new])[position]? with
    | none => rfl
    | some value =>
      rcases getElem?_concat_cases found with ⟨_, rfl⟩ | old
      · exact unseen
      · exact absurd (List.getElem?_eq_some_iff.mp old).1 inside

end View

end Elkeid.Foundations
