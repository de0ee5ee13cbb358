import Mathlib

/-!
# Fields joined by a separator of two symbols

The separator is written between the fields as it is, so a field that holds it can be
cut in other places. Two joinings of one text differ only by whole separators.
-/

namespace Elkeid.Foundations.Separator

open List

variable {α : Type} (first second : α)

def joined (left right : List α) : List α := left ++ first :: second :: right

def Occurs (text : List α) : Prop := ∃ left right, text = joined first second left right

variable {first second}

theorem joined_assoc (left middle right : List α) :
    joined first second left (joined first second middle right) =
      joined first second (joined first second left middle) right := by
  simp [joined]

theorem left_ne_joined (left right : List α) : left ≠ joined first second left right := by
  intro same
  have lengths := congrArg length same
  simp only [joined, length_append, length_cons] at lengths
  omega

theorem right_ne_joined (left right : List α) : right ≠ joined first second left right := by
  intro same
  have lengths := congrArg length same
  simp only [joined, length_append, length_cons] at lengths
  omega

theorem mem_joined_left (left right : List α) : first ∈ joined first second left right :=
  mem_append_right _ mem_cons_self

theorem extension_cases (distinct : first ≠ second) {right extra right' : List α}
    (same : first :: second :: right = extra ++ first :: second :: right') :
    (extra = [] ∧ right = right') ∨
      ∃ between, extra = first :: second :: between ∧
        right = joined first second between right' := by
  match extra with
  | [] =>
    cases same
    exact .inl ⟨rfl, rfl⟩
  | [symbol] =>
    cases same
    exact absurd rfl distinct
  | symbol :: other :: between =>
    cases same
    exact .inr ⟨between, rfl, rfl⟩

theorem joined_cases (distinct : first ≠ second) {left right left' right' : List α}
    (same : joined first second left right = joined first second left' right') :
    (left = left' ∧ right = right') ∨
      (∃ between, left' = joined first second left between ∧
        right = joined first second between right') ∨
      (∃ between, left = joined first second left' between ∧
        right' = joined first second between right) := by
  rcases append_eq_append_iff.mp same with ⟨extra, longer, rest⟩ | ⟨extra, longer, rest⟩
  · rcases extension_cases distinct rest with ⟨rfl, equal⟩ | ⟨between, rfl, equal⟩
    · exact .inl ⟨(longer.trans (append_nil left)).symm, equal⟩
    · exact .inr (.inl ⟨between, longer, equal⟩)
  · rcases extension_cases distinct rest with ⟨rfl, equal⟩ | ⟨between, rfl, equal⟩
    · exact .inl ⟨longer.trans (append_nil left'), equal.symm⟩
    · exact .inr (.inr ⟨between, longer, equal⟩)

section Unique

variable (distinct : first ≠ second) {left right left' right' : List α}
  (same : joined first second left right = joined first second left' right')
include distinct same

theorem joined_inj_of_left (free : first ∉ left) (free' : first ∉ left') :
    left = left' ∧ right = right' := by
  rcases joined_cases distinct same with equal | ⟨between, longer, _⟩ | ⟨between, longer, _⟩
  · exact equal
  · exact absurd (longer ▸ mem_joined_left left between) free'
  · exact absurd (longer ▸ mem_joined_left left' between) free

theorem joined_inj_of_right (free : first ∉ right) (free' : first ∉ right') :
    left = left' ∧ right = right' := by
  rcases joined_cases distinct same with equal | ⟨between, _, longer⟩ | ⟨between, _, longer⟩
  · exact equal
  · exact absurd (longer ▸ mem_joined_left between right') free
  · exact absurd (longer ▸ mem_joined_left between right) free'

theorem joined_inj_of_not_occurs (free : ¬ Occurs first second left)
    (free' : ¬ Occurs first second right) : left = left' ∧ right = right' := by
  rcases joined_cases distinct same with equal | ⟨between, _, longer⟩ | ⟨between, longer, _⟩
  · exact equal
  · exact absurd ⟨between, right', longer⟩ free'
  · exact absurd ⟨left', between, longer⟩ free

end Unique

/-- Three fields of which the first two hold no separator, and the last does not end, behind
a separator, in the other last field. -/
theorem three_fields_inj (distinct : first ≠ second) {one two three one' two' three' : List α}
    (same : joined first second (joined first second one two) three =
      joined first second (joined first second one' two') three')
    (freeOne : ¬ Occurs first second one) (freeTwo : ¬ Occurs first second two)
    (notBehind : ∀ between, three ≠ joined first second between three') :
    one = one' ∧ two = two' ∧ three = three' := by
  rcases joined_cases distinct same with ⟨front, equal⟩ | ⟨between, _, longer⟩ |
    ⟨between, longer, _⟩
  · obtain ⟨sameOne, sameTwo⟩ := joined_inj_of_not_occurs distinct front freeOne freeTwo
    exact ⟨sameOne, sameTwo, equal⟩
  · exact absurd longer (notBehind between)
  · rw [← joined_assoc] at longer
    obtain ⟨_, inTwo⟩ := joined_inj_of_not_occurs distinct longer freeOne freeTwo
    exact absurd ⟨two', between, inTwo⟩ freeTwo

end Elkeid.Foundations.Separator
