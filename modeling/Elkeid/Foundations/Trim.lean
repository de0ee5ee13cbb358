import Mathlib

/-!
# Trimming

Texts are cut at both ends as long as they start or end with one of some marks.
-/

namespace Elkeid.Foundations.Trim

open List

variable {α : Type} [DecidableEq α] (marks : List (List α))

/-- What follows the mark a text starts with. -/
def leading (text : List α) : Option (List α) :=
  marks.findSome? (fun mark => if mark <+: text then some (text.drop mark.length) else none)

def trimLeft : (fuel : Nat) → List α → List α
  | 0, text => text
  | fuel + 1, text =>
    match leading marks text with
    | none => text
    | some rest => trimLeft fuel rest

def trim (text : List α) : List α :=
  let left := trimLeft marks text.length text
  (trimLeft (marks.map reverse) left.length left.reverse).reverse

variable {marks} {text : List α}

theorem leading_eq_none_iff : leading marks text = none ↔ ∀ mark ∈ marks, ¬ mark <+: text := by
  simp [leading, findSome?_eq_none_iff]

theorem leading_of_start {start : List α} (none : leading marks text = none)
    (isStart : start <+: text) : leading marks start = Option.none := by
  rw [leading_eq_none_iff] at none ⊢
  intro mark listed found
  exact none mark listed (found.trans isStart)

theorem leading_suffix {rest : List α} (found : leading marks text = some rest) :
    rest <:+ text := by
  obtain ⟨mark, _, taken⟩ := exists_of_findSome?_eq_some found
  split at taken <;> cases taken
  exact drop_suffix _ _

theorem length_lt_of_leading (nonempty : [] ∉ marks) {rest : List α}
    (found : leading marks text = some rest) : rest.length < text.length := by
  obtain ⟨mark, listed, taken⟩ := exists_of_findSome?_eq_some found
  split at taken <;> cases taken
  next isStart =>
    have positive : 0 < mark.length := length_pos_iff.mpr fun empty =>
      nonempty (empty ▸ listed)
    have fits := isStart.length_le
    rw [length_drop]
    omega

theorem leading_trimLeft (nonempty : [] ∉ marks) {fuel : Nat}
    (enough : text.length ≤ fuel) : leading marks (trimLeft marks fuel text) = none := by
  induction fuel generalizing text with
  | zero =>
    have empty : text = [] := eq_nil_of_length_eq_zero (Nat.le_zero.mp enough)
    rw [trimLeft, empty, leading_eq_none_iff]
    intro mark listed found
    exact nonempty (prefix_nil.mp found ▸ listed)
  | succ fuel ih =>
    rw [trimLeft]
    split
    next none => exact none
    next rest found =>
      have shorter := length_lt_of_leading nonempty found
      exact ih (by omega)

theorem trimLeft_suffix (fuel : Nat) (text : List α) : trimLeft marks fuel text <:+ text := by
  induction fuel generalizing text with
  | zero => exact suffix_rfl
  | succ fuel ih =>
    rw [trimLeft]
    split
    next => exact suffix_rfl
    next rest found => exact (ih rest).trans (leading_suffix found)

theorem trimLeft_of_leading (none : leading marks text = none) (fuel : Nat) :
    trimLeft marks fuel text = text := by
  cases fuel with
  | zero => rfl
  | succ fuel => rw [trimLeft, none]

theorem leading_trim (nonempty : [] ∉ marks) (text : List α) :
    leading marks (trim marks text) = none := by
  refine leading_of_start (leading_trimLeft nonempty (le_refl text.length)) ?_
  rw [trim, ← reverse_suffix, reverse_reverse]
  exact trimLeft_suffix _ _

theorem trim_of_leading (atStart : leading marks text = none)
    (atEnd : leading (marks.map reverse) text.reverse = none) : trim marks text = text := by
  rw [trim, trimLeft_of_leading atStart, trimLeft_of_leading atEnd, reverse_reverse]

end Elkeid.Foundations.Trim
