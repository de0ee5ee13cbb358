import Mathlib

/-!
# Searching an ordered range

`std::upper_bound` over any iterators: the range is halved until it is empty. The places of a
range are numbered; an iterator is known by the number of its place.
-/

namespace Elkeid.Foundations.UpperBound

variable {Iterator : Type}

/-- The loop of `std::upper_bound` over `len` places from `first` on. `above` compares the value
with the element of a place. -/
def search (advance : Iterator → Nat → Iterator) (above : Iterator → Bool) :
    Nat → Iterator → Nat → Iterator
  | 0, first, _ => first
  | fuel + 1, first, len =>
    if 0 < len then
      let half := len / 2
      let middle := advance first half
      if above middle then search advance above fuel first half
      else search advance above fuel (advance middle 1) (len - half - 1)
    else first

/-- The range shrinks at each turn, so its length bounds their number. -/
def upperBound (advance : Iterator → Nat → Iterator) (above : Iterator → Bool) (first : Iterator)
    (len : Nat) : Iterator :=
  search advance above len first len

variable {advance : Iterator → Nat → Iterator} {above : Iterator → Bool} {place : Nat → Iterator}
  {limit : Nat}

theorem search_spec (walks : ∀ i n, advance (place i) n = place (i + n))
    (ordered : ∀ i j, i ≤ j → j < limit → above (place i) = true → above (place j) = true)
    {fuel first len : Nat} (enough : len ≤ fuel) (inside : first + len ≤ limit) :
    ∃ found, search advance above fuel (place first) len = place found ∧
      first ≤ found ∧ found ≤ first + len ∧
      (∀ i, first ≤ i → i < found → above (place i) = false) ∧
      (∀ i, found ≤ i → i < first + len → above (place i) = true) := by
  induction fuel generalizing first len with
  | zero => exact ⟨first, rfl, by omega, by omega, by omega, by omega⟩
  | succ fuel ih =>
    rw [search]
    split
    next more =>
      dsimp only
      rw [walks, walks]
      cases isAbove : above (place (first + len / 2)) with
      | true =>
        obtain ⟨found, searched, lower, upper, below, fromThere⟩ :=
          @ih first (len / 2) (by omega) (by omega)
        refine ⟨found, searched, lower, by omega, below, ?_⟩
        intro i fromFound toEnd
        by_cases before : i < first + len / 2
        · exact fromThere i fromFound before
        · exact ordered _ i (by omega) (by omega) isAbove
      | false =>
        obtain ⟨found, searched, lower, upper, below, fromThere⟩ :=
          @ih (first + len / 2 + 1) (len - len / 2 - 1) (by omega) (by omega)
        refine ⟨found, searched, by omega, by omega, ?_, ?_⟩
        · intro i fromFirst toFound
          by_cases after : first + len / 2 < i
          · exact below i (by omega) toFound
          · apply Bool.eq_false_iff.mpr
            intro isAboveToo
            have middleAbove := ordered i (first + len / 2) (by omega) (by omega) isAboveToo
            cases isAbove.symm.trans middleAbove
        · intro i fromFound toEnd
          exact fromThere i fromFound (by omega)
    next => exact ⟨first, rfl, by omega, by omega, by omega, by omega⟩

theorem upperBound_spec (walks : ∀ i n, advance (place i) n = place (i + n))
    (ordered : ∀ i j, i ≤ j → j < limit → above (place i) = true → above (place j) = true) :
    ∃ found, upperBound advance above (place 0) limit = place found ∧ found ≤ limit ∧
      (∀ i, i < found → above (place i) = false) ∧
      (∀ i, found ≤ i → i < limit → above (place i) = true) := by
  obtain ⟨found, searched, -, upper, below, fromThere⟩ :=
    search_spec walks ordered (Nat.le_refl limit) (Nat.le_of_eq (Nat.zero_add limit))
  rw [Nat.zero_add] at upper fromThere
  exact ⟨found, searched, upper, fun i => below i (Nat.zero_le i), fromThere⟩

end Elkeid.Foundations.UpperBound
