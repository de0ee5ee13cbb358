import Mathlib

/-!
# Collecting distinct values from a stream

Values are drawn from a stream one after another, and those seen before are drawn again,
until there are as many as wanted. Whether this ever ends depends on the stream.
-/

namespace Elkeid.Foundations

open List

variable {Value : Type} (draw : Nat → Value) (count : Nat)

def Drawn (value : Value) : Prop := ∃ index, draw index = value

/-- The stream has as many different values as are wanted. -/
def DrawsDistinct : Prop :=
  ∃ values : List Value, values.Nodup ∧ values.length = count ∧ ∀ value ∈ values, Drawn draw value

variable {draw count}

/-- What is collected so far: different values of the stream, not more than wanted. -/
structure Collected (draw : Nat → Value) (count : Nat) (seen : List Value) : Prop where
  nodup : seen.Nodup
  drawn : ∀ value ∈ seen, Drawn draw value
  length_le : seen.length ≤ count

theorem Collected.nil : Collected draw count ([] : List Value) :=
  ⟨nodup_nil, nofun, Nat.zero_le count⟩

variable {seen : List Value} {index : Nat}

theorem Collected.concat (collected : Collected draw count seen)
    (wanted : seen.length < count) (new : draw index ∉ seen) :
    Collected draw count (seen ++ [draw index]) where
  nodup := by
    rw [nodup_append_comm]
    exact nodup_cons.mpr ⟨new, collected.nodup⟩
  drawn := by
    intro value listed
    rcases mem_append.mp listed with old | last
    · exact collected.drawn value old
    · exact ⟨index, (mem_singleton.mp last).symm⟩
  length_le := by
    rw [length_append]
    exact wanted

theorem exists_bound {values : List Value} (drawn : ∀ value ∈ values, Drawn draw value) :
    ∃ bound, ∀ value ∈ values, ∃ position < bound, draw position = value := by
  induction values with
  | nil => exact ⟨0, nofun⟩
  | cons head tail ih =>
    obtain ⟨bound, below⟩ := ih fun value listed =>
      drawn value (mem_cons_of_mem head listed)
    obtain ⟨position, same⟩ := drawn head mem_cons_self
    refine ⟨max bound (position + 1), ?_⟩
    intro value listed
    rcases mem_cons.mp listed with rfl | inTail
    · exact ⟨position, lt_of_lt_of_le (Nat.lt_succ_self position) (le_max_right _ _), same⟩
    · obtain ⟨other, before, found⟩ := below value inTail
      exact ⟨other, lt_of_lt_of_le before (le_max_left _ _), found⟩

variable [DecidableEq Value]

/-- At most `fuel` draws, the first of them the draw number `index`. -/
def collect (draw : Nat → Value) (count : Nat) :
    (fuel index : Nat) → List Value → Option (List Value)
  | 0, _, seen => if seen.length < count then none else some seen
  | fuel + 1, index, seen =>
    if seen.length < count then
      if draw index ∈ seen then collect draw count fuel (index + 1) seen
      else collect draw count fuel (index + 1) (seen ++ [draw index])
    else some seen

theorem collect_collected {fuel : Nat} {result : List Value} (collected : Collected draw count seen)
    (returned : collect draw count fuel index seen = some result) :
    Collected draw count result ∧ result.length = count := by
  induction fuel generalizing index seen with
  | zero =>
    simp only [collect] at returned
    split at returned <;> cases returned
    next enough =>
      exact ⟨collected, le_antisymm collected.length_le (Nat.le_of_not_lt enough)⟩
  | succ fuel ih =>
    simp only [collect] at returned
    split at returned
    next wanted =>
      split at returned
      next => exact ih collected returned
      next new => exact ih (collected.concat wanted new) returned
    next enough =>
      cases returned
      exact ⟨collected, le_antisymm collected.length_le (Nat.le_of_not_lt enough)⟩

theorem collect_returns {fuel : Nat} {values : List Value}
    (allSeen : ∀ earlier < index, draw earlier ∈ seen) (nodup : values.Nodup)
    (wanted : values.length = count)
    (comeUp : ∀ value ∈ values, ∃ position < index + fuel, draw position = value) :
    ∃ result, collect draw count fuel index seen = some result := by
  induction fuel generalizing index seen with
  | zero =>
    have subset : values ⊆ seen := by
      intro value listed
      obtain ⟨position, before, rfl⟩ := comeUp value listed
      exact allSeen position before
    have enough : ¬ seen.length < count := by
      rw [← wanted]
      exact Nat.not_lt_of_le (subperm_of_subset nodup subset).length_le
    exact ⟨seen, by rw [collect, if_neg enough]⟩
  | succ fuel ih =>
    have comeUpLater : ∀ value ∈ values, ∃ position < index + 1 + fuel, draw position = value := by
      intro value listed
      rw [add_right_comm]
      exact comeUp value listed
    simp only [collect]
    split
    next =>
      split
      next again =>
        refine ih ?_ comeUpLater
        intro earlier before
        rcases Nat.lt_succ_iff_lt_or_eq.mp before with old | rfl
        · exact allSeen earlier old
        · exact again
      next =>
        refine ih ?_ comeUpLater
        intro earlier before
        rcases Nat.lt_succ_iff_lt_or_eq.mp before with old | rfl
        · exact mem_append_left _ (allSeen earlier old)
        · exact mem_concat_self
    next => exact ⟨seen, rfl⟩

theorem collect_iff :
    (∃ fuel result, collect draw count fuel 0 [] = some result) ↔ DrawsDistinct draw count := by
  constructor
  · rintro ⟨fuel, result, returned⟩
    obtain ⟨collected, length⟩ := collect_collected Collected.nil returned
    exact ⟨result, collected.nodup, length, collected.drawn⟩
  · rintro ⟨values, nodup, length, drawn⟩
    obtain ⟨bound, below⟩ := exists_bound drawn
    have noneEarlier : ∀ earlier < 0, draw earlier ∈ ([] : List Value) := nofun
    obtain ⟨result, returned⟩ := collect_returns noneEarlier nodup length
      (show ∀ value ∈ values, ∃ position < 0 + bound, draw position = value by
        simpa only [zero_add] using below)
    exact ⟨bound, result, returned⟩

end Elkeid.Foundations
