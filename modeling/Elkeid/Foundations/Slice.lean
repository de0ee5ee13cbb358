import Mathlib

/-!
# Slices of shared arrays

A slice is a window of an array with room behind it. Assigning to an element and appending
within the capacity write into the array, so another slice of the same array sees them;
appending beyond the capacity moves the values to a new array.
-/

namespace Elkeid.Foundations

open List Option

/-- The arrays by their addresses. -/
abbrev Arrays (Value : Type) := List (List Value)

structure Slice where
  array : Nat
  offset : Nat
  length : Nat
  capacity : Nat
  deriving DecidableEq

namespace Slice

variable {Value : Type}

def read (arrays : Arrays Value) (slice : Slice) : List Value :=
  (((arrays[slice.array]?).getD []).drop slice.offset).take slice.length

/-- `slice[low:high]`. -/
def reslice (slice : Slice) (low high : Nat) : Slice where
  array := slice.array
  offset := slice.offset + low
  length := high - low
  capacity := slice.capacity - low

def overwrite (cells : List Value) (position : Nat) (values : List Value) : List Value :=
  cells.take position ++ values ++ cells.drop (position + values.length)

/-- `slice[index] = value`. -/
def set (arrays : Arrays Value) (slice : Slice) (index : Nat) (value : Value) : Arrays Value :=
  arrays.modify slice.array (fun cells => cells.set (slice.offset + index) value)

/-- A new array that holds the values, with spare cells behind them. -/
def alloc [Inhabited Value] (arrays : Arrays Value) (values : List Value) (spare : Nat) :
    Arrays Value × Slice :=
  (arrays ++ [values ++ replicate spare default],
    ⟨arrays.length, 0, values.length, values.length + spare⟩)

/-- `append(slice, values...)`; `grow` says how many spare cells a new array gets. -/
def append [Inhabited Value] (grow : Nat → Nat → Nat) (arrays : Arrays Value) (slice : Slice)
    (values : List Value) : Arrays Value × Slice :=
  if slice.length + values.length ≤ slice.capacity then
    (arrays.modify slice.array
        (fun cells => overwrite cells (slice.offset + slice.length) values),
      { slice with length := slice.length + values.length })
  else alloc arrays (slice.read arrays ++ values) (grow slice.capacity values.length)

/-- The window and the room behind it lie inside an array. -/
structure Valid (arrays : Arrays Value) (slice : Slice) : Prop where
  inside : ∃ cells, arrays[slice.array]? = some cells ∧ slice.offset + slice.capacity ≤ cells.length
  fits : slice.length ≤ slice.capacity

section

variable {arrays : Arrays Value} {slice other : Slice} {cells : List Value} {index : Nat}

theorem read_of_found (found : arrays[slice.array]? = some cells) :
    slice.read arrays = (cells.drop slice.offset).take slice.length := by
  rw [read, found, getD_some]

theorem Valid.length_read (valid : slice.Valid arrays) :
    (slice.read arrays).length = slice.length := by
  obtain ⟨⟨cells, found, inside⟩, fits⟩ := valid
  rw [read_of_found found, length_take, length_drop]
  omega

theorem Valid.array_lt (valid : slice.Valid arrays) : slice.array < arrays.length := by
  obtain ⟨⟨cells, found, _⟩, _⟩ := valid
  exact (List.getElem?_eq_some_iff.mp found).1

theorem read_congr {others : Arrays Value} (same : others[slice.array]? = arrays[slice.array]?) :
    slice.read others = slice.read arrays := by
  rw [read, read, same]

theorem Valid.congr {others : Arrays Value} (valid : slice.Valid arrays)
    (same : others[slice.array]? = arrays[slice.array]?) : slice.Valid others := by
  obtain ⟨inside, fits⟩ := valid
  exact ⟨same ▸ inside, fits⟩

theorem Valid.reslice {low high : Nat} (valid : slice.Valid arrays) (ordered : low ≤ high)
    (upTo : high ≤ slice.capacity) : (slice.reslice low high).Valid arrays := by
  obtain ⟨⟨cells, found, inside⟩, fits⟩ := valid
  refine ⟨⟨cells, found, ?_⟩, ?_⟩
  all_goals
    simp only [Slice.reslice]
    omega

theorem read_reslice {low high : Nat} (upTo : high ≤ slice.length) :
    (slice.reslice low high).read arrays = ((slice.read arrays).drop low).take (high - low) := by
  simp only [read, reslice, drop_take, drop_drop, take_take]
  rw [min_eq_left (Nat.sub_le_sub_right upTo low)]

/-! ## Assignments -/

theorem getElem?_modify_self (address : Nat) (change : List Value → List Value) :
    (arrays.modify address change)[address]? = (arrays[address]?).map change := by
  simp only [getElem?_modify, if_true]
  rfl

theorem getElem?_modify_of_ne {address changed : Nat} (differs : address ≠ changed)
    (change : List Value → List Value) :
    (arrays.modify changed change)[address]? = arrays[address]? := by
  simp only [getElem?_modify, if_neg (Ne.symm differs)]
  exact map_id'

theorem read_set_alias (sameArray : other.array = slice.array)
    (sameOffset : other.offset = slice.offset) (index : Nat) (value : Value) :
    other.read (slice.set arrays index value) = (other.read arrays).set index value := by
  rw [read, read, sameArray, set, getElem?_modify_self]
  cases arrays[slice.array]? with
  | none => simp
  | some cells =>
    rw [map_some, getD_some, getD_some, drop_set, sameOffset,
      if_neg (Nat.not_lt.mpr (Nat.le_add_right _ _)), Nat.add_sub_cancel_left, take_set]

theorem Valid.set (valid : other.Valid arrays) (index : Nat) (value : Value) :
    other.Valid (slice.set arrays index value) := by
  by_cases same : other.array = slice.array
  · obtain ⟨⟨cells, found, inside⟩, fits⟩ := valid
    refine ⟨⟨cells.set (slice.offset + index) value, ?_, ?_⟩, fits⟩
    · rw [same] at found ⊢
      rw [Slice.set, getElem?_modify_self, found, map_some]
    · rw [length_set]
      exact inside
  · exact valid.congr (getElem?_modify_of_ne same _)

/-! ## What operations on a slice leave alone -/

/-- The arrays and the slice after some operations on a slice: of the known arrays only the
slice's own may have changed, though not its length, and the slice is still there or in a new
array. -/
structure Follows (before : Arrays Value × Slice) (after : Arrays Value × Slice) : Prop where
  grows : before.1.length ≤ after.1.length
  frame : ∀ address, address < before.1.length → address ≠ before.2.array →
    after.1[address]? = before.1[address]?
  place : after.2.array = before.2.array ∧ after.2.offset = before.2.offset ∨
    before.1.length ≤ after.2.array
  valid : ∀ other : Slice, other.Valid before.1 → other.Valid after.1

theorem Follows.refl (state : Arrays Value × Slice) : Follows state state :=
  ⟨le_refl _, fun _ _ _ => rfl, .inl ⟨rfl, rfl⟩, fun _ => id⟩

theorem Follows.trans {first second third : Arrays Value × Slice} (before : Follows first second)
    (after : Follows second third) : Follows first third := by
  refine ⟨le_trans before.grows after.grows, ?_, ?_,
    fun other valid => after.valid other (before.valid other valid)⟩
  · intro address known differs
    refine (after.frame address (lt_of_lt_of_le known before.grows) ?_).trans
      (before.frame address known differs)
    rcases before.place with ⟨same, _⟩ | new
    · exact same ▸ differs
    · exact ne_of_lt (lt_of_lt_of_le known new)
  · rcases after.place with ⟨sameArray, sameOffset⟩ | new
    · rw [sameArray, sameOffset]
      exact before.place
    · exact .inr (le_trans before.grows new)

theorem follows_set (index : Nat) (value : Value) :
    Follows (arrays, slice) (slice.set arrays index value, slice) :=
  ⟨le_of_eq (length_modify ..).symm, fun _ _ differs => getElem?_modify_of_ne differs _,
    .inl ⟨rfl, rfl⟩, fun _ valid => valid.set index value⟩

/-! ## Appending -/

theorem length_overwrite {values : List Value} {position : Nat}
    (inside : position + values.length ≤ cells.length) :
    (overwrite cells position values).length = cells.length := by
  simp only [overwrite, length_append, length_take, length_drop]
  omega

theorem take_drop_overwrite {values : List Value} {offset length : Nat}
    (inside : offset + length ≤ cells.length) :
    ((overwrite cells (offset + length) values).drop offset).take (length + values.length) =
      (cells.drop offset).take length ++ values := by
  have window : (cells.take (offset + length)).drop offset = (cells.drop offset).take length := by
    rw [drop_take, Nat.add_sub_cancel_left]
  have long : offset ≤ (cells.take (offset + length)).length := by
    rw [length_take]
    omega
  rw [overwrite, append_assoc, drop_append_of_le_length long, window, ← append_assoc]
  refine take_left' ?_
  rw [length_append, length_take, length_drop]
  omega

theorem overwrite_singleton {position : Nat} (inside : position < cells.length)
    (value : Value) : overwrite cells position [value] = cells.set position value := by
  rw [overwrite, set_eq_take_append_cons_drop, if_pos inside, append_assoc]
  rfl

variable [Inhabited Value] {grow : Nat → Nat → Nat}

theorem read_alloc (arrays : Arrays Value) (values : List Value) (spare : Nat) :
    (alloc arrays values spare).2.read (alloc arrays values spare).1 = values := by
  have found : (alloc arrays values spare).1[(alloc arrays values spare).2.array]? =
      some (values ++ replicate spare default) := getElem?_concat_length
  rw [read_of_found found]
  exact take_left

theorem valid_alloc (arrays : Arrays Value) (values : List Value) (spare : Nat) :
    (alloc arrays values spare).2.Valid (alloc arrays values spare).1 := by
  refine ⟨⟨_, getElem?_concat_length, ?_⟩, Nat.le_add_right _ _⟩
  rw [length_append, length_replicate]
  exact le_of_eq (zero_add _)

theorem getElem?_alloc {address : Nat} (known : address < arrays.length) (values : List Value)
    (spare : Nat) : (alloc arrays values spare).1[address]? = arrays[address]? :=
  getElem?_append_left known

section

variable (valid : slice.Valid arrays)
include valid

theorem read_append (values : List Value) :
    (slice.append grow arrays values).2.read (slice.append grow arrays values).1 =
      slice.read arrays ++ values := by
  rw [append]
  split
  next fits =>
    obtain ⟨⟨cells, found, inside⟩, _⟩ := valid
    rw [read_of_found found]
    simp only [read, getElem?_modify_self, found, map_some, getD_some]
    exact take_drop_overwrite (by omega)
  next => exact read_alloc _ _ _

theorem valid_append (values : List Value) :
    (slice.append grow arrays values).2.Valid (slice.append grow arrays values).1 := by
  rw [append]
  split
  next fits =>
    obtain ⟨⟨cells, found, inside⟩, _⟩ := valid
    refine ⟨⟨overwrite cells (slice.offset + slice.length) values, ?_, ?_⟩, fits⟩
    · simp [found]
    · rw [length_overwrite (by omega)]
      exact inside
  next => exact valid_alloc _ _ _

/-- An append of one value either stays in the array, where it is an assignment behind the
slice, or leaves the array alone. -/
theorem append_singleton_cases (grow : Nat → Nat → Nat) (value : Value) :
    slice.append grow arrays [value] =
        (slice.set arrays slice.length value, { slice with length := slice.length + 1 }) ∨
      slice.append grow arrays [value] =
        alloc arrays (slice.read arrays ++ [value]) (grow slice.capacity 1) := by
  rw [append]
  split
  next fits =>
    refine .inl (Prod.ext ?_ rfl)
    obtain ⟨⟨cells, found, inside⟩, _⟩ := valid
    rw [length_singleton] at fits
    refine ext_getElem? fun address => ?_
    by_cases same : address = slice.array
    · rw [same, set, getElem?_modify_self, getElem?_modify_self, found, map_some,
        map_some, overwrite_singleton (by omega)]
    · rw [set, getElem?_modify_of_ne same, getElem?_modify_of_ne same]
  next => exact .inr rfl

theorem follows_append (values : List Value) :
    Follows (arrays, slice) (slice.append grow arrays values) := by
  rw [append]
  split
  next room =>
    refine ⟨le_of_eq (length_modify ..).symm,
      fun _ _ differs => getElem?_modify_of_ne differs _, .inl ⟨rfl, rfl⟩, ?_⟩
    intro other otherValid
    by_cases same : other.array = slice.array
    · obtain ⟨⟨cells, found, inside⟩, _⟩ := valid
      obtain ⟨⟨otherCells, otherFound, otherInside⟩, otherFits⟩ := otherValid
      rw [same] at otherFound
      cases otherFound.symm.trans found
      refine ⟨⟨overwrite cells (slice.offset + slice.length) values, ?_, ?_⟩, otherFits⟩
      · rw [same, getElem?_modify_self, found, map_some]
      · rw [length_overwrite (by omega)]
        exact otherInside
    · exact otherValid.congr (getElem?_modify_of_ne same _)
  next =>
    refine ⟨?_, fun _ known _ => getElem?_alloc known _ _, .inr (le_refl _), ?_⟩
    · rw [alloc, length_append]
      exact Nat.le_add_right _ _
    · intro other otherValid
      exact otherValid.congr (getElem?_alloc otherValid.array_lt _ _)

end

/-! ## Deleting one element -/

/-- `append(slice[:index], slice[index+1:]...)`. -/
def delete (grow : Nat → Nat → Nat) (arrays : Arrays Value) (slice : Slice) (index : Nat) :
    Arrays Value × Slice :=
  (slice.reslice 0 index).append grow arrays ((slice.reslice (index + 1) slice.length).read arrays)

theorem read_delete (valid : slice.Valid arrays) (inside : index < slice.length) :
    (slice.delete grow arrays index).2.read (slice.delete grow arrays index).1 =
      (slice.read arrays).eraseIdx index := by
  have front := valid.reslice (Nat.zero_le index) (Nat.le_trans (Nat.le_of_lt inside) valid.fits)
  have back : ((slice.read arrays).drop (index + 1)).length = slice.length - (index + 1) := by
    rw [length_drop, valid.length_read]
  rw [delete, read_append front, read_reslice (Nat.le_of_lt inside), read_reslice (Nat.le_refl _),
    take_of_length_le (Nat.le_of_eq back), eraseIdx_eq_take_drop_succ, Nat.sub_zero, drop_zero]

theorem valid_delete (valid : slice.Valid arrays) (inside : index < slice.length) :
    (slice.delete grow arrays index).2.Valid (slice.delete grow arrays index).1 :=
  valid_append (valid.reslice (Nat.zero_le index) (Nat.le_trans (Nat.le_of_lt inside) valid.fits)) _

theorem follows_delete (valid : slice.Valid arrays) (inside : index < slice.length) :
    Follows (arrays, slice) (slice.delete grow arrays index) := by
  have front := valid.reslice (Nat.zero_le index) (Nat.le_trans (Nat.le_of_lt inside) valid.fits)
  have ⟨grows, frame, place, kept⟩ : Follows (arrays, slice.reslice 0 index)
      (slice.delete grow arrays index) := follows_append front _
  exact ⟨grows, frame, place, kept⟩

end

end Slice

end Elkeid.Foundations
