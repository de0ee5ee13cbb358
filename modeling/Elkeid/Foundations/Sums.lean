import Mathlib

/-!
# Sums over a list that changes

The sum of a weight over a list when one place is overwritten or one value added at the end.
-/

namespace Elkeid.Foundations

open List

variable {Value : Type} {values : List Value} {index : Nat} {old new : Value} (weight : Value → Nat)

def total (values : List Value) : Nat := (values.map weight).sum

@[simp]
theorem total_cons (value : Value) (values : List Value) :
    total weight (value :: values) = weight value + total weight values := sum_cons

@[simp]
theorem total_append (values others : List Value) :
    total weight (values ++ others) = total weight values + total weight others := by
  rw [total, map_append, sum_append]
  rfl

@[simp]
theorem total_concat (values : List Value) (value : Value) :
    total weight (values ++ [value]) = total weight values + weight value := by
  rw [total_append]
  rfl

theorem total_set (found : values[index]? = some old) (new : Value) :
    total weight (values.set index new) + weight old = total weight values + weight new := by
  induction values generalizing index with
  | nil => cases found
  | cons value values ih =>
    cases index with
    | zero =>
      cases found
      rw [set_cons_zero, total_cons, total_cons]
      omega
    | succ index =>
      have rest := ih found
      rw [set_cons_succ, total_cons, total_cons]
      omega

theorem total_set_same (found : values[index]? = some old) (same : weight new = weight old) :
    total weight (values.set index new) = total weight values := by
  have moved := total_set weight found new
  omega

theorem total_eq_zero (weightless : ∀ value ∈ values, weight value = 0) :
    total weight values = 0 := by
  simpa [total, sum_eq_zero_iff] using weightless

variable {weight} in
theorem total_le_total {other : Value → Nat} (smaller : ∀ value, weight value ≤ other value)
    (values : List Value) : total weight values ≤ total other values :=
  sum_le_sum fun value _ => smaller value

theorem total_add (weight other : Value → Nat) (values : List Value) :
    total (fun value => weight value + other value) values =
      total weight values + total other values :=
  sum_map_add

theorem le_total {value : Value} (listed : value ∈ values) : weight value ≤ total weight values :=
  le_sum_of_mem (mem_map_of_mem listed)

theorem total_single [DecidableEq Value] {value : Value} {size : Nat} (distinct : values.Nodup)
    (listed : value ∈ values) :
    total (fun other => if value = other then size else 0) values = size := by
  rw [total, sum_map_eq_nsmul_single value _ fun other differs _ => if_neg differs.symm,
    count_eq_one_of_mem distinct listed, one_nsmul, if_pos rfl]

end Elkeid.Foundations
