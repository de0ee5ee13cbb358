import Mathlib

/-!
# Streams cut at a mark

A writer ends every record by a mark. A reader cuts the stream at each mark;
what follows the last mark counts as a record only when it is not empty.
Cutting gives the records back exactly when no record holds the mark itself.
-/

namespace Elkeid.Foundations.Separated

open List

variable {α : Type} [DecidableEq α]

def terminated (mark : α) (items : List (List α)) : List α :=
  items.flatMap (fun item => item ++ [mark])

def records (mark : α) (stream : List α) : List (List α) :=
  let pieces := stream.splitOn mark
  if pieces.getLast? = some [] then pieces.dropLast else pieces

variable {mark : α}

omit [DecidableEq α] in
theorem mem_intercalate {value : α} {items : List (List α)}
    (membership : value ∈ [mark].intercalate items) :
    value = mark ∨ ∃ item ∈ items, value ∈ item := by
  induction items with
  | nil => exact absurd membership not_mem_nil
  | cons head tail ih =>
    cases tail with
    | nil =>
      rw [intercalate_singleton] at membership
      exact .inr ⟨head, mem_cons_self, membership⟩
    | cons next others =>
      rw [intercalate_cons_cons, mem_append, mem_append, mem_singleton] at membership
      rcases membership with (inHead | isMark) | later
      · exact .inr ⟨head, mem_cons_self, inHead⟩
      · exact .inl isMark
      · rcases ih later with isMark | ⟨item, listed, held⟩
        · exact .inl isMark
        · exact .inr ⟨item, mem_cons_of_mem _ listed, held⟩

@[simp]
theorem length_splitOn (mark : α) (stream : List α) :
    (stream.splitOn mark).length = stream.count mark + 1 := by
  induction stream with
  | nil => rfl
  | cons head tail ih =>
    rw [splitOn_cons_eq_if_modifyHead]
    by_cases atMark : head = mark
    · rw [if_pos (beq_iff_eq.mpr atMark), length_cons, ih, atMark, count_cons_self]
    · rw [if_neg (by simpa using atMark), length_modifyHead, ih, count_cons_of_ne atMark]

theorem splitOn_terminated {items : List (List α)} (free : ∀ item ∈ items, mark ∉ item) :
    (terminated mark items).splitOn mark = items ++ [[]] := by
  induction items with
  | nil => rfl
  | cons head tail ih =>
    have headFree := free head mem_cons_self
    have tailFree : ∀ item ∈ tail, mark ∉ item := by
      intro item membership
      exact free item (mem_cons_of_mem _ membership)
    have shape : terminated mark (head :: tail) = head ++ mark :: terminated mark tail := by
      simp [terminated]
    rw [shape, splitOn_append_cons_self_of_not_mem headFree, ih tailFree]
    rfl

theorem splitOn_append_of_not_mem (stream : List α) {text : List α} (free : mark ∉ text) :
    ∃ front last, stream.splitOn mark = front ++ [last] ∧
      (stream ++ text).splitOn mark = front ++ [last ++ text] := by
  induction stream with
  | nil => exact ⟨[], [], splitOn_nil mark, splitOn_eq_singleton free⟩
  | cons head tail ih =>
    obtain ⟨front, last, split, splitText⟩ := ih
    rw [cons_append, splitOn_cons_eq_if_modifyHead, splitOn_cons_eq_if_modifyHead, split, splitText]
    by_cases atMark : (head == mark) = true
    · exact ⟨[] :: front, last, by simp only [atMark, if_true, cons_append],
        by simp only [atMark, if_true, cons_append]⟩
    · cases front with
      | nil => exact ⟨[], head :: last, by simp [atMark], by simp [atMark]⟩
      | cons first front =>
        exact ⟨(head :: first) :: front, last, by simp [atMark], by simp [atMark]⟩

end Elkeid.Foundations.Separated
