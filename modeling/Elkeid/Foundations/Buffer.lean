import Mathlib

/-!
# Bounds-checked buffers

A buffer is the list of its elements.  Every access names the range it touches
and fails when the range leaves the buffer, so that a successful run of a
program over these operations has made no access out of bounds.
-/

namespace Elkeid.Foundations.Buffer

open List

universe u

variable {Element : Type u}

def read (buffer : List Element) (offset count : Nat) : Option (List Element) :=
  if offset + count ≤ buffer.length then some ((buffer.drop offset).take count)
  else none

def write (buffer : List Element) (offset : Nat) (block : List Element) :
    Option (List Element) :=
  if offset + block.length ≤ buffer.length then
    some (buffer.take offset ++ block ++ buffer.drop (offset + block.length))
  else none

/-- Copy `count` elements from `source` to `target`; the ranges may overlap. -/
def move (buffer : List Element) (target source count : Nat) : Option (List Element) :=
  (read buffer source count).bind (write buffer target)

def fill (buffer : List Element) (offset count : Nat) (value : Element) :
    Option (List Element) :=
  write buffer offset (replicate count value)

variable {buffer block before after : List Element} {offset count target source : Nat}

theorem read_eq_none_iff : read buffer offset count = none ↔ buffer.length < offset + count := by
  unfold read
  split <;> simp <;> omega

theorem write_eq_none_iff :
    write buffer offset block = none ↔ buffer.length < offset + block.length := by
  unfold write
  split <;> simp <;> omega

theorem write_isSome (inside : offset + block.length ≤ buffer.length) :
    ∃ result, write buffer offset block = some result := by
  rw [write, if_pos inside]
  exact ⟨_, rfl⟩

theorem length_of_write {result : List Element}
    (written : write buffer offset block = some result) : result.length = buffer.length := by
  unfold write at written
  split at written
  next inside =>
    cases written
    simp only [length_append, length_take, length_drop]
    omega
  next outside => simp at written

theorem length_of_read (result : read buffer offset count = some block) : block.length = count := by
  unfold read at result
  split at result
  next inside =>
    cases result
    simp only [length_take, length_drop]
    omega
  next outside => simp at result

theorem read_block (position : offset = before.length) (extent : count = block.length) :
    read (before ++ block ++ after) offset count = some block := by
  subst position extent
  simp [read]

theorem write_block {old : List Element}
    (position : offset = before.length) (extent : block.length = old.length) :
    write (before ++ old ++ after) offset block = some (before ++ block ++ after) := by
  subst position
  unfold write
  rw [if_pos (by simp; omega)]
  have dropped : (before ++ old ++ after).drop (before.length + block.length) = after := by
    rw [extent, ← length_append, drop_left]
  rw [dropped]
  simp

theorem move_up {gap : Nat} (room : gap ≤ after.length) (position : source = before.length)
    (shifted : target = source + gap) (extent : count = block.length) :
    move (before ++ block ++ after) target source count =
      some (before ++ (block ++ after).take gap ++ block ++ after.drop gap) := by
  have kept : (before ++ (block ++ after).take gap).length = target := by
    simp only [length_append, length_take]
    omega
  have split : before ++ block ++ after = before ++ (block ++ after).take gap ++
      ((block ++ after).drop gap).take block.length ++ after.drop gap := by
    have tail : after.drop gap = ((block ++ after).drop gap).drop block.length := by
      rw [drop_drop, add_comm, ← drop_drop, drop_left]
    rw [tail, append_assoc _ (((block ++ after).drop gap).take block.length),
      take_append_drop, append_assoc before (take gap _), take_append_drop,
      append_assoc]
  rw [move, read_block position extent, Option.bind_some, split]
  apply write_block kept.symm
  simp only [length_take, length_drop, length_append]
  omega

theorem move_down {hole : List Element}
    (position : target = before.length) (shifted : source = target + hole.length)
    (extent : count = block.length) :
    move (before ++ hole ++ block ++ after) target source count =
      some (before ++ block ++ (hole ++ block).drop block.length ++ after) := by
  have above : source = (before ++ hole).length := by
    rw [length_append, shifted, position]
  have split : before ++ hole ++ block ++ after = before ++ (hole ++ block).take block.length ++
      ((hole ++ block).drop block.length ++ after) := by
    rw [← append_assoc (before ++ _), append_assoc before (take _ _), take_append_drop]
    simp
  rw [move, read_block above extent, Option.bind_some, split, append_assoc (before ++ block)]
  apply write_block position
  simp

theorem move_eq_none_iff : move buffer target source count = none ↔
      buffer.length < source + count ∨ buffer.length < target + count := by
  unfold move
  cases result : read buffer source count with
  | none => simp [read_eq_none_iff.mp result]
  | some block =>
    have inside : ¬buffer.length < source + count := fun outside => by
      rw [read_eq_none_iff.mpr outside] at result
      simp at result
    simp [write_eq_none_iff, length_of_read result, inside]

end Elkeid.Foundations.Buffer
