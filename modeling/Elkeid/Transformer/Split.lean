import Elkeid.Trace.Event

/-!
# Splitting a record into values

The first part of `Transformer::transform` in `plugins/driver/src/transformer.rs`:
the data type in front of the first separator, the array of values of that type
and the loop that fills it. The enrichment that follows only writes slots behind
the fields the kernel prints. `none` stands for a panic of the thread.
-/

namespace Elkeid.Transformer

open Foundations List

def separator : UInt8 := 0x1e

def parseDigits (total : Nat) : Bytes → Option Nat
  | [] => some total
  | byte :: rest =>
    if 0x30 ≤ byte ∧ byte ≤ 0x39 then
      let total := total * 10 + (byte.toNat - 0x30)
      if total < 2 ^ 32 then parseDigits total rest else none
    else none

/-- `str::parse::<u32>`: one leading plus sign is accepted in front of a digit. -/
def parseU32 : Bytes → Option Nat
  | [] => none
  | 0x2b :: digits => if digits = [] then none else parseDigits 0 digits
  | digits => parseDigits 0 digits

/-- Length of the array `values` in the arm of each data type. -/
def valueSlots : Nat → Option Nat
  | 42 => some 25
  | 49 => some 23
  | 59 => some 33
  | 82 | 86 => some 22
  | 101 => some 24
  | 112 => some 19
  | 157 => some 21
  | 165 => some 23
  | 356 => some 21
  | 601 => some 27
  | 602 => some 28
  | 603 => some 21
  | 604 => some 22
  | 607 => some 3
  | 608 | 609 => some 22
  | 610 => some 23
  | 611 => some 24
  | 700 | 702 => some 1
  | 701 | 703 => some 2
  | _ => none

def store (values : List Bytes) (index : Nat) (value : Bytes) : Option (List Bytes) :=
  if index < values.length then some (values.set index value) else none

/-- `current` is the slice from `base_index` up to the byte looked at. -/
def splitLoop (values : List Bytes) (index : Nat) (current : Bytes) :
    Bytes → Option (List Bytes)
  | [] => store values index current
  | byte :: rest =>
    if byte = separator then do
      let values ← store values index current
      splitLoop values (index + 1) [] rest
    else splitLoop values index (current ++ [byte]) rest

inductive TransformError where
  /-- the bytes in front of the first separator are no `u32` -/
  | invalidDataType
  /-- `unknown data type: {:?}` -/
  | unknownDataType (dataType : Nat)
  deriving DecidableEq

structure Report where
  dataType : Nat
  values : List Bytes
  deriving DecidableEq

def splitRecord (data : Bytes) : Option (Except TransformError Report) :=
  let head := data.takeWhile (· ≠ separator)
  match parseU32 head with
  | none => some (.error .invalidDataType)
  | some dataType =>
    -- `&data[index + 1..]` panics when no separator follows the data type
    if data.length < head.length + 1 then none
    else
      match valueSlots dataType with
      | none => some (.error (.unknownDataType dataType))
      | some slots =>
        (splitLoop (replicate slots []) 0 [] (data.drop (head.length + 1))).map
          (fun values => .ok ⟨dataType, values⟩)

theorem store_next (prior : List Bytes) (free : Nat) (value : Bytes) :
    store (prior ++ replicate free []) prior.length value =
      if 0 < free then some (prior ++ [value] ++ replicate (free - 1) []) else none := by
  cases free with
  | zero => simp [store]
  | succ count =>
    rw [store, if_pos (by simp), if_pos (Nat.succ_pos count), set_append_right _ _ (le_refl _),
      Nat.sub_self, replicate_succ, set_cons_zero]
    simp

/-- The loop puts the pieces of the data into the free slots, in order; it fails
exactly when there are more pieces than slots. -/
theorem splitLoop_eq (prior : List Bytes) (free : Nat) (current data : Bytes) :
    splitLoop (prior ++ replicate free []) prior.length current data =
      let pieces := (data.splitOn separator).modifyHead (current ++ ·)
      if pieces.length ≤ free then
        some (prior ++ pieces ++ replicate (free - pieces.length) [])
      else none := by
  induction data generalizing prior free current with
  | nil =>
    rw [splitLoop, store_next]
    cases free <;> simp
  | cons byte rest ih =>
    rw [splitLoop, splitOn_cons_eq_if_modifyHead]
    by_cases atSeparator : byte = separator
    · rw [if_pos atSeparator, store_next]
      cases free with
      | zero => simp [atSeparator]
      | succ count =>
        have next := ih (prior ++ [current]) count []
        simp only [length_append, length_singleton, nil_append] at next
        simp only [Nat.succ_pos, if_true, Nat.add_sub_cancel, Option.bind_eq_bind,
          Option.bind_some, atSeparator, BEq.rfl, modifyHead_cons, append_nil]
        rw [next]
        cases rest.splitOn separator <;> simp
    · have distinct : (byte == separator) = false := by simpa using atSeparator
      rw [if_neg atSeparator, ih]
      simp only [distinct, Bool.false_eq_true, if_false]
      cases rest.splitOn separator <;> simp

theorem splitLoop_start (slots : Nat) (data : Bytes) :
    splitLoop (replicate slots []) 0 [] data = let pieces := data.splitOn separator
      if pieces.length ≤ slots then some (pieces ++ replicate (slots - pieces.length) [])
      else none := by
  have spec := splitLoop_eq [] slots [] data
  simp only [nil_append, length_nil] at spec
  rw [spec]
  cases data.splitOn separator <;> simp

end Elkeid.Transformer
