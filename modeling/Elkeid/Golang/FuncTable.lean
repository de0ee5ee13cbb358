import Elkeid.Foundations.LittleEndian
import Elkeid.Foundations.UpperBound

/-!
# Finding a Go function

`findFunc` of `rasp/golang/go/symbol/line_table.cpp` and the `FuncTablePtr` of `func.cpp`. The table
has an address and an offset for each function, and the end of the last one behind them. Up to
Go 1.17 they are pointers, from 1.18 on 32-bit offsets from the start of the text.
-/

namespace Elkeid.Golang

open Foundations LittleEndian UpperBound Nat

abbrev Memory := Nat → UInt8

def Memory.number (memory : Memory) (address size : Nat) : Nat :=
  value ((List.range size).map (fun i => memory (address + i)))

inductive GolangVersion
  | version12
  | version116
  | version118
  deriving DecidableEq

structure FuncEntry where
  entry : Nat
  offset : Nat

structure FuncTablePtr where
  mSize : Nat
  mTable : Nat
  deriving DecidableEq

namespace FuncTablePtr

/-- `operator+=`, with a `ptrdiff_t`; `operator++` is a step of one. -/
def advance (ptr : FuncTablePtr) (offset : Nat) : FuncTablePtr :=
  { ptr with mTable := ptr.mTable + offset * 2 * ptr.mSize }

/-- `operator+`, with an `unsigned int`: the product has 32 bits. -/
def plus (ptr : FuncTablePtr) (offset : Nat) : FuncTablePtr :=
  { ptr with mTable := ptr.mTable + offset * 2 * ptr.mSize % 2 ^ 32 }

/-- `operator-`, with an `unsigned int`. -/
def minus (ptr : FuncTablePtr) (offset : Nat) : FuncTablePtr :=
  { ptr with mTable := ptr.mTable - offset * 2 * ptr.mSize % 2 ^ 32 }

/-- `operator-`, with another pointer. -/
def distance (last first : FuncTablePtr) : Nat := (last.mTable - first.mTable) / (2 * last.mSize)

def peek (memory : Memory) (mSize address : Nat) : Nat :=
  if mSize = 4 then memory.number address 4 else memory.number address 8

/-- `operator*`. -/
def deref (memory : Memory) (ptr : FuncTablePtr) : FuncEntry where
  entry := peek memory ptr.mSize ptr.mTable
  offset := peek memory ptr.mSize (ptr.mTable + ptr.mSize)

end FuncTablePtr

structure Func where
  mFuncData : Nat
  deriving DecidableEq

structure LineTable where
  mVersion : GolangVersion
  mPtrSize : Nat
  mFuncNum : UInt32
  mTextStart : Nat
  mFuncTable : Nat
  mFuncData : Nat

namespace LineTable

def entrySize (table : LineTable) : Nat :=
  if table.mVersion = .version118 then 4 else table.mPtrSize

def getFuncTable (table : LineTable) : FuncTablePtr := ⟨table.entrySize, table.mFuncTable⟩

def base (table : LineTable) : Nat := if table.mVersion = .version118 then table.mTextStart else 0

def address (table : LineTable) (memory : Memory) (ptr : FuncTablePtr) : Nat :=
  ((ptr.deref memory).entry + table.base) % 2 ^ 64

def findFunc (table : LineTable) (memory : Memory) (address : Nat) : Option Func :=
  let first := table.getFuncTable
  let back := first.plus table.mFuncNum.toNat
  let last := back.plus 1
  if address < table.address memory first ∨ address ≥ table.address memory back then none
  else
    let it := upperBound FuncTablePtr.advance (fun ptr => address < table.address memory ptr) first
      (last.distance first)
    if it = last then none
    else some ⟨table.mFuncData + ((it.minus 1).deref memory).offset⟩

/-! ## Places of the table -/

variable {table : LineTable} {memory : Memory}

def place (table : LineTable) (i : Nat) : FuncTablePtr := table.getFuncTable.advance i

/-- The address of the function at a place; behind the last one it is the end. -/
def entryAt (table : LineTable) (memory : Memory) (i : Nat) : Nat :=
  table.address memory (table.place i)

def funcAt (table : LineTable) (memory : Memory) (i : Nat) : Func :=
  ⟨table.mFuncData + ((table.place i).deref memory).offset⟩

/-- Entries of four or eight bytes, in the order of their addresses. -/
structure WellFormed (table : LineTable) (memory : Memory) : Prop where
  supported : table.mPtrSize = 4 ∨ table.mPtrSize = 8
  ordered : ∀ i < table.mFuncNum.toNat, table.entryAt memory i ≤ table.entryAt memory (i + 1)

/-- The place at which `findFunc` takes the table to end: the number of functions, as far as 32
bits hold the size of their entries. -/
def backAt (table : LineTable) : Nat := table.mFuncNum.toNat % (2 ^ 31 / table.entrySize)

theorem WellFormed.entrySize_cases (formed : table.WellFormed memory) :
    table.entrySize = 4 ∨ table.entrySize = 8 := by
  unfold entrySize
  split
  next => exact .inl rfl
  next => exact formed.supported

theorem WellFormed.mono (formed : table.WellFormed memory) {i j : Nat} (le : i ≤ j)
    (inside : j ≤ table.mFuncNum.toNat) : table.entryAt memory i ≤ table.entryAt memory j := by
  induction j, le using le_induction with
  | base => exact le_refl _
  | succ j _ ih =>
    exact le_trans (ih (by omega)) (formed.ordered j inside)

theorem place_advance (i n : Nat) : (table.place i).advance n = table.place (i + n) := by
  simp only [place, FuncTablePtr.advance, FuncTablePtr.mk.injEq, true_and]
  rw [add_assoc, ← add_mul, ← add_mul]

@[simp]
theorem place_zero : table.place 0 = table.getFuncTable := by
  simp [place, FuncTablePtr.advance]

section

variable (size : table.entrySize = 4 ∨ table.entrySize = 8)
include size

theorem place_plus (i n : Nat) :
    (table.place i).plus n = table.place (i + n % (2 ^ 31 / table.entrySize)) := by
  simp only [place, FuncTablePtr.advance, FuncTablePtr.plus, FuncTablePtr.mk.injEq, true_and,
    getFuncTable]
  rcases size with four | eight
  · rw [four]
    omega
  · rw [eight]
    omega

theorem place_minus (i : Nat) : (table.place (i + 1)).minus 1 = table.place i := by
  simp only [place, FuncTablePtr.advance, FuncTablePtr.minus, FuncTablePtr.mk.injEq, true_and,
    getFuncTable]
  rcases size with four | eight
  · rw [four]
    omega
  · rw [eight]
    omega

theorem place_distance (i : Nat) : (table.place i).distance (table.place 0) = i := by
  simp only [place, FuncTablePtr.advance, FuncTablePtr.distance, getFuncTable]
  rcases size with four | eight
  · rw [four]
    omega
  · rw [eight]
    omega

theorem place_inj {i j : Nat} (same : table.place i = table.place j) : i = j := by
  rw [← place_distance size i, same, place_distance size]

end

theorem backAt_le (table : LineTable) : table.backAt ≤ table.mFuncNum.toNat := mod_le _ _

/-! ## The search -/

theorem findFunc_eq (size : table.entrySize = 4 ∨ table.entrySize = 8) (address : Nat) :
    table.findFunc memory address =
      if address < table.entryAt memory 0 ∨ address ≥ table.entryAt memory table.backAt then none
      else
        let it := upperBound FuncTablePtr.advance (fun ptr => address < table.address memory ptr)
          (table.place 0) (table.backAt + 1)
        if it = table.place (table.backAt + 1) then none
        else some ⟨table.mFuncData + ((it.minus 1).deref memory).offset⟩ := by
  have back : table.getFuncTable.plus table.mFuncNum.toNat = table.place table.backAt := by
    rw [← place_zero, place_plus size, zero_add]
    rfl
  have last : (table.place table.backAt).plus 1 = table.place (table.backAt + 1) := by
    rw [place_plus size]
    rcases size with four | eight
    · rw [four]
      rfl
    · rw [eight]
      rfl
  rw [findFunc]
  rw [back, last, ← place_zero, place_distance size]
  rfl

/-- The function that is found is before the place taken for the end, and no other one contains
the address. -/
theorem findFunc_found (formed : table.WellFormed memory) {address : Nat}
    (lower : table.entryAt memory 0 ≤ address)
    (upper : address < table.entryAt memory table.backAt) :
    ∃ i < table.backAt, table.entryAt memory i ≤ address ∧ address < table.entryAt memory (i + 1) ∧
      table.findFunc memory address = some (table.funcAt memory i) := by
  have size := formed.entrySize_cases
  have backInside := table.backAt_le
  have ordered : ∀ i j, i ≤ j → j < table.backAt + 1 →
      decide (address < table.address memory (table.place i)) = true →
      decide (address < table.address memory (table.place j)) = true := by
    intro i j le inside isAbove
    have mono := formed.mono le (le_trans (le_of_lt_succ inside) backInside)
    exact decide_eq_true (lt_of_lt_of_le (of_decide_eq_true isAbove) mono)
  obtain ⟨found, searched, -, below, fromThere⟩ :=
    @upperBound_spec _ FuncTablePtr.advance (fun ptr => decide (address < table.address memory ptr))
      table.place (table.backAt + 1) place_advance ordered
  -- the first entry is not above the address, so the place found has one before it
  have positive : found ≠ 0 := by
    rintro rfl
    have isAbove := of_decide_eq_true (fromThere 0 (le_refl 0) (Nat.succ_pos _))
    exact absurd isAbove (Nat.not_lt_of_le lower)
  have notLast : found ≤ table.backAt := by
    by_contra beyond
    have notAbove := below table.backAt (by omega)
    exact of_decide_eq_false notAbove upper
  obtain ⟨i, rfl⟩ := exists_eq_succ_of_ne_zero positive
  refine ⟨i, notLast, ?_, ?_, ?_⟩
  · exact Nat.le_of_not_lt (of_decide_eq_false (below i (Nat.lt_succ_self i)))
  · exact of_decide_eq_true (fromThere (i + 1) (le_refl _) (by omega))
  · have inBounds : ¬
        (address < table.entryAt memory 0 ∨ address ≥ table.entryAt memory table.backAt) := by
      omega
    have notEnd : table.place (i + 1) ≠ table.place (table.backAt + 1) := by
      intro same
      have := place_inj size same
      omega
    rw [findFunc_eq size, if_neg inBounds]
    rw [searched, if_neg notEnd, place_minus size]
    rfl

theorem findFunc_eq_none (formed : table.WellFormed memory) {address : Nat}
    (outside : address < table.entryAt memory 0 ∨ table.entryAt memory table.backAt ≤ address) :
    table.findFunc memory address = none := by
  rw [findFunc_eq formed.entrySize_cases, if_pos outside]

/-- What is asked of a lookup: it succeeds between the first entry and the end, and then gives the
function that contains the address. -/
def Finds (table : LineTable) (memory : Memory) (address : Nat) : Prop :=
  ((table.findFunc memory address).isSome ↔
    table.entryAt memory 0 ≤ address ∧ address < table.entryAt memory table.mFuncNum.toNat) ∧
  ∀ func, table.findFunc memory address = some func →
    ∃ i < table.mFuncNum.toNat, table.entryAt memory i ≤ address ∧
      address < table.entryAt memory (i + 1) ∧ func = table.funcAt memory i

theorem backAt_eq_of_small (size : table.entrySize = 4 ∨ table.entrySize = 8)
    (small : table.mFuncNum.toNat * 2 * table.entrySize < 2 ^ 32) :
    table.backAt = table.mFuncNum.toNat := by
  unfold backAt
  rcases size with four | eight
  · rw [four] at small ⊢
    omega
  · rw [eight] at small ⊢
    omega

/-- Every lookup in a well-formed table is right if and only if 32 bits hold the size of the
entries, or the functions behind those that are searched are all empty. -/
theorem findFunc_right_iff (formed : table.WellFormed memory) :
    (∀ address, table.Finds memory address) ↔
      table.mFuncNum.toNat * 2 * table.entrySize < 2 ^ 32 ∨
        table.entryAt memory table.backAt = table.entryAt memory table.mFuncNum.toNat := by
  have backInside := table.backAt_le
  constructor
  · intro right
    by_contra wrong
    obtain ⟨-, differs⟩ := not_or.mp wrong
    have less : table.entryAt memory table.backAt < table.entryAt memory table.mFuncNum.toNat :=
      lt_of_le_of_ne (formed.mono backInside (le_refl _)) differs
    -- The first address behind the functions that are searched.
    have succeeds := (right (table.entryAt memory table.backAt)).1.mpr
      ⟨formed.mono (zero_le _) backInside, less⟩
    rw [findFunc_eq_none formed (.inr (le_refl _))] at succeeds
    cases succeeds
  · intro condition address
    have same : table.entryAt memory table.backAt = table.entryAt memory table.mFuncNum.toNat := by
      rcases condition with small | same
      · rw [backAt_eq_of_small formed.entrySize_cases small]
      · exact same
    by_cases inside : table.entryAt memory 0 ≤ address ∧ address < table.entryAt memory table.backAt
    · obtain ⟨i, before, lower, upper, found⟩ := findFunc_found formed inside.1 inside.2
      refine ⟨?_, ?_⟩
      · rw [found, ← same]
        exact ⟨fun _ => inside, fun _ => rfl⟩
      · intro func isFound
        cases found.symm.trans isFound
        exact ⟨i, lt_of_lt_of_le before backInside, lower, upper, rfl⟩
    · have notFound : table.findFunc memory address = none := findFunc_eq_none formed (by omega)
      refine ⟨?_, ?_⟩
      · rw [notFound, ← same]
        exact ⟨fun isSome => absurd isSome (by decide), fun isInside => absurd isInside inside⟩
      · intro func isFound
        cases notFound.symm.trans isFound

def twoFunctions : LineTable := ⟨.version118, 8, 2, 4096, 8, 8⟩

def twoFunctionsMemory : Memory := fun address =>
  (List.replicate 8 0 ++ word 16 ++ word 100 ++ word 32 ++
    word 200 ++ word 64).getD address 0

theorem twoFunctions_right : twoFunctions.WellFormed twoFunctionsMemory ∧
      ∀ address, twoFunctions.Finds twoFunctionsMemory address := by
  have formed : twoFunctions.WellFormed twoFunctionsMemory := by
    refine ⟨.inr rfl, ?_⟩
    decide +kernel
  exact ⟨formed, (findFunc_right_iff formed).mpr (.inl (by decide))⟩

/-- A table at 0x500000 of so many functions that the size of their entries is 2 ^ 32. All are at 0
and the last one ends at 1. -/
def manyFunctions : LineTable := ⟨.version116, 8, 2 ^ 28, 0, 0x500000, 0⟩

def manyFunctionsMemory : Memory := fun address => if address = 0x500000 + 2 ^ 32 then 1 else 0

/-- None of them is found. -/
theorem manyFunctions_not_found : manyFunctions.WellFormed manyFunctionsMemory ∧
      manyFunctions.entryAt manyFunctionsMemory 0 ≤ 0 ∧
      0 < manyFunctions.entryAt manyFunctionsMemory manyFunctions.mFuncNum.toNat ∧
      manyFunctions.findFunc manyFunctionsMemory 0 = none := by
  refine ⟨⟨.inr rfl, ?_⟩, by decide +kernel, by decide +kernel, by decide +kernel⟩
  intro i inside
  have number : manyFunctions.mFuncNum.toNat = 2 ^ 28 := by decide
  rw [number] at inside
  have zero : manyFunctions.entryAt manyFunctionsMemory i = 0 := by
    have clean : (List.range 8).map (fun k => manyFunctionsMemory (0x500000 + i * 2 * 8 + k)) =
        List.replicate 8 0 := by
      apply List.eq_replicate_of_mem
      intro byte membership
      obtain ⟨k, inRange, rfl⟩ := List.mem_map.mp membership
      have := List.mem_range.mp inRange
      exact if_neg (by omega)
    have entry : manyFunctions.entryAt manyFunctionsMemory i =
        (value ((List.range 8).map
          (fun k => manyFunctionsMemory (0x500000 + i * 2 * 8 + k))) + 0) % 2 ^ 64 := by
      have size : (manyFunctions.place i).mSize = 8 := rfl
      rw [entryAt, LineTable.address, FuncTablePtr.deref, FuncTablePtr.peek, size,
        if_neg (by decide)]
      rfl
    rw [entry, clean]
    decide
  rw [zero]
  exact zero_le _

end LineTable

end Elkeid.Golang
