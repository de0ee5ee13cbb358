import Elkeid.Foundations.Text
import Elkeid.Foundations.Varint

/-!
# Values of a program counter

`getPCValue` of `rasp/golang/go/symbol/line_table.cpp`. Go keeps a value for each stretch of a
function as a sequence of runs: by how much the value changes, and how far the run goes. The
changes are zig-zag varints, the lengths varints of the number of instruction quanta, and a zero
ends the sequence; the change of the first run may be zero.
-/

namespace Elkeid.Golang

open Foundations List Option Nat Varint

/-! ## The reader -/

/-- The loop of `readVarInt`. There is no result when it reads behind the table or when it would
shift by more bits than an `unsigned int` has. -/
def readVarIntFrom (v : BitVec 32) (shift : Nat) : Bytes → Option (BitVec 32 × Bytes)
  | [] => none
  | byte :: p =>
    if shift < 32 then
      let b := BitVec.ofNat 32 byte.toNat
      let v := v ||| (b &&& 0x7F) <<< shift
      if b &&& 0x80 = 0 then some (v, p) else readVarIntFrom v (shift + 7) p
    else none

def readVarInt (p : Bytes) : Option (BitVec 32 × Bytes) := readVarIntFrom 0 0 p

inductive Stepped
  | ended
  | moved (p : Bytes) (pc : BitVec 64) (value : BitVec 32)
  deriving DecidableEq

def step (mQuantum : BitVec 32) (p : Bytes) (pc : BitVec 64) (value : BitVec 32) (first : Bool) :
    Option Stepped :=
  (readVarInt p).bind (fun read =>
    let uv := read.1
    if uv = 0 ∧ first = false then some .ended
    else
      let uv := if uv &&& 1 ≠ 0 then ~~~(uv >>> 1) else uv >>> 1
      (readVarInt read.2).map (fun more =>
        .moved more.2 (pc + (more.1 * mQuantum).setWidth 64) (value + uv)))

/-- The loop of `getPCValue`; -1 is all ones. -/
def getPCValueFrom (mQuantum : BitVec 32) (entry targetPC : BitVec 64) :
    Nat → Bytes → BitVec 64 → BitVec 32 → Option (BitVec 32)
  | 0, _, _, _ => none
  | fuel + 1, p, pc, value =>
    match step mQuantum p pc value (pc = entry) with
    | none => none
    | some .ended => some (-1)
    | some (.moved p pc value) =>
      if targetPC < pc then some value
      else getPCValueFrom mQuantum entry targetPC fuel p pc value

/-- Each step reads a byte at least, so the length of the table bounds their number. -/
def getPCValue (mQuantum : BitVec 32) (mPCTable : Bytes) (offset : Nat)
    (entry targetPC : BitVec 64) :
    Option (BitVec 32) :=
  getPCValueFrom mQuantum entry targetPC (mPCTable.length + 1) (mPCTable.drop offset) entry (-1)

/-! ## Runs -/

/-- A run: a change of the value and a length, which is a number of quanta. -/
structure Run (mQuantum : BitVec 32) where
  valueDelta : BitVec 32
  pcDelta : Nat
  positive : 0 < pcDelta
  divides : mQuantum.toNat ∣ pcDelta
  bounded : pcDelta < 2 ^ 32

variable {mQuantum : BitVec 32}

def zigZag (delta : BitVec 32) : BitVec 32 :=
  if delta.msb then 1 ||| ~~~(delta <<< 1) else delta <<< 1

def Run.encode (run : Run mQuantum) : Bytes :=
  Varint.encode (zigZag run.valueDelta).toNat ++ Varint.encode (run.pcDelta / mQuantum.toNat)

def encodeRuns (runs : List (Run mQuantum)) : Bytes := runs.flatMap Run.encode ++ [0]

def pcAfter (entry : Nat) (runs : List (Run mQuantum)) : Nat := entry + (runs.map Run.pcDelta).sum

/-- The value behind runs; the first change is from -1. -/
def valueAfter (value : BitVec 32) (runs : List (Run mQuantum)) : BitVec 32 :=
  runs.foldl (fun value run => value + run.valueDelta) value

/-- The runs that a reader sees. A later run without a change is read as the end. -/
def visible : List (Run mQuantum) → List (Run mQuantum)
  | [] => []
  | first :: later => first :: later.takeWhile (fun run => run.valueDelta ≠ 0)

/-! ## One number -/

theorem short_byte : ∀ k < 128, BitVec.ofNat 32 (UInt8.ofNat k).toNat &&& 0x7F = BitVec.ofNat 32 k ∧
      BitVec.ofNat 32 (UInt8.ofNat k).toNat &&& 0x80 = 0 := by
  decide +kernel

theorem long_byte : ∀ k < 128,
    BitVec.ofNat 32 (UInt8.ofNat (k + 128)).toNat &&& 0x7F = BitVec.ofNat 32 k ∧
      BitVec.ofNat 32 (UInt8.ofNat (k + 128)).toNat &&& 0x80 ≠ 0 := by
  decide +kernel

theorem readVarIntFrom_encode {low shift n : Nat} (narrow : shift < 32) (below : low < 2 ^ shift)
    (fits : low + n * 2 ^ shift < 2 ^ 32) (rest : Bytes) :
    readVarIntFrom (BitVec.ofNat 32 low) shift (encode n ++ rest) =
      some (BitVec.ofNat 32 (low + n * 2 ^ shift), rest) := by
  induction n using Nat.strongRecOn generalizing low shift with
  | ind n ih =>
    by_cases small : n < 128
    · obtain ⟨bits, last⟩ := short_byte n small
      rw [encode_of_lt small, singleton_append, readVarIntFrom, if_pos narrow]
      dsimp only
      rw [bits, if_pos last, or_shift below fits]
    · obtain ⟨bits, notLast⟩ := long_byte (n % 128) (Nat.mod_lt n (by decide))
      obtain ⟨narrowNext, belowNext, sum⟩ := next_shift below (Nat.le_of_not_lt small) fits
      rw [encode_of_ge (by omega), cons_append, readVarIntFrom, if_pos narrow]
      dsimp only
      rw [bits, if_neg notLast, or_shift below (by omega),
        ih (n / 128) (by omega) narrowNext belowNext (by omega), sum]

theorem readVarInt_encode {n : Nat} (fits : n < 2 ^ 32) (rest : Bytes) :
    readVarInt (encode n ++ rest) = some (BitVec.ofNat 32 n, rest) := by
  have read := @readVarIntFrom_encode 0 0 n (by decide) (by decide) (by omega) rest
  rw [pow_zero, mul_one, zero_add] at read
  exact read

theorem unZigZag (delta : BitVec 32) :
    (if zigZag delta &&& 1 ≠ 0 then ~~~(zigZag delta >>> 1) else zigZag delta >>> 1) = delta := by
  cases sign : delta.msb with
  | true =>
    have form : zigZag delta = 1 ||| ~~~(delta <<< 1) := if_pos sign
    have odd : (1 ||| ~~~(delta <<< 1)) &&& 1 = (1 : BitVec 32) := by
      ext i inside
      grind
    rw [form, odd, if_pos (by decide)]
    rw [BitVec.msb_eq_getLsbD_last] at sign
    ext i inside
    grind
  | false =>
    have form : zigZag delta = delta <<< 1 := if_neg (by rw [sign]; exact Bool.false_ne_true)
    have even : delta <<< 1 &&& 1 = (0 : BitVec 32) := by
      ext i inside
      grind
    rw [form, even, if_neg (by decide)]
    rw [BitVec.msb_eq_getLsbD_last] at sign
    ext i inside
    grind

theorem zigZag_eq_zero_iff (delta : BitVec 32) : zigZag delta = 0 ↔ delta = 0 := by
  constructor
  · intro isZero
    have same := unZigZag delta
    rw [isZero] at same
    exact same.symm
  · rintro rfl
    rfl

/-! ## One run -/

theorem Run.length_eq (run : Run mQuantum) :
    (BitVec.ofNat 32 (run.pcDelta / mQuantum.toNat) * mQuantum).setWidth 64 =
      BitVec.ofNat 64 run.pcDelta := by
  have small := run.bounded
  apply BitVec.eq_of_toNat_eq
  rw [BitVec.toNat_setWidth, BitVec.toNat_mul, BitVec.toNat_ofNat, BitVec.toNat_ofNat,
    Nat.mod_mul_mod, Nat.div_mul_cancel run.divides, Nat.mod_eq_of_lt small]

theorem step_encode (run : Run mQuantum) (rest : Bytes) (pc : BitVec 64) (value : BitVec 32)
    {first : Bool} (read : first = true ∨ run.valueDelta ≠ 0) :
    step mQuantum (run.encode ++ rest) pc value first =
      some (.moved rest (pc + BitVec.ofNat 64 run.pcDelta) (value + run.valueDelta)) := by
  have goesOn : ¬ (zigZag run.valueDelta = 0 ∧ first = false) := by
    rintro ⟨noChange, notFirst⟩
    rcases read with isFirst | changes
    · rw [notFirst] at isFirst
      cases isFirst
    · exact changes ((zigZag_eq_zero_iff _).mp noChange)
  have quanta : run.pcDelta / mQuantum.toNat < 2 ^ 32 :=
    lt_of_le_of_lt (div_le_self _ _) run.bounded
  rw [Run.encode, append_assoc, step, readVarInt_encode (zigZag run.valueDelta).isLt, bind_some]
  rw [BitVec.ofNat_toNat, BitVec.setWidth_eq, if_neg goesOn, unZigZag, readVarInt_encode quanta,
    map_some, run.length_eq]

@[simp]
theorem step_zero (rest : Bytes) (pc : BitVec 64) (value : BitVec 32) :
    step mQuantum (0 :: rest) pc value false = some .ended := rfl

/-! ## All runs -/

/-- The value of the run that contains a program counter, of runs from `pc` on. -/
def valueAt (targetPC : Nat) : Nat → BitVec 32 → List (Run mQuantum) → Option (BitVec 32)
  | _, _, [] => none
  | pc, value, run :: rest =>
    if targetPC < pc + run.pcDelta then some (value + run.valueDelta)
    else valueAt targetPC (pc + run.pcDelta) (value + run.valueDelta) rest

@[simp]
theorem pcAfter_cons (entry : Nat) (run : Run mQuantum) (runs : List (Run mQuantum)) :
    pcAfter entry (run :: runs) = pcAfter (entry + run.pcDelta) runs := by
  rw [pcAfter, pcAfter, map_cons, sum_cons, add_assoc]

theorem le_pcAfter (entry : Nat) (runs : List (Run mQuantum)) : entry ≤ pcAfter entry runs :=
  le_add_right _ _

theorem valueAt_of_contains {targetPC : Nat} (pc : Nat) (value : BitVec 32)
    (before : List (Run mQuantum)) (run : Run mQuantum) (after : List (Run mQuantum))
    (lower : pcAfter pc before ≤ targetPC) (upper : targetPC < pcAfter pc (before ++ [run])) :
    valueAt targetPC pc value (before ++ run :: after) =
      some (valueAfter value (before ++ [run])) := by
  induction before generalizing pc value with
  | nil =>
    rw [nil_append, pcAfter_cons] at upper
    exact if_pos upper
  | cons head rest ih =>
    rw [cons_append, pcAfter_cons] at upper
    rw [pcAfter_cons] at lower
    have later : ¬ targetPC < pc + head.pcDelta := by
      have := le_pcAfter (pc + head.pcDelta) rest
      omega
    rw [cons_append, valueAt, if_neg later, ih _ _ lower upper]
    rfl

theorem valueAt_of_past {targetPC : Nat} (pc : Nat) (value : BitVec 32) (runs : List (Run mQuantum))
    (past : pcAfter pc runs ≤ targetPC) : valueAt targetPC pc value runs = none := by
  induction runs generalizing pc value with
  | nil => rfl
  | cons run rest ih =>
    rw [pcAfter_cons] at past
    have later : ¬ targetPC < pc + run.pcDelta := by
      have := le_pcAfter (pc + run.pcDelta) rest
      omega
    rw [valueAt, if_neg later]
    exact ih _ _ past

variable {pc entry : BitVec 64}

theorem toNat_add_pcDelta (run : Run mQuantum) (inside : pc.toNat + run.pcDelta < 2 ^ 64) :
    (pc + BitVec.ofNat 64 run.pcDelta).toNat = pc.toNat + run.pcDelta := by
  rw [BitVec.toNat_add, BitVec.toNat_ofNat, add_mod_mod, Nat.mod_eq_of_lt inside]

theorem getPCValueFrom_run {targetPC : BitVec 64} (run : Run mQuantum)
    (read : pc = entry ∨ run.valueDelta ≠ 0) (inside : pc.toNat + run.pcDelta < 2 ^ 64) (fuel : Nat)
    (rest : Bytes) (value : BitVec 32) :
    getPCValueFrom mQuantum entry targetPC (fuel + 1) (run.encode ++ rest) pc value =
      if targetPC.toNat < pc.toNat + run.pcDelta then some (value + run.valueDelta)
      else getPCValueFrom mQuantum entry targetPC fuel rest (pc + BitVec.ofNat 64 run.pcDelta)
        (value + run.valueDelta) := by
  have before : targetPC < pc + BitVec.ofNat 64 run.pcDelta ↔
      targetPC.toNat < pc.toNat + run.pcDelta := by
    rw [BitVec.lt_def, toNat_add_pcDelta run inside]
  rw [getPCValueFrom, step_encode run rest pc value (read.imp_left decide_eq_true)]
  simp [before]

theorem getPCValueFrom_later {targetPC : BitVec 64} {runs : List (Run mQuantum)}
    (changes : ∀ run ∈ runs, run.valueDelta ≠ 0) (behind : entry.toNat < pc.toNat)
    (inside : pcAfter pc.toNat runs < 2 ^ 64) {fuel : Nat} (enough : runs.length ≤ fuel)
    (value : BitVec 32) (rest : Bytes) :
    getPCValueFrom mQuantum entry targetPC (fuel + 1)
      (runs.flatMap Run.encode ++ 0 :: rest) pc value =
      some ((valueAt targetPC.toNat pc.toNat value runs).getD (-1)) := by
  induction runs generalizing pc value fuel with
  | nil =>
    have notFirst : decide (pc = entry) = false := by
      apply decide_eq_false
      rintro rfl
      exact absurd behind (lt_irrefl _)
    rw [getPCValueFrom, notFirst, flatMap_nil, nil_append, step_zero]
    rfl
  | cons run more ih =>
    obtain ⟨change, moreChanges⟩ := forall_mem_cons.mp changes
    rw [pcAfter_cons] at inside
    have here : pc.toNat + run.pcDelta < 2 ^ 64 := lt_of_le_of_lt (le_pcAfter _ _) inside
    have moved := toNat_add_pcDelta run here
    rw [flatMap_cons, append_assoc, getPCValueFrom_run run (.inr change) here, valueAt]
    split
    next => rfl
    next =>
      rw [length_cons] at enough
      obtain ⟨fuel, rfl⟩ := exists_eq_succ_of_ne_zero (by omega : fuel ≠ 0)
      rw [ih moreChanges (by omega) (by rw [moved]; exact inside) (by omega), moved]

theorem encodeRuns_cons (first : Run mQuantum) (later : List (Run mQuantum)) :
    ∃ rest, encodeRuns (first :: later) =
      first.encode ++
        ((later.takeWhile (fun run => run.valueDelta ≠ 0)).flatMap Run.encode ++ 0 :: rest) := by
  have ends : ∃ rest, (later.dropWhile (fun run => run.valueDelta ≠ 0)).flatMap Run.encode ++ [0] =
      0 :: rest := by
    cases left : later.dropWhile (fun run => run.valueDelta ≠ 0) with
    | nil => exact ⟨[], rfl⟩
    | cons run more =>
      have stopped := head_dropWhile_not (fun run : Run mQuantum => decide (run.valueDelta ≠ 0))
        (by rw [left]; exact cons_ne_nil run more)
      simp only [left, head_cons, decide_eq_false_iff_not, not_not] at stopped
      have zero : Varint.encode (zigZag 0).toNat = [0] := encode_of_lt (by decide)
      rw [flatMap_cons, Run.encode, stopped, zero]
      exact ⟨_, rfl⟩
  obtain ⟨rest, isZero⟩ := ends
  refine ⟨rest, ?_⟩
  rw [encodeRuns, flatMap_cons, append_assoc, ← isZero]
  conv => lhs; rw [← takeWhile_append_dropWhile
    (p := fun run : Run mQuantum => decide (run.valueDelta ≠ 0)) (l := later)]
  rw [flatMap_append, append_assoc]

theorem length_le_encode (runs : List (Run mQuantum)) :
    runs.length ≤ (runs.flatMap Run.encode).length := by
  induction runs with
  | nil => exact le_refl _
  | cons run rest ih =>
    have := encode_length_pos (zigZag run.valueDelta).toNat
    rw [flatMap_cons, length_append, length_cons, Run.encode, length_append]
    omega

theorem getPCValue_eq {runs : List (Run mQuantum)} (some : runs ≠ [])
    (inside : pcAfter entry.toNat (visible runs) < 2 ^ 64) (targetPC : BitVec 64)
    (front back : Bytes) :
    getPCValue mQuantum (front ++ encodeRuns runs ++ back) front.length entry targetPC =
      Option.some ((valueAt targetPC.toNat entry.toNat (-1) (visible runs)).getD (-1)) := by
  obtain ⟨first, later, rfl⟩ := exists_cons_of_ne_nil some
  obtain ⟨rest, bytes⟩ := encodeRuns_cons first later
  have changes : ∀ run ∈ later.takeWhile (fun run => run.valueDelta ≠ 0), run.valueDelta ≠ 0 := by
    intro run membership
    have kept := mem_takeWhile_imp membership
    exact of_decide_eq_true kept
  rw [visible] at inside ⊢
  generalize later.takeWhile (fun run => run.valueDelta ≠ 0) = shown at bytes changes inside ⊢
  have shorter := length_le_encode shown
  rw [pcAfter_cons] at inside
  have here : entry.toNat + first.pcDelta < 2 ^ 64 := lt_of_le_of_lt (le_pcAfter _ _) inside
  have moved := toNat_add_pcDelta first here
  have positive := first.positive
  rw [getPCValue, append_assoc, drop_left, bytes, append_assoc,
    getPCValueFrom_run first (.inl rfl) here, valueAt]
  split
  next => rfl
  next =>
    obtain ⟨fuel, isFuel⟩ : ∃ fuel,
        (front ++ (first.encode ++ (shown.flatMap Run.encode ++ 0 :: rest ++ back))).length =
        fuel + 1 := by
      refine ⟨_, (succ_pred_eq_of_pos ?_).symm⟩
      simp only [length_append, length_cons]
      omega
    have enough : shown.length ≤ fuel := by
      simp only [length_append, length_cons] at isFuel
      omega
    rw [isFuel, append_assoc, cons_append,
      getPCValueFrom_later changes (by omega) (by rw [moved]; exact inside) enough, moved]

/-- `getPCValue` gives the value of the run that contains the program counter, and -1 behind the
last run, for all runs before a later run that does not change the value. -/
theorem getPCValue_of_visible {runs : List (Run mQuantum)} (some : runs ≠ []) {entry : BitVec 64}
    (inside : pcAfter entry.toNat (visible runs) < 2 ^ 64) (targetPC : BitVec 64)
    (front back : Bytes) :
    (∀ before run after, visible runs = before ++ run :: after →
        pcAfter entry.toNat before ≤ targetPC.toNat →
        targetPC.toNat < pcAfter entry.toNat (before ++ [run]) →
        getPCValue mQuantum (front ++ encodeRuns runs ++ back) front.length entry targetPC =
          Option.some (valueAfter (-1) (before ++ [run]))) ∧
      (pcAfter entry.toNat (visible runs) ≤ targetPC.toNat →
        getPCValue mQuantum (front ++ encodeRuns runs ++ back) front.length entry targetPC =
          Option.some (-1)) := by
  rw [getPCValue_eq some inside]
  constructor
  · intro before run after isSplit lower upper
    rw [isSplit, valueAt_of_contains _ _ before run after lower upper, getD_some]
  · intro past
    rw [valueAt_of_past _ _ _ past, getD_none]

def sampleRun (valueDelta : BitVec 32) : Run 1 := ⟨valueDelta, 4, by decide, ⟨4, rfl⟩, by decide⟩

/-- The values 2 and 7, and nothing behind them. -/
theorem getPCValue_sample :
    pcAfter (0x1000#64).toNat (visible [sampleRun 3, sampleRun 5]) < 2 ^ 64 ∧
      getPCValue 1 ([] ++ encodeRuns [sampleRun 3, sampleRun 5] ++ []) 0 0x1000 0x1005 = some 7 :=
  ⟨by decide, (getPCValue_of_visible (cons_ne_nil _ _) (by decide) 0x1005 [] []).1 [sampleRun 3]
    (sampleRun 5) [] rfl (by decide) (by decide)⟩

theorem encode_sampleRun {valueDelta : BitVec 32} (small : (zigZag valueDelta).toNat < 128) :
    (sampleRun valueDelta).encode = [UInt8.ofNat (zigZag valueDelta).toNat, 4] := by
  have one : (1 : BitVec 32).toNat = 1 := by decide
  have four : (sampleRun valueDelta).pcDelta / (1 : BitVec 32).toNat = 4 := by
    rw [one, Nat.div_one]
    rfl
  rw [Run.encode, four, encode_of_lt (by decide : 4 < 128)]
  exact congrArg (· ++ [4]) (encode_of_lt small)

/-- A run behind the first one that does not change the value is not found, and behind an empty
sequence the bytes of the next one are taken for its runs. -/
theorem unchangedRun_not_found : let runs := [sampleRun 3, sampleRun 0]
    (pcAfter 0x1000 [sampleRun 3] ≤ 0x1005 ∧ 0x1005 < pcAfter 0x1000 runs ∧
      valueAfter (-1) runs = 2 ∧ getPCValue 1 (encodeRuns runs) 0 0x1000 0x1005 = some (-1)) ∧
    getPCValue 1 (encodeRuns ([] : List (Run 1)) ++ [4, 6, 4, 0]) 0 0x1000 0x1005 = some 2 := by
  refine ⟨⟨by decide, by decide, by decide, ?_⟩, by decide⟩
  rw [encodeRuns, flatMap_cons, flatMap_cons, encode_sampleRun (by decide),
    encode_sampleRun (by decide)]
  decide

end Elkeid.Golang
