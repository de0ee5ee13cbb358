import Mathlib

/-!
# Replaying decoders

A decoder is called on the bytes that have come, as often as it finds something to take. A call that
misses bytes is undone and made again after the next read, and a call that throws closes the
connection. The result does not depend on how the bytes were cut into reads.
-/

namespace Elkeid.Foundations.Replay

open List

/-- What a call does with the bytes that have come. -/
inductive Call (Byte Out : Type) where
  | replay
  | decoded (made : Option Out) (rest : List Byte)
  | thrown

structure Reader (Byte Out : Type) where
  unread : List Byte
  out : List Out
  isOpen : Bool
deriving DecidableEq

variable {Byte Out : Type}

def Reader.start : Reader Byte Out := ⟨[], [], true⟩

/-- A call takes something, and looks at nothing but what it takes. -/
structure Lawful (decode : List Byte → Call Byte Out) : Prop where
  starved : decode [] = .replay
  shorter : ∀ {bytes made rest}, decode bytes = .decoded made rest → rest.length < bytes.length
  decoded_append : ∀ {bytes made rest}, decode bytes = .decoded made rest →
    ∀ more, decode (bytes ++ more) = .decoded made (rest ++ more)
  thrown_append : ∀ {bytes}, decode bytes = .thrown → ∀ more, decode (bytes ++ more) = .thrown

section Definitions

variable (decode : List Byte → Call Byte Out)

def callDecode : Nat → List Byte → List Out → Reader Byte Out
  | 0, bytes, out => ⟨bytes, out, true⟩
  | calls + 1, bytes, out =>
    match decode bytes with
    | .replay => ⟨bytes, out, true⟩
    | .decoded made rest => callDecode calls rest (out ++ made.toList)
    | .thrown => ⟨[], out, false⟩

/-- Calls until bytes are missing. -/
def drain (bytes : List Byte) (out : List Out) : Reader Byte Out :=
  callDecode decode bytes.length bytes out

def read (reader : Reader Byte Out) (bytes : List Byte) : Reader Byte Out :=
  if reader.isOpen then drain decode (reader.unread ++ bytes) reader.out else reader

def readAll (reader : Reader Byte Out) (reads : List (List Byte)) : Reader Byte Out :=
  reads.foldl (read decode) reader

/-- All the bytes are taken and nothing is made of them. -/
inductive Silent : List Byte → Prop where
  | nil : Silent []
  | step {bytes rest : List Byte} : decode bytes = .decoded none rest → Silent rest → Silent bytes

end Definitions

variable {decode : List Byte → Call Byte Out}

theorem drain_of_replay {bytes : List Byte} (called : decode bytes = .replay) (out : List Out) :
    drain decode bytes out = ⟨bytes, out, true⟩ := by
  unfold drain
  cases bytes with
  | nil => rfl
  | cons head tail => simp [callDecode, called]

@[simp]
theorem read_waiting (out : List Out) (bytes : List Byte) :
    read decode ⟨[], out, true⟩ bytes = drain decode bytes out := rfl

namespace Lawful

theorem callDecode_eq_of_le (lawful : Lawful decode) {few many : Nat} {bytes : List Byte}
    (fewEnough : bytes.length ≤ few) (manyEnough : bytes.length ≤ many) (out : List Out) :
    callDecode decode few bytes out = callDecode decode many bytes out := by
  induction few generalizing many bytes out with
  | zero =>
    cases eq_nil_of_length_eq_zero (Nat.le_zero.mp fewEnough)
    cases many with
    | zero => rfl
    | succ many => simp [callDecode, lawful.starved]
  | succ few ih =>
    cases many with
    | zero =>
      cases eq_nil_of_length_eq_zero (Nat.le_zero.mp manyEnough)
      simp [callDecode, lawful.starved]
    | succ many =>
      simp only [callDecode]
      cases called : decode bytes with
      | replay => rfl
      | thrown => rfl
      | decoded made rest =>
        have shorter := lawful.shorter called
        apply ih
        · omega
        · omega

variable (lawful : Lawful decode)

include lawful

theorem induction {motive : List Byte → Prop}
    (replay : ∀ bytes, decode bytes = .replay → motive bytes)
    (thrown : ∀ bytes, decode bytes = .thrown → motive bytes)
    (decoded : ∀ bytes made rest, decode bytes = .decoded made rest → motive rest → motive bytes)
    (bytes : List Byte) : motive bytes := by
  induction size : bytes.length using Nat.strongRecOn generalizing bytes with
  | ind size ih =>
    cases called : decode bytes with
    | replay => exact replay bytes called
    | thrown => exact thrown bytes called
    | decoded made rest =>
      apply decoded bytes made rest called
      exact ih _ (size ▸ lawful.shorter called) rest rfl

variable {bytes rest : List Byte} {made : Option Out} (out : List Out)

theorem drain_of_decoded (called : decode bytes = .decoded made rest) :
    drain decode bytes out = drain decode rest (out ++ made.toList) := by
  have shorter := lawful.shorter called
  rw [drain, lawful.callDecode_eq_of_le (le_refl _) (Nat.le_succ _)]
  simp only [callDecode, called]
  exact lawful.callDecode_eq_of_le (le_of_lt shorter) (le_refl _) _

theorem drain_of_thrown (called : decode bytes = .thrown) :
    drain decode bytes out = ⟨[], out, false⟩ := by
  rw [drain, lawful.callDecode_eq_of_le (le_refl _) (Nat.le_succ _)]
  simp [callDecode, called]

@[simp]
theorem drain_nil : drain decode [] out = ⟨[], out, true⟩ := drain_of_replay lawful.starved out

theorem drain_append (bytes more : List Byte) :
    drain decode (bytes ++ more) out = read decode (drain decode bytes out) more := by
  induction bytes using lawful.induction generalizing out with
  | replay bytes called =>
    rw [drain_of_replay called, read, if_pos rfl]
  | thrown bytes called =>
    rw [lawful.drain_of_thrown out called, read, if_neg Bool.false_ne_true,
      lawful.drain_of_thrown out (lawful.thrown_append called more)]
  | decoded bytes made rest called ih =>
    rw [lawful.drain_of_decoded out called,
      lawful.drain_of_decoded out (lawful.decoded_append called more), ih]

theorem read_append (reader : Reader Byte Out) (first second : List Byte) :
    read decode reader (first ++ second) = read decode (read decode reader first) second := by
  cases isOpen : reader.isOpen with
  | false => simp [read, isOpen]
  | true =>
    have opened (bytes : List Byte) :
        read decode reader bytes = drain decode (reader.unread ++ bytes) reader.out := if_pos isOpen
    rw [opened, opened, ← append_assoc, lawful.drain_append]

theorem readAll_read (reader : Reader Byte Out) (bytes : List Byte) (reads : List (List Byte)) :
    readAll decode (read decode reader bytes) reads =
      read decode reader (bytes ++ reads.flatten) := by
  induction reads generalizing bytes with
  | nil => rw [flatten_nil, append_nil, readAll, foldl_nil]
  | cons first reads ih =>
    rw [flatten_cons, ← append_assoc, ← ih, lawful.read_append]
    rfl

theorem readAll_start (reads : List (List Byte)) :
    readAll decode .start reads = drain decode reads.flatten [] := by
  have start : read decode (.start : Reader Byte Out) [] = .start := lawful.drain_nil []
  rw [← start, lawful.readAll_read]
  rfl

theorem out_le_drain (bytes : List Byte) : out.length ≤ (drain decode bytes out).out.length := by
  induction bytes using lawful.induction generalizing out with
  | replay bytes called =>
    simp [drain_of_replay called]
  | thrown bytes called =>
    simp [lawful.drain_of_thrown out called]
  | decoded bytes made rest called ih =>
    rw [lawful.drain_of_decoded out called]
    have later := ih (out ++ made.toList)
    rw [length_append] at later
    exact le_trans (Nat.le_add_right _ _) later

theorem drain_of_silent (silent : Silent decode bytes) :
    drain decode bytes out = ⟨[], out, true⟩ := by
  induction silent with
  | nil => exact lawful.drain_nil out
  | step called _ ih =>
    rw [lawful.drain_of_decoded out called, Option.toList_none, append_nil, ih]

theorem silent_of_drain (bytes : List Byte) (drained : drain decode bytes out = ⟨[], out, true⟩) :
    Silent decode bytes := by
  induction bytes using lawful.induction with
  | replay bytes called =>
    rw [drain_of_replay called] at drained
    cases drained
    exact .nil
  | thrown bytes called =>
    rw [lawful.drain_of_thrown out called] at drained
    cases drained
  | decoded bytes made rest called ih =>
    rw [lawful.drain_of_decoded out called] at drained
    cases made with
    | none =>
      rw [Option.toList_none, append_nil] at drained
      exact .step called (ih drained)
    | some value =>
      have kept := lawful.out_le_drain (out ++ [value]) rest
      rw [Option.toList_some] at drained
      rw [drained, length_append] at kept
      exact absurd kept (Nat.not_succ_le_self _)

end Lawful

end Elkeid.Foundations.Replay
