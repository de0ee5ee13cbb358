import Mathlib

/-!
# Ownership of allocated blocks

A heap is the list of the addresses handed out and not yet returned. Returning
an address that is not out is an error, so a run that succeeds has freed nothing
twice. `Owns` says that exactly the given addresses are out: nothing a program
still points to was freed, and nothing it no longer points to was leaked.
-/

namespace Elkeid.Foundations

/-- How addresses are picked is open, and a request may be refused. -/
structure Allocator where
  pick : Nat → List Nat → Option Nat
  fresh : ∀ turn live address, pick turn live = some address → address ∉ live

def Allocator.Serves (allocator : Allocator) : Prop :=
  ∀ turn live, (allocator.pick turn live).isSome

structure Heap where
  turn : Nat
  live : List Nat
  deriving DecidableEq

namespace Heap

def alloc (allocator : Allocator) (heap : Heap) : Option Nat × Heap :=
  match allocator.pick heap.turn heap.live with
  | none => (none, ⟨heap.turn + 1, heap.live⟩)
  | some address => (some address, ⟨heap.turn + 1, address :: heap.live⟩)

def free (heap : Heap) (address : Nat) : Option Heap :=
  if address ∈ heap.live then some ⟨heap.turn, heap.live.erase address⟩ else none

def Owns (heap : Heap) (owned : List Nat) : Prop :=
  heap.live.Nodup ∧ heap.live.Perm owned

theorem owns_empty (turn : Nat) : Owns ⟨turn, []⟩ [] := ⟨List.nodup_nil, List.Perm.refl []⟩

variable {heap : Heap}

theorem Owns.perm {owned others : List Nat} (owns : heap.Owns owned)
    (same : owned.Perm others) : heap.Owns others := ⟨owns.1, owns.2.trans same⟩

theorem Owns.alloc {owned : List Nat} (owns : heap.Owns owned)
    {allocator : Allocator} (serves : allocator.Serves) :
    ∃ address next, heap.alloc allocator = (some address, next) ∧ next.Owns (address :: owned) := by
  obtain ⟨address, picked⟩ := Option.isSome_iff_exists.mp (serves heap.turn heap.live)
  refine ⟨address, ⟨heap.turn + 1, address :: heap.live⟩, ?_, ?_, owns.2.cons address⟩
  · rw [Heap.alloc, picked]
  · exact List.nodup_cons.mpr ⟨allocator.fresh _ _ _ picked, owns.1⟩

theorem Owns.free {address : Nat} {rest : List Nat} (owns : heap.Owns (address :: rest)) :
    ∃ next, heap.free address = some next ∧ next.Owns rest := by
  have out : address ∈ heap.live := owns.2.mem_iff.mpr List.mem_cons_self
  refine ⟨_, if_pos out, owns.1.erase address, ?_⟩
  exact List.Perm.cons_inv ((List.perm_cons_erase out).symm.trans owns.2)

end Heap

theorem le_foldr_max {live : List Nat} {address : Nat} (listed : address ∈ live) :
    address ≤ live.foldr max 0 := by
  induction live with
  | nil => cases listed
  | cons head tail ih =>
    rcases List.mem_cons.mp listed with rfl | inTail
    · exact le_max_left _ _
    · exact le_trans (ih inTail) (le_max_right _ _)

/-- Picks an address above all that are out. -/
def Allocator.rising : Allocator where
  pick _ live := some (live.foldr max 0 + 1)
  fresh _ live address picked := by
    cases picked
    intro listed
    exact absurd (le_foldr_max listed) (Nat.not_succ_le_self _)

theorem Allocator.rising_serves : Allocator.rising.Serves := fun _ _ => rfl

end Elkeid.Foundations
