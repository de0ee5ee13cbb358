import Elkeid.FileNotify.Remove
import Elkeid.Foundations.Machine

/-!
# Memory safety of the mask store

Runs of `mask_insert`, `mask_remove` and `mask_lookup` on one node, from an empty
node with a buffer of any size. Every call keeps the node packed; the only access
that can leave the buffer is the move of an insertion that is not roomy.
-/

namespace Elkeid.FileNotify

open Foundations Machine

inductive Call where
  | insert (grant : Nat → Bool) (item : MaskItem)
  | remove (item : MaskItem)
  | lookup (item : MaskItem)

def Call.run (node : Node) : Call → Except Fault Node
  | insert grant item => (maskInsert grant node item).map Prod.snd
  | remove item => (maskRemove node item).map Prod.snd
  | lookup item => (maskLookup node item false).map Prod.fst

/-- A call that faults is the last one. -/
def Call.step (node : Node) (call : Call) : Option (Node × Unit) :=
  (call.run node).toOption.map fun next => (next, ())

/-- An empty node; its buffer came from `kmalloc`. -/
structure EmptyNode where
  data : Bytes
  bounded : data.length ≤ kmallocMaxSize

def EmptyNode.node (empty : EmptyNode) : Node := ⟨0, empty.data⟩

theorem EmptyNode.packed (empty : EmptyNode) : Packed empty.node [] :=
  ⟨⟨empty.data, rfl⟩, rfl, empty.bounded, List.nodup_nil⟩

def Call.Meets (node : Node) : Call → Prop
  | insert grant item => Roomy grant node item
  | remove _ => True
  | lookup _ => True

/-- The masks of a call have bits. -/
def Call.Masked : Call → Prop
  | insert _ item => item.mask ≠ 0
  | remove item => item.mask ≠ 0
  | lookup _ => True

theorem Call.run_spec {node : Node} {volumes : List Volume} (packed : Packed node volumes)
    (call : Call) :
    (call.Meets node → ∃ next changed, call.run node = .ok next ∧ Packed next changed ∧
      (call.Masked → FileNotify.Masked volumes → FileNotify.Masked changed)) ∧
    (¬ call.Meets node → call.run node = .error .outOfBounds) := by
  cases call with
  | insert grant item =>
    have spec := maskInsert_into packed grant item
    constructor
    · intro meets
      obtain ⟨outcome, inserted, changed, result, keeps, _⟩ := spec.1 meets
      refine ⟨outcome.2, changed, ?_, result, keeps⟩
      rw [Call.run, inserted]
      rfl
    · intro fails
      rw [Call.run, spec.2 fails]
      rfl
  | remove item =>
    obtain ⟨rc, result, changed, removed, packedResult, _, keeps⟩ := maskRemove_spec packed item
    refine ⟨fun _ => ⟨result, changed, ?_, packedResult, fun _ => keeps⟩, (absurd trivial ·)⟩
    rw [Call.run, removed]
    rfl
  | lookup item =>
    obtain ⟨mi, found, _⟩ := maskLookup_spec packed item
    refine ⟨fun _ => ⟨node, volumes, ?_, packed, fun _ => id⟩, (absurd trivial ·)⟩
    rw [Call.run, found]
    rfl

theorem toOption_eq_some {Value : Type} {result : Except Fault Value} {value : Value}
    (returned : result.toOption = some value) : result = .ok value := by
  cases result with
  | error fault => cases returned
  | ok other =>
    cases returned
    rfl

theorem Call.meets_of_step {node next : Node} {volumes : List Volume} {call : Call} {output : Unit}
    (packed : Packed node volumes) (stepped : Call.step node call = some (next, output)) :
    call.Meets node ∧ ∃ changed, Packed next changed := by
  obtain ⟨_, returned, ⟨⟩⟩ := Option.map_eq_some_iff.mp stepped
  have ran := toOption_eq_some returned
  by_cases meets : call.Meets node
  · obtain ⟨other, changed, again, result, _⟩ := (call.run_spec packed).1 meets
    cases ran.symm.trans again
    exact ⟨meets, changed, result⟩
  · cases ran.symm.trans ((call.run_spec packed).2 meets)

/-- A run makes no access outside the buffer exactly when each insertion of a new
name into a volume that is there leaves `somask` bytes free. -/
theorem inBounds_iff_allMeet (empty : EmptyNode) (calls : List Call) :
    AllMeet Call.step (fun _ node call => call.run node ≠ .error .outOfBounds) [] empty.node calls ↔
      AllMeet Call.step (fun _ node call => call.Meets node) [] empty.node calls := by
  refine allMeet_congr (fun node => ∃ volumes, Packed node volumes) ?_ ?_ ⟨[], empty.packed⟩
  · rintro node call next output ⟨volumes, packed⟩ stepped
    exact (Call.meets_of_step packed stepped).2
  · rintro _ node call ⟨volumes, packed⟩
    constructor
    · intro inBounds
      by_contra fails
      exact inBounds ((call.run_spec packed).2 fails)
    · intro meets outside
      obtain ⟨next, changed, ran, _⟩ := (call.run_spec packed).1 meets
      cases ran.symm.trans outside

def plainItem (byte : UInt8) (nonzero : byte ≠ 0) (count : Nat) : MaskItem where
  uuid := ⟨List.replicate 16 1, rfl⟩
  name := ⟨List.replicate count byte, fun listed => nonzero (List.eq_of_mem_replicate listed).symm⟩
  mask := 1

/-- Two names for one volume in the buffer of 512 bytes that
`add_file_notify_checklist` starts with: 332 bytes are used when 176 more are
inserted, and the move ends at byte 532. -/
theorem secondName_outOfBounds :
    (Call.run ⟨0, List.replicate fileNotifyChecklistLimit 0⟩
        (.insert (fun _ => true) (plainItem 97 (by decide) 300))).bind
      (Call.run · (.insert (fun _ => true) (plainItem 98 (by decide) 170))) =
        .error .outOfBounds := by
  decide +kernel

end Elkeid.FileNotify
