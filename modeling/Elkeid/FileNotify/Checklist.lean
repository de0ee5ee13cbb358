import Elkeid.FileNotify.Safety
import Elkeid.Foundations.SearchTree

/-!
# The file-notify checklist

The tree of nodes by inode number and the operations on it: `add`, `del` and
delete-all change it, `file_notify_check` asks it. Each node is packed, and the
tree stands for one table per inode. Over a whole run the tables are what the
operations have added and not removed since.
-/

namespace Elkeid.FileNotify

open Foundations Machine Function

/-- `struct file_notify_node` without its links. -/
structure Slot where
  ino : Nat
  node : Node
  deriving DecidableEq

abbrev Checklist := SearchTree Slot

def fileNotifyNodeSize : Nat := 48

def fileNotifySearchRb (list : Checklist) (ino : Nat) : Option Slot := list.find Slot.ino ino

section Operations

variable (balancer : SearchTree.Balancer Slot.ino)

def fileNotifyInsertRb (list : Checklist) (slot : Slot) : Checklist :=
  balancer.recolor (list.link Slot.ino slot)

/-- `mask_insert` on a node in the tree; the flag says that memory did not run out. -/
def insertAt (grant : Nat → Bool) (list : Checklist) (slot : Slot) (item : MaskItem) :
    Except Fault (Checklist × Bool) := do
  let (rc, node) ← maskInsert grant slot.node item
  return (list.replace Slot.ino ⟨slot.ino, node⟩, decide (rc = 0))

/-- `add_file_notify_checklist`; the flag is not returned by the code, which ignores
a failed allocation. -/
def addFileNotifyChecklist (grant : Nat → Bool) (ino : Nat) (item : MaskItem) (list : Checklist) :
    Except Fault (Checklist × Bool) :=
  match fileNotifySearchRb list ino with
  | some slot => insertAt grant list slot item
  | none =>
    match kzalloc grant fileNotifyNodeSize, kzalloc grant fileNotifyChecklistLimit with
    | some _, some data =>
      insertAt grant (fileNotifyInsertRb balancer list ⟨ino, ⟨0, data⟩⟩) ⟨ino, ⟨0, data⟩⟩ item
    | _, _ => return (list, false)

def delFileNotifyChecklist (ino : Nat) (item : MaskItem) (list : Checklist) :
    Except Fault Checklist :=
  match fileNotifySearchRb list ino with
  | none => return list
  | some slot => do
      let (rc, node) ← maskRemove slot.node item
      if rc ≠ 0 ∨ node.used ≠ 0 then return list.replace Slot.ino ⟨ino, node⟩
      else return balancer.erase ino list

def fileNotifyCheck (ino : Nat) (item : MaskItem) (list : Checklist) : Except Fault Bool :=
  match fileNotifySearchRb list ino with
  | none => return false
  | some slot => do
      let (_, mi) ← maskLookup slot.node item false
      return mi.item.isSome

inductive Operation where
  | add (grant : Nat → Bool) (ino : Nat) (item : MaskItem)
  | del (ino : Nat) (item : MaskItem)
  | deleteAll

def Operation.run (list : Checklist) : Operation → Except Fault (Checklist × Bool)
  | add grant ino item => addFileNotifyChecklist balancer grant ino item list
  | del ino item => (delFileNotifyChecklist balancer ino item list).map (fun next => (next, true))
  | deleteAll => .ok (.leaf, true)

def Operation.step (list : Checklist) (operation : Operation) : Option (Checklist × Bool) :=
  (operation.run balancer list).toOption

def Operation.Meets (list : Checklist) : Operation → Prop
  | add grant ino item => ∀ slot, fileNotifySearchRb list ino = some slot →
      Roomy grant slot.node item
  | del _ _ => True
  | deleteAll => True

end Operations

abbrev Tables := Nat → Table

def Tables.empty : Tables := fun _ _ _ => 0

def Operation.apply (tables : Tables) : Operation → Tables
  | add _ ino item => update tables ino ((tables ino).add item)
  | del ino item => update tables ino ((tables ino).remove item)
  | deleteAll => Tables.empty

structure Represents (list : Checklist) (tables : Tables) : Prop where
  sorted : list.Sorted Slot.ino
  present : ∀ slot ∈ list.inorder, ∃ volumes, Packed slot.node volumes ∧
    maskOf volumes = tables slot.ino
  absent : ∀ ino, (∀ slot ∈ list.inorder, slot.ino ≠ ino) → tables ino = fun _ _ => 0

theorem represents_empty : Represents .leaf Tables.empty :=
  ⟨List.Pairwise.nil, fun _ listed => absurd listed List.not_mem_nil, fun _ _ => rfl⟩

section Steps

variable (balancer : SearchTree.Balancer Slot.ino) {list : Checklist} {tables : Tables}
  {slot : Slot} {ino : Nat} {data : Bytes} {grant : Nat → Bool} {item : MaskItem}

section

variable (represents : Represents list tables)
include represents

theorem Represents.replace {node : Node} {volumes : List Volume} {table : Table}
    (listed : slot ∈ list.inorder) (packed : Packed node volumes)
    (stands : maskOf volumes = table) :
    Represents (list.replace Slot.ino ⟨slot.ino, node⟩) (update tables slot.ino table) := by
  refine ⟨SearchTree.sorted_replace represents.sorted, ?_, ?_⟩
  · intro other otherListed
    rcases SearchTree.mem_replace represents.sorted otherListed with rfl | ⟨old, distinct⟩
    · refine ⟨volumes, packed, ?_⟩
      rw [stands, update_self]
    · rw [update_of_ne distinct]
      exact represents.present other old
  · intro ino missing
    have distinct : ino ≠ slot.ino := by
      rintro rfl
      have kept := SearchTree.mem_replace_of_mem represents.sorted ⟨slot.ino, node⟩ listed
      rw [if_pos rfl] at kept
      exact missing _ kept rfl
    rw [update_of_ne distinct]
    apply represents.absent
    intro other otherListed same
    have kept := SearchTree.mem_replace_of_mem represents.sorted ⟨slot.ino, node⟩ otherListed
    rw [if_neg (by rw [same]; exact distinct)] at kept
    exact missing _ kept same

theorem Represents.insert (missing : ∀ slot ∈ list.inorder, slot.ino ≠ ino)
    (bounded : data.length ≤ kmallocMaxSize) :
    Represents (fileNotifyInsertRb balancer list ⟨ino, ⟨0, data⟩⟩) tables ∧
      (⟨ino, ⟨0, data⟩⟩ : Slot) ∈ (fileNotifyInsertRb balancer list ⟨ino, ⟨0, data⟩⟩).inorder := by
  have linked (other : Slot) : other ∈ (fileNotifyInsertRb balancer list ⟨ino, ⟨0, data⟩⟩).inorder ↔
        other = ⟨ino, ⟨0, data⟩⟩ ∨ other ∈ list.inorder := by
    rw [fileNotifyInsertRb, balancer.inorder_recolor]
    exact SearchTree.mem_link missing other
  refine ⟨⟨?_, ?_, ?_⟩, (linked _).mpr (.inl rfl)⟩
  · exact balancer.sorted_recolor (SearchTree.sorted_link represents.sorted missing)
  · intro other listed
    rcases (linked other).mp listed with rfl | old
    · refine ⟨[], ⟨⟨data, rfl⟩, rfl, bounded, List.nodup_nil⟩, ?_⟩
      rw [represents.absent ino missing]
      rfl
    · exact represents.present other old
  · intro other missingOther
    apply represents.absent
    intro slot listed
    exact missingOther slot ((linked slot).mpr (.inr listed))

theorem Represents.search (found : fileNotifySearchRb list ino = some slot) :
    slot ∈ list.inorder ∧ slot.ino = ino :=
  (SearchTree.find_eq_some_iff represents.sorted).mp found

theorem Represents.search_none (missing : fileNotifySearchRb list ino = none) :
    ∀ slot ∈ list.inorder, slot.ino ≠ ino :=
  (SearchTree.find_eq_none_iff represents.sorted).mp missing

theorem insertAt_spec (listed : slot ∈ list.inorder) (roomy : Roomy grant slot.node item) :
    ∃ next served, insertAt grant list slot item = .ok (next, served) ∧ Represents next
      (if served then update tables slot.ino ((tables slot.ino).add item)
      else tables) := by
  obtain ⟨volumes, packed, stands⟩ := represents.present slot listed
  obtain ⟨⟨rc, node⟩, inserted, changed, changedPacked, added | refused⟩ :=
    (maskInsert_spec packed grant item).1 roomy
  · obtain ⟨zero, table⟩ := added
    refine ⟨list.replace Slot.ino ⟨slot.ino, node⟩, true, ?_, ?_⟩
    · simp only at zero
      simp [insertAt, inserted, zero]
    · rw [if_pos rfl, ← stands]
      exact represents.replace listed changedPacked table
  · obtain ⟨failed, table⟩ := refused
    refine ⟨list.replace Slot.ino ⟨slot.ino, node⟩, false, ?_, ?_⟩
    · simp only at failed
      simp only [insertAt, inserted, failed, ok_bind, pure_eq_ok, enomem]
      rfl
    · have unchanged := represents.replace listed changedPacked (table.trans stands)
      rw [update_eq_self] at unchanged
      exact unchanged

end

theorem roomy_fresh (bounded : data.length ≤ kmallocMaxSize) : Roomy grant ⟨0, data⟩ item := by
  rintro ⟨tag, found⟩
  have packed : Packed ⟨0, data⟩ [] := EmptyNode.packed ⟨data, bounded⟩
  rw [packed.lookup_nil item true] at found
  cases found

theorem kzalloc_length {size : Nat}
    (allocated : kzalloc grant size = some data) : data.length ≤ kmallocMaxSize := by
  unfold kzalloc at allocated
  split at allocated <;> cases allocated
  next granted =>
    rw [List.length_replicate]
    exact granted.1

section

variable (represents : Represents list tables)
include represents

theorem add_spec (meets : (Operation.add grant ino item).Meets list) :
    ∃ next served, addFileNotifyChecklist balancer grant ino item list = .ok (next, served) ∧
      Represents next (if served then (Operation.add grant ino item).apply tables
        else tables) := by
  cases found : fileNotifySearchRb list ino with
  | some slot =>
    obtain ⟨listed, rfl⟩ := represents.search found
    rw [addFileNotifyChecklist, found]
    exact insertAt_spec represents listed (meets slot found)
  | none =>
    rw [addFileNotifyChecklist, found]
    have missing := represents.search_none found
    cases header : kzalloc grant fileNotifyNodeSize with
    | none => exact ⟨list, false, rfl, represents⟩
    | some links =>
      cases buffer : kzalloc grant fileNotifyChecklistLimit with
      | none => exact ⟨list, false, rfl, represents⟩
      | some data =>
        obtain ⟨inserted, listed⟩ :=
          represents.insert balancer missing (kzalloc_length buffer)
        exact insertAt_spec inserted listed (roomy_fresh (kzalloc_length buffer))

theorem del_spec (ino : Nat) (item : MaskItem) :
    ∃ next, delFileNotifyChecklist balancer ino item list = .ok next ∧
      Represents next ((Operation.del ino item).apply tables) := by
  cases found : fileNotifySearchRb list ino with
  | none =>
    have noTable := represents.absent ino (represents.search_none found)
    have unchanged : (Operation.del ino item).apply tables = tables := by
      rw [Operation.apply, remove_absent (by rw [noTable]), update_eq_self]
    refine ⟨list, ?_, ?_⟩
    · rw [delFileNotifyChecklist, found]
      rfl
    · rw [unchanged]
      exact represents
  | some slot =>
    obtain ⟨listed, rfl⟩ := represents.search found
    obtain ⟨volumes, packed, stands⟩ := represents.present slot listed
    obtain ⟨rc, node, changed, removed, changedPacked, table, _⟩ := maskRemove_spec packed item
    rw [stands] at table
    by_cases kept : rc ≠ 0 ∨ node.used ≠ 0
    · refine ⟨list.replace Slot.ino ⟨slot.ino, node⟩, ?_, ?_⟩
      · simp [delFileNotifyChecklist, found, removed, if_pos kept]
      · exact represents.replace listed changedPacked table
    · refine ⟨balancer.erase slot.ino list, ?_, ?_⟩
      · simp [delFileNotifyChecklist, found, removed, if_neg kept]
      · have unused : node.used = 0 := by
          by_contra used
          exact kept (.inr used)
        have nothing : changed = [] := by
          have counted := length_le_encode changed
          rw [← changedPacked.used_eq, unused] at counted
          exact List.eq_nil_of_length_eq_zero (Nat.le_zero.mp counted)
        rw [Operation.apply, ← table, nothing]
        refine ⟨balancer.sorted_erase represents.sorted slot.ino, ?_, ?_⟩
        · intro other otherListed
          obtain ⟨old, distinct⟩ := (balancer.mem_erase represents.sorted).mp otherListed
          rw [update_of_ne distinct]
          exact represents.present other old
        · intro ino missing
          by_cases same : ino = slot.ino
          · rw [same, update_self]
            rfl
          · rw [update_of_ne same]
            apply represents.absent
            intro other otherListed isIno
            apply missing other _ isIno
            apply (balancer.mem_erase represents.sorted).mpr
            exact ⟨otherListed, by rw [isIno]; exact same⟩

theorem Operation.run_spec {operation : Operation} (meets : operation.Meets list) :
    ∃ next served, operation.run balancer list = .ok (next, served) ∧
      Represents next (if served then operation.apply tables else tables) := by
  cases operation with
  | add grant ino item => exact add_spec balancer represents meets
  | del ino item =>
    obtain ⟨next, deleted, result⟩ := del_spec balancer represents ino item
    refine ⟨next, true, ?_, result⟩
    rw [Operation.run, deleted]
    rfl
  | deleteAll => exact ⟨.leaf, true, rfl, represents_empty⟩

theorem run_represents {operations : List Operation} {past : List Bool}
    (meets : AllMeet (Operation.step balancer)
    (fun _ list operation => operation.Meets list) past list operations) :
    ∃ last served final, run (Operation.step balancer) list operations = some (last, served) ∧
      Represents last final ∧ ((∀ flag ∈ served, flag = true) →
        final = operations.foldl (fun tables operation => operation.apply tables) tables) := by
  induction operations generalizing list tables past with
  | nil => exact ⟨list, [], tables, rfl, represents, fun _ => rfl⟩
  | cons operation rest ih =>
    obtain ⟨meetsFirst, meetsRest⟩ := meets
    obtain ⟨next, served, ran, nextRepresents⟩ :=
      Operation.run_spec balancer represents meetsFirst
    have taken : operation.step balancer list = some (next, served) := by
      rw [Operation.step, ran]
      rfl
    simp only [taken] at meetsRest
    obtain ⟨last, flags, final, ranRest, lastRepresents, table⟩ := ih nextRepresents meetsRest
    refine ⟨last, served :: flags, final, ?_, lastRepresents, ?_⟩
    · rw [run_cons taken, ranRest]
      rfl
    · intro allServed
      obtain ⟨isServed, restServed⟩ := List.forall_mem_cons.mp allServed
      rw [table restServed, isServed]
      rfl

end

end Steps

end Elkeid.FileNotify
