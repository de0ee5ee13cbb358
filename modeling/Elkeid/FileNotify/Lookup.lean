import Elkeid.FileNotify.Packed

/-!
# Lookup on a packed node

What `_mask_lookup` answers on a packed node, by cases: no volume at all, no
volume of the uuid, and a volume of the uuid with or without an entry that hits.
In all of them the node stays as it is.
-/

namespace Elkeid.FileNotify

open Foundations List

theorem length_le_encode (volumes : List Volume) : volumes.length ≤ (encode volumes).length := by
  induction volumes with
  | nil => exact le_refl 0
  | cons head tail ih =>
    have roomy := head.size_ge
    rw [encode_cons, length_append, Volume.length_bytes, length_cons]
    omega

theorem length_le_entriesBytes (entries : List Entry) :
    entries.length ≤ (entriesBytes entries).length := by
  induction entries with
  | nil => exact le_refl 0
  | cons head tail ih =>
    have roomy := head.extent_ge
    rw [entriesBytes_cons, length_append, Entry.length_bytes, length_cons]
    omega

namespace Packed

variable {node : Node} {item : MaskItem} {nameonly : Bool} {volumes before later : List Volume}
  {volume : Volume}

theorem used_le (packed : Packed node volumes) : node.used ≤ node.data.length := by
  obtain ⟨slack, layout⟩ := packed.contents
  rw [packed.used_eq, layout, length_append]
  exact Nat.le_add_right _ _

theorem used_lt (packed : Packed node volumes) : node.used < 2 ^ 32 := by
  have inside := packed.used_le
  have bounded := packed.bounded
  unfold kmallocMaxSize at bounded
  omega

theorem lookup_nil (packed : Packed node []) (item : MaskItem) (nameonly : Bool) :
    maskLookup node item nameonly = .ok (node, ⟨none, none, -1⟩) := by
  have unused : node.used ≤ soname := by
    rw [packed.used_eq]
    exact Nat.zero_le _
  rw [maskLookup, if_pos (Or.inr unused)]
  rfl

theorem lookup_eq (packed : Packed node volumes) (nonempty : volumes ≠ []) :
    maskLookup node item nameonly = (do
      let scan ← scanVolumes node item.uuid (node.used + 1) 0 ⟨none, none, 0⟩
      match scan.found with
      | none => return (node, ⟨scan.tag, none, scan.ret⟩)
      | some (t, len) =>
        let found ← scanEntries node item nameonly t len (len + 1) somask
        return (node, ⟨scan.tag, found, scan.ret⟩)) := by
  obtain ⟨slack, layout⟩ := packed.contents
  cases volumes with
  | nil => exact absurd rfl nonempty
  | cons head tail =>
    have roomy := head.size_ge
    have used_eq := packed.used_eq
    have small := packed.used_lt
    rw [encode_cons, length_append, Volume.length_bytes] at used_eq
    have first : node.data = [] ++ head.bytes ++ (encode tail ++ slack) := by
      rw [layout]
      simp
    obtain ⟨tag, size, _⟩ := header_reads first (by omega)
    have inUse : ¬ (node.data = [] ∨ node.used ≤ soname) := by
      rintro (noData | unused)
      · have inside := packed.used_le
        rw [noData, length_nil] at inside
        omega
      · unfold soname at unused
        omega
    have asserted : maskAssert node = .ok false := by
      simp only [length_nil] at tag size
      simp only [maskAssert, tag, size, ok_bind, pure_eq_ok, ne_eq,
        not_true_eq_false, if_false]
      rw [decide_eq_false]
      omega
    rw [maskLookup, if_neg inUse, asserted]
    rfl

theorem lookup_absent {init : List Volume} {last : Volume} (packed : Packed node (init ++ [last]))
    (others : ∀ volume ∈ init ++ [last], volume.uuid ≠ item.uuid) (nameonly : Bool) :
    ∃ ret : Int, ret ≠ 0 ∧ maskLookup node item nameonly =
      .ok (node, ⟨some (encode init).length, none, ret⟩) := by
  obtain ⟨slack, layout⟩ := packed.contents
  have enough : init.length < node.used + 1 := by
    have counted := length_le_encode (init ++ [last])
    rw [← packed.used_eq, length_append] at counted
    omega
  obtain ⟨ret, nonzero, scanned⟩ :=
    scanVolumes_absent layout packed.used_eq packed.used_lt others enough
  refine ⟨ret, nonzero, ?_⟩
  rw [packed.lookup_eq (by simp), scanned]
  rfl

theorem lookup_none (packed : Packed node volumes)
    (others : ∀ volume ∈ volumes, volume.uuid ≠ item.uuid) (nameonly : Bool) :
    ∃ tag ret, ret ≠ 0 ∧ maskLookup node item nameonly = .ok (node, ⟨tag, none, ret⟩) := by
  rcases eq_nil_or_concat volumes with rfl | ⟨init, last, rfl⟩
  · exact ⟨none, -1, by decide, packed.lookup_nil item nameonly⟩
  · rw [concat_eq_append] at packed others
    obtain ⟨ret, nonzero, missed⟩ := packed.lookup_absent others nameonly
    exact ⟨_, ret, nonzero, missed⟩

theorem not_mem_before (packed : Packed node (before ++ volume :: later)) :
    ∀ other ∈ before, other.uuid ≠ volume.uuid := by
  intro other listed
  exact (nodup_map_split.mp packed.distinct).1 other (mem_append_left _ listed)

theorem lookup_volume
    (packed : Packed node (before ++ volume :: later)) (isVolume : volume.uuid = item.uuid) :
    maskLookup node item nameonly = (do
      let found ← scanEntries node item nameonly (encode before).length volume.size
        (volume.size + 1) somask
      return (node, ⟨some (encode before).length, found, 0⟩)) := by
  obtain ⟨slack, layout⟩ := packed.contents
  have others : ∀ other ∈ before, other.uuid ≠ item.uuid := by
    rw [← isVolume]
    exact packed.not_mem_before
  have enough : before.length < node.used + 1 := by
    have counted := length_le_encode (before ++ volume :: later)
    rw [← packed.used_eq, length_append] at counted
    omega
  rw [packed.lookup_eq (by simp),
    scanVolumes_found layout packed.used_eq packed.used_lt others isVolume enough]
  rfl

theorem volume_layout {slack : Bytes}
    (layout : node.data = encode (before ++ volume :: later) ++ slack) :
    node.data = (encode before ++ volume.header) ++ entriesBytes volume.entries ++
      (encode later ++ slack) := by
  rw [layout]
  simp [Volume.bytes]

theorem lookup_hit {skipped rest : List Entry}
    {entry : Entry} (packed : Packed node (before ++ volume :: later))
    (isVolume : volume.uuid = item.uuid) (entries : volume.entries = skipped ++ entry :: rest)
    (misses : ∀ other ∈ skipped, ¬ Hits item nameonly other) (hits : Hits item nameonly entry) :
    maskLookup node item nameonly = .ok (node, ⟨some (encode before).length,
      some ((encode before).length + somask + (entriesBytes skipped).length), 0⟩) := by
  obtain ⟨slack, layout⟩ := packed.contents
  have inVolume := volume_layout layout
  have size : volume.size = somask + (entriesBytes volume.entries).length := rfl
  have enough : skipped.length < volume.size + 1 := by
    have counted := length_le_entriesBytes volume.entries
    rw [entries, length_append] at counted
    rw [size, entries]
    omega
  rw [entries] at inVolume size
  have position : (encode before).length + somask = (encode before ++ volume.header).length := by
    rw [length_append, Volume.length_header]
  rw [packed.lookup_volume isVolume,
    scanEntries_found inVolume size position misses hits enough, ← position]
  rfl

theorem lookup_miss
    (packed : Packed node (before ++ volume :: later)) (isVolume : volume.uuid = item.uuid)
    (misses : ∀ entry ∈ volume.entries, ¬ Hits item nameonly entry) :
    maskLookup node item nameonly = .ok (node, ⟨some (encode before).length, none, 0⟩) := by
  obtain ⟨slack, layout⟩ := packed.contents
  have inVolume := volume_layout layout
  have enough : volume.entries.length ≤ volume.size + 1 := by
    have counted := length_le_entriesBytes volume.entries
    rw [Volume.size]
    omega
  have position : (encode before).length + somask = (encode before ++ volume.header).length := by
    rw [length_append, Volume.length_header]
  have size : volume.size = somask + (entriesBytes volume.entries).length := rfl
  rw [packed.lookup_volume isVolume,
    scanEntries_absent inVolume size position misses volume.nonempty enough]
  rfl

end Packed

end Elkeid.FileNotify
