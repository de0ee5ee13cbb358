import Elkeid.FileNotify.Safety

/-!
# The packed policy

What the bytes of a node look like in every state of a run, in the terms of the layout: tags,
size fields, alignment, distinct uuids and names, masks with bits. A node of this form passes
`_mask_assert`, the loops of a lookup end on it, and an insertion without memory leaves its
bytes alone. The calls keep the form as long as the insertions are roomy.
-/

namespace Elkeid.FileNotify

open Foundations LittleEndian Machine List

/-- A volume as its bytes should be: the tag, a size field that says how long it is, and
entries with distinct names and bits in their masks. -/
structure Volume.WellFormed (volume : Volume) : Prop where
  tag : volume.bytes.take sotag = sttag
  size : value ((volume.bytes.drop sosize).take 4) = volume.bytes.length
  aligned : 4 ∣ volume.bytes.length
  someEntry : volume.entries ≠ []
  names : (volume.entries.map Entry.name).Nodup
  masks : ∀ entry ∈ volume.entries, entry.mask ≠ 0

/-- The used bytes are the given volumes, one behind the other. -/
structure PolicyOf (node : Node) (volumes : List Volume) : Prop where
  contents : node.data.take node.used = encode volumes
  inside : node.used ≤ node.size
  wellFormed : ∀ volume ∈ volumes, volume.WellFormed
  uuids : (volumes.map Volume.uuid).Nodup

/-- A state of the store as it should be: packed, never wiped or searched for ever, and
unchanged by an insertion whose allocation fails. -/
structure SoundPolicy (node : Node) : Prop where
  packed : ∃ volumes, PolicyOf node volumes
  lookup : ∀ item nameonly, ∃ mi, maskLookup node item nameonly = .ok (node, mi)
  refused : ∀ grant item next, maskInsert grant node item = .ok (enomem, next) →
    next.used = node.used ∧ next.data.take next.used = node.data.take node.used

theorem extent_aligned (entry : Entry) : 4 ∣ entry.extent := by
  rw [Entry.extent, align4]
  exact Nat.dvd_mul_left _ _

theorem entriesBytes_aligned (entries : List Entry) : 4 ∣ (entriesBytes entries).length := by
  induction entries with
  | nil => exact Nat.dvd_zero 4
  | cons entry rest ih =>
    rw [entriesBytes_cons, length_append, Entry.length_bytes]
    exact Nat.dvd_add (extent_aligned entry) ih

theorem Volume.wellFormed {volume : Volume} (small : volume.size < 2 ^ 32)
    (masks : ∀ entry ∈ volume.entries, entry.mask ≠ 0) : volume.WellFormed where
  tag := by
    rw [Volume.bytes, Volume.header, append_assoc, append_assoc]
    exact take_left' rfl
  size := by
    have sizeField : (volume.bytes.drop sosize).take 4 = word volume.size := by
      have tagLength : sttag.length = sosize := rfl
      rw [Volume.bytes, Volume.header, append_assoc, append_assoc, drop_left' tagLength]
      exact take_left' rfl
    rw [sizeField, value_word small, Volume.length_bytes]
  aligned := by
    rw [Volume.length_bytes, Volume.size]
    exact Nat.dvd_add (by decide) (entriesBytes_aligned volume.entries)
  someEntry := volume.nonempty
  names := volume.distinct
  masks := masks

variable {node : Node} {volumes : List Volume}

section

variable (packed : Packed node volumes)
include packed

theorem Packed.take_used : node.data.take node.used = encode volumes := by
  obtain ⟨slack, layout⟩ := packed.contents
  rw [layout, packed.used_eq]
  exact take_left

theorem Packed.size_lt {volume : Volume} (listed : volume ∈ volumes) : volume.size < 2 ^ 32 := by
  obtain ⟨before, later, rfl⟩ := append_of_mem listed
  have small := packed.used_lt
  have used := packed.used_eq
  rw [encode_append, encode_cons, length_append, length_append, Volume.length_bytes] at used
  omega

theorem Packed.policy (masked : Masked volumes) : PolicyOf node volumes where
  contents := packed.take_used
  inside := packed.used_le
  wellFormed volume listed := Volume.wellFormed (packed.size_lt listed) (masked volume listed)
  uuids := packed.distinct

theorem Packed.lookup_ok
    (item : MaskItem) (nameonly : Bool) : ∃ mi, maskLookup node item nameonly = .ok (node, mi) := by
  rcases first_split (fun volume : Volume => volume.uuid = item.uuid) volumes with
    ⟨before, volume, later, rfl, _, isVolume⟩ | absent
  · rcases first_split (Hits item nameonly) volume.entries with
      ⟨skipped, entry, rest, entries, misses, hits⟩ | misses
    · exact ⟨_, packed.lookup_hit isVolume entries misses hits⟩
    · exact ⟨_, packed.lookup_miss isVolume misses⟩
  · obtain ⟨tag, ret, _, missed⟩ := packed.lookup_none absent nameonly
    exact ⟨_, missed⟩

theorem Packed.refused {next : Node} {grant : Nat → Bool} {item : MaskItem}
    (inserted : maskInsert grant node item = .ok (enomem, next)) :
    next.used = node.used ∧ next.data.take next.used = node.data.take node.used := by
  by_cases roomy : Roomy grant node item
  · obtain ⟨outcome, isOutcome, changed, changedPacked, _, added | ⟨_, rfl⟩⟩ :=
      (maskInsert_into packed grant item).1 roomy
    · rw [inserted] at isOutcome
      cases isOutcome
      cases added.1
    · rw [inserted] at isOutcome
      cases isOutcome
      rw [changedPacked.take_used, packed.take_used, changedPacked.used_eq, packed.used_eq]
      exact ⟨rfl, rfl⟩
  · rw [(maskInsert_into packed grant item).2 roomy] at inserted
    cases inserted

theorem Packed.sound (masked : Masked volumes) : SoundPolicy node where
  packed := ⟨volumes, packed.policy masked⟩
  lookup := packed.lookup_ok
  refused _ _ _ := packed.refused

end

/-- Every state of a run is as it should be exactly when the insertions are roomy. -/
theorem soundPolicy_iff_allMeet (empty : EmptyNode) (calls : List Call)
    (hasBits : ∀ call ∈ calls, call.Masked) :
    Succeeds Call.step (fun _ node => SoundPolicy node) [] empty.node calls ↔
      AllMeet Call.step (fun _ node call => call.Meets node) [] empty.node calls := by
  constructor
  · refine Succeeds.allMeet (fun _ node => ∃ volumes, Packed node volumes) ?_ ⟨[], empty.packed⟩
    rintro _ node call next output ⟨volumes, packed⟩ stepped _
    exact Call.meets_of_step packed stepped
  · refine AllMeet.succeeds (fun _ node => ∃ volumes, Packed node volumes ∧ Masked volumes) ?_ ?_
      ⟨[], empty.packed, forall_mem_nil _⟩
    · rintro _ node call listed ⟨volumes, packed, masked⟩ meets
      obtain ⟨next, changed, ran, nextPacked, keeps⟩ := (call.run_spec packed).1 meets
      refine ⟨next, (), ?_, changed, nextPacked, keeps (hasBits call listed) masked⟩
      rw [Call.step, ran]
      rfl
    · rintro _ node ⟨volumes, packed, masked⟩
      exact packed.sound masked

def insertRemove : List Call :=
  [.insert (fun _ => true) (plainItem 97 (by decide) 3), .remove (plainItem 97 (by decide) 3)]

theorem soundPolicy_insertRemove :
    Succeeds Call.step (fun _ node => SoundPolicy node) [] ⟨0, []⟩ insertRemove := by
  refine (soundPolicy_iff_allMeet ⟨[], Nat.zero_le _⟩ insertRemove ?_).mpr ⟨?_, ?_⟩
  · have bits : (plainItem 97 (by decide) 3).mask ≠ 0 := by decide
    exact forall_mem_cons.mpr ⟨bits, forall_mem_singleton.mpr bits⟩
  · rintro ⟨tag, found⟩
    cases found
  · split
    next => trivial
    next => exact ⟨trivial, by split <;> trivial⟩

/-- Two names of one volume in a buffer of 512 bytes: 132 bytes are used when 368 more are
inserted, and the move of 132 bytes ends at byte 524. -/
theorem policy_overrun : ¬ Succeeds Call.step (fun _ node => SoundPolicy node) []
    ⟨0, replicate fileNotifyChecklistLimit 0⟩
    [.insert (fun _ => true) (plainItem 97 (by decide) 100),
      .insert (fun _ => true) (plainItem 98 (by decide) 360)] := by
  intro succeeds
  obtain ⟨last, outputs, ran, _⟩ := succeeds.run
  have overruns : run Call.step ⟨0, replicate fileNotifyChecklistLimit 0⟩
      [.insert (fun _ => true) (plainItem 97 (by decide) 100),
        .insert (fun _ => true) (plainItem 98 (by decide) 360)] = none := by
    decide +kernel
  cases overruns.symm.trans ran

end Elkeid.FileNotify
