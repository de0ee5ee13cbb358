import Elkeid.FileNotify.Lookup
import Elkeid.FileNotify.Table

/-!
# Insertion into a packed node

What the branches of `_mask_insert` do to a packed node. Adding a name to a
volume that is there moves `somask` bytes more than the names behind it, so it
leaves the buffer when fewer than `somask` bytes stay free after the insertion.
-/

namespace Elkeid.FileNotify

open Foundations LittleEndian List Volume

def MaskItem.entry (item : MaskItem) : Entry := ⟨item.name, item.mask⟩

theorem entryLen_eq (item : MaskItem) : entryLen item = item.entry.extent := rfl

variable {hole before after : Bytes} {count : Nat} {skipped rest : List Entry} {entry : Entry}

theorem exists_blocks {first second : Nat} (extent : hole.length = first + second) :
    ∃ front back, hole = front ++ back ∧ front.length = first ∧ back.length = second := by
  refine ⟨hole.take first, hole.drop first, (take_append_drop first hole).symm, ?_, ?_⟩
  · rw [length_take]
    omega
  · rw [length_drop]
    omega

theorem memset_block {old : Bytes} {offset : Nat}
    (position : offset = before.length) (extent : count = old.length) :
    memset (before ++ old ++ after) offset count =
      .ok (before ++ replicate count 0 ++ after) := by
  rw [memset, Buffer.fill, Buffer.write_block position (by rw [length_replicate, extent])]
  rfl

theorem putEntry_eq {item : MaskItem} {offset padding : Nat}
    (position : offset = before.length) (extent : hole.length = item.entry.extent)
    (padded : padding = item.entry.extent - item.name.bytes.length - 4) :
    putEntry (before ++ hole ++ after) offset item padding =
      .ok (before ++ item.entry.bytes ++ after) := by
  have roomy := item.entry.extent_ge
  have nameEq : item.entry.name = item.name := rfl
  rw [nameEq] at roomy
  obtain ⟨mask, rest, rfl, maskLength, restLength⟩ :=
    exists_blocks (show hole.length = 4 + (item.name.bytes.length + padding) by omega)
  obtain ⟨name, zeros, rfl, nameLength, zerosLength⟩ := exists_blocks restLength
  have first : saveMask (before ++ (mask ++ (name ++ zeros)) ++ after) offset item.mask =
      .ok (before ++ word item.mask.toNat ++ (name ++ zeros ++ after)) := by
    rw [saveMask, show before ++ (mask ++ (name ++ zeros)) ++ after =
      before ++ mask ++ (name ++ zeros ++ after) by simp]
    exact save_block position maskLength.symm
  have second : save (before ++ word item.mask.toNat ++ (name ++ zeros ++ after))
      (offset + 4) item.name.bytes = .ok (before ++ word item.mask.toNat ++
        item.name.bytes ++ (zeros ++ after)) := by
    rw [show before ++ word item.mask.toNat ++ (name ++ zeros ++ after) =
      before ++ word item.mask.toNat ++ name ++ (zeros ++ after) by simp]
    apply save_block
    · rw [length_append, length_word, position]
    · exact nameLength.symm
  have third : memset (before ++ word item.mask.toNat ++ item.name.bytes ++
      (zeros ++ after)) (offset + 4 + item.name.bytes.length) padding =
        .ok (before ++ item.entry.bytes ++ after) := by
    rw [show before ++ word item.mask.toNat ++ item.name.bytes ++ (zeros ++ after) =
      before ++ word item.mask.toNat ++ item.name.bytes ++ zeros ++ after by simp,
      memset_block _ zerosLength.symm]
    · rw [padded]
      simp [Entry.bytes, MaskItem.entry]
    · simp only [length_append, length_word, position]
  simp only [putEntry, first, second, ok_bind]
  exact third

def freshVolume (item : MaskItem) : Volume where
  uuid := item.uuid
  entries := [item.entry]
  nonempty := cons_ne_nil _ _
  distinct := by simp

theorem freshVolume_size (item : MaskItem) : (freshVolume item).size = somask + entryLen item := by
  simp [Volume.size, freshVolume, entryLen_eq]

theorem putVolume_eq {item : MaskItem} {tag : Nat}
    (position : tag = before.length) (extent : hole.length = somask + entryLen item) :
    putVolume (before ++ hole ++ after) tag item (somask + entryLen item) =
      .ok (before ++ (freshVolume item).bytes ++ after) := by
  have size := freshVolume_size item
  obtain ⟨marker, rest, rfl, markerLength, restLength⟩ := exists_blocks
    (show hole.length = 4 + (4 + (16 + entryLen item)) by
      rw [extent]
      simp only [somask, souuid, sosize, sotag]
      omega)
  obtain ⟨length, rest, rfl, lengthLength, restLength⟩ := exists_blocks restLength
  obtain ⟨uuid, entry, rfl, uuidLength, entryLength⟩ := exists_blocks restLength
  have first : save (before ++ (marker ++ (length ++ (uuid ++ entry))) ++ after) tag sttag =
      .ok (before ++ sttag ++ (length ++ (uuid ++ entry) ++ after)) := by
    rw [show before ++ (marker ++ (length ++ (uuid ++ entry))) ++ after =
      before ++ marker ++ (length ++ (uuid ++ entry) ++ after) by simp]
    exact save_block position (by rw [markerLength]; rfl)
  have second : save (before ++ sttag ++ (length ++ (uuid ++ entry) ++ after)) (tag + sosize)
      (word (somask + entryLen item)) = .ok (before ++ sttag ++
        word (freshVolume item).size ++ (uuid ++ entry ++ after)) := by
    rw [size, show before ++ sttag ++ (length ++ (uuid ++ entry) ++ after) =
      before ++ sttag ++ length ++ (uuid ++ entry ++ after) by simp]
    apply save_block
    · rw [length_append, position]
      rfl
    · rw [lengthLength]
      rfl
  have third : save (before ++ sttag ++ word (freshVolume item).size ++
      (uuid ++ entry ++ after)) (tag + souuid) item.uuid.val =
        .ok (before ++ (freshVolume item).header ++ entry ++ after) := by
    rw [show before ++ sttag ++ word (freshVolume item).size ++
      (uuid ++ entry ++ after) = before ++ sttag ++ word (freshVolume item).size ++
        uuid ++ (entry ++ after) by simp, save_block]
    · simp [Volume.header, freshVolume]
    · simp only [length_append, length_word, position]
      rfl
    · rw [item.uuid.property, uuidLength]
  have fourth : putEntry (before ++ (freshVolume item).header ++ entry ++ after) (tag + somask)
      item (somask + entryLen item - item.name.bytes.length - soname) =
        .ok (before ++ (freshVolume item).bytes ++ after) := by
    rw [putEntry_eq]
    · simp [Volume.bytes, freshVolume]
    · rw [length_append, length_header, position]
    · exact entryLength
    · rw [entryLen_eq, soname]
      omega
  simp only [putVolume, first, second, third, ok_bind]
  exact fourth

def Volume.extend (volume : Volume) (entry : Entry)
    (fresh : ∀ other ∈ volume.entries, other.name ≠ entry.name) : Volume where
  uuid := volume.uuid
  entries := entry :: volume.entries
  nonempty := cons_ne_nil _ _
  distinct := by
    rw [map_cons, nodup_cons]
    refine ⟨?_, volume.distinct⟩
    intro listed
    obtain ⟨other, inEntries, same⟩ := List.mem_map.mp listed
    exact fresh other inEntries same

theorem memmove_up {block : Bytes} {gap target source : Nat}
    (room : gap ≤ after.length) (position : source = before.length)
    (shifted : target = source + gap) (extent : count = block.length) :
    memmove (before ++ block ++ after) target source count =
      .ok (before ++ (block ++ after).take gap ++ block ++ after.drop gap) := by
  rw [memmove, Buffer.move_up room position shifted extent]
  rfl

theorem memmove_outside {data : Bytes} {target source : Nat}
    (outside : data.length < target + count) :
    memmove data target source count = .error .outOfBounds := by
  rw [memmove, Buffer.move_eq_none_iff.mpr (Or.inr outside)]
  rfl

theorem save_size {volume changed : Volume} {tag size : Nat}
    (position : tag = before.length) (same : changed.uuid = volume.uuid)
    (resized : changed.size = size) :
    save (before ++ volume.header ++ after) (tag + sosize) (word size) =
      .ok (before ++ changed.header ++ after) := by
  rw [show before ++ volume.header ++ after = before ++ sttag ++ word volume.size ++
    (volume.uuid.val ++ after) by simp [Volume.header], save_block]
  · simp [Volume.header, same, resized]
  · rw [length_append, position]
    rfl
  · rfl

namespace Packed

variable {node : Node} {item : MaskItem} {before later : List Volume} {volume : Volume}

theorem tagSize_eq (packed : Packed node (before ++ volume :: later)) :
    load node.data (encode before).length sotag = .ok sttag ∧
      tagSize node.data (encode before).length = .ok volume.size := by
  obtain ⟨slack, layout⟩ := packed.contents
  have here : node.data = encode before ++ volume.bytes ++ (encode later ++ slack) := by
    rw [layout]
    simp
  have inUse : volume.size ≤ node.used := by
    rw [packed.used_eq]
    simp only [encode_append, encode_cons, length_append, length_bytes]
    omega
  have small := packed.used_lt
  obtain ⟨tag, size, _⟩ := header_reads here (by omega)
  exact ⟨tag, size⟩

theorem used_split (packed : Packed node (before ++ volume :: later)) :
    node.used - (encode before).length =
      somask + (entriesBytes volume.entries).length + (encode later).length := by
  rw [packed.used_eq]
  simp only [encode_append, encode_cons, length_append, length_bytes, Volume.size]
  omega

variable {slack : Bytes}

theorem save_size_eq {changed : Volume}
    (layout : node.data = encode (before ++ volume :: later) ++ slack)
    (same : changed.uuid = volume.uuid) {size : Nat} (resized : changed.size = size) :
    save node.data ((encode before).length + sosize) (word size) =
      .ok (encode before ++ changed.header ++
        (entriesBytes volume.entries ++ encode later ++ slack)) := by
  rw [layout, show encode (before ++ volume :: later) ++ slack = encode before ++ volume.header ++
    (entriesBytes volume.entries ++ encode later ++ slack) by simp [Volume.bytes]]
  exact save_size rfl same resized

theorem data_length {volumes : List Volume} (packed : Packed node volumes)
    (layout : node.data = encode volumes ++ slack) : node.size = node.used + slack.length := by
  rw [Node.size, layout, length_append, packed.used_eq]

theorem exchanged (packed : Packed node (before ++ volume :: later)) (changed : Volume)
    (same : changed.uuid = volume.uuid) {used : Nat}
    (resized : used + volume.size = node.used + changed.size)
    (inside : (encode (before ++ changed :: later) ++ slack).length ≤ node.data.length) :
    Packed ⟨used, encode (before ++ changed :: later) ++ slack⟩ (before ++ changed :: later) := by
  refine ⟨⟨slack, rfl⟩, ?_, inside.trans packed.bounded, ?_⟩
  · rw [packed.used_eq] at resized
    simp only [encode_append, encode_cons, length_append, length_bytes] at resized ⊢
    omega
  · have distinct := packed.distinct
    rw [map_append, map_cons] at distinct ⊢
    rw [same]
    exact distinct

variable (fresh : ∀ other ∈ volume.entries, other.name ≠ item.entry.name)

include fresh

theorem extend_size : (volume.extend item.entry fresh).size = volume.size + entryLen item := by
  simp only [Volume.size, Volume.extend, entriesBytes_cons, length_append, Entry.length_bytes,
    entryLen_eq]
  omega

theorem addEntry_outside (packed : Packed node (before ++ volume :: later))
    (full : node.size < node.used + entryLen item + somask) :
    addEntry node (encode before).length item (entryLen item) = .error .outOfBounds := by
  obtain ⟨slack, layout⟩ := packed.contents
  have size := packed.tagSize_eq.2
  have saved := save_size_eq layout (rfl : (volume.extend item.entry fresh).uuid = volume.uuid)
    (extend_size fresh)
  have length := packed.data_length layout
  have moved : memmove (encode before ++ (volume.extend item.entry fresh).header ++
      (entriesBytes volume.entries ++ encode later ++ slack))
      ((encode before).length + somask + entryLen item) ((encode before).length + somask)
      (node.used - (encode before).length) = .error .outOfBounds := by
    apply memmove_outside
    have used := packed.used_eq
    simp only [encode_append, encode_cons, length_append, length_bytes,
      length_header, Volume.size] at used ⊢
    omega
  simp only [addEntry, size, saved, moved, ok_bind, error_bind]

theorem addEntry_inside (packed : Packed node (before ++ volume :: later))
    (room : node.used + entryLen item + somask ≤ node.size) :
    ∃ data, addEntry node (encode before).length item (entryLen item) =
        .ok ⟨node.used + entryLen item, data⟩ ∧
      Packed ⟨node.used + entryLen item, data⟩
        (before ++ volume.extend item.entry fresh :: later) := by
  obtain ⟨slack, layout⟩ := packed.contents
  have size := packed.tagSize_eq.2
  have saved := save_size_eq layout (rfl : (volume.extend item.entry fresh).uuid = volume.uuid)
    (extend_size fresh)
  have length := packed.data_length layout
  have extent := packed.used_split
  obtain ⟨extra, free, rfl, extraLength, freeLength⟩ :=
    exists_blocks (show slack.length = somask + (slack.length - somask) by omega)
  have roomy : entryLen item ≤ free.length := by
    rw [length_append] at length
    omega
  -- the block that moves: the names, the volumes behind and `somask` bytes more
  have moved : memmove (encode before ++ (volume.extend item.entry fresh).header ++
      (entriesBytes volume.entries ++ encode later ++ (extra ++ free)))
      ((encode before).length + somask + entryLen item) ((encode before).length + somask)
      (node.used - (encode before).length) =
        .ok (encode before ++ (volume.extend item.entry fresh).header ++
          (entriesBytes volume.entries ++ encode later ++ extra ++ free).take (entryLen item) ++
          (entriesBytes volume.entries ++ encode later ++ extra) ++ free.drop (entryLen item)) := by
    rw [← append_assoc _ extra free, ← append_assoc _ _ free]
    apply memmove_up roomy
    · rw [length_append, length_header]
    · rfl
    · rw [extent]
      simp only [length_append]
      omega
  have put : putEntry (encode before ++ (volume.extend item.entry fresh).header ++
      (entriesBytes volume.entries ++ encode later ++ extra ++ free).take (entryLen item) ++
      (entriesBytes volume.entries ++ encode later ++ extra) ++ free.drop (entryLen item))
      ((encode before).length + somask) item (entryLen item - item.name.bytes.length - 4) =
        .ok (encode (before ++ volume.extend item.entry fresh :: later) ++
          (extra ++ free.drop (entryLen item))) := by
    rw [append_assoc _ (entriesBytes volume.entries ++ encode later ++ extra), putEntry_eq]
    · simp [Volume.bytes, Volume.extend]
    · rw [length_append, length_header]
    · rw [length_take, entryLen_eq]
      simp only [length_append]
      rw [entryLen_eq] at roomy
      omega
    · rfl
  refine ⟨encode (before ++ volume.extend item.entry fresh :: later) ++
    (extra ++ free.drop (entryLen item)), ?_, packed.exchanged (volume.extend _ fresh) rfl ?_ ?_⟩
  · simp only [addEntry, size, saved, moved, put, ok_bind, pure_eq_ok]
  · rw [extend_size fresh]
    omega
  · rw [layout]
    simp only [encode_append, encode_cons, length_append, length_bytes,
      extend_size fresh, length_drop]
    omega

omit fresh

theorem putVolume_packed {data hole : Bytes} (packed : Packed node (before ++ later))
    (absent : ∀ other ∈ before ++ later, other.uuid ≠ item.uuid)
    (layout : data = encode before ++ hole ++ (encode later ++ slack))
    (extent : hole.length = somask + entryLen item) (bounded : data.length ≤ kmallocMaxSize) :
    ∃ filled, putVolume data (encode before).length item (somask + entryLen item) = .ok filled ∧
      Packed ⟨node.used + (somask + entryLen item), filled⟩
        (before ++ freshVolume item :: later) := by
  refine ⟨encode (before ++ freshVolume item :: later) ++ slack, ?_, ⟨_, rfl⟩, ?_, ?_, ?_⟩
  · rw [layout, putVolume_eq rfl extent]
    simp
  · have used := packed.used_eq
    simp only [encode_append, encode_cons, length_append, length_bytes, freshVolume_size] at used ⊢
    omega
  · rw [layout] at bounded
    simp only [encode_append, encode_cons, length_append, length_bytes,
      freshVolume_size, extent] at bounded ⊢
    omega
  · exact nodup_map_split.mpr ⟨absent, packed.distinct⟩

theorem addVolume_append {volumes : List Volume} (packed : Packed node volumes)
    (absent : ∀ other ∈ volumes, other.uuid ≠ item.uuid)
    (room : node.used + (somask + entryLen item) ≤ node.size) :
    ∃ filled, putVolume node.data node.used item (somask + entryLen item) = .ok filled ∧
      Packed ⟨node.used + (somask + entryLen item), filled⟩
        (volumes ++ freshVolume item :: []) := by
  obtain ⟨slack, layout⟩ := packed.contents
  have length := packed.data_length layout
  obtain ⟨hole, free, rfl, extent, _⟩ := exists_blocks (show slack.length =
    somask + entryLen item + (slack.length - (somask + entryLen item)) by omega)
  have packedNil : Packed node (volumes ++ []) := by
    rw [append_nil]
    exact packed
  have absentNil : ∀ other ∈ volumes ++ [], other.uuid ≠ item.uuid := by
    rw [append_nil]
    exact absent
  have here : node.data = encode volumes ++ hole ++ (encode [] ++ free) := by
    rw [layout]
    simp
  have filled := putVolume_packed packedNil absentNil here extent packed.bounded
  rw [← packed.used_eq] at filled
  exact filled

theorem addVolume_before_last {init : List Volume} {last : Volume}
    (packed : Packed node (init ++ [last]))
    (absent : ∀ other ∈ init ++ [last], other.uuid ≠ item.uuid)
    (room : node.used + (somask + entryLen item) ≤ node.size) :
    ∃ moved filled, memmove node.data ((encode init).length + (somask + entryLen item))
        (encode init).length (node.used - (encode init).length) = .ok moved ∧
      putVolume moved (encode init).length item (somask + entryLen item) = .ok filled ∧
      Packed ⟨node.used + (somask + entryLen item), filled⟩
        (init ++ freshVolume item :: [last]) := by
  obtain ⟨slack, layout⟩ := packed.contents
  have length := packed.data_length layout
  have shape : node.data = encode init ++ encode [last] ++ slack := by
    rw [layout, encode_append]
  have extent : node.used - (encode init).length = (encode [last]).length := by
    rw [packed.used_eq, encode_append, length_append]
    omega
  have moved : memmove node.data ((encode init).length + (somask + entryLen item))
      (encode init).length (node.used - (encode init).length) =
        .ok (encode init ++ (encode [last] ++ slack).take (somask + entryLen item) ++
          encode [last] ++ slack.drop (somask + entryLen item)) := by
    rw [shape]
    exact memmove_up (by omega) rfl rfl extent
  have gap : ((encode [last] ++ slack).take (somask + entryLen item)).length =
      somask + entryLen item := by
    rw [length_take, length_append]
    omega
  have bounded : (encode init ++ (encode [last] ++ slack).take (somask + entryLen item) ++
      (encode [last] ++ slack.drop (somask + entryLen item))).length ≤ kmallocMaxSize := by
    have limit := packed.bounded
    rw [shape] at limit
    simp only [length_append, gap, length_drop] at limit ⊢
    omega
  obtain ⟨filled, put, result⟩ := putVolume_packed packed absent rfl gap bounded
  refine ⟨_, filled, moved, ?_, result⟩
  rw [append_assoc _ (encode [last])]
  exact put

end Packed

def Volume.remask (volume : Volume) {skipped rest : List Entry} {entry : Entry}
    (entries : volume.entries = skipped ++ entry :: rest) (mask : BitVec 32) : Volume where
  uuid := volume.uuid
  entries := skipped ++ ⟨entry.name, mask⟩ :: rest
  nonempty := by simp
  distinct := by
    have distinct := volume.distinct
    rw [entries] at distinct
    simp only [map_append, map_cons] at distinct ⊢
    exact distinct

theorem Volume.remask_size (volume : Volume)
    (entries : volume.entries = skipped ++ entry :: rest) (mask : BitVec 32) :
    (volume.remask entries mask).size = volume.size := by
  simp [Volume.size, Volume.remask, entries, Entry.extent]

theorem Volume.remask_header (volume : Volume)
    (entries : volume.entries = skipped ++ entry :: rest) (mask : BitVec 32) :
    (volume.remask entries mask).header = volume.header := by
  rw [Volume.header, volume.remask_size entries]
  rfl

theorem Packed.remask {node : Node} {before later : List Volume} {volume : Volume}
    (packed : Packed node (before ++ volume :: later))
    (entries : volume.entries = skipped ++ entry :: rest) (mask : BitVec 32) :
    loadMask node.data ((encode before).length + somask + (entriesBytes skipped).length) =
        .ok entry.mask ∧
      ∃ data, saveMask node.data
          ((encode before).length + somask + (entriesBytes skipped).length) mask = .ok data ∧
        Packed ⟨node.used, data⟩ (before ++ volume.remask entries mask :: later) := by
  obtain ⟨slack, layout⟩ := packed.contents
  have here : node.data = (encode before ++ volume.header ++ entriesBytes skipped) ++
      entry.bytes ++ (entriesBytes rest ++ encode later ++ slack) := by
    rw [layout]
    simp [Volume.bytes, entries]
  have position : (encode before).length + somask + (entriesBytes skipped).length =
      (encode before ++ volume.header ++ entriesBytes skipped).length := by
    simp only [length_append, length_header]
  have saved : saveMask node.data
      ((encode before).length + somask + (entriesBytes skipped).length) mask =
        .ok (encode (before ++ volume.remask entries mask :: later) ++ slack) := by
    rw [saveMask, here, show (encode before ++ volume.header ++ entriesBytes skipped) ++
      entry.bytes ++ (entriesBytes rest ++ encode later ++ slack) =
        (encode before ++ volume.header ++ entriesBytes skipped) ++
          word entry.mask.toNat ++ (entry.name.bytes ++
            replicate (entry.extent - entry.name.bytes.length - 4) 0 ++
            entriesBytes rest ++ encode later ++ slack) by simp [Entry.bytes],
      save_block position (by simp)]
    simp only [encode_append, encode_cons, Volume.bytes, remask_header]
    simp [Volume.remask, Entry.bytes, Entry.extent]
  have length : (encode (before ++ volume.remask entries mask :: later) ++ slack).length =
      node.data.length := by
    rw [layout]
    simp [volume.remask_size entries]
  refine ⟨?_, _, saved, packed.exchanged (volume.remask entries mask) rfl ?_ length.le⟩
  · rw [position]
    exact (entry_reads here).1
  · rw [volume.remask_size entries]

end Elkeid.FileNotify
