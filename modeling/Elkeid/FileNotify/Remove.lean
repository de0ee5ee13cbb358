import Elkeid.FileNotify.Store

/-!
# `mask_remove` and `mask_lookup` on the table

A lookup reads the table and leaves the node alone. Removal clears bits of a mask;
an entry without bits goes, and a volume goes with its last entry. All of it stays
inside the used bytes.
-/

namespace Elkeid.FileNotify

open Foundations LittleEndian List

theorem memmove_down {before hole block after : Bytes} {target source count : Nat}
    (position : target = before.length) (shifted : source = target + hole.length)
    (extent : count = block.length) :
    memmove (before ++ hole ++ block ++ after) target source count =
      .ok (before ++ block ++ (hole ++ block).drop block.length ++ after) := by
  rw [memmove, Buffer.move_down position shifted extent]
  rfl

theorem close_hole {before hole block : Bytes} (after : Bytes)
    {target source count offset len : Nat}
    (position : target = before.length) (shifted : source = target + hole.length)
    (extent : count = block.length) (tail : offset = before.length + block.length)
    (width : len = hole.length) :
    ∃ moved, memmove (before ++ hole ++ block ++ after) target source count = .ok moved ∧
      memset moved offset len = .ok (before ++ block ++ (replicate len 0 ++ after)) := by
  refine ⟨_, memmove_down position shifted extent, ?_⟩
  rw [memset_block]
  · simp
  · rw [length_append, tail]
  · rw [length_drop, length_append, width]
    omega

def Volume.without (volume : Volume) {skipped rest : List Entry} {entry : Entry}
    (entries : volume.entries = skipped ++ entry :: rest) (others : skipped ++ rest ≠ []) :
    Volume where
  uuid := volume.uuid
  entries := skipped ++ rest
  nonempty := others
  distinct := by
    have distinct := volume.distinct
    rw [entries] at distinct
    exact (nodup_map_split.mp distinct).2

section Drop

variable {node : Node} {before later : List Volume} {volume : Volume} {skipped rest : List Entry}
  {entry : Entry}

theorem without_size (entries : volume.entries = skipped ++ entry :: rest)
    (others : skipped ++ rest ≠ []) :
    (volume.without entries others).size + entry.extent = volume.size := by
  simp only [Volume.size, Volume.without, entries, entriesBytes_append, entriesBytes_cons,
    length_append, Entry.length_bytes]
  omega

theorem dropEntry_packed (packed : Packed node (before ++ volume :: later))
    (entries : volume.entries = skipped ++ entry :: rest) (others : skipped ++ rest ≠ []) :
    ∃ sized result, save node.data ((encode before).length + sosize)
        (word (volume.size - entry.extent)) = .ok sized ∧
      dropEntry node ((encode before).length + somask + (entriesBytes skipped).length) sized
        entry.extent = .ok result ∧
      Packed result (before ++ volume.without entries others :: later) := by
  obtain ⟨slack, layout⟩ := packed.contents
  have saved := Packed.save_size_eq layout
    (rfl : (volume.without entries others).uuid = volume.uuid)
    (Nat.eq_sub_of_add_eq (without_size entries others))
  have used := packed.used_eq
  simp only [encode_append, encode_cons, length_append, Volume.length_bytes, Volume.size,
    entries, entriesBytes_append, entriesBytes_cons, Entry.length_bytes] at used
  have shape : encode before ++ (volume.without entries others).header ++
      (entriesBytes volume.entries ++ encode later ++ slack) =
        (encode before ++ (volume.without entries others).header ++ entriesBytes skipped) ++
          entry.bytes ++ (entriesBytes rest ++ encode later) ++ slack := by
    simp [entries]
  rw [shape] at saved
  have position : (encode before).length + somask + (entriesBytes skipped).length =
      (encode before ++ (volume.without entries others).header ++
        entriesBytes skipped).length := by
    simp only [length_append, Volume.length_header]
  have source : (encode before).length + somask + (entriesBytes skipped).length + entry.extent =
      (encode before).length + somask + (entriesBytes skipped).length + entry.bytes.length := by
    rw [Entry.length_bytes]
  have count : node.used - entry.extent -
      ((encode before).length + somask + (entriesBytes skipped).length) =
        (entriesBytes rest ++ encode later).length := by
    rw [length_append]
    omega
  have tail : node.used - entry.extent = (encode before ++
      (volume.without entries others).header ++ entriesBytes skipped).length +
        (entriesBytes rest ++ encode later).length := by
    rw [← position, length_append]
    omega
  obtain ⟨moved, move, clear⟩ :=
    close_hole slack position source count tail entry.length_bytes.symm
  have final : encode before ++ (volume.without entries others).header ++ entriesBytes skipped ++
      (entriesBytes rest ++ encode later) ++ (replicate entry.extent 0 ++ slack) =
        encode (before ++ volume.without entries others :: later) ++
          (replicate entry.extent 0 ++ slack) := by
    simp [Volume.bytes, Volume.without]
  rw [final] at clear
  refine ⟨_, ⟨node.used - entry.extent, encode (before ++ volume.without entries others :: later) ++
    (replicate entry.extent 0 ++ slack)⟩, saved, ?_,
    packed.exchanged (volume.without entries others) rfl ?_ ?_⟩
  · simp only [dropEntry, move, clear, ok_bind, pure_eq_ok]
  · rw [← without_size entries others]
    omega
  · have size := without_size entries others
    rw [layout]
    simp only [encode_append, encode_cons, length_append, Volume.length_bytes, length_replicate]
    omega

theorem memset_whole (data : Bytes) :
    memset data 0 data.length = .ok (replicate data.length 0) := by
  have filled : memset ([] ++ data ++ []) 0 data.length = _ := memset_block rfl rfl
  simpa using filled

theorem save_lastSize {slack : Bytes}
    (layout : node.data = encode (before ++ volume :: later) ++ slack)
    (entries : volume.entries = [entry]) (size : Nat) :
    ∃ header : Bytes, header.length = somask ∧
      save node.data ((encode before).length + sosize) (word size) =
        .ok (encode before ++ (header ++ entry.bytes) ++ encode later ++ slack) := by
  refine ⟨sttag ++ word size ++ volume.uuid.val, ?_, ?_⟩
  · simp only [length_append, length_word, volume.uuid.property]
    rfl
  · rw [layout, show encode (before ++ volume :: later) ++ slack = encode before ++ sttag ++
      word volume.size ++ (volume.uuid.val ++ entry.bytes ++ encode later ++ slack) by
        simp [Volume.bytes, Volume.header, entries], save_block]
    · simp
    · rw [length_append]
      rfl
    · rfl

theorem dropVolume_cut {gap slack : Bytes} (used : node.used = (encode before).length +
      gap.length + (encode later).length)
    (bounded : (encode before ++ gap ++ encode later ++ slack).length ≤ kmallocMaxSize)
    (distinct : ((before ++ later).map Volume.uuid).Nodup) {len : Nat} (width : len = gap.length) :
    ∃ result, dropVolume node (encode before).length
        (encode before ++ gap ++ encode later ++ slack) len = .ok result ∧
      Packed result (before ++ later) := by
  by_cases more : len < node.used
  · have source : (encode before).length + len = (encode before).length + gap.length := by
      rw [width]
    have count : node.used - len - (encode before).length = (encode later).length := by omega
    have tail : node.used - len = (encode before).length + (encode later).length := by omega
    obtain ⟨moved, move, clear⟩ := close_hole slack rfl source count tail width
    refine ⟨⟨node.used - len, encode (before ++ later) ++ (replicate len 0 ++ slack)⟩, ?_,
      ⟨_, rfl⟩, ?_, ?_, distinct⟩
    · simp only [dropVolume, if_pos more, move, clear, encode_append, ok_bind, pure_eq_ok]
    · rw [tail, encode_append, length_append]
    · simp only [encode_append, length_append, length_replicate] at bounded ⊢
      omega
  · -- nothing else is in use, and the whole buffer is cleared
    have noBefore : before = [] := by
      have counted := length_le_encode before
      exact eq_nil_of_length_eq_zero (by omega)
    have noLater : later = [] := by
      have counted := length_le_encode later
      exact eq_nil_of_length_eq_zero (by omega)
    subst noBefore noLater
    refine ⟨⟨0, replicate (encode [] ++ gap ++ encode [] ++ slack).length 0⟩, ?_, ⟨_, rfl⟩,
      rfl, ?_, distinct⟩
    · simp only [dropVolume, if_neg more, memset_whole, ok_bind, pure_eq_ok]
    · rw [length_replicate]
      exact bounded

theorem dropVolume_packed (packed : Packed node (before ++ volume :: later))
    (entries : volume.entries = [entry]) :
    ∃ sized result, save node.data ((encode before).length + sosize)
        (word (volume.size - entry.extent)) = .ok sized ∧
      dropVolume node (encode before).length sized (entry.extent + somask) = .ok result ∧
      Packed result (before ++ later) := by
  obtain ⟨slack, layout⟩ := packed.contents
  obtain ⟨header, headerLength, saved⟩ :=
    save_lastSize layout entries (volume.size - entry.extent)
  have width : entry.extent + somask = (header ++ entry.bytes).length := by
    rw [length_append, headerLength, Entry.length_bytes, add_comm]
  have size : volume.size = (header ++ entry.bytes).length := by
    rw [← width, Volume.size, entries]
    simp [add_comm]
  have used : node.used = (encode before).length + (header ++ entry.bytes).length +
      (encode later).length := by
    rw [packed.used_eq, ← size]
    simp [add_assoc]
  have bounded : (encode before ++ (header ++ entry.bytes) ++ encode later ++ slack).length ≤
      kmallocMaxSize := by
    have bounded := packed.bounded
    rw [layout, length_append, ← packed.used_eq, used] at bounded
    simpa only [length_append] using bounded
  obtain ⟨result, dropped, resultPacked⟩ :=
    dropVolume_cut used bounded (nodup_map_split.mp packed.distinct).2 width
  exact ⟨_, result, saved, dropped, resultPacked⟩

end Drop

section Tables

variable {item : MaskItem} {before later : List Volume} {volume : Volume}
  {skipped rest : List Entry} {entry : Entry}

theorem maskOf_without (unique : ∀ other ∈ before, other.uuid ≠ volume.uuid)
    (isVolume : volume.uuid = item.uuid) (entries : volume.entries = skipped ++ entry :: rest)
    (others : skipped ++ rest ≠ []) (isEntry : entry.name = item.name)
    (cleared : entry.mask &&& ~~~item.mask = 0) :
    maskOf (before ++ volume.without entries others :: later) =
      (maskOf (before ++ volume :: later)).remove item := by
  funext uuid name
  apply maskOf_update (volume.without entries others) (· &&& ~~~item.mask) unique rfl isVolume
  intro entryName
  have distinct := volume.distinct
  rw [entries] at distinct
  have alone := (nodup_map_split.mp distinct).1
  have missesEntry : ∀ other ∈ skipped, other.name ≠ entry.name :=
    fun other listed => alone other (mem_append_left _ listed)
  change entryMask (skipped ++ rest) entryName = _
  rw [entries, entryMask_split missesEntry, isEntry]
  by_cases sameName : entryName = item.name
  · rw [if_pos sameName, if_pos sameName, cleared, sameName, ← isEntry]
    exact entryMask_absent alone
  · rw [if_neg sameName, if_neg sameName]

theorem maskOf_dropped (distinct : ((before ++ volume :: later).map Volume.uuid).Nodup)
    (isVolume : volume.uuid = item.uuid) (entries : volume.entries = [entry])
    (isEntry : entry.name = item.name) (cleared : entry.mask &&& ~~~item.mask = 0) :
    maskOf (before ++ later) = (maskOf (before ++ volume :: later)).remove item := by
  have alone := (nodup_map_split.mp distinct).1
  funext uuid name
  rw [Table.remove, maskOf_split (forall_mem_append.mp alone).1]
  by_cases sameUuid : uuid = volume.uuid
  · have gone : maskOf (before ++ later) uuid name = 0 := by
      rw [sameUuid]
      exact maskOf_absent alone
    rw [gone, if_pos sameUuid, entries, entryMask, entryMask, isEntry]
    by_cases sameName : name = item.name
    · rw [if_pos ⟨sameUuid.trans isVolume, sameName⟩, if_pos sameName, cleared]
    · rw [if_neg (fun both => sameName both.2), if_neg sameName]
  · have notItem : ¬ (uuid = item.uuid ∧ name = item.name) := by
      rintro ⟨sameItem, _⟩
      exact sameUuid (sameItem.trans isVolume.symm)
    rw [if_neg sameUuid, if_neg notItem]

theorem remove_absent {table : Table} (absent : table item.uuid item.name = 0) :
    table.remove item = table := by
  funext uuid name
  rw [Table.remove]
  by_cases isItem : uuid = item.uuid ∧ name = item.name
  · rw [if_pos isItem, isItem.1, isItem.2, absent]
    exact BitVec.zero_and
  · rw [if_neg isItem]

end Tables

section Remove

variable {node : Node} {item : MaskItem} {volumes before later : List Volume} {volume : Volume}

theorem maskRemove_present {skipped rest : List Entry} {entry : Entry}
    (isAt : EntryAt item volume skipped entry rest)
    (packed : Packed node (before ++ volume :: later)) :
    ∃ result changed, maskRemove node item = .ok (0, result) ∧ Packed result changed ∧
      maskOf changed = (maskOf (before ++ volume :: later)).remove item ∧
      (Masked (before ++ volume :: later) → Masked changed) := by
  have found := isAt.lookup packed
  obtain ⟨isVolume, entries, misses, isEntry⟩ := isAt
  have tagged := assertTag_ok packed.tagSize_eq.1
  obtain ⟨loaded, data, saved, remasked⟩ := packed.remask entries (entry.mask &&& ~~~item.mask)
  have table : maskOf (before ++ volume.remask entries (entry.mask &&& ~~~item.mask) :: later) =
      (maskOf (before ++ volume :: later)).remove item := by
    funext uuid name
    exact maskOf_remask (· &&& ~~~item.mask) packed.not_mem_before
      ⟨isVolume, entries, misses, isEntry⟩ uuid name
  by_cases left : entry.mask &&& ~~~item.mask ≠ 0
  · refine ⟨_, _, ?_, remasked, table, ?_⟩
    · simp only [maskRemove, found, tagged, loaded, saved, if_pos left, ok_bind, pure_eq_ok]
    · intro masked
      obtain ⟨others, own⟩ := masked_around.mp masked
      exact masked_around.mpr ⟨others, masked_remask entries own (fun _ => left)⟩
  · have cleared : entry.mask &&& ~~~item.mask = 0 := not_not.mp left
    have remaskedEntries : (volume.remask entries (entry.mask &&& ~~~item.mask)).entries =
        skipped ++ ⟨entry.name, entry.mask &&& ~~~item.mask⟩ :: rest := rfl
    have extent : (⟨entry.name, entry.mask &&& ~~~item.mask⟩ : Entry).extent = entryLen item := by
      rw [Entry.extent, isEntry]
      rfl
    have size := remasked.tagSize_eq.2
    by_cases others : skipped ++ rest = []
    · obtain ⟨rfl, rfl⟩ := append_eq_nil_iff.mp others
      obtain ⟨sized, result, resized, dropped, dropPacked⟩ :=
        dropVolume_packed remasked remaskedEntries
      have last : (volume.remask entries (entry.mask &&& ~~~item.mask)).size -
          entryLen item = somask := by
        rw [← extent, Volume.size, remaskedEntries]
        simp
      rw [extent] at resized dropped
      have droppedVolume : dropVolume node (encode before).length sized
          (entryLen item + somask) = .ok result := dropped
      refine ⟨result, _, ?_, dropPacked,
        maskOf_dropped packed.distinct isVolume entries isEntry cleared,
        fun masked => (masked_around.mp masked).1⟩
      simp only [maskRemove, found, tagged, loaded, saved, if_neg left, size, resized, if_pos last,
        droppedVolume, ok_bind, pure_eq_ok]
    · obtain ⟨sized, result, resized, dropped, dropPacked⟩ :=
        dropEntry_packed remasked remaskedEntries others
      have more : (volume.remask entries (entry.mask &&& ~~~item.mask)).size -
          entryLen item ≠ somask := by
        have counted := length_le_entriesBytes (skipped ++ rest)
        have some : 0 < (skipped ++ rest).length := length_pos_iff.mpr others
        rw [← extent, Volume.size, remaskedEntries]
        simp only [entriesBytes_append, entriesBytes_cons, length_append,
          Entry.length_bytes] at counted some ⊢
        omega
      rw [extent] at resized dropped
      have droppedEntry : dropEntry node
          ((encode before).length + somask + (entriesBytes skipped).length) sized
          (entryLen item) = .ok result := dropped
      refine ⟨result, _, ?_, dropPacked,
        maskOf_without packed.not_mem_before isVolume entries others isEntry cleared, ?_⟩
      · simp only [maskRemove, found, tagged, loaded, saved, if_neg left, size, resized,
          if_neg more,
          droppedEntry, ok_bind, pure_eq_ok]
      · intro masked
        obtain ⟨around, own⟩ := masked_around.mp masked
        rw [entries, forall_mem_append, forall_mem_cons] at own
        exact masked_around.mpr ⟨around, forall_mem_append.mpr ⟨own.1, own.2.2⟩⟩

theorem maskRemove_spec (packed : Packed node volumes) (item : MaskItem) :
    ∃ rc result changed, maskRemove node item = .ok (rc, result) ∧ Packed result changed ∧
      maskOf changed = (maskOf volumes).remove item ∧ (Masked volumes → Masked changed) := by
  rcases first_split (fun volume : Volume => volume.uuid = item.uuid) volumes with
    ⟨before, volume, later, rfl, _, isVolume⟩ | absent
  · rcases first_split (fun entry : Entry => entry.name = item.name) volume.entries with
      ⟨skipped, entry, rest, entries, misses, isEntry⟩ | fresh
    · obtain ⟨result, changed, removed, resultPacked, table⟩ :=
        maskRemove_present ⟨isVolume, entries, misses, isEntry⟩ packed
      exact ⟨0, result, changed, removed, resultPacked, table⟩
    · have missed : maskLookup node item true = _ :=
        packed.lookup_miss isVolume (by simpa using fresh)
      refine ⟨enoent, node, _, ?_, packed, (remove_absent ?_).symm, id⟩
      · simp only [maskRemove, missed, ok_bind, pure_eq_ok]
      · rw [maskOf_split packed.not_mem_before, if_pos isVolume.symm]
        exact entryMask_absent fresh
  · refine ⟨enoent, node, volumes, ?_, packed, (remove_absent (maskOf_absent absent)).symm, id⟩
    obtain ⟨tag, ret, _, missed⟩ := packed.lookup_none absent true
    cases tag <;> simp only [maskRemove, missed, ok_bind, pure_eq_ok]

theorem maskLookup_spec (packed : Packed node volumes) (item : MaskItem) :
    ∃ mi : MaskInfo, maskLookup node item false = .ok (node, mi) ∧
      (mi.item.isSome ↔ maskOf volumes item.uuid item.name &&& item.mask ≠ 0) := by
  rcases first_split (fun volume : Volume => volume.uuid = item.uuid) volumes with
    ⟨before, volume, later, rfl, _, isVolume⟩ | absent
  · have table : maskOf (before ++ volume :: later) item.uuid item.name =
        entryMask volume.entries item.name := by
      rw [maskOf_split packed.not_mem_before, if_pos isVolume.symm]
    rcases first_split (Hits item false) volume.entries with
      ⟨skipped, entry, rest, entries, misses, hits⟩ | misses
    · refine ⟨_, packed.lookup_hit isVolume entries misses hits, ?_⟩
      have distinct := volume.distinct
      rw [entries] at distinct
      have unique : ∀ other ∈ skipped, other.name ≠ entry.name := fun other listed =>
        (nodup_map_split.mp distinct).1 other (mem_append_left _ listed)
      rw [table, entries, entryMask_split unique, if_pos hits.2.symm]
      simpa [Hits] using hits.1
    · refine ⟨_, packed.lookup_miss isVolume misses, ?_⟩
      have none : entryMask volume.entries item.name &&& item.mask = 0 := by
        rcases first_split (fun entry : Entry => entry.name = item.name) volume.entries with
          ⟨skipped, entry, rest, entries, others, isEntry⟩ | fresh
        · have listed : entry ∈ volume.entries := by
            rw [entries]
            simp
          have noBit : entry.mask &&& item.mask = 0 := by
            by_contra bit
            exact misses entry listed ⟨Or.inr bit, isEntry⟩
          have unique : ∀ other ∈ skipped, other.name ≠ entry.name := by
            rw [isEntry]
            exact others
          rw [entries, entryMask_split unique, if_pos isEntry.symm, noBit]
        · rw [entryMask_absent fresh]
          exact BitVec.zero_and
      rw [table, none]
      simp
  · have table : maskOf volumes item.uuid item.name = 0 := maskOf_absent absent
    rw [table]
    obtain ⟨tag, ret, _, missed⟩ := packed.lookup_none absent false
    exact ⟨_, missed, by simp⟩

end Remove

end Elkeid.FileNotify
