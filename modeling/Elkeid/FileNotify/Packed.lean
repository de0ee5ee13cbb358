import Elkeid.FileNotify.Mask

/-!
# The packed layout of a node

A list of volumes, each with a uuid and its entries, and the bytes that hold it.
`Packed` says that the used part of a buffer is such a list; what lies behind it
is arbitrary. On a packed node the two loops of `_mask_lookup` walk from volume
to volume and from entry to entry.
-/

namespace Elkeid.FileNotify

open Foundations LittleEndian List Nat

structure Entry where
  name : CString
  mask : BitVec 32
  deriving DecidableEq

def Entry.extent (entry : Entry) : Nat := align4 (4 + entry.name.bytes.length + 1)

def Entry.bytes (entry : Entry) : Bytes :=
  LittleEndian.word entry.mask.toNat ++ entry.name.bytes ++
    replicate (entry.extent - entry.name.bytes.length - 4) 0

def entriesBytes (entries : List Entry) : Bytes := entries.flatMap Entry.bytes

structure Volume where
  uuid : Uuid
  entries : List Entry
  nonempty : entries ≠ []
  distinct : (entries.map Entry.name).Nodup

def Volume.size (volume : Volume) : Nat := somask + (entriesBytes volume.entries).length

def Volume.header (volume : Volume) : Bytes :=
  sttag ++ LittleEndian.word volume.size ++ volume.uuid.val

def Volume.bytes (volume : Volume) : Bytes := volume.header ++ entriesBytes volume.entries

def encode (volumes : List Volume) : Bytes := volumes.flatMap Volume.bytes

structure Packed (node : Node) (volumes : List Volume) : Prop where
  contents : ∃ slack, node.data = encode volumes ++ slack
  used_eq : node.used = (encode volumes).length
  bounded : node.data.length ≤ kmallocMaxSize
  distinct : (volumes.map Volume.uuid).Nodup

@[simp]
theorem encode_nil : encode [] = [] := rfl

@[simp]
theorem encode_cons (head : Volume) (tail : List Volume) :
    encode (head :: tail) = head.bytes ++ encode tail := rfl

@[simp]
theorem encode_append (first second : List Volume) :
    encode (first ++ second) = encode first ++ encode second := flatMap_append

@[simp]
theorem entriesBytes_nil : entriesBytes [] = [] := rfl

@[simp]
theorem entriesBytes_cons (head : Entry) (tail : List Entry) :
    entriesBytes (head :: tail) = head.bytes ++ entriesBytes tail := rfl

@[simp]
theorem entriesBytes_append (first second : List Entry) :
    entriesBytes (first ++ second) = entriesBytes first ++ entriesBytes second :=
  flatMap_append

theorem nodup_map_split {α β : Type} {key : α → β} {before later : List α} {value : α} :
    ((before ++ value :: later).map key).Nodup ↔
      (∀ other ∈ before ++ later, key other ≠ key value) ∧ ((before ++ later).map key).Nodup := by
  rw [map_append, map_cons, nodup_middle, nodup_cons, ← map_append]
  simp only [mem_map, not_exists, not_and, ne_eq]

theorem Entry.extent_ge (entry : Entry) : entry.name.bytes.length + 5 ≤ entry.extent := by
  unfold extent align4
  omega

theorem Entry.extent_eq (entry : Entry) :
    entry.extent = 4 + align4 (entry.name.bytes.length + 1) := by
  unfold extent align4
  omega

@[simp]
theorem Entry.length_bytes (entry : Entry) : entry.bytes.length = entry.extent := by
  have roomy := entry.extent_ge
  simp only [bytes, length_append, length_word, length_replicate]
  omega

@[simp]
theorem Volume.length_header (volume : Volume) : volume.header.length = somask := by
  simp only [header, length_append, length_word, volume.uuid.property]
  rfl

@[simp]
theorem Volume.length_bytes (volume : Volume) : volume.bytes.length = volume.size := by
  rw [bytes, length_append, length_header, size]

theorem Volume.size_ge (volume : Volume) : somask + 5 ≤ volume.size := by
  cases entries : volume.entries with
  | nil => exact absurd entries volume.nonempty
  | cons head tail =>
    have roomy := head.extent_ge
    rw [size, entries, entriesBytes_cons, length_append, Entry.length_bytes]
    omega

variable {before after data : Bytes} {offset : Nat}

theorem load_block {block : Bytes} {count : Nat}
    (position : offset = before.length) (extent : count = block.length) :
    load (before ++ block ++ after) offset count = .ok block := by
  rw [load, Buffer.read_block position extent]
  rfl

theorem save_block {old block : Bytes}
    (position : offset = before.length) (extent : block.length = old.length) :
    save (before ++ old ++ after) offset block = .ok (before ++ block ++ after) := by
  rw [save, Buffer.write_block position extent]
  rfl

theorem memcmp_eq_iff {first second : Bytes} (sameLength : first.length = second.length) :
    memcmp first second = .eq ↔ first = second := by
  induction first generalizing second with
  | nil =>
    cases second with
    | nil => simp [memcmp]
    | cons head tail => cases sameLength
  | cons head tail ih =>
    cases second with
    | nil => cases sameLength
    | cons other others =>
      have tails := ih (Nat.succ.inj sameLength)
      by_cases below : head < other
      · have distinct : head ≠ other := by
          rintro rfl
          exact UInt8.lt_irrefl head below
        simp [memcmp, below, distinct]
      · by_cases above : other < head
        · have distinct : head ≠ other := by
            rintro rfl
            exact UInt8.lt_irrefl head above
          simp [memcmp, below, above, distinct]
        · have equal : head = other :=
            UInt8.le_antisymm (UInt8.not_lt.mp above) (UInt8.not_lt.mp below)
          simp [memcmp, equal, tails]

theorem header_reads {volume : Volume}
    (layout : data = before ++ volume.bytes ++ after) (small : volume.size < 2 ^ 32) :
    load data before.length sotag = .ok sttag ∧ tagSize data before.length = .ok volume.size ∧
      load data (before.length + souuid) 16 = .ok volume.uuid.val := by
  have atTag : data = before ++ sttag ++ (word volume.size ++ volume.uuid.val ++
      entriesBytes volume.entries ++ after) := by
    rw [layout]
    simp [Volume.bytes, Volume.header]
  have atSize : data = (before ++ sttag) ++ word volume.size ++
      (volume.uuid.val ++ entriesBytes volume.entries ++ after) := by
    rw [layout]
    simp [Volume.bytes, Volume.header]
  have atUuid : data = (before ++ sttag ++ word volume.size) ++ volume.uuid.val ++
      (entriesBytes volume.entries ++ after) := by
    rw [layout]
    simp [Volume.bytes, Volume.header]
  refine ⟨?_, ?_, ?_⟩
  · rw [atTag]
    exact load_block rfl rfl
  · have size : load data (before.length + sosize) 4 = .ok (word volume.size) := by
      rw [atSize]
      exact load_block (by rw [length_append]; rfl) rfl
    simp only [tagSize, size]
    exact congrArg Except.ok (value_word small)
  · rw [atUuid]
    apply load_block
    · simp only [length_append, length_word]
      rfl
    · exact volume.uuid.property.symm

section Scan

variable {node : Node} {uuid : Uuid} {fuel : Nat} {scan : VolumeScan} {skipped : List Volume}
  {slack : Bytes}

theorem scanVolumes_step {before after : Bytes} {volume : Volume}
    (layout : node.data = before ++ volume.bytes ++ after)
    (inUse : before.length + volume.size ≤ node.used) (small : node.used < 2 ^ 32) :
    (volume.uuid = uuid → scanVolumes node uuid (fuel + 1) before.length scan =
      .ok ⟨some (before.length, volume.size), some before.length, 0⟩) ∧
    (volume.uuid ≠ uuid → ∃ ret : Int, ret ≠ 0 ∧
      scanVolumes node uuid (fuel + 1) before.length scan =
        if before.length + volume.size < node.used then
          scanVolumes node uuid fuel (before.length + volume.size) ⟨none, some before.length, ret⟩
        else .ok ⟨none, some before.length, ret⟩) := by
  have roomy := volume.size_ge
  obtain ⟨tag, size, other⟩ := header_reads layout (by omega)
  have found : maskStrstr node.data before.length (node.used - before.length) =
      .ok (some before.length) := by
    have long : sotag < node.used - before.length := by
      unfold somask souuid sosize at roomy
      omega
    simp [maskStrstr, long, tag]
  have sameLength : uuid.val.length = volume.uuid.val.length := by
    rw [uuid.property, volume.uuid.property]
  constructor
  · intro isVolume
    have compared : memcmp uuid.val volume.uuid.val = .eq := by
      rw [memcmp_eq_iff sameLength, isVolume]
    simp [scanVolumes, found, size, other, compared]
  · intro isOther
    have compared : memcmp uuid.val volume.uuid.val ≠ .eq := by
      rw [Ne, memcmp_eq_iff sameLength]
      intro equal
      exact isOther (Subtype.ext equal.symm)
    cases order : memcmp uuid.val volume.uuid.val with
    | lt => exact ⟨-1, by decide, by
        simp [scanVolumes, found, size, other, order]⟩
    | eq => exact absurd order compared
    | gt => exact ⟨1, by decide, by
        simp [scanVolumes, found, size, other, order]⟩

theorem scanVolumes_skip (before : List Volume) {rest : List Volume}
    (fuel : Nat) (scan : VolumeScan)
    (layout : node.data = encode (before ++ skipped ++ rest) ++ slack)
    (used_eq : node.used = (encode (before ++ skipped ++ rest)).length)
    (small : node.used < 2 ^ 32) (others : ∀ other ∈ skipped, other.uuid ≠ uuid)
    (more : rest ≠ []) :
    ∃ left, scanVolumes node uuid (fuel + skipped.length) (encode before).length scan =
      scanVolumes node uuid fuel (encode (before ++ skipped)).length left := by
  induction skipped generalizing before scan with
  | nil => exact ⟨scan, by rw [append_nil]; rfl⟩
  | cons head tail ih =>
    have here : node.data = encode before ++ head.bytes ++ (encode (tail ++ rest) ++ slack) := by
      rw [layout]
      simp
    have inUse : (encode before).length + head.size < node.used := by
      obtain ⟨volume, later, rfl⟩ := exists_cons_of_ne_nil more
      have roomy := volume.size_ge
      rw [used_eq]
      simp only [encode_append, encode_cons, length_append, Volume.length_bytes]
      omega
    have next : (encode before).length + head.size = (encode (before ++ [head])).length := by
      simp
    have shape : before ++ head :: tail = before ++ [head] ++ tail := by simp
    rw [shape] at layout used_eq ⊢
    obtain ⟨ret, _, step⟩ := (scanVolumes_step here inUse.le small).2 (others head mem_cons_self)
    rw [length_cons, ← add_assoc, step, if_pos inUse, next]
    exact ih _ _ layout used_eq (forall_mem_cons.mp others).2

theorem scanVolumes_found {later : List Volume} {volume : Volume}
    (layout : node.data = encode (skipped ++ volume :: later) ++ slack)
    (used_eq : node.used = (encode (skipped ++ volume :: later)).length)
    (small : node.used < 2 ^ 32) (others : ∀ other ∈ skipped, other.uuid ≠ uuid)
    (isVolume : volume.uuid = uuid) (enough : skipped.length < fuel) :
    scanVolumes node uuid fuel 0 scan =
      .ok ⟨some ((encode skipped).length, volume.size), some (encode skipped).length, 0⟩ := by
  obtain ⟨fuelLeft, rfl⟩ := Nat.exists_eq_add_of_lt enough
  have here : node.data = encode skipped ++ volume.bytes ++ (encode later ++ slack) := by
    rw [layout]
    simp
  have inUse : (encode skipped).length + volume.size ≤ node.used := by
    rw [used_eq]
    simp
  obtain ⟨left, walked⟩ := scanVolumes_skip [] (fuelLeft + 1) scan layout used_eq small others
    (cons_ne_nil volume later)
  rw [add_assoc, add_comm]
  exact walked.trans ((scanVolumes_step here inUse small).1 isVolume)

theorem scanVolumes_absent {last : Volume}
    (layout : node.data = encode (skipped ++ [last]) ++ slack)
    (used_eq : node.used = (encode (skipped ++ [last])).length)
    (small : node.used < 2 ^ 32) (others : ∀ other ∈ skipped ++ [last], other.uuid ≠ uuid)
    (enough : skipped.length < fuel) :
    ∃ ret : Int, ret ≠ 0 ∧
      scanVolumes node uuid fuel 0 scan = .ok ⟨none, some (encode skipped).length, ret⟩ := by
  obtain ⟨fuelLeft, rfl⟩ := Nat.exists_eq_add_of_lt enough
  have here : node.data = encode skipped ++ last.bytes ++ slack := by
    rw [layout]
    simp
  have atEnd : (encode skipped).length + last.size = node.used := by
    rw [used_eq]
    simp
  obtain ⟨left, walked⟩ := scanVolumes_skip [] (fuelLeft + 1) scan layout used_eq small
    (forall_mem_append.mp others).1 (cons_ne_nil last [])
  obtain ⟨ret, nonzero, step⟩ := (scanVolumes_step here atEnd.le small).2
    (others last (mem_concat_self))
  refine ⟨ret, nonzero, ?_⟩
  rw [add_assoc, add_comm]
  exact walked.trans (step.trans (if_neg atEnd.not_lt))

end Scan

/-- An entry the second loop stops at. -/
def Hits (item : MaskItem) (nameonly : Bool) (entry : Entry) : Prop :=
  (nameonly ∨ entry.mask &&& item.mask ≠ 0) ∧ entry.name = item.name

theorem strlen_name {name : CString} {padding : Nat}
    (layout : data = before ++ name.bytes ++ (replicate padding 0 ++ after))
    (terminated : 0 < padding) (position : offset = before.length) :
    strlen data offset = .ok name.bytes.length := by
  have nul : (name.bytes ++ (replicate padding 0 ++ after)).findIdx? (· = 0) =
      some name.bytes.length := by
    rw [findIdx?_append]
    have absent : name.bytes.findIdx? (· = 0) = none := by
      rw [findIdx?_eq_none_iff]
      intro byte held
      simp only [decide_eq_false_iff_not]
      rintro rfl
      exact name.nulFree held
    obtain ⟨count, rfl⟩ := exists_eq_succ_of_ne_zero terminated.ne'
    simp [absent, replicate_succ, findIdx?_cons]
  rw [strlen, layout, position, append_assoc, drop_left, nul]
  rfl

theorem entry_reads {entry : Entry} (layout : data = before ++ entry.bytes ++ after) :
    loadMask data before.length = .ok entry.mask ∧
      strlen data (before.length + 4) = .ok entry.name.bytes.length ∧
      load data (before.length + 4) entry.name.bytes.length = .ok entry.name.bytes := by
  have roomy := entry.extent_ge
  have atMask : data = before ++ word entry.mask.toNat ++ (entry.name.bytes ++
      (replicate (entry.extent - entry.name.bytes.length - 4) 0 ++ after)) := by
    rw [layout]
    simp [Entry.bytes]
  have atName : data = (before ++ word entry.mask.toNat) ++ entry.name.bytes ++
      (replicate (entry.extent - entry.name.bytes.length - 4) 0 ++ after) := by
    rw [layout]
    simp [Entry.bytes]
  have position : before.length + 4 = (before ++ word entry.mask.toNat).length := by
    rw [length_append, length_word]
  refine ⟨?_, strlen_name atName (by omega) position, ?_⟩
  · have mask : load data before.length 4 = .ok (word entry.mask.toNat) := by
      rw [atMask]
      exact load_block rfl rfl
    simp only [loadMask, mask]
    exact congrArg Except.ok (value_word_bitVec entry.mask)
  · rw [atName]
    exact load_block position rfl

theorem CString.bytes_inj {first second : CString} :
    first.bytes = second.bytes ↔ first = second := by
  constructor
  · intro equal
    cases first
    cases second
    cases equal
    rfl
  · exact congrArg CString.bytes

section Entries

variable {node : Node} {item : MaskItem} {nameonly : Bool} {t len : Nat} {before after : Bytes}
  {fuel : Nat}

theorem scanEntries_step {entry : Entry} {i : Nat}
    (layout : node.data = before ++ entry.bytes ++ after) (position : t + i = before.length) :
    (Hits item nameonly entry → scanEntries node item nameonly t len (fuel + 1) i =
      .ok (some before.length)) ∧
    (¬ Hits item nameonly entry → scanEntries node item nameonly t len (fuel + 1) i =
      if i + entry.extent < len then scanEntries node item nameonly t len fuel (i + entry.extent)
      else .ok none) := by
  obtain ⟨mask, length, name⟩ := entry_reads layout
  rw [← position] at mask length name
  have advance : i + 4 + align4 (entry.name.bytes.length + 1) = i + entry.extent := by
    rw [entry.extent_eq, add_assoc]
  constructor
  · rintro ⟨wanted, sameName⟩
    have test : (nameonly = true ∨ entry.mask &&& item.mask ≠ 0) ∧
        entry.name.bytes = item.name.bytes := ⟨wanted, CString.bytes_inj.mpr sameName⟩
    simp only [scanEntries, mask, length, name, ok_bind, pure_eq_ok]
    rw [if_pos test, position]
  · intro missed
    have test : ¬ ((nameonly = true ∨ entry.mask &&& item.mask ≠ 0) ∧
        entry.name.bytes = item.name.bytes) := by
      rintro ⟨wanted, sameName⟩
      exact missed ⟨wanted, CString.bytes_inj.mp sameName⟩
    simp only [scanEntries, mask, length, name, ok_bind, pure_eq_ok]
    rw [if_neg test, advance]

theorem entry_start (position : t + somask = before.length) (passed : List Entry) :
    t + (somask + (entriesBytes passed).length) = (before ++ entriesBytes passed).length := by
  rw [length_append, ← position, add_assoc]

theorem scanEntries_skip (passed : List Entry) {skipped rest : List Entry} (fuel : Nat)
    (layout : node.data = before ++ entriesBytes (passed ++ skipped ++ rest) ++ after)
    (len_eq : len = somask + (entriesBytes (passed ++ skipped ++ rest)).length)
    (position : t + somask = before.length) (misses : ∀ other ∈ skipped, ¬ Hits item nameonly other)
    (more : rest ≠ []) :
    scanEntries node item nameonly t len (fuel + skipped.length)
        (somask + (entriesBytes passed).length) =
      scanEntries node item nameonly t len fuel
        (somask + (entriesBytes (passed ++ skipped)).length) := by
  induction skipped generalizing passed with
  | nil =>
    rw [append_nil]
    rfl
  | cons head tail ih =>
    have here : node.data = (before ++ entriesBytes passed) ++ head.bytes ++
        (entriesBytes (tail ++ rest) ++ after) := by
      rw [layout]
      simp
    have inVolume : somask + (entriesBytes passed).length + head.extent < len := by
      obtain ⟨entry, later, rfl⟩ := exists_cons_of_ne_nil more
      have roomy := entry.extent_ge
      rw [len_eq]
      simp only [entriesBytes_append, entriesBytes_cons, length_append, Entry.length_bytes]
      omega
    have next : somask + (entriesBytes passed).length + head.extent =
        somask + (entriesBytes (passed ++ [head])).length := by
      simp [add_assoc]
    have shape : passed ++ head :: tail = passed ++ [head] ++ tail := by simp
    rw [shape] at layout len_eq ⊢
    rw [length_cons, ← add_assoc,
      (scanEntries_step here (entry_start position passed)).2 (misses head mem_cons_self),
      if_pos inVolume, next]
    exact ih _ layout len_eq (forall_mem_cons.mp misses).2

theorem scanEntries_found {skipped later : List Entry} {entry : Entry}
    (layout : node.data = before ++ entriesBytes (skipped ++ entry :: later) ++ after)
    (len_eq : len = somask + (entriesBytes (skipped ++ entry :: later)).length)
    (position : t + somask = before.length) (misses : ∀ other ∈ skipped, ¬ Hits item nameonly other)
    (hits : Hits item nameonly entry) (enough : skipped.length < fuel) :
    scanEntries node item nameonly t len fuel somask =
      .ok (some (before.length + (entriesBytes skipped).length)) := by
  obtain ⟨fuelLeft, rfl⟩ := Nat.exists_eq_add_of_lt enough
  have here : node.data = (before ++ entriesBytes skipped) ++ entry.bytes ++
      (entriesBytes later ++ after) := by
    rw [layout]
    simp
  have start := entry_start position skipped
  have walked := scanEntries_skip [] (fuelLeft + 1) layout len_eq position misses
    (cons_ne_nil entry later)
  rw [add_assoc, add_comm, ← length_append]
  exact walked.trans ((scanEntries_step here start).1 hits)

theorem scanEntries_absent {entries : List Entry}
    (layout : node.data = before ++ entriesBytes entries ++ after)
    (len_eq : len = somask + (entriesBytes entries).length)
    (position : t + somask = before.length) (misses : ∀ other ∈ entries, ¬ Hits item nameonly other)
    (nonempty : entries ≠ []) (enough : entries.length ≤ fuel) :
    scanEntries node item nameonly t len fuel somask = .ok none := by
  obtain ⟨skipped, last, rfl⟩ := (eq_nil_or_concat' entries).resolve_left nonempty
  rw [length_append] at enough
  obtain ⟨fuelLeft, rfl⟩ := Nat.exists_eq_add_of_lt enough
  have here : node.data = (before ++ entriesBytes skipped) ++ last.bytes ++ after := by
    rw [layout]
    simp
  have start := entry_start position skipped
  have atEnd : len = somask + (entriesBytes skipped).length + last.extent := by
    rw [len_eq]
    simp [add_assoc]
  have walked := scanEntries_skip [] (fuelLeft + 1) layout len_eq position
    (forall_mem_append.mp misses).1 (cons_ne_nil last [])
  rw [add_assoc, add_comm]
  refine walked.trans (((scanEntries_step here start).2 ?_).trans (if_neg atEnd.not_gt))
  exact misses last (mem_concat_self)

end Entries

end Elkeid.FileNotify
