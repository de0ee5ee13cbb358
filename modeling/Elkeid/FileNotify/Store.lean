import Elkeid.FileNotify.Insert

/-!
# `mask_insert` as an operation on the table

The retries of `_mask_insert` only change the size of the buffer. Once it holds
the bytes needed, the insertion adds the bits to the table, unless it leaves the
buffer: that happens exactly when a new name goes to a volume that is there and
fewer than `somask` bytes stay free.
-/

namespace Elkeid.FileNotify

open Foundations List

/-- Size of the buffer when the retries end; `none` when an allocation is refused. -/
def settledSize (grant : Nat → Bool) (need : Nat) : Nat → Nat → Option Nat
  | 0, _ => none
  | fuel + 1, size =>
    if need ≤ size then some size
    else if nextSize size ≤ kmallocMaxSize ∧ grant (nextSize size) then
      settledSize grant need fuel (nextSize size)
    else none

theorem lt_nextSize (size : Nat) : size < nextSize size := by
  unfold nextSize fileNotifyChecklistLimit
  split <;> omega

section Grow

variable {grant : Nat → Bool} {node : Node} {item : MaskItem} {volumes : List Volume}

theorem growThenRetry_granted (packed : Packed node volumes)
    (granted : nextSize node.size ≤ kmallocMaxSize ∧ grant (nextSize node.size)) :
    ∃ grown, growThenRetry grant node = .ok (.retry grown) ∧ Packed grown volumes ∧
      grown.size = nextSize node.size := by
  obtain ⟨slack, layout⟩ := packed.contents
  have larger := lt_nextSize node.size
  have inside : node.used ≤ node.size := packed.used_le
  have kept : load node.data 0 node.used = .ok (encode volumes) := by
    rw [layout, show encode volumes ++ slack = [] ++ encode volumes ++ slack by simp]
    exact load_block rfl packed.used_eq
  have copied : save (replicate (nextSize node.size) 0) 0 (encode volumes) =
      .ok (encode volumes ++ replicate (nextSize node.size - node.used) 0) := by
    have zeros : replicate (nextSize node.size) (0 : UInt8) = [] ++
        replicate node.used 0 ++ replicate (nextSize node.size - node.used) 0 := by
      rw [nil_append, replicate_append_replicate]
      congr 1
      omega
    rw [zeros]
    apply save_block rfl
    rw [length_replicate, packed.used_eq]
  have length : (encode volumes ++ replicate (nextSize node.size - node.used) 0).length =
      nextSize node.size := by
    rw [length_append, length_replicate, ← packed.used_eq]
    omega
  refine ⟨⟨node.used, encode volumes ++ replicate (nextSize node.size - node.used) 0⟩, ?_,
    ⟨⟨_, rfl⟩, packed.used_eq, ?_, packed.distinct⟩, length⟩
  · simp [growThenRetry, maskRealloc, kzalloc, if_pos granted, kept, copied]
  · rw [length]
    exact granted.1

theorem growThenRetry_refused
    (refused : ¬ (nextSize node.size ≤ kmallocMaxSize ∧ grant (nextSize node.size))) :
    growThenRetry grant node = .ok (.finished enomem node) := by
  simp [growThenRetry, maskRealloc, kzalloc, if_neg refused]

theorem insertLoop_settled {need : Nat} {body : Node → Except Fault Node}
    (once : ∀ other, Packed other volumes → insertOnce grant other item =
      if other.size < need then growThenRetry grant other
      else (body other).map (fun result => .finished 0 result)) {fuel : Nat}
    (packed : Packed node volumes) (enough : kmallocMaxSize + 2 ≤ fuel + node.size) :
    (settledSize grant need fuel node.size = none ∧
      ∃ last, Packed last volumes ∧ insertLoop grant item fuel node = .ok (enomem, last)) ∨
    ∃ final last, settledSize grant need fuel node.size = some final ∧ Packed last volumes ∧
      last.size = final ∧ need ≤ final ∧
      insertLoop grant item fuel node = (body last).map (fun result => (0, result)) := by
  induction fuel generalizing node with
  | zero =>
    have bounded : node.size ≤ kmallocMaxSize := packed.bounded
    omega
  | succ fuel ih =>
    by_cases fits : need ≤ node.size
    · refine .inr ⟨node.size, node, ?_, packed, rfl, fits, ?_⟩
      · rw [settledSize, if_pos fits]
      · rw [insertLoop, once node packed, if_neg (Nat.not_lt.mpr fits)]
        cases body node <;> rfl
    · by_cases granted : nextSize node.size ≤ kmallocMaxSize ∧ grant (nextSize node.size)
      · obtain ⟨grown, retried, grownPacked, grownSize⟩ := growThenRetry_granted packed granted
        have larger := lt_nextSize node.size
        have settled : settledSize grant need (fuel + 1) node.size =
            settledSize grant need fuel grown.size := by
          rw [settledSize, if_neg fits, if_pos granted, grownSize]
        have again : insertLoop grant item (fuel + 1) node = insertLoop grant item fuel grown := by
          rw [insertLoop, once node packed, if_pos (Nat.not_le.mp fits), retried]
          rfl
        rw [settled, again]
        exact ih grownPacked (by omega)
      · refine .inl ⟨?_, node, packed, ?_⟩
        · rw [settledSize, if_neg fits, if_neg granted]
        · rw [insertLoop, once node packed, if_pos (Nat.not_le.mp fits),
            growThenRetry_refused granted]
          rfl

end Grow

@[simp]
theorem hits_nameonly {item : MaskItem} {entry : Entry} :
    Hits item true entry ↔ entry.name = item.name := by
  simp [Hits]

/-- The entry of the item: the first of its name, in the volume of its uuid. -/
structure EntryAt (item : MaskItem) (volume : Volume) (skipped : List Entry) (entry : Entry)
    (rest : List Entry) : Prop where
  isVolume : volume.uuid = item.uuid
  entries : volume.entries = skipped ++ entry :: rest
  misses : ∀ other ∈ skipped, other.name ≠ item.name
  isEntry : entry.name = item.name

section Once

variable {grant : Nat → Bool} {node : Node} {item : MaskItem} {before later : List Volume}
  {volume : Volume}

theorem assertTag_ok {tag : Nat} (marked : load node.data tag sotag = .ok sttag) :
    assertTag node.data (some tag) = .ok () := by
  simp [assertTag, marked]

theorem EntryAt.lookup {skipped rest : List Entry} {entry : Entry}
    (isAt : EntryAt item volume skipped entry rest)
    (packed : Packed node (before ++ volume :: later)) :
    maskLookup node item true = .ok (node, ⟨some (encode before).length,
      some ((encode before).length + somask + (entriesBytes skipped).length), 0⟩) := by
  apply packed.lookup_hit isAt.isVolume isAt.entries
  · simpa using isAt.misses
  · simpa using isAt.isEntry

theorem insertOnce_present (grant : Nat → Bool) {skipped rest : List Entry} {entry : Entry}
    (isAt : EntryAt item volume skipped entry rest)
    (packed : Packed node (before ++ volume :: later)) :
    ∃ data, insertOnce grant node item = .ok (.finished 0 ⟨node.used, data⟩) ∧
      Packed ⟨node.used, data⟩
        (before ++ volume.remask isAt.entries (entry.mask ||| item.mask) :: later) := by
  obtain ⟨loaded, data, saved, result⟩ := packed.remask isAt.entries (entry.mask ||| item.mask)
  refine ⟨data, ?_, result⟩
  simp [insertOnce, isAt.lookup packed, loaded, saved]

theorem insertOnce_extend (packed : Packed node (before ++ volume :: later))
    (isVolume : volume.uuid = item.uuid)
    (fresh : ∀ other ∈ volume.entries, other.name ≠ item.entry.name) :
    insertOnce grant node item =
      if node.size < node.used + entryLen item then growThenRetry grant node
      else (addEntry node (encode before).length item (entryLen item)).map
        (fun result => .finished 0 result) := by
  have missed : maskLookup node item true = _ :=
    packed.lookup_miss isVolume (by simpa [MaskItem.entry] using fresh)
  simp only [insertOnce, missed, assertTag_ok packed.tagSize_eq.1, bind, Except.bind, if_true,
    pure, Except.pure]
  split
  · rfl
  · cases addEntry node (encode before).length item (entryLen item) <;> rfl

/-- The insertion of a volume with the lookup that chooses its place. -/
def insertNew (node : Node) (item : MaskItem) : Except Fault Node := do
  let (node, mi) ← maskLookup node item true
  addVolume node mi item (somask + entryLen item)

theorem insertOnce_append {volumes : List Volume} (packed : Packed node volumes)
    (absent : ∀ other ∈ volumes, other.uuid ≠ item.uuid) :
    insertOnce grant node item =
      if node.size < node.used + (somask + entryLen item) then growThenRetry grant node
      else (insertNew node item).map (fun result => .finished 0 result) := by
  rcases eq_nil_or_concat volumes with rfl | ⟨init, last, rfl⟩
  · simp only [insertOnce, insertNew, packed.lookup_nil item true, assertTag, ok_bind, pure_eq_ok,
      reduceCtorEq, Int.reduceNeg, if_false]
    split
    · rfl
    · cases addVolume node ⟨none, none, -1⟩ item (somask + entryLen item) <;> rfl
  · rw [concat_eq_append] at packed absent
    obtain ⟨ret, nonzero, missed⟩ := packed.lookup_absent absent true
    simp only [insertOnce, insertNew, missed, assertTag_ok packed.tagSize_eq.1, bind, Except.bind,
      nonzero, if_false, pure, Except.pure]
    split
    · rfl
    · cases addVolume node ⟨some (encode init).length, none, ret⟩ item (somask + entryLen item) <;>
        rfl

theorem insertNew_packed {volumes : List Volume} (packed : Packed node volumes)
    (absent : ∀ other ∈ volumes, other.uuid ≠ item.uuid)
    (room : node.used + (somask + entryLen item) ≤ node.size) :
    ∃ before later result, volumes = before ++ later ∧ insertNew node item = .ok result ∧
      Packed result (before ++ freshVolume item :: later) := by
  rcases eq_nil_or_concat volumes with rfl | ⟨init, last, rfl⟩
  · obtain ⟨filled, put, result⟩ := packed.addVolume_append absent room
    refine ⟨[], [], _, rfl, ?_, result⟩
    simp [insertNew, packed.lookup_nil item true, addVolume, put]
  · rw [concat_eq_append] at packed absent ⊢
    obtain ⟨ret, nonzero, missed⟩ := packed.lookup_absent absent true
    by_cases above : 0 < ret
    · obtain ⟨moved, filled, move, put, result⟩ := packed.addVolume_before_last absent room
      refine ⟨init, [last], _, rfl, ?_, result⟩
      simp [insertNew, missed, addVolume, above, move, put]
    · obtain ⟨filled, put, result⟩ := packed.addVolume_append absent room
      refine ⟨init ++ [last], [], _, (append_nil _).symm, ?_, result⟩
      simp [insertNew, missed, addVolume, above, put]

end Once

def Masked (volumes : List Volume) : Prop :=
  ∀ volume ∈ volumes, ∀ entry ∈ volume.entries, entry.mask ≠ 0

theorem masked_around {before later : List Volume} {volume : Volume} :
    Masked (before ++ volume :: later) ↔
      Masked (before ++ later) ∧ ∀ entry ∈ volume.entries, entry.mask ≠ 0 := by
  simp only [Masked, mem_append, mem_cons]
  constructor
  · intro masked
    refine ⟨?_, masked volume (.inr (.inl rfl))⟩
    rintro other (early | late)
    · exact masked other (.inl early)
    · exact masked other (.inr (.inr late))
  · rintro ⟨others, own⟩ other (early | rfl | late)
    · exact others other (.inl early)
    · exact own
    · exact others other (.inr late)

section Tables

variable {item : MaskItem} {before later : List Volume} {volume : Volume}

theorem maskOf_fresh (absent : ∀ other ∈ before ++ later, other.uuid ≠ item.uuid) :
    maskOf (before ++ freshVolume item :: later) = (maskOf (before ++ later)).add item := by
  funext uuid name
  have isFresh : ∀ other ∈ before, other.uuid ≠ (freshVolume item).uuid :=
    fun other listed => absent other (mem_append_left _ listed)
  have uuidEq : (freshVolume item).uuid = item.uuid := rfl
  rw [maskOf_split isFresh, uuidEq, Table.add]
  by_cases sameUuid : uuid = item.uuid
  · have noMask : maskOf (before ++ later) uuid name = 0 := by
      rw [sameUuid]
      exact maskOf_absent absent
    by_cases sameName : name = item.name
    · rw [if_pos sameUuid, if_pos ⟨sameUuid, sameName⟩, noMask]
      simp [freshVolume, entryMask, MaskItem.entry, sameName]
    · rw [if_pos sameUuid, if_neg (fun both => sameName both.2), noMask]
      simp [freshVolume, entryMask, MaskItem.entry, sameName]
  · rw [if_neg sameUuid, if_neg (fun both => sameUuid both.1)]

theorem maskOf_extend (unique : ∀ other ∈ before, other.uuid ≠ volume.uuid)
    (isVolume : volume.uuid = item.uuid)
    (fresh : ∀ other ∈ volume.entries, other.name ≠ item.entry.name) :
    maskOf (before ++ volume.extend item.entry fresh :: later) =
      (maskOf (before ++ volume :: later)).add item := by
  funext uuid name
  apply maskOf_update (volume.extend item.entry fresh) (· ||| item.mask) unique rfl isVolume
  intro entryName
  by_cases sameName : entryName = item.name
  · have noMask : entryMask volume.entries entryName = 0 := by
      rw [sameName]
      exact entryMask_absent fresh
    rw [if_pos sameName, noMask]
    simp [Volume.extend, entryMask, MaskItem.entry, sameName]
  · rw [if_neg sameName]
    simp [Volume.extend, entryMask, MaskItem.entry, sameName]

theorem maskOf_remask {skipped rest : List Entry} {entry : Entry} (update : BitVec 32 → BitVec 32)
    (unique : ∀ other ∈ before, other.uuid ≠ volume.uuid)
    (isAt : EntryAt item volume skipped entry rest) (uuid : Uuid) (name : CString) :
    maskOf (before ++ volume.remask isAt.entries (update entry.mask) :: later) uuid name =
      if uuid = item.uuid ∧ name = item.name then
        update (maskOf (before ++ volume :: later) uuid name)
      else maskOf (before ++ volume :: later) uuid name := by
  obtain ⟨isVolume, entries, misses, isEntry⟩ := isAt
  apply maskOf_update (volume.remask entries (update entry.mask)) update unique rfl isVolume
  intro entryName
  have missesEntry : ∀ other ∈ skipped, other.name ≠ entry.name := by
    rw [isEntry]
    exact misses
  have changed : entryMask (volume.remask entries (update entry.mask)).entries entryName =
      if entryName = entry.name then update entry.mask
      else entryMask (skipped ++ rest) entryName := by
    change entryMask (skipped ++ ⟨entry.name, update entry.mask⟩ :: rest) entryName = _
    apply entryMask_split
    exact missesEntry
  rw [changed, entries, entryMask_split missesEntry, isEntry]
  by_cases sameName : entryName = item.name
  · rw [if_pos sameName, if_pos sameName, if_pos sameName]
  · rw [if_neg sameName, if_neg sameName, if_neg sameName]

end Tables

theorem masked_remask {volume : Volume} {skipped rest : List Entry} {entry : Entry}
    (entries : volume.entries = skipped ++ entry :: rest)
    (masked : ∀ other ∈ volume.entries, other.mask ≠ 0) {mask : BitVec 32}
    (keeps : entry.mask ≠ 0 → mask ≠ 0) :
    ∀ other ∈ (volume.remask entries mask).entries, other.mask ≠ 0 := by
  rw [entries, forall_mem_append, forall_mem_cons] at masked
  obtain ⟨early, own, late⟩ := masked
  exact forall_mem_append.mpr ⟨early, forall_mem_cons.mpr ⟨keeps own, late⟩⟩

/-- The lookup finds the volume of the item and not its name. -/
def NewName (node : Node) (item : MaskItem) : Prop :=
  ∃ tag, maskLookup node item true = .ok (node, ⟨some tag, none, 0⟩)

/-- An insertion of a new name into a volume that is there leaves `somask` bytes
free in the buffer it finally writes to. -/
def Roomy (grant : Nat → Bool) (node : Node) (item : MaskItem) : Prop :=
  NewName node item → ∀ final,
    settledSize grant (node.used + entryLen item) (kmallocMaxSize + 2) node.size = some final →
      node.used + entryLen item + somask ≤ final

section Insert

variable {grant : Nat → Bool} {node : Node} {item : MaskItem} {volumes before later : List Volume}
  {volume : Volume}

/-- What a finished insertion leaves: the bits are in, or memory ran out. -/
def Inserted (table : Table) (item : MaskItem) (outcome : Int × Node) : Prop :=
  ∃ volumes, Packed outcome.2 volumes ∧
    ((outcome.1 = 0 ∧ maskOf volumes = table.add item) ∨
      (outcome.1 = enomem ∧ maskOf volumes = table))

/-- The same with the volumes: none loses its bits, and those of a failed insertion stay. -/
def InsertedInto (volumes : List Volume) (item : MaskItem) (outcome : Int × Node) : Prop :=
  ∃ changed, Packed outcome.2 changed ∧
    (item.mask ≠ 0 → Masked volumes → Masked changed) ∧
    ((outcome.1 = 0 ∧ maskOf changed = (maskOf volumes).add item) ∨
      (outcome.1 = enomem ∧ changed = volumes))

theorem InsertedInto.inserted {outcome : Int × Node}
    (inserted : InsertedInto volumes item outcome) :
    Inserted (maskOf volumes) item outcome := by
  obtain ⟨changed, packed, _, added | ⟨refused, rfl⟩⟩ := inserted
  · exact ⟨changed, packed, .inl added⟩
  · exact ⟨changed, packed, .inr ⟨refused, rfl⟩⟩

theorem or_ne_zero {first : BitVec 32} (second : BitVec 32) (nonzero : first ≠ 0) :
    first ||| second ≠ 0 := by
  intro zero
  exact nonzero (BitVec.or_eq_zero_iff.mp zero).1

theorem maskInsert_present {skipped rest : List Entry} {entry : Entry}
    (isAt : EntryAt item volume skipped entry rest)
    (packed : Packed node (before ++ volume :: later)) :
    ∃ outcome, maskInsert grant node item = .ok outcome ∧
      InsertedInto (before ++ volume :: later) item outcome := by
  obtain ⟨data, once, result⟩ := insertOnce_present grant isAt packed
  refine ⟨(0, ⟨node.used, data⟩), ?_, _, result, ?_, .inl ⟨rfl, ?_⟩⟩
  · simp [maskInsert, insertLoop, once]
  · intro _ masked
    obtain ⟨others, own⟩ := masked_around.mp masked
    exact masked_around.mpr ⟨others, masked_remask isAt.entries own (or_ne_zero item.mask)⟩
  · funext uuid name
    exact maskOf_remask (· ||| item.mask) packed.not_mem_before isAt uuid name

theorem maskInsert_extend (packed : Packed node (before ++ volume :: later))
    (isVolume : volume.uuid = item.uuid)
    (fresh : ∀ other ∈ volume.entries, other.name ≠ item.entry.name) :
    (Roomy grant node item → ∃ outcome, maskInsert grant node item = .ok outcome ∧
      InsertedInto (before ++ volume :: later) item outcome) ∧
    (¬ Roomy grant node item → maskInsert grant node item = .error .outOfBounds) := by
  have once : ∀ other, Packed other (before ++ volume :: later) → insertOnce grant other item =
      if other.size < node.used + entryLen item then growThenRetry grant other
      else (addEntry other (encode before).length item (entryLen item)).map
        (fun result => .finished 0 result) := by
    intro other otherPacked
    rw [packed.used_eq, ← otherPacked.used_eq]
    exact insertOnce_extend otherPacked isVolume fresh
  have newName : NewName node item :=
    ⟨_, packed.lookup_miss isVolume (by simpa [MaskItem.entry] using fresh)⟩
  have enough : kmallocMaxSize + 2 ≤ kmallocMaxSize + 2 + node.size := Nat.le_add_right _ _
  rcases insertLoop_settled once packed enough with
    ⟨refused, last, lastPacked, outcome⟩ | ⟨final, last, settled, lastPacked, size, _, outcome⟩
  · have roomy : Roomy grant node item := by
      intro _ final settled
      rw [refused] at settled
      cases settled
    exact ⟨fun _ => ⟨_, outcome, _, lastPacked, fun _ masked => masked, .inr ⟨rfl, rfl⟩⟩,
      fun cramped => absurd roomy cramped⟩
  · have used : last.used = node.used := by rw [lastPacked.used_eq, packed.used_eq]
    constructor
    · intro roomy
      have room : last.used + entryLen item + somask ≤ last.size := by
        rw [used, size]
        exact roomy newName final settled
      obtain ⟨data, added, result⟩ := lastPacked.addEntry_inside fresh room
      refine ⟨(0, ⟨last.used + entryLen item, data⟩), ?_, _, result, ?_, .inl ⟨rfl, ?_⟩⟩
      · rw [maskInsert, outcome, added]
        rfl
      · intro hasBits masked
        obtain ⟨others, own⟩ := masked_around.mp masked
        exact masked_around.mpr ⟨others, forall_mem_cons.mpr ⟨hasBits, own⟩⟩
      · exact maskOf_extend packed.not_mem_before isVolume fresh
    · intro cramped
      have full : last.size < last.used + entryLen item + somask := by
        by_contra room
        apply cramped
        intro _ other otherSettled
        rw [settled, Option.some.injEq] at otherSettled
        omega
      rw [maskInsert, outcome, lastPacked.addEntry_outside fresh full]
      rfl

theorem maskInsert_append (packed : Packed node volumes)
    (absent : ∀ other ∈ volumes, other.uuid ≠ item.uuid) :
    ∃ outcome, maskInsert grant node item = .ok outcome ∧ InsertedInto volumes item outcome := by
  have once : ∀ other, Packed other volumes → insertOnce grant other item =
      if other.size < node.used + (somask + entryLen item) then growThenRetry grant other
      else (insertNew other item).map (fun result => .finished 0 result) := by
    intro other otherPacked
    rw [packed.used_eq, ← otherPacked.used_eq]
    exact insertOnce_append otherPacked absent
  have enough : kmallocMaxSize + 2 ≤ kmallocMaxSize + 2 + node.size := Nat.le_add_right _ _
  rcases insertLoop_settled once packed enough with
    ⟨_, last, lastPacked, outcome⟩ | ⟨final, last, _, lastPacked, size, room, outcome⟩
  · exact ⟨_, outcome, _, lastPacked, fun _ masked => masked, .inr ⟨rfl, rfl⟩⟩
  · have used : last.used = node.used := by rw [lastPacked.used_eq, packed.used_eq]
    obtain ⟨before, later, result, rfl, inserted, resultPacked⟩ :=
      insertNew_packed lastPacked absent (by omega)
    refine ⟨(0, result), ?_, _, resultPacked, ?_, .inl ⟨rfl, maskOf_fresh absent⟩⟩
    · rw [maskInsert, outcome, inserted]
      rfl
    · intro hasBits masked
      exact masked_around.mpr ⟨masked, forall_mem_singleton.mpr hasBits⟩

theorem maskInsert_into (packed : Packed node volumes) (grant : Nat → Bool) (item : MaskItem) :
    (Roomy grant node item → ∃ outcome, maskInsert grant node item = .ok outcome ∧
      InsertedInto volumes item outcome) ∧
    (¬ Roomy grant node item → maskInsert grant node item = .error .outOfBounds) := by
  rcases first_split (fun volume : Volume => volume.uuid = item.uuid) volumes with
    ⟨before, volume, later, rfl, _, isVolume⟩ | absent
  · rcases first_split (fun entry : Entry => entry.name = item.name) volume.entries with
      ⟨skipped, entry, rest, entries, misses, isEntry⟩ | fresh
    · have isAt : EntryAt item volume skipped entry rest := ⟨isVolume, entries, misses, isEntry⟩
      have roomy : Roomy grant node item := by
        rintro ⟨tag, missed⟩
        rw [isAt.lookup packed] at missed
        cases missed
      exact ⟨fun _ => maskInsert_present isAt packed, fun cramped => absurd roomy cramped⟩
    · exact maskInsert_extend packed isVolume fresh
  · refine ⟨fun _ => maskInsert_append packed absent, ?_⟩
    intro cramped
    exfalso
    apply cramped
    rintro ⟨tag, missed⟩
    obtain ⟨_, ret, nonzero, other⟩ := packed.lookup_none absent true
    rw [other] at missed
    simp only [Except.ok.injEq, Prod.mk.injEq, MaskInfo.mk.injEq] at missed
    exact absurd missed.2.2.2 nonzero

theorem maskInsert_spec (packed : Packed node volumes) (grant : Nat → Bool) (item : MaskItem) :
    (Roomy grant node item → ∃ outcome, maskInsert grant node item = .ok outcome ∧
      Inserted (maskOf volumes) item outcome) ∧
    (¬ Roomy grant node item → maskInsert grant node item = .error .outOfBounds) := by
  obtain ⟨returns, leaves⟩ := maskInsert_into packed grant item
  refine ⟨?_, leaves⟩
  intro roomy
  obtain ⟨outcome, inserted, into⟩ := returns roomy
  exact ⟨outcome, inserted, into.inserted⟩

end Insert

end Elkeid.FileNotify
