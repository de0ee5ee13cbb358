import Elkeid.Foundations.Collect
import Elkeid.Discovery.Endpoint

/-!
# Selecting instances

`Endpoint.Fetch` and the algorithms of `server/service_discovery/endpoint/utils.go`. `sort.Sort`
is any function that puts the items in order, the range over the map visits its entries
in any order, and a random source may give any numbers below the bound. `FetchMinN` is
right for every number of instances. `FetchMaxN` leaves its loop at the first index, so it
is right only where all instances are wanted.
-/

namespace Elkeid.Discovery

open Foundations Foundations.Text Foundations.Machine List

structure Item where
  score : Int
  data : Registry

/-- `sort.Sort` with `Less` on the scores. It need not be stable. -/
structure Sorter where
  sort : List Item → List Item
  perm : ∀ items, (sort items).Perm items
  sorted : ∀ items, (sort items).Pairwise (fun first second => ¬ second.score < first.score)

/-- The order in which `range` visits a map. -/
structure MapOrder where
  visit : List Registry → List Registry
  perm : ∀ entries, (visit entries).Perm entries

/-- The numbers of `rand.Rand.Int31n`, drawn one after another. -/
structure RandomSource where
  int31n : Nat → Int → Int
  nonneg : ∀ index bound, 0 < bound → 0 ≤ int31n index bound
  below : ∀ index bound, 0 < bound → int31n index bound < bound

/-- With `none` for an algorithm that does not return. -/
abbrev FetchAlgorithm := List Item → Int → Option (List Item)

def minLoop (n : Int) : Nat → List Item → List Item
  | _, [] => []
  | i, item :: rest => if (i : Int) ≥ n then [] else item :: minLoop n (i + 1) rest

def fetchMinN (sorter : Sorter) (items : List Item) (n : Int) : List Item :=
  if items.length = 0 then [] else minLoop n 0 (sorter.sort items)

/-- The loop of `FetchMaxN`, with `i + 1` for its index `i`. -/
def maxLoop (items : List Item) (n : Int) : Nat → List Item
  | 0 => []
  | i + 1 => if (i : Int) ≥ n then [] else (items[i]?).toList ++ maxLoop items n i

def fetchMaxN (sorter : Sorter) (items : List Item) (n : Int) : List Item :=
  if items.length = 0 then [] else maxLoop (sorter.sort items) n items.length

def int32 (n : Int) : Int := n.bmod (2 ^ 32)

/-- `Int31n` panics unless its bound is positive. -/
def genRandomNumbers (source : RandomSource) (fuel : Nat) (first last count : Int) :
    Option (List Int) :=
  if last < first ∨ last - first < count then some []
  else if 0 < count ∧ int32 (last - first) ≤ 0 then none
  else
    collect (fun index => source.int31n index (int32 (last - first)) + first) count.toNat fuel 0 []

/-- An index that is out of range panics. -/
def pick (items : List Item) : List Int → Option (List Item)
  | [] => some []
  | i :: rest =>
    if i < 0 then none
    else
      match items[i.toNat]? with
      | none => none
      | some item => (pick items rest).map (item :: ·)

def fetchRandomN (source : RandomSource) (fuel : Nat) (items : List Item) (n : Int) :
    Option (List Item) :=
  if (items.length : Int) ≤ n then some items
  else (genRandomNumbers source fuel 0 items.length n).bind (pick items)

def itemsOf (order : MapOrder) (registered : List Registry) : List Item :=
  (order.visit registered).map (fun reg => ⟨reg.weight, reg⟩)

def noInstance (name : Bytes) : Bytes :=
  ofChars "server ".toList ++ name ++ ofChars " no instance".toList

def Endpoint.fetch (endpoint : Endpoint) (order : MapOrder) (name : Bytes) (n : Int)
    (algorithm : FetchAlgorithm) : Option (Except Bytes (List Registry)) :=
  match endpoint.registryMap.get name with
  | none => some (.error (noInstance name))
  | some regMap =>
    let items := itemsOf order (regMap.entries.map Sigma.snd)
    (algorithm items n).map (fun chosen => .ok (chosen.map Item.data))

/-! ## The loops -/

theorem minLoop_eq_take (n : Int) (i : Nat) (items : List Item) :
    minLoop n i items = items.take (n - i).toNat := by
  induction items generalizing i with
  | nil => simp [minLoop]
  | cons item rest ih =>
    rw [minLoop]
    split
    next past =>
      have none : (n - i).toNat = 0 := Int.toNat_of_nonpos (Int.sub_nonpos_of_le past)
      rw [none, take_zero]
    next before =>
      have more : (n - i).toNat = (n - (i + 1 : Nat)).toNat + 1 := by omega
      rw [more, take_succ_cons, ih]

variable {items : List Item}

theorem maxLoop_of_le {n : Int} {i : Nat} (inside : i ≤ items.length)
    (wanted : (i : Int) ≤ n) : maxLoop items n i = (items.take i).reverse := by
  induction i with
  | zero => rfl
  | succ i ih =>
    have before : ¬ (i : Int) ≥ n := by omega
    rw [maxLoop, if_neg before, ih (Nat.le_of_succ_le inside) (by omega),
      take_add_one, reverse_append]
    cases items[i]? <;> rfl

theorem maxLoop_of_lt {n : Int} {i : Nat} (more : n < i) : maxLoop items n i = [] := by
  cases i with
  | zero => rfl
  | succ i =>
    have past : (i : Int) ≥ n := by omega
    rw [maxLoop, if_pos past]

theorem int32_le {n : Int} (nonneg : 0 ≤ n) (positive : 0 < int32 n) : int32 n ≤ n := by
  rw [int32, Int.bmod_def] at *
  split at * <;> omega

theorem pick_of_inside {indices : List Int} (inside : ∀ i ∈ indices, 0 ≤ i ∧ i < items.length) :
    ∃ picked, pick items indices = some picked ∧
      picked.map some = indices.map (fun i => items[i.toNat]?) := by
  induction indices with
  | nil => exact ⟨[], rfl, rfl⟩
  | cons i rest ih =>
    obtain ⟨nonneg, below⟩ := inside i mem_cons_self
    obtain ⟨picked, isPicked, same⟩ := ih fun other listed =>
      inside other (mem_cons_of_mem i listed)
    have inRange : i.toNat < items.length := by omega
    refine ⟨items[i.toNat] :: picked, ?_, ?_⟩
    · rw [pick, if_neg (Int.not_lt.mpr nonneg), getElem?_eq_getElem inRange, isPicked]
      rfl
    · rw [map_cons, map_cons, same, getElem?_eq_getElem inRange]

theorem filterMap_of_map_eq {Key Value : Type} {keys : List Key} {values : List Value}
    {view : Key → Option Value} (same : values.map some = keys.map view) :
    keys.filterMap view = values := by
  have filtered := congrArg (filterMap id) same
  simpa [filterMap_map] using filtered.symm

theorem filterMap_range (items : List Item) :
    (range items.length).filterMap (fun i => items[i]?) = items := by
  refine filterMap_of_map_eq (ext_getElem (by simp) ?_)
  intro i inRange alsoInRange
  simp only [length_map] at inRange
  simp [inRange]

theorem subperm_of_picked {picked : List Item} {indices : List Int}
    (nodup : indices.Nodup) (inside : ∀ i ∈ indices, 0 ≤ i ∧ i < items.length)
    (same : picked.map some = indices.map (fun i => items[i.toNat]?)) : picked.Subperm items := by
  have distinct : (indices.map Int.toNat).Nodup := by
    refine List.Nodup.map_on ?_ nodup
    intro i listed j alsoListed equal
    have first := inside i listed
    have second := inside j alsoListed
    omega
  have inRange : indices.map Int.toNat ⊆ range items.length := by
    intro position listed
    obtain ⟨i, isIndex, rfl⟩ := mem_map.mp listed
    have bounds := inside i isIndex
    exact mem_range.mpr (by omega)
  have isPicked : (indices.map Int.toNat).filterMap (fun i => items[i]?) = picked := by
    refine filterMap_of_map_eq ?_
    rw [map_map]
    exact same
  obtain ⟨order, isOrder, sublist⟩ := subperm_of_subset distinct inRange
  refine ⟨order.filterMap (fun i => items[i]?), ?_, ?_⟩
  · exact isPicked ▸ isOrder.filterMap _
  · have filtered := sublist.filterMap (fun i => items[i]?)
    rwa [filterMap_range] at filtered

/-! ## What is selected -/

/-- As many different registered instances as wanted, or all. -/
structure Selected (registered : List Registry) (n : Int) (chosen : List Registry) : Prop where
  length_eq : (chosen.length : Int) = min n registered.length
  distinct : (chosen.map Registry.subKey).Nodup
  isRegistered : ∀ reg ∈ chosen, reg ∈ registered

def NoSmallerLeft (registered chosen : List Registry) : Prop :=
  ∀ left ∈ registered, left ∉ chosen → ∀ kept ∈ chosen, kept.weight ≤ left.weight

def NoLargerLeft (registered chosen : List Registry) : Prop :=
  ∀ left ∈ registered, left ∉ chosen → ∀ kept ∈ chosen, left.weight ≤ kept.weight

inductive Algorithm
  | minN
  | maxN
  | randomN
  deriving DecidableEq

namespace Algorithm

def run (sorter : Sorter) (source : RandomSource) (fuel : Nat) : Algorithm → FetchAlgorithm
  | minN => fun items n => some (fetchMinN sorter items n)
  | maxN => fun items n => some (fetchMaxN sorter items n)
  | randomN => fetchRandomN source fuel

def Right (registered : List Registry) (n : Int) (chosen : List Registry) : Algorithm → Prop
  | minN => Selected registered n chosen ∧ NoSmallerLeft registered chosen
  | maxN => Selected registered n chosen ∧ NoLargerLeft registered chosen
  | randomN => Selected registered n chosen

/-- `FetchMaxN` must want all instances; `FetchRandomN` must want all, or its source must
come up with as many different indices as are wanted. -/
def Works (source : RandomSource) (size : Nat) (n : Int) : Algorithm → Prop
  | minN => True
  | maxN => (size : Int) ≤ n
  | randomN => (size : Int) ≤ n ∨ (0 < int32 size ∧
      DrawsDistinct (fun index => source.int31n index (int32 size)) n.toNat)

end Algorithm

section Items

variable {order : MapOrder} {registered : List Registry} {n : Int}

theorem data_itemsOf : (itemsOf order registered).map Item.data = order.visit registered := by
  rw [itemsOf, map_map]
  exact map_id _

theorem score_eq {item : Item} (listed : item ∈ itemsOf order registered) :
    item.score = item.data.weight := by
  obtain ⟨reg, _, rfl⟩ := mem_map.mp listed
  rfl

theorem mem_registered {item : Item} (listed : item ∈ itemsOf order registered) :
    item.data ∈ registered := by
  refine (order.perm registered).mem_iff.mp ?_
  rw [← data_itemsOf]
  exact mem_map_of_mem listed

@[simp]
theorem length_itemsOf : (itemsOf order registered).length = registered.length := by
  rw [itemsOf, length_map]
  exact (order.perm registered).length_eq

theorem selected_of_subperm (nodup : (registered.map Registry.subKey).Nodup) {chosen : List Item}
    (subperm : chosen.Subperm (itemsOf order registered))
    (length : (chosen.length : Int) = min n registered.length) :
    Selected registered n (chosen.map Item.data) where
  length_eq := by rwa [length_map]
  distinct := by
    obtain ⟨rearranged, perm, sublist⟩ := subperm
    have allDistinct : (((itemsOf order registered).map Item.data).map Registry.subKey).Nodup := by
      rw [data_itemsOf]
      exact (((order.perm registered).map _).nodup_iff).mpr nodup
    have sub := (sublist.map Item.data).map Registry.subKey
    exact (((perm.map Item.data).map Registry.subKey).nodup_iff).mp (allDistinct.sublist sub)
  isRegistered := by
    intro reg listed
    obtain ⟨item, isChosen, rfl⟩ := mem_map.mp listed
    exact mem_registered (subperm.subset isChosen)

/-! ## The three algorithms -/

theorem fetchMinN_eq_take (sorter : Sorter) (items : List Item) (n : Int) :
    fetchMinN sorter items n = (sorter.sort items).take n.toNat := by
  rw [fetchMinN]
  split
  next empty =>
    have sorted : sorter.sort items = [] :=
      eq_nil_of_length_eq_zero ((sorter.perm items).length_eq.trans empty)
    rw [sorted, take_nil]
  next => rw [minLoop_eq_take, Int.natCast_zero, Int.sub_zero]

theorem fetchMaxN_of_le (sorter : Sorter) {items : List Item} (all : (items.length : Int) ≤ n) :
    fetchMaxN sorter items n = (sorter.sort items).reverse := by
  have length := (sorter.perm items).length_eq
  rw [fetchMaxN]
  split
  next empty =>
    have sorted : sorter.sort items = [] := eq_nil_of_length_eq_zero (length.trans empty)
    rw [sorted, reverse_nil]
  next => rw [maxLoop_of_le (le_of_eq length.symm) all, ← length, take_length]

theorem fetchMaxN_of_lt (sorter : Sorter) {items : List Item} (more : n < items.length) :
    fetchMaxN sorter items n = [] := by
  rw [fetchMaxN]
  split
  next => rfl
  next => exact maxLoop_of_lt more

theorem minN_selected (nodup : (registered.map Registry.subKey).Nodup) (sorter : Sorter)
    (wanted : 1 ≤ n) :
    Selected registered n ((fetchMinN sorter (itemsOf order registered) n).map Item.data) := by
  rw [fetchMinN_eq_take]
  have perm := sorter.perm (itemsOf order registered)
  refine selected_of_subperm nodup ((take_sublist n.toNat _).subperm.trans perm.subperm) ?_
  rw [length_take, perm.length_eq, length_itemsOf]
  omega

theorem minN_noSmallerLeft (sorter : Sorter) :
    NoSmallerLeft registered ((fetchMinN sorter (itemsOf order registered) n).map Item.data) := by
  rw [fetchMinN_eq_take]
  intro left isRegistered notChosen kept isKept
  have visited : left ∈ (itemsOf order registered).map Item.data := by
    rw [data_itemsOf]
    exact (order.perm registered).mem_iff.mpr isRegistered
  obtain ⟨leftItem, listed, rfl⟩ := mem_map.mp visited
  obtain ⟨keptItem, taken, rfl⟩ := mem_map.mp isKept
  have keptListed := (sorter.perm _).mem_iff.mp (mem_of_mem_take taken)
  have inSorted := (sorter.perm _).mem_iff.mpr listed
  have sorted := sorter.sorted (itemsOf order registered)
  -- what is left out stands behind everything that is taken
  rw [← take_append_drop n.toNat (sorter.sort _)] at inSorted sorted
  have dropped := (mem_append.mp inSorted).resolve_left fun isTaken =>
    notChosen (mem_map_of_mem isTaken)
  have inOrder := (pairwise_append.mp sorted).2.2 keptItem taken leftItem dropped
  rw [score_eq listed, score_eq keptListed] at inOrder
  exact Int.not_lt.mp inOrder

theorem maxN_right (nodup : (registered.map Registry.subKey).Nodup) (sorter : Sorter)
    (all : (registered.length : Int) ≤ n) :
    Algorithm.maxN.Right registered n
      ((fetchMaxN sorter (itemsOf order registered) n).map Item.data) := by
  have length : (itemsOf order registered).length = registered.length := length_itemsOf
  rw [fetchMaxN_of_le sorter (length ▸ all)]
  have perm := (reverse_perm (sorter.sort (itemsOf order registered))).trans (sorter.perm _)
  refine ⟨selected_of_subperm nodup perm.subperm ?_, ?_⟩
  · rw [perm.length_eq, length]
    exact (Int.min_eq_right all).symm
  · intro left isRegistered notChosen
    refine absurd ?_ notChosen
    rw [(perm.map Item.data).mem_iff, data_itemsOf]
    exact (order.perm registered).mem_iff.mpr isRegistered

theorem genRandomNumbers_of_le (source : RandomSource) (fuel : Nat) {size : Nat} (wanted : 1 ≤ n)
    (more : n < size) :
    genRandomNumbers source fuel 0 size n = if int32 size ≤ 0 then none
      else collect (fun index => source.int31n index (int32 size)) n.toNat fuel 0 [] := by
  have notEarly : ¬ ((size : Int) < 0 ∨ (size : Int) < n) := by omega
  have positive : 0 < n := by omega
  simp [genRandomNumbers, notEarly, positive]

theorem randomN_selected (nodup : (registered.map Registry.subKey).Nodup) {source : RandomSource}
    (wanted : 1 ≤ n) (works : Algorithm.randomN.Works source registered.length n) :
    ∃ fuel chosen, fetchRandomN source fuel (itemsOf order registered) n = some chosen ∧
      Selected registered n (chosen.map Item.data) := by
  have length : (itemsOf order registered).length = registered.length := length_itemsOf
  by_cases all : (registered.length : Int) ≤ n
  · refine ⟨0, itemsOf order registered, ?_, ?_⟩
    · rw [fetchRandomN, if_pos (length ▸ all)]
    · refine selected_of_subperm nodup (List.Subperm.refl _) ?_
      rw [length]
      exact (Int.min_eq_right all).symm
  · obtain ⟨positive, draws⟩ := works.resolve_left all
    obtain ⟨fuel, indices, returned⟩ := collect_iff.mpr draws
    obtain ⟨collected, count⟩ := collect_collected Collected.nil returned
    have inside : ∀ i ∈ indices, 0 ≤ i ∧ i < (itemsOf order registered).length := by
      intro i listed
      obtain ⟨index, rfl⟩ := collected.drawn i listed
      have bound := int32_le (Int.natCast_nonneg _) positive
      have below := source.below index _ positive
      rw [length]
      exact ⟨source.nonneg index _ positive, Int.lt_of_lt_of_le below bound⟩
    obtain ⟨picked, isPicked, same⟩ := pick_of_inside inside
    refine ⟨fuel, picked, ?_, ?_⟩
    · rw [fetchRandomN, length, if_neg all,
        genRandomNumbers_of_le source fuel wanted (Int.not_le.mp all),
        if_neg (Int.not_le.mpr positive), returned]
      exact isPicked
    · refine selected_of_subperm nodup (subperm_of_picked collected.nodup inside same) ?_
      have lengths := congrArg List.length same
      rw [length_map, length_map, count] at lengths
      omega

theorem randomN_works {source : RandomSource} {fuel : Nat} {chosen : List Item}
    (wanted : 1 ≤ n)
    (returned : fetchRandomN source fuel (itemsOf order registered) n = some chosen) :
    Algorithm.randomN.Works source registered.length n := by
  have length : (itemsOf order registered).length = registered.length := length_itemsOf
  by_cases all : (registered.length : Int) ≤ n
  · exact .inl all
  · rw [fetchRandomN, length, if_neg all,
      genRandomNumbers_of_le source fuel wanted (Int.not_le.mp all)] at returned
    split at returned
    next => cases returned
    next positive =>
      obtain ⟨indices, collected, _⟩ := Option.bind_eq_some_iff.mp returned
      exact .inr ⟨Int.not_le.mp positive, collect_iff.mp ⟨fuel, indices, collected⟩⟩

end Items

/-! ## Endpoints -/

theorem Endpoint.fetch_of_get {endpoint : Endpoint} {name : Bytes}
    {regMap : AList fun _ : Bytes => Registry}
    (found : endpoint.registryMap.get name = some regMap) (order : MapOrder) (n : Int)
    (algorithm : FetchAlgorithm) :
    endpoint.fetch order name n algorithm =
      (algorithm (itemsOf order (regMap.entries.map Sigma.snd)) n).map
        (fun chosen => .ok (chosen.map Item.data)) := by
  rw [Endpoint.fetch, found]

/-- `Fetch` of a service with instances returns and selects right exactly where its
algorithm works. -/
theorem fetch_right_iff {moves : List Move} {endpoint : Endpoint} {past : List Event}
    (ran : run Endpoint.step newEndpoint moves = some (endpoint, past)) {name : Bytes}
    {regMap : AList fun _ : Bytes => Registry}
    (found : endpoint.registryMap.get name = some regMap) {n : Int} (wanted : 1 ≤ n)
    (order : MapOrder) (sorter : Sorter) (source : RandomSource) (algorithm : Algorithm) :
    (∃ fuel chosen,
      endpoint.fetch order name n (algorithm.run sorter source fuel) = some (.ok chosen) ∧
        algorithm.Right (regMap.entries.map Sigma.snd) n chosen) ↔
      algorithm.Works source regMap.entries.length n := by
  have nodup : ((regMap.entries.map Sigma.snd).map Registry.subKey).Nodup := by
    rw [subKeys_eq (fun key reg isStored => ((run_named ran).stored name key reg isStored).2) found]
    exact regMap.keys_nodup
  have size : (regMap.entries.map Sigma.snd).length = regMap.entries.length := length_map _
  simp only [Endpoint.fetch_of_get found, Option.map_eq_some_iff, Except.ok.injEq, ← size]
  cases algorithm with
  | minN =>
    refine iff_of_true ?_ trivial
    exact ⟨0, _, ⟨_, rfl, rfl⟩, minN_selected nodup sorter wanted, minN_noSmallerLeft sorter⟩
  | maxN =>
    constructor
    · rintro ⟨fuel, _, ⟨picked, returned, rfl⟩, selected, _⟩
      refine Int.not_lt.mp fun more => ?_
      have moreItems : n < (itemsOf order (regMap.entries.map Sigma.snd)).length := by
        rw [length_itemsOf]
        exact more
      have nothing : picked = [] :=
        Option.some.inj (returned.symm.trans (congrArg some (fetchMaxN_of_lt sorter moreItems)))
      have length := selected.length_eq
      rw [nothing, map_nil, length_nil] at length
      omega
    · intro all
      exact ⟨0, _, ⟨_, rfl, rfl⟩, maxN_right nodup sorter all⟩
  | randomN =>
    constructor
    · rintro ⟨fuel, _, ⟨chosen, returned, rfl⟩, _⟩
      exact randomN_works wanted returned
    · intro works
      obtain ⟨fuel, chosen, returned, selected⟩ := randomN_selected nodup wanted works
      exact ⟨fuel, _, ⟨chosen, returned, rfl⟩, selected⟩

def twoInstances : List Move :=
  [.register [0x73] [0x61] 1 1 [] 0, .proceed 0, .proceed 0, .proceed 0,
    .register [0x73] [0x61] 2 2 [] 0, .proceed 0, .proceed 0, .proceed 0]

theorem twoInstances_run : ∃ endpoint past regMap,
      run Endpoint.step newEndpoint twoInstances = some (endpoint, past) ∧
      endpoint.registryMap.get [0x73] = some regMap ∧ regMap.entries.length = 2 :=
  ⟨_, _, _, rfl, rfl, rfl⟩

theorem fetch_right_iff_twoInstances : ∃ endpoint past regMap,
      run Endpoint.step newEndpoint twoInstances = some (endpoint, past) ∧
      endpoint.registryMap.get [0x73] = some regMap ∧ regMap.entries.length = 2 ∧
      ∀ order sorter source, ∃ fuel chosen,
        endpoint.fetch order [0x73] 1 (Algorithm.minN.run sorter source fuel) = some (.ok chosen) ∧
        Algorithm.minN.Right (regMap.entries.map Sigma.snd) 1 chosen := by
  obtain ⟨endpoint, past, regMap, ran, found, two⟩ := twoInstances_run
  refine ⟨endpoint, past, regMap, ran, found, two, ?_⟩
  intro order sorter source
  exact (fetch_right_iff ran found (by decide) order sorter source .minN).mpr trivial

/-- Of two instances, `FetchMaxN` with `n = 1` selects none. -/
theorem fetchMaxN_selects_none : ∃ endpoint past regMap,
      run Endpoint.step newEndpoint twoInstances = some (endpoint, past) ∧
      endpoint.registryMap.get [0x73] = some regMap ∧ regMap.entries.length = 2 ∧
      ∀ order sorter source fuel,
        endpoint.fetch order [0x73] 1 (Algorithm.maxN.run sorter source fuel) = some (.ok []) := by
  obtain ⟨endpoint, past, regMap, ran, found, two⟩ := twoInstances_run
  refine ⟨endpoint, past, regMap, ran, found, two, ?_⟩
  intro order sorter source fuel
  have more : 1 < ((itemsOf order (regMap.entries.map Sigma.snd)).length : Int) := by
    rw [length_itemsOf, length_map, two]
    decide
  simp [Endpoint.fetch_of_get found, Algorithm.run, fetchMaxN_of_lt sorter more]

end Elkeid.Discovery
