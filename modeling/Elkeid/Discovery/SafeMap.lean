import Elkeid.Foundations.Text

/-!
# Maps of maps

`server/service_discovery/common/safemap`: a map from keys to maps from subkeys to
values. Each operation holds the lock, so it is one step. An inner map that becomes
empty is deleted with its key.
-/

namespace Elkeid.Discovery

open Foundations Option AList

structure SafeMap (Value : Type) where
  dataMap : AList (fun _ : Bytes => AList (fun _ : Bytes => Value))
  nonempty : ∀ key inner, dataMap.lookup key = some inner → inner ≠ ∅

namespace SafeMap

variable {Value : Type}

def empty : SafeMap Value := ⟨∅, fun _ _ found => by cases found⟩

def hSet (map : SafeMap Value) (key subKey : Bytes) (value : Value) : SafeMap Value where
  dataMap := map.dataMap.insert key (((map.dataMap.lookup key).getD ∅).insert subKey value)
  nonempty := by
    intro other inner found
    by_cases same : other = key
    · subst same
      cases (AList.lookup_insert _).symm.trans found
      intro isEmpty
      have present :=
        AList.lookup_insert (a := subKey) (b := value) ((map.dataMap.lookup other).getD ∅)
      rw [isEmpty] at present
      cases present
    · exact map.nonempty other inner ((AList.lookup_insert_ne same).symm.trans found)

def hGet (map : SafeMap Value) (key subKey : Bytes) : Option Value :=
  (map.dataMap.lookup key).bind (fun inner => inner.lookup subKey)

/-- The outer entry goes with the last inner one. -/
def hDel (map : SafeMap Value) (key subKey : Bytes) : SafeMap Value :=
  match map.dataMap.lookup key with
  | none => map
  | some inner =>
    match inner.lookup subKey with
    | none => map
    | some _ =>
      if gone : (inner.erase subKey).entries = [] then
        { dataMap := map.dataMap.erase key
          nonempty := by
            intro other found isFound
            by_cases same : other = key
            · subst same
              cases (AList.lookup_erase _ _).symm.trans isFound
            · exact map.nonempty other found ((AList.lookup_erase_ne same).symm.trans isFound) }
      else
        { dataMap := map.dataMap.insert key (inner.erase subKey)
          nonempty := by
            intro other found isFound
            by_cases same : other = key
            · subst same
              cases (AList.lookup_insert _).symm.trans isFound
              intro isEmpty
              exact gone (congrArg AList.entries isEmpty)
            · exact map.nonempty other found ((AList.lookup_insert_ne same).symm.trans isFound) }

/-- `Get` returns a copy of the inner map. -/
def get (map : SafeMap Value) (key : Bytes) : Option (AList (fun _ : Bytes => Value)) :=
  map.dataMap.lookup key

def keys (map : SafeMap Value) : List Bytes := map.dataMap.keys

variable (map : SafeMap Value) (key subKey : Bytes)

variable {map key} in
theorem hGet_of_get {inner : AList (fun _ : Bytes => Value)} (found : map.get key = some inner)
    {value : Value} (listed : ⟨subKey, value⟩ ∈ inner.entries) :
    map.hGet key subKey = some value := by
  rw [get] at found
  rw [hGet, found, bind_some]
  exact mem_lookup_iff.mpr listed

theorem hGet_hSet (value : Value) : (map.hSet key subKey value).hGet key subKey = some value := by
  simp [hGet, hSet]

theorem hGet_hSet_of_ne (value : Value) {key' subKey' : Bytes}
    (differs : (key', subKey') ≠ (key, subKey)) :
    (map.hSet key subKey value).hGet key' subKey' = map.hGet key' subKey' := by
  by_cases sameKey : key' = key
  · subst sameKey
    have otherSub : subKey' ≠ subKey := fun same => differs (by rw [same])
    simp only [hGet, hSet, lookup_insert, bind_some, lookup_insert_ne otherSub]
    cases map.dataMap.lookup key' <;> rfl
  · simp [hGet, hSet, lookup_insert_ne sameKey]

theorem hGet_hDel : (map.hDel key subKey).hGet key subKey = none := by
  rw [hDel]
  split
  next absent => simp [hGet, absent]
  next inner present =>
    split
    next absent => simp [hGet, present, absent]
    next =>
      split
      next => simp [hGet]
      next => simp [hGet, lookup_insert]

theorem hGet_hDel_of_ne {key' subKey' : Bytes} (differs : (key', subKey') ≠ (key, subKey)) :
    (map.hDel key subKey).hGet key' subKey' = map.hGet key' subKey' := by
  rw [hDel]
  split
  next => rfl
  next inner present =>
    split
    next => rfl
    next =>
      by_cases sameKey : key' = key
      · subst sameKey
        have otherSub : subKey' ≠ subKey := fun same => differs (by rw [same])
        have kept := lookup_erase_ne (s := inner) otherSub
        split
        next gone =>
          have isEmpty : inner.erase subKey = ∅ := AList.ext gone
          rw [isEmpty, lookup_empty] at kept
          simp [hGet, present, ← kept]
        next => simp [hGet, lookup_insert, present, kept]
      · split
        next => simp [hGet, lookup_erase_ne sameKey]
        next => simp [hGet, lookup_insert_ne sameKey]

end SafeMap

end Elkeid.Discovery
