import Elkeid.Foundations.Positions
import Elkeid.Discovery.Heartbeat

/-!
# Ageing

A pass of `registryRefresh` gives every instance the status of its age, or evicts it. The age
is taken at the time that was read before the loop waited for its tick, and not at the time
of the tick.
-/

namespace Elkeid.Discovery

open Foundations Foundations.Machine SafeMap List Option

def aged (nowAt : Int) (reg : Registry) : Option Registry :=
  (refreshStatus (reg.age nowAt)).map (fun status => { reg with status := status })

def Move.OfPass : Move → Prop
  | .nextName _ | .writeBack _ | .pushEvict => True
  | _ => False

def Pass.Pending (pass : Pass) (name key : Bytes) : Prop :=
  name ∈ pass.names ∨ name = pass.name ∧ key ∈ pass.entries.map Registry.subKey

/-- A pass over what was stored at its tick: the instances still to visit are as they were, the
others have aged. -/
structure Visiting (start : SafeMap Registry) (nowAt : Int) (endpoint : Endpoint) (pass : Pass) :
    Prop where
  running : endpoint.refresh.pass? = some pass
  clock : pass.nowAt = nowAt
  names : pass.names.Nodup
  keys : (pass.entries.map Registry.subKey).Nodup
  visited : pass.entries ≠ [] → pass.name ∉ pass.names
  copies : ∀ reg ∈ pass.entries, start.hGet pass.name reg.subKey = some reg
  untouched : ∀ name key, pass.Pending name key →
    endpoint.registryMap.hGet name key = start.hGet name key
  done : ∀ name key, ¬ pass.Pending name key →
    endpoint.registryMap.hGet name key = (start.hGet name key).bind (aged nowAt)

/-! ## Maps -/

namespace SafeMap

variable {Value : Type} {map : SafeMap Value} {key subKey : Bytes}

theorem hGet_eq_none_of_get (absent : map.get key = none) : map.hGet key subKey = none := by
  rw [get] at absent
  rw [hGet, absent, bind_none]

theorem hGet_eq_none_of_not_mem (notListed : key ∉ map.keys) : map.hGet key subKey = none :=
  hGet_eq_none_of_get (AList.lookup_eq_none.mpr notListed)

theorem hGet_eq_lookup {inner : AList (fun _ : Bytes => Value)} (found : map.get key = some inner) :
    map.hGet key subKey = inner.lookup subKey := by
  rw [get] at found
  rw [hGet, found, bind_some]

theorem keys_nodup (map : SafeMap Value) : map.keys.Nodup := map.dataMap.keys_nodup

end SafeMap

/-- What `Get` finds under a name, in the order Go visits it. -/
def SafeMap.copyOf (map : SafeMap Registry) (name : Bytes) : List Registry :=
  ((map.get name).map (fun regMap => regMap.entries.map Sigma.snd)).getD []

theorem subKeys_copyOf {map : SafeMap Registry} {name : Bytes}
    (named : ∀ key reg, map.hGet name key = some reg → reg.subKey = key) :
    ((map.copyOf name).map Registry.subKey).Nodup ∧
      (∀ reg ∈ map.copyOf name, map.hGet name reg.subKey = some reg) ∧
      ∀ key ∉ (map.copyOf name).map Registry.subKey, map.hGet name key = none := by
  cases found : map.get name with
  | none =>
    have isEmpty : map.copyOf name = [] := by rw [copyOf, found]; rfl
    rw [isEmpty]
    refine ⟨nodup_nil, ?_, fun key _ => hGet_eq_none_of_get found⟩
    intro reg listed
    cases listed
  | some regMap =>
    have isCopy : map.copyOf name = regMap.entries.map Sigma.snd := by
      rw [copyOf, found]
      rfl
    rw [isCopy, subKeys_eq named found]
    refine ⟨regMap.keys_nodup, ?_, ?_⟩
    · intro reg listed
      obtain ⟨⟨key, entry⟩, present, rfl⟩ := mem_map.mp listed
      have isStored := hGet_of_get key found present
      rw [named key entry isStored]
      exact isStored
    · intro key notListed
      rw [hGet_eq_lookup found]
      exact AList.lookup_eq_none.mpr notListed

/-! ## Steps of a pass -/

namespace Visiting

variable {start : SafeMap Registry} {nowAt : Int} {endpoint next : Endpoint} {pass : Pass}
  {event : Event}

theorem ofTick (endpoint : Endpoint) (nowAt : Int) :
    Visiting endpoint.registryMap nowAt
      { endpoint with refresh := .scanning ⟨nowAt, endpoint.registryMap.keys, [], []⟩ }
      ⟨nowAt, endpoint.registryMap.keys, [], []⟩ where
  running := rfl
  clock := rfl
  names := endpoint.registryMap.keys_nodup
  keys := nodup_nil
  visited := fun some => absurd rfl some
  copies := by
    intro reg listed
    cases listed
  untouched := fun _ _ _ => rfl
  done := by
    intro name key notPending
    have absent := @hGet_eq_none_of_not_mem _ endpoint.registryMap name key
      (fun listed => notPending (.inl listed))
    rw [absent, bind_none]

theorem pass_unique (visiting : Visiting start nowAt endpoint pass) {other : Pass}
    (atPass : endpoint.refresh = .scanning other) : other = pass := by
  have running := visiting.running
  rw [atPass] at running
  exact some.inj running

variable {index : Nat}

theorem nextName_cases (stepped : endpoint.nextName index = some (next, event)) :
    ∃ pass name shown, endpoint.refresh = .scanning pass ∧ pass.entries = [] ∧
      pass.names[index]? = some name ∧
      (endpoint.registryMap.copyOf name ≠ [] → shown = name) ∧
      next = { endpoint with
        refresh := .scanning
          ⟨pass.nowAt, pass.names.eraseIdx index, shown, endpoint.registryMap.copyOf name⟩ } := by
  simp only [Endpoint.nextName] at stepped
  split at stepped
  next pass atPass =>
    split at stepped
    next name copyDone atName =>
      split at stepped
      next absent =>
        have isEmpty : endpoint.registryMap.copyOf name = [] := by rw [copyOf, absent]; rfl
        cases stepped
        refine ⟨pass, name, pass.name, atPass, copyDone, atName, fun some => absurd isEmpty some,
          ?_⟩
        rw [isEmpty, copyDone]
      next regMap found =>
        have isCopy : endpoint.registryMap.copyOf name = regMap.entries.map Sigma.snd := by
          rw [copyOf, found]
          rfl
        cases stepped
        exact ⟨pass, name, name, atPass, copyDone, atName, fun _ => rfl, by rw [isCopy]⟩
    next => cases stepped
  next => cases stepped

section

variable (visiting : Visiting start nowAt endpoint pass)
include visiting

theorem nextName (named : StoredNamed start)
    (stepped : endpoint.nextName index = some (next, event)) :
    ∃ after, Visiting start nowAt next after := by
  obtain ⟨before, name, shown, atPass, copyDone, atName, isName, rfl⟩ := nextName_cases stepped
  obtain rfl := visiting.pass_unique atPass
  have same (key : Bytes) : endpoint.registryMap.hGet name key = start.hGet name key :=
    visiting.untouched name key (.inl (mem_of_getElem? atName))
  obtain ⟨distinct, stored, others⟩ := @subKeys_copyOf endpoint.registryMap name
    (fun key reg isStored => (named name key reg (same key ▸ isStored)).2)
  refine ⟨⟨before.nowAt, before.names.eraseIdx index, shown, endpoint.registryMap.copyOf name⟩, ?_⟩
  exact {
    running := rfl
    clock := visiting.clock
    names := visiting.names.eraseIdx index
    keys := distinct
    visited := by
      intro some
      rw [isName some]
      exact not_mem_eraseIdx visiting.names atName
    copies := by
      intro reg listed
      rw [isName (ne_nil_of_mem listed), ← same]
      exact stored reg listed
    untouched := by
      rintro other key (later | ⟨rfl, listed⟩)
      · exact visiting.untouched other key (.inl (mem_of_mem_eraseIdx later))
      · obtain ⟨reg, isListed, -⟩ := mem_map.mp listed
        rw [isName (ne_nil_of_mem isListed)]
        exact same key
    done := by
      intro other key notPending
      by_cases listed : other ∈ before.names
      · -- It is the name just copied, and the key is not in the copy.
        have isThis : other = name := by
          by_contra differs
          exact notPending (.inl (mem_eraseIdx_of_ne listed atName differs))
        subst isThis
        have notCopied : key ∉ (endpoint.registryMap.copyOf other).map Registry.subKey := by
          intro inCopy
          obtain ⟨reg, isListed, -⟩ := mem_map.mp inCopy
          exact notPending (.inr ⟨(isName (ne_nil_of_mem isListed)).symm, inCopy⟩)
        have absent := others key notCopied
        rw [← same, absent, bind_none]
      · apply visiting.done other key
        rintro (inNames | ⟨-, inEntries⟩)
        · exact listed inNames
        · rw [copyDone] at inEntries
          cases inEntries }

theorem visit {reg : Registry}
    (atEntry : pass.entries[index]? = some reg)
    (running : next.refresh.pass? = some { pass with entries := pass.entries.eraseIdx index })
    (written : next.registryMap.hGet pass.name reg.subKey = aged nowAt reg)
    (kept : ∀ name key, (name, key) ≠ (pass.name, reg.subKey) →
      next.registryMap.hGet name key = endpoint.registryMap.hGet name key) :
    Visiting start nowAt next { pass with entries := pass.entries.eraseIdx index } := by
  have listed := mem_of_getElem? atEntry
  have atKey : (pass.entries.map Registry.subKey)[index]? = some reg.subKey := by
    rw [getElem?_map, atEntry, map_some]
  have notVisited := visiting.visited (ne_nil_of_mem listed)
  have keys : (pass.entries.eraseIdx index).map Registry.subKey =
      (pass.entries.map Registry.subKey).eraseIdx index := (eraseIdx_map ..).symm
  have pending (name key : Bytes) :
      Pass.Pending { pass with entries := pass.entries.eraseIdx index } name key ↔
        pass.Pending name key ∧ (name, key) ≠ (pass.name, reg.subKey) := by
    simp only [Pass.Pending, keys, mem_eraseIdx_iff_of_nodup visiting.keys atKey, ne_eq,
      Prod.mk.injEq, not_and]
    constructor
    · rintro (inNames | ⟨rfl, inKeys, differs⟩)
      · exact ⟨.inl inNames, fun same => absurd (same ▸ inNames) notVisited⟩
      · exact ⟨.inr ⟨rfl, inKeys⟩, fun _ => differs⟩
    · rintro ⟨inNames | ⟨rfl, inKeys⟩, differs⟩
      · exact .inl inNames
      · exact .inr ⟨rfl, inKeys, differs rfl⟩
  exact {
    running := running
    clock := visiting.clock
    names := visiting.names
    keys := keys ▸ visiting.keys.eraseIdx index
    visited := fun _ => notVisited
    copies := fun other isListed => visiting.copies other (mem_of_mem_eraseIdx isListed)
    untouched := by
      intro name key isPending
      obtain ⟨wasPending, differs⟩ := (pending name key).mp isPending
      rw [kept name key differs]
      exact visiting.untouched name key wasPending
    done := by
      intro name key notPending
      by_cases this : (name, key) = (pass.name, reg.subKey)
      · cases this
        rw [written, visiting.copies reg listed, bind_some]
      · rw [kept name key this]
        exact visiting.done name key
          (fun wasPending => notPending ((pending name key).mpr ⟨wasPending, this⟩)) }

theorem writeBack
    (stepped : endpoint.writeBack index = some (next, event)) :
    ∃ after, Visiting start nowAt next after := by
  cases Endpoint.took_of_writeBack stepped with
  | refreshed before _ reg status atPass atEntry inTime =>
    obtain rfl := visiting.pass_unique atPass
    rw [visiting.clock] at inTime
    refine ⟨_, visiting.visit atEntry rfl ?_ ?_⟩
    · rw [aged, inTime]
      exact hGet_hSet _ _ _ _
    · intro name key differs
      exact hGet_hSet_of_ne _ _ _ _ differs
  | expired before _ reg atPass atEntry late =>
    obtain rfl := visiting.pass_unique atPass
    rw [visiting.clock] at late
    refine ⟨_, visiting.visit atEntry rfl ?_ ?_⟩
    · rw [aged, late]
      exact hGet_hDel _ _ _
    · intro name key differs
      exact hGet_hDel_of_ne _ _ _ differs

theorem unchanged
    (sameMap : next.registryMap = endpoint.registryMap)
    (samePass : next.refresh.pass? = endpoint.refresh.pass?) : Visiting start nowAt next pass where
  running := samePass.trans visiting.running
  clock := visiting.clock
  names := visiting.names
  keys := visiting.keys
  visited := visiting.visited
  copies := visiting.copies
  untouched := by
    rw [sameMap]
    exact visiting.untouched
  done := by
    rw [sameMap]
    exact visiting.done

theorem step (named : StoredNamed start) {move : Move}
    (ofPass : move.OfPass) (stepped : endpoint.step move = some (next, event)) :
    ∃ after, Visiting start nowAt next after := by
  cases move with
  | nextName index => exact visiting.nextName named stepped
  | writeBack index => exact visiting.writeBack stepped
  | pushEvict =>
    cases Endpoint.took_of_step stepped with
    | evictSent info before atEvict =>
      exact ⟨pass, visiting.unchanged rfl (congrArg Refresh.pass? atEvict).symm⟩
    | evictDropped info before atEvict =>
      exact ⟨pass, visiting.unchanged rfl (congrArg Refresh.pass? atEvict).symm⟩
  | _ => cases ofPass

theorem run (named : StoredNamed start)
    {moves : List Move} (ofPass : ∀ move ∈ moves, move.OfPass) {events : List Event}
    (ran : Machine.run Endpoint.step endpoint moves = some (next, events)) :
    ∃ after, Visiting start nowAt next after := by
  induction moves generalizing endpoint pass events with
  | nil =>
    cases ran
    exact ⟨pass, visiting⟩
  | cons move rest ih =>
    obtain ⟨middle, event, later, stepped, ranRest, -⟩ := run_cons_eq_some ran
    obtain ⟨isOfPass, restOfPass⟩ := forall_mem_cons.mp ofPass
    obtain ⟨after, visitingNext⟩ := visiting.step named isOfPass stepped
    exact ih visitingNext restOfPass ranRest

end

end Visiting

/-! ## A whole pass -/

variable {endpoint next : Endpoint} {nowAt : Int} {moves : List Move} {events : List Event}

/-- From its tick to its end a pass is followed by no other operation. -/
def passMoves (inner : List Move) : List Move := .refreshTick :: (inner ++ [.endPass])

theorem endPass_eq_some {event : Event} (stepped : endpoint.step .endPass = some (next, event)) :
    next.registryMap = endpoint.registryMap ∧
      ∃ pass, endpoint.refresh = .scanning pass ∧ pass.names = [] ∧ pass.entries = [] := by
  simp only [Endpoint.step] at stepped
  split at stepped <;> cases stepped
  next nowAt name atEnd => exact ⟨rfl, _, atEnd, rfl, rfl⟩

theorem pass_ages (named : StoredNamed endpoint.registryMap)
    (waits : endpoint.refresh = .waiting nowAt)
    {inner : List Move} (ofPass : ∀ move ∈ inner, move.OfPass)
    (ran : run Endpoint.step endpoint (passMoves inner) = some (next, events)) (name key : Bytes) :
    next.registryMap.hGet name key = (endpoint.registryMap.hGet name key).bind (aged nowAt) := by
  obtain ⟨ticked, _, _, tick, ranRest, -⟩ := run_cons_eq_some ran
  simp only [Endpoint.step, waits, Option.some.injEq, Prod.mk.injEq] at tick
  obtain ⟨rfl, -⟩ := tick
  obtain ⟨last, _, _, ranInner, ranEnd, -⟩ := run_append_eq_some ranRest
  obtain ⟨_, _, _, ended, isEnd, -⟩ := run_cons_eq_some ranEnd
  cases isEnd
  obtain ⟨pass, visiting⟩ := (Visiting.ofTick endpoint nowAt).run named ofPass ranInner
  obtain ⟨sameMap, before, atEnd, noNames, noEntries⟩ := endPass_eq_some ended
  obtain rfl := visiting.pass_unique atEnd
  rw [sameMap]
  apply visiting.done name key
  rintro (inNames | ⟨-, inEntries⟩)
  · rw [noNames] at inNames
    cases inNames
  · rw [noEntries] at inEntries
    cases inEntries

/-! ## Passes come to an end -/

def Reaches (endpoint : Endpoint) (place : Refresh → Prop) : Prop :=
  ∃ inner next events, (∀ move ∈ inner, move.OfPass) ∧
    run Endpoint.step endpoint inner = some (next, events) ∧ place next.refresh

variable {place : Refresh → Prop}

theorem Reaches.here (there : place endpoint.refresh) :
    Reaches endpoint place :=
  ⟨[], endpoint, [], fun _ listed => absurd listed not_mem_nil, rfl, there⟩

theorem Reaches.cons {move : Move} {event : Event}
    (stepped : endpoint.step move = some (next, event)) (ofPass : move.OfPass)
    (reaches : Reaches next place) : Reaches endpoint place := by
  obtain ⟨inner, last, events, restOfPass, ran, there⟩ := reaches
  refine ⟨move :: inner, last, event :: events, forall_mem_cons.mpr ⟨ofPass, restOfPass⟩, ?_, there⟩
  rw [run_cons stepped, ran, map_some]

theorem Reaches.trans {after : Refresh → Prop} (reaches : Reaches endpoint place)
    (goesOn : ∀ next : Endpoint, place next.refresh → Reaches next after) :
    Reaches endpoint after := by
  obtain ⟨inner, middle, events, ofPass, ran, there⟩ := reaches
  obtain ⟨more, last, later, moreOfPass, ranMore, atEnd⟩ := goesOn middle there
  refine ⟨inner ++ more, last, events ++ later, ?_, ?_, atEnd⟩
  · intro move listed
    rcases mem_append.mp listed with early | late
    · exact ofPass move early
    · exact moreOfPass move late
  · rw [run_append ran, ranMore, map_some]

theorem pushEvict_steps {info : SyncInfo} {pass : Pass}
    (atEvict : endpoint.refresh = .pushing info pass) :
    ∃ after event, endpoint.step .pushEvict = some (after, event) ∧
      after.refresh = .scanning pass := by
  simp only [Endpoint.step, atEvict, Endpoint.push]
  split <;> exact ⟨_, _, rfl, rfl⟩

theorem entries_end (nowAt : Int) (names : List Bytes) (name : Bytes) (entries : List Registry)
    (atPass : endpoint.refresh = .scanning ⟨nowAt, names, name, entries⟩) :
    Reaches endpoint (· = .scanning ⟨nowAt, names, name, []⟩) := by
  induction entries generalizing endpoint with
  | nil => exact .here atPass
  | cons reg rest ih =>
    cases status : refreshStatus (reg.age nowAt) with
    | some fresh =>
      have stepped : ∃ event, endpoint.step (.writeBack 0) = some
          ({ endpoint with
              registryMap := endpoint.registryMap.hSet name reg.subKey { reg with status := fresh }
              refresh := .scanning ⟨nowAt, names, name, rest⟩ }, event) := by
        simp only [Endpoint.step, Endpoint.writeBack, atPass, getElem?_cons_zero, status,
          eraseIdx_cons_zero]
        exact ⟨_, rfl⟩
      obtain ⟨event, stepped⟩ := stepped
      exact .cons stepped trivial (ih rfl)
    | none =>
      have stepped : ∃ event, endpoint.step (.writeBack 0) = some
          ({ endpoint with
              registryMap := endpoint.registryMap.hDel name reg.subKey
              refresh := .pushing (evictInfo name reg.ip reg.port) ⟨nowAt, names, name, rest⟩ },
            event) := by
        simp only [Endpoint.step, Endpoint.writeBack, atPass, getElem?_cons_zero, status,
          eraseIdx_cons_zero]
        exact ⟨_, rfl⟩
      obtain ⟨event, stepped⟩ := stepped
      refine .cons stepped trivial ?_
      obtain ⟨after, sent, pushes, there⟩ := @pushEvict_steps
        { endpoint with
          registryMap := endpoint.registryMap.hDel name reg.subKey
          refresh := .pushing (evictInfo name reg.ip reg.port) ⟨nowAt, names, name, rest⟩ } _ _ rfl
      exact .cons pushes trivial (ih there)

theorem names_end (nowAt : Int) (names : List Bytes) (name : Bytes)
    (atPass : endpoint.refresh = .scanning ⟨nowAt, names, name, []⟩) :
    Reaches endpoint (fun refresh => ∃ last, refresh = .scanning ⟨nowAt, [], last, []⟩) := by
  induction names generalizing endpoint name with
  | nil => exact .here ⟨name, atPass⟩
  | cons head rest ih =>
    have stepped : ∃ after event shown entries, endpoint.step (.nextName 0) = some (after, event) ∧
        after.refresh = .scanning ⟨nowAt, rest, shown, entries⟩ := by
      simp only [Endpoint.step, Endpoint.nextName, atPass, getElem?_cons_zero,
        eraseIdx_cons_zero]
      split <;> exact ⟨_, _, _, _, rfl, rfl⟩
    obtain ⟨after, event, shown, entries, stepped, there⟩ := stepped
    refine .cons stepped trivial (.trans (entries_end nowAt rest shown entries there) ?_)
    intro middle atMiddle
    exact ih shown atMiddle

theorem pass_exists (waits : endpoint.refresh = .waiting nowAt) :
    ∃ inner next events, (∀ move ∈ inner, move.OfPass) ∧
      run Endpoint.step endpoint (passMoves inner) = some (next, events) := by
  have ticked : endpoint.step .refreshTick = some
      ({ endpoint with refresh := .scanning ⟨nowAt, endpoint.registryMap.keys, [], []⟩ },
        .started) := by
    simp [Endpoint.step, waits]
  obtain ⟨inner, last, events, ofPass, ran, name, atEnd⟩ :=
    @names_end { endpoint with refresh := .scanning ⟨nowAt, endpoint.registryMap.keys, [], []⟩ }
      nowAt endpoint.registryMap.keys [] rfl
  have ended : last.step .endPass = some ({ last with refresh := .starting }, .silent) := by
    simp [Endpoint.step, atEnd]
  refine ⟨inner, { last with refresh := .starting }, .started :: (events ++ [.silent]), ofPass, ?_⟩
  rw [passMoves, run_cons ticked, run_append ran, run_cons ended]
  rfl

/-! ## The time of the tick -/

/-- What a tick at a time should leave: no instance that is too old, and each one with the status
of its age; and it evicts none that is not too old. -/
structure AgedAt (time : Int) (endpoint next : Endpoint) : Prop where
  inTime : ∀ name key reg, next.registryMap.hGet name key = some reg →
    time - reg.updateAt ≤ 105 ∧ refreshStatus (time - reg.updateAt) = some reg.status
  kept : ∀ name key reg, endpoint.registryMap.hGet name key = some reg →
    time - reg.updateAt ≤ 105 → (next.registryMap.hGet name key).isSome

theorem refreshStatus_eq_none_iff (d : Int) : refreshStatus d = none ↔ 105 < d := by
  unfold refreshStatus
  repeat' split
  all_goals simp only [reduceCtorEq, false_iff, true_iff]
  all_goals omega

theorem agedAt_iff {time : Int}
    (ages : ∀ name key, next.registryMap.hGet name key =
      (endpoint.registryMap.hGet name key).bind (aged nowAt)) :
    AgedAt time endpoint next ↔
      ∀ name key reg, endpoint.registryMap.hGet name key = some reg →
        refreshStatus (reg.age nowAt) = refreshStatus (time - reg.updateAt) := by
  constructor
  · intro aged name key reg stored
    have now := ages name key
    rw [stored, bind_some, Discovery.aged] at now
    cases status : refreshStatus (reg.age nowAt) with
    | some fresh =>
      rw [status, map_some] at now
      exact (aged.inTime name key _ now).2.symm
    | none =>
      rw [status, map_none] at now
      symm
      rw [refreshStatus_eq_none_iff]
      by_contra notLate
      have present := aged.kept name key reg stored (Int.not_lt.mp notLate)
      rw [now] at present
      cases present
  · intro same
    refine ⟨?_, ?_⟩
    · intro name key reg left
      rw [ages] at left
      obtain ⟨old, stored, isAged⟩ := bind_eq_some_iff.mp left
      obtain ⟨status, fresh, rfl⟩ := map_eq_some_iff.mp isAged
      rw [same name key old stored] at fresh
      refine ⟨?_, fresh⟩
      by_contra late
      have gone := (refreshStatus_eq_none_iff (time - old.updateAt)).mpr (Int.not_le.mp late)
      cases gone.symm.trans fresh
    · intro name key reg stored inTime
      rw [ages, stored, bind_some, aged, same name key reg stored]
      cases status : refreshStatus (time - reg.updateAt) with
      | some fresh => rfl
      | none => exact absurd ((refreshStatus_eq_none_iff _).mp status) (Int.not_lt.mpr inTime)

/-- Every tick is followed by a pass, and it leaves what it should at the time of its tick exactly
when every instance was, as the loop read the clock, in the bracket it is in at the tick. -/
theorem refresh_agedAt_iff {past : List Event}
    (ran : run Endpoint.step newEndpoint moves = some (endpoint, past))
    (waits : endpoint.refresh = .waiting nowAt) (time : Int) :
    (∃ inner next events, (∀ move ∈ inner, move.OfPass) ∧
      run Endpoint.step endpoint (passMoves inner) = some (next, events)) ∧
    ∀ inner next events, (∀ move ∈ inner, move.OfPass) →
      run Endpoint.step endpoint (passMoves inner) = some (next, events) →
      (AgedAt time endpoint next ↔
        ∀ name key reg, endpoint.registryMap.hGet name key = some reg →
          refreshStatus (reg.age nowAt) = refreshStatus (time - reg.updateAt)) := by
  refine ⟨pass_exists waits, ?_⟩
  intro inner next events ofPass passed
  exact agedAt_iff (pass_ages (run_named ran).stored waits ofPass passed)

/-- One instance, registered at 0; at 55 it is in the bracket it was in when the clock read 50. -/
theorem refresh_agedAt_sameBracket :
    ∃ endpoint past, run Endpoint.step newEndpoint (heartbeat 0 ++ [.readClock 50]) =
      some (endpoint, past) ∧
      endpoint.refresh = .waiting 50 ∧
      ∀ inner next events, (∀ move ∈ inner, move.OfPass) →
        run Endpoint.step endpoint (passMoves inner) = some (next, events) →
          AgedAt 55 endpoint next := by
  have ran : ∃ endpoint past,
      run Endpoint.step newEndpoint (heartbeat 0 ++ [.readClock 50]) = some (endpoint, past) ∧
      endpoint.refresh = .waiting 50 ∧
      endpoint.registryMap = SafeMap.empty.hSet [0x73] (subKey [0x61] 1) (beat 0) :=
        ⟨_, _, rfl, rfl, rfl⟩
  obtain ⟨endpoint, past, ran, waits, map⟩ := ran
  refine ⟨endpoint, past, ran, waits, ?_⟩
  intro inner next events ofPass passed
  refine ((refresh_agedAt_iff ran waits 55).2 inner next events ofPass passed).mpr ?_
  intro name key reg stored
  rw [map] at stored
  by_cases this : (name, key) = ([0x73], subKey [0x61] 1)
  · cases this
    cases (hGet_hSet _ _ _ _).symm.trans stored
    decide
  · rw [hGet_hSet_of_ne _ _ _ _ this] at stored
    cases stored

/-- The clock is read at 100 and the tick comes at 115. An instance without a heartbeat since 0 is
kept, though it is older than 105 seconds. -/
theorem staleClock_keeps :
    ∃ endpoint past next events,
      run Endpoint.step newEndpoint (heartbeat 0 ++ [.readClock 100]) = some (endpoint, past) ∧
      run Endpoint.step endpoint (passMoves [.nextName 0, .writeBack 0]) = some (next, events) ∧
      next.registryMap.hGet [0x73] (subKey [0x61] 1) = some { beat 0 with status := .red } ∧
      ¬ AgedAt 115 endpoint next := by
  refine ⟨_, _, _, _, rfl, rfl, rfl, ?_⟩
  intro aged
  exact absurd (aged.inTime [0x73] (subKey [0x61] 1) { beat 0 with status := .red } rfl).1
    (by decide)

end Elkeid.Discovery
