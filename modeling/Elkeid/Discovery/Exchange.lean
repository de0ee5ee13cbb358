import Elkeid.Foundations.Since
import Elkeid.Foundations.Positions
import Elkeid.Discovery.Endpoint

/-!
# What an endpoint takes in and gives out

No move loses, doubles or reorders what is on its way out of an endpoint or into its map,
apart from what a full channel drops. The instances stored are those whose last operation,
made here or received, was a `Register`.
-/

namespace Elkeid.Discovery

open Foundations Event List

/-- A `Register` or an `Evict` of the instance stored under a name and a key. -/
structure Operation where
  action : SyncAction
  name : Bytes
  key : Bytes
  deriving DecidableEq

def SyncInfo.operation (info : SyncInfo) : Operation :=
  ⟨info.action, info.registry.name, info.registry.subKey⟩

namespace Event

/-- The operation an event carries out on the map, and the endpoint it was received from,
or `none` for a call made here. -/
def operation : Event → Option (Option Bytes × Operation)
  | registered name key _ => some (none, ⟨.register, name, key⟩)
  | evicted name key => some (none, ⟨.evict, name, key⟩)
  | applied source info => some (some source, info.operation)
  | _ => none

def sends : Event → List SyncInfo
  | sent info => [info]
  | _ => []

def flushes : Event → List SyncInfo
  | flushed data => data
  | _ => []

def receives (source : Bytes) : Event → List SyncInfo
  | received transInfo => if transInfo.source = source then transInfo.data else []
  | _ => []

def applies (source : Bytes) : Event → List SyncInfo
  | applied otherSource info => if otherSource = source then [info] else []
  | _ => []

theorem write_of_operation {event : Event} {sender : Option Bytes} {carried : Operation}
    (isCarried : event.operation = some (sender, carried)) :
    ∃ value : Option Registry, event.write = some (carried.name, carried.key, value) ∧
      (value.isSome = true ↔ carried.action = .register) := by
  cases event with
  | registered name key reg =>
    cases isCarried
    exact ⟨some reg, rfl, iff_of_true rfl rfl⟩
  | evicted name key =>
    cases isCarried
    exact ⟨none, rfl, iff_of_false nofun nofun⟩
  | applied source info =>
    cases isCarried
    obtain ⟨action, reg⟩ := info
    cases action with
    | register => exact ⟨some reg, rfl, iff_of_true rfl rfl⟩
    | evict => exact ⟨none, rfl, iff_of_false nofun nofun⟩
  | _ => cases isCarried

/-- No channel was full, nothing was evicted for its age, and what was written back was
still stored. -/
def Calm (endpoint : Endpoint) : Event → Prop
  | dropped _ | refused _ | expired _ _ => False
  | refreshed name key _ => (endpoint.registryMap.hGet name key).isSome
  | _ => True

end Event

def TransInfo.dataFrom (source : Bytes) (transInfo : TransInfo) : List SyncInfo :=
  if transInfo.source = source then transInfo.data else []

namespace Endpoint

def outgoing (endpoint : Endpoint) : List SyncInfo :=
  endpoint.syncInfoList ++ endpoint.sendChan

def incoming (source : Bytes) (endpoint : Endpoint) : List SyncInfo :=
  (endpoint.applying.toList ++ endpoint.recvChan).flatMap (TransInfo.dataFrom source)

namespace Took

variable {endpoint next : Endpoint} {move : Move} {event : Event}

section

variable (took : Took endpoint move next event)
include took

theorem outgoing_eq : event.flushes ++ next.outgoing = endpoint.outgoing ++ event.sends := by
  cases took with
  | sent | evictSent | ticked => simp [outgoing, flushes, Event.sends]
  | merged info rest queued => simp [outgoing, queued, flushes, Event.sends]
  | flushed info rest queued => simp [outgoing, queued, flushes, Event.sends]
  | _ => exact (append_nil _).symm

theorem incoming_eq (source : Bytes) :
    event.applies source ++ next.incoming source =
      endpoint.incoming source ++ event.receives source := by
  cases took with
  | received transInfo =>
    simp only [applies, receives, incoming, nil_append, flatMap_append,
      flatMap_singleton, append_assoc]
    rfl
  | taken transInfo rest free queued =>
    simp [incoming, free, queued, applies, receives]
  | applied otherSource info data inHand =>
    simp only [incoming, inHand, applies, receives, Option.toList_some,
      singleton_append, flatMap_cons, TransInfo.dataFrom, append_nil]
    split <;> rfl
  | batchDone otherSource inHand =>
    simp [incoming, inHand, applies, receives, TransInfo.dataFrom]
  | _ => exact (append_nil _).symm

theorem isSome_of_operation_none (calm : event.Calm endpoint) (noOperation : event.operation = none)
    (name key : Bytes) :
    (next.registryMap.hGet name key).isSome = (endpoint.registryMap.hGet name key).isSome := by
  by_cases touches : event.Touches name key
  · obtain ⟨value, written⟩ := touches
    have after := took.hGet_of_write written
    cases event with
    | refreshed otherName otherKey reg =>
      cases written
      rw [after, show (endpoint.registryMap.hGet name key).isSome = true from calm]
      rfl
    | expired otherName otherKey => cases calm
    | registered | evicted | applied => cases noOperation
    | _ => cases written
  · rw [took.hGet_of_not_touches touches]

theorem isSome_of_operation {sender : Option Bytes} {operation : Operation}
    (carried : event.operation = some (sender, operation)) (name key : Bytes) :
    (next.registryMap.hGet name key).isSome ↔ operation = ⟨.register, name, key⟩ ∨
      ((endpoint.registryMap.hGet name key).isSome ∧ operation ≠ ⟨.evict, name, key⟩) := by
  obtain ⟨value, written, isRegister⟩ := write_of_operation carried
  obtain ⟨action, otherName, otherKey⟩ := operation
  by_cases same : (otherName, otherKey) = (name, key)
  · cases same
    rw [took.hGet_of_write written, isRegister]
    cases action <;> simp
  · have untouched : ¬ event.Touches name key := by
      rintro ⟨other, alsoWritten⟩
      cases written.symm.trans alsoWritten
      exact same rfl
    have notHere : ∀ action', (⟨action, otherName, otherKey⟩ : Operation) ≠
        ⟨action', name, key⟩ := by
      intro action' equal
      cases equal
      exact same rfl
    simp [took.hGet_of_not_touches untouched, notHere]

end

theorem sending_eraseIdx {calls : List Call} {index : Nat} {info other : SyncInfo}
    (sending : .sending info ∈ calls) (atCall : calls[index]? = some (.sending other)) :
    .sending info ∈ calls.eraseIdx index ∨ info = other := by
  by_cases same : info = other
  · exact .inr same
  · refine .inl (mem_eraseIdx_of_ne sending atCall ?_)
    intro equal
    exact same (Call.sending.inj equal)

theorem sending_kept (took : Took endpoint move next event) {info : SyncInfo}
    (sending : .sending info ∈ endpoint.calls) :
    .sending info ∈ next.calls ∨ event = .sent info ∨ event = .dropped info := by
  cases took with
  | called | evicted => exact .inl (mem_append_left _ sending)
  | looked index name ip port weight extra ts atCall =>
    exact .inl (mem_set_of_ne sending atCall nofun)
  | registered index name ip port reg atCall =>
    exact .inl (mem_set_of_ne sending atCall nofun)
  | sent index other atCall =>
    rcases sending_eraseIdx sending atCall with still | rfl
    · exact .inl still
    · exact .inr (.inl rfl)
  | dropped index other atCall =>
    rcases sending_eraseIdx sending atCall with still | rfl
    · exact .inl still
    · exact .inr (.inr rfl)
  | _ => exact .inl sending

theorem exists_sending (took : Took endpoint move next event) (named : endpoint.Named)
    {operation : Operation} (carried : event.operation = some (none, operation)) :
    ∃ info, .sending info ∈ next.calls ∧ info.operation = operation := by
  cases took with
  | registered index name ip port reg atCall =>
    cases carried
    obtain ⟨sameName, sameKey⟩ := named.writing name ip port reg (mem_of_getElem? atCall)
    refine ⟨⟨.register, reg⟩, ?_, ?_⟩
    · exact List.mem_set (List.getElem?_eq_some_iff.mp atCall).1 _
    · rw [← sameName, ← sameKey]
      rfl
  | evicted name ip port =>
    cases carried
    exact ⟨evictInfo name ip port, mem_concat_self, rfl⟩
  | _ => cases carried

end Took

end Endpoint

end Elkeid.Discovery
