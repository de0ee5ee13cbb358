import Elkeid.Foundations.Since
import Elkeid.Discovery.Endpoint

/-!
# Heartbeats

A heartbeat is a `Register` of an instance that is already there. `registryRefresh` works on
copies and writes them back over whatever is stored by then. A heartbeat survives every
step of a run as long as nothing else writes an instance between its copy and its write
back, and as long as no write is older than what it replaces.
-/

namespace Elkeid.Discovery

open Foundations Foundations.Machine

def Event.RegisteredAt (name key : Bytes) : Event → Prop
  | .registered otherName otherKey _ => otherName = name ∧ otherKey = key
  | _ => False

/-- Nothing stored under the entry's name and key is newer than the entry. -/
def Endpoint.NoNewer (endpoint : Endpoint) (name key : Bytes) (reg : Registry) : Prop :=
  ∀ old, endpoint.registryMap.hGet name key = some old → old.updateAt ≤ reg.updateAt

/-- A registration is not older than what it replaces; an entry that is written back was
not written since its copy; an instance that is evicted for its age was not registered
since the pass started. -/
def Event.InTurn (past : List Event) (endpoint : Endpoint) : Event → Prop
  | .registered name key reg => endpoint.NoNewer name key reg
  | .applied _ ⟨.register, reg⟩ => endpoint.NoNewer reg.name reg.subKey reg
  | .refreshed name key _ => Since (· = .copied name) (Event.Touches name key) past
  | .expired name key => ¬ Since (Event.RegisteredAt name key) (· = .started) past
  | _ => True

def Undisturbed : List Event → Endpoint → Move → Prop :=
  OnOutput Endpoint.step (fun past endpoint event => event.InTurn past endpoint)

/-- What a run whose steps are undisturbed keeps. -/
structure Endpoint.Kept (past : List Event) (endpoint : Endpoint) : Prop where
  named : endpoint.Named
  copies : ∀ pass, endpoint.refresh.pass? = some pass → ∀ reg ∈ pass.entries,
    Since (· = .copied pass.name) (Event.Touches pass.name reg.subKey) past →
      endpoint.registryMap.hGet pass.name reg.subKey = some reg
  absent : ∀ name key, Since (Event.Evicts name key) (Event.Registers name key) past →
    endpoint.registryMap.hGet name key = none

namespace Endpoint.Took

variable {endpoint next : Endpoint} {move : Move} {event : Event} {past : List Event}
  {name key : Bytes}

theorem copies (took : Took endpoint move next event) (kept : endpoint.Kept past) :
    ∀ pass, next.refresh.pass? = some pass → ∀ reg ∈ pass.entries,
      Since (· = .copied pass.name) (Event.Touches pass.name reg.subKey) (past ++ [event]) →
        next.registryMap.hGet pass.name reg.subKey = some reg := by
  intro pass running reg listed unwritten
  rcases took.pass_cases running with ⟨regMap, _, found, entries⟩ | ⟨notCopied, before⟩
  · exact ((took.named kept.named).stored.of_get found (entries ▸ listed)).2
  · rcases Since.append_singleton.mp unwritten with copied | ⟨since, untouched⟩
    · exact absurd copied (notCopied pass.name)
    · obtain ⟨old, wasRunning, sameName, wasListed⟩ := before reg listed
      rw [took.hGet_of_not_touches untouched, ← sameName]
      exact kept.copies old wasRunning reg wasListed (sameName ▸ since)

theorem refreshed_stored {new : Registry} (took : Took endpoint move next (.refreshed name key new))
    (kept : endpoint.Kept past)
    (inTurn : (Event.refreshed name key new).InTurn past endpoint) :
    ∃ old status, endpoint.registryMap.hGet name key = some old ∧
      new = { old with status := status } := by
  cases took with
  | refreshed pass index reg status atPass atEntry inTime =>
    have running : endpoint.refresh.pass? = some pass := congrArg Refresh.pass? atPass
    exact ⟨reg, status, kept.copies pass running reg (List.mem_of_getElem? atEntry) inTurn, rfl⟩

section

variable (took : Took endpoint move next event)
include took

theorem absent (kept : endpoint.Kept past) (inTurn : event.InTurn past endpoint)
    (evicted : Since (Event.Evicts name key) (Event.Registers name key) (past ++ [event])) :
    next.registryMap.hGet name key = none := by
  rcases Since.append_singleton.mp evicted with now | ⟨before, notRegistered⟩
  · exact took.hGet_of_write now
  · have wasAbsent := kept.absent name key before
    by_cases touches : event.Touches name key
    · obtain ⟨value, written⟩ := touches
      cases value with
      | none => exact took.hGet_of_write written
      | some reg =>
        rcases Event.registers_or_refreshed written with registers | rfl
        · exact absurd registers notRegistered
        · obtain ⟨old, _, stored, _⟩ := took.refreshed_stored kept inTurn
          cases wasAbsent.symm.trans stored
    · exact (took.hGet_of_not_touches touches).trans wasAbsent

theorem kept (before : endpoint.Kept past) (inTurn : event.InTurn past endpoint) :
    next.Kept (past ++ [event]) where
  named := took.named before.named
  copies := took.copies before
  absent := fun _ _ evicted => took.absent before inTurn evicted

end

end Endpoint.Took

def heartbeat (ts : Int) : List Move :=
  [.register [0x73] [0x61] 1 1 [] ts, .proceed 0, .proceed 0, .proceed 0]

def beat (updateAt : Int) : Registry where
  name := [0x73]
  ip := [0x61]
  port := 1
  status := .green
  createAt := 0
  updateAt := updateAt
  weight := 1
  extra := []

end Elkeid.Discovery
