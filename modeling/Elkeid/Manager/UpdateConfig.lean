import Elkeid.Foundations.Slice
import Elkeid.Foundations.Text

/-!
# Configurations of agents

`updateConfig` and the `Agent_Config` case of `agentControlDistribute` of
`server/manager/biz/hander/v1/agent_task.go`, over slices of shared arrays. The agents of a batch
that have no configuration of their own are all given the one slice of the default
configuration. What a job and the asynchronous write of the heartbeat hold is a slice; its
elements are read when the job or the document is encoded.
-/

namespace Elkeid.Manager

open Foundations Slice

structure AgentConfigMsg where
  name : Bytes
  type : Bytes
  signature : Bytes
  version : Bytes
  sha256 : Bytes
  downloadURL : List Bytes
  detail : Bytes
  deriving DecidableEq, Inhabited

namespace AgentConfigMsg

/-- An item that is all empty asks for a deletion. -/
def deletes (item : AgentConfigMsg) : Bool :=
  item.downloadURL.isEmpty && item.version.isEmpty && item.sha256.isEmpty && item.detail.isEmpty

/-- The fields of the item that are not empty replace those of the configuration. -/
def update (item config : AgentConfigMsg) : AgentConfigMsg :=
  { config with
    downloadURL := if item.downloadURL.isEmpty then config.downloadURL else item.downloadURL
    version := if item.version.isEmpty then config.version else item.version
    sha256 := if item.sha256.isEmpty then config.sha256 else item.sha256
    detail := if item.detail.isEmpty then config.detail else item.detail
    type := if item.type.isEmpty then config.type else item.type }

theorem update_update (item config : AgentConfigMsg) :
    item.update (item.update config) = item.update config := by
  simp only [update, AgentConfigMsg.mk.injEq, true_and]
  refine ⟨?_, ?_, ?_, ?_, ?_⟩ <;> split <;> rfl

def position (item : AgentConfigMsg) (config : List AgentConfigMsg) : Option Nat :=
  config.findIdx? (fun other => other.name == item.name)

end AgentConfigMsg

/-! ## What the edits mean -/

def editItem (config : List AgentConfigMsg) (item : AgentConfigMsg) : List AgentConfigMsg :=
  match item.position config with
  | some index =>
    if item.deletes then config.eraseIdx index
    else config.set index (item.update (config.getD index default))
  | none => if item.deletes then config else config ++ [item]

def editConfig (items config : List AgentConfigMsg) : List AgentConfigMsg :=
  items.foldl editItem config

/-! ## The edits in place -/

/-- One round of the outer loop of `updateConfig`. -/
def updateItem (grow : Nat → Nat → Nat) (state : Arrays AgentConfigMsg × Slice)
    (item : AgentConfigMsg) : Arrays AgentConfigMsg × Slice :=
  let (arrays, config) := state
  match item.position (config.read arrays) with
  | some index =>
    if item.deletes then config.delete grow arrays index
    else
      (config.set arrays index (item.update ((config.read arrays).getD index default)), config)
  | none => if item.deletes then (arrays, config) else config.append grow arrays [item]

def updateConfig (grow : Nat → Nat → Nat) (items : List AgentConfigMsg)
    (state : Arrays AgentConfigMsg × Slice) : Arrays AgentConfigMsg × Slice :=
  items.foldl (updateItem grow) state

structure Heartbeat where
  agentID : Bytes
  config : List AgentConfigMsg
  /-- The cells that decoding leaves behind the configuration. -/
  spare : Nat
  deriving DecidableEq

/-- Where the loop over the heartbeats stands; a job holds the slice of its configuration. -/
structure Distribution where
  arrays : Arrays AgentConfigMsg
  agentIDMap : List Bytes
  jobs : List (Heartbeat × Slice)
  deriving DecidableEq

/-- The configuration that an agent's edits start from. -/
def Distribution.configOf (state : Distribution) (defaultConfig : Slice) (hb : Heartbeat) :
    Arrays AgentConfigMsg × Slice :=
  if hb.config.isEmpty then (state.arrays, defaultConfig)
  else Slice.alloc state.arrays hb.config hb.spare

/-- One round of the loop; a document that cannot be decoded is `none`. -/
def Distribution.process (grow : Nat → Nat → Nat) (items : List AgentConfigMsg)
    (defaultConfig : Slice) (state : Distribution) : Option Heartbeat → Distribution
  | none => state
  | some hb =>
    if state.agentIDMap.contains hb.agentID then state
    else
      let (arrays, config) := updateConfig grow items (state.configOf defaultConfig hb)
      { arrays
        agentIDMap := hb.agentID :: state.agentIDMap
        jobs := state.jobs ++ [(hb, config)] }

section

variable (grow : Nat → Nat → Nat) {arrays : Arrays AgentConfigMsg} {config : Slice}
  {item : AgentConfigMsg}

theorem AgentConfigMsg.position_lt {configs : List AgentConfigMsg} {index : Nat}
    (found : item.position configs = some index) : index < configs.length :=
  (List.findIdx?_eq_some_iff_getElem.mp found).1

theorem updateItem_spec (valid : config.Valid arrays) (item : AgentConfigMsg) :
    (updateItem grow (arrays, config) item).2.Valid (updateItem grow (arrays, config) item).1 ∧
    (updateItem grow (arrays, config) item).2.read (updateItem grow (arrays, config) item).1 =
      editItem (config.read arrays) item ∧
    Slice.Follows (arrays, config) (updateItem grow (arrays, config) item) := by
  simp only [updateItem, editItem]
  split
  next index found =>
    have inside : index < config.length := valid.length_read ▸ AgentConfigMsg.position_lt found
    split
    next => exact ⟨valid_delete valid inside, read_delete valid inside, follows_delete valid inside⟩
    next =>
      exact ⟨valid.set index _, read_set_alias rfl rfl index _, follows_set index _⟩
  next =>
    split
    next => exact ⟨valid, rfl, .refl _⟩
    next => exact ⟨valid_append valid _, read_append valid _, follows_append valid _⟩

theorem updateConfig_spec (valid : config.Valid arrays) (items : List AgentConfigMsg) :
    (updateConfig grow items (arrays, config)).2.Valid
    (updateConfig grow items (arrays, config)).1 ∧
    (updateConfig grow items (arrays, config)).2.read (updateConfig grow items (arrays, config)).1 =
      editConfig items (config.read arrays) ∧
    Slice.Follows (arrays, config) (updateConfig grow items (arrays, config)) := by
  induction items generalizing arrays config with
  | nil => exact ⟨valid, rfl, .refl _⟩
  | cons item rest ih =>
    have ⟨validNext, readNext, followsNext⟩ := updateItem_spec grow valid item
    obtain ⟨validLast, readLast, followsLast⟩ := ih validNext
    refine ⟨validLast, ?_, followsNext.trans followsLast⟩
    exact readLast.trans (congrArg (editConfig rest) readNext)

end

end Elkeid.Manager
