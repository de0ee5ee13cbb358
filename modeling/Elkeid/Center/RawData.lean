import Elkeid.Foundations.Text

/-!
# Forwarding the data of an agent

`handleRawData` of `server/agent_center/grpctrans/grpc_handler/rawdata_worker.go`. What
`proto.Unmarshal` makes of the body of a record is a parameter.
-/

namespace Elkeid.Center.RawData

open Foundations List

structure Record where
  dataType : Int
  timestamp : Int
  body : Bytes
  deriving DecidableEq

structure Request where
  data : List Record
  agentID : Bytes
  intranetIPv4 : List Bytes
  extranetIPv4 : List Bytes
  intranetIPv6 : List Bytes
  extranetIPv6 : List Bytes
  hostname : Bytes
  version : Bytes
  product : Bytes

structure MQData where
  dataType : Int
  agentTime : Int
  body : Bytes
  agentID : Bytes
  intranetIPv4 : Bytes
  extranetIPv4 : Bytes
  intranetIPv6 : Bytes
  extranetIPv6 : Bytes
  hostname : Bytes
  version : Bytes
  product : Bytes
  svrTime : Int
  psmName : Bytes
  psmPath : Bytes
  tag : Bytes
  deriving DecidableEq

variable {Fields : Type}

inductive Effect (Fields : Type)
  | parseAgentHeartBeat (record : Record)
  | parsePluginHeartBeat (record : Record)
  | pushTask2Manager (item : Fields)
  | agentErrorLog (item : Fields)
  | sendPBWithKey (key : Bytes) (mqMsg : MQData)

def join (addresses : List Bytes) : Bytes := [0x2c].intercalate addresses

/-- All fields of the message from the pool are set. -/
def Request.mqMsg (req : Request) (svrTime : Int) (tags : Option Bytes) (record : Record) :
    MQData where
  dataType := record.dataType
  agentTime := record.timestamp
  body := record.body
  agentID := req.agentID
  intranetIPv4 := join req.intranetIPv4
  extranetIPv4 := join req.extranetIPv4
  intranetIPv6 := join req.intranetIPv6
  extranetIPv6 := join req.extranetIPv6
  hostname := req.hostname
  version := req.version
  product := req.product
  svrTime := svrTime
  psmName := []
  psmPath := []
  tag := tags.getD []

variable (parseRecord : Bytes → Option Fields) (svrTime : Int) (tags : Option Bytes)

/-- One round of the loop. An error of `PushTask2Manager` is only logged, and `json.Marshal` of a
map of texts has none. -/
def handleRecord (req : Request) (record : Record) : List (Effect Fields) :=
  let forward := [.sendPBWithKey req.agentID (req.mqMsg svrTime tags record)]
  let parsed (effect : Fields → Effect Fields) := match parseRecord record.body with
    | none => []
    | some item => effect item :: forward
  match record.dataType with
  | 1000 => .parseAgentHeartBeat record :: forward
  | 1001 => .parsePluginHeartBeat record :: forward
  | 2001 | 2003 | 6003 => parsed .pushTask2Manager
  | 1010 | 1011 => parsed .agentErrorLog
  | _ => forward

def handleRawData (req : Request) : List (Effect Fields) × Bytes :=
  (req.data.flatMap (handleRecord parseRecord svrTime tags req), req.agentID)

def Effect.forwarded : Effect Fields → Option (Bytes × MQData)
  | .sendPBWithKey key mqMsg => some (key, mqMsg)
  | _ => none

/-- A record of which `handleRawData` needs the fields can be decoded. -/
def Decodes (record : Record) : Prop :=
  record.dataType ∈ [2001, 2003, 6003, 1010, 1011] → (parseRecord record.body).isSome

theorem flatMap_eq_map_iff {α β : Type} {f : α → List β} {g : α → β}
    (once : ∀ a, f a = [g a] ∨ f a = []) (l : List α) :
    l.flatMap f = l.map g ↔ ∀ a ∈ l, f a = [g a] := by
  have short (l : List α) : (l.flatMap f).length ≤ l.length := by
    induction l with
    | nil => exact le_refl 0
    | cons a l ih =>
      rw [flatMap_cons, length_append, length_cons]
      rcases once a with h | h <;> rw [h] <;> simp only [length_cons, length_nil] <;> omega
  induction l with
  | nil => simp
  | cons a l ih =>
    rw [flatMap_cons, map_cons, forall_mem_cons]
    rcases once a with h | h
    · simp [h, ih]
    · refine iff_of_false (fun same => ?_) (fun all => by simp [h] at all)
      have longer := congrArg length same
      have bound := short l
      simp only [h, nil_append, length_cons, length_map] at longer
      omega

theorem forwarded_handleRecord (req : Request) (record : Record) :
    (handleRecord parseRecord svrTime tags req record).filterMap Effect.forwarded =
      if (parseRecord record.body).isSome ∨ record.dataType ∉ [2001, 2003, 6003, 1010, 1011] then
        [(req.agentID, req.mqMsg svrTime tags record)] else [] := by
  cases h : parseRecord record.body <;> simp only [handleRecord, h] <;> split <;>
    simp_all [Effect.forwarded, filterMap_cons]

/-- Every record is forwarded once, in order and with the fields of the agent, exactly when the
records of the types 2001, 2003, 6003, 1010 and 1011 can be decoded. -/
theorem forwarded_iff (req : Request) :
    (handleRawData parseRecord svrTime tags req).1.filterMap Effect.forwarded =
        req.data.map (fun record => (req.agentID, req.mqMsg svrTime tags record)) ↔
      ∀ record ∈ req.data, Decodes parseRecord record := by
  rw [handleRawData, filterMap_flatMap, flatMap_eq_map_iff]
  · refine forall₂_congr fun record _ => ?_
    rw [forwarded_handleRecord, Decodes, ite_eq_left_iff]
    simp only [nil_eq, reduceCtorEq, imp_false, not_not]
    tauto
  · intro record
    rw [forwarded_handleRecord]
    split <;> simp

/-- A task result that cannot be decoded is lost, and a heartbeat that cannot be decoded is not. -/
theorem undecoded_dropped : ((handleRawData (fun _ => (none : Option Unit)) 0 none
      ⟨[⟨2001, 0, [0xff]⟩, ⟨1000, 0, [0xff]⟩], [], [], [], [], [], [], [], []⟩).1.filterMap
        Effect.forwarded).map (fun sent => sent.2.dataType) = [1000] := by
  decide

end Elkeid.Center.RawData
