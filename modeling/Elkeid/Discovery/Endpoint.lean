import Elkeid.Foundations.Machine
import Elkeid.Discovery.SafeMap

/-!
# The endpoint of the service discovery

`server/service_discovery/endpoint/endpoint.go`. The calls of `Register` and `Evict`, the
three loops `registryRefresh`, `syncSend` and `syncRecv`, and `Recv` share one map and
two channels. A move is what happens between two points where another goroutine may run:
one operation of the map, of a channel or of the clock.
-/

namespace Elkeid.Discovery

open Foundations Foundations.Text List SafeMap

def defaultMergeNum : Nat := 100
def defaultSendChannelLen : Nat := 1024 * 8
def defaultRecvChannelLen : Nat := 1024 * 8

inductive Status
  | green
  | blue
  | yellow
  | orange
  | red
  deriving DecidableEq

/-- `Extra` is carried along and never looked into. -/
structure Registry where
  name : Bytes
  ip : Bytes
  port : Int
  status : Status
  createAt : Int
  updateAt : Int
  weight : Int
  extra : Bytes
  deriving DecidableEq

/-- `fmt.Sprintf("%s:%d", ip, port)`. -/
def subKey (ip : Bytes) (port : Int) : Bytes := ip ++ ofChars [':'] ++ signedDecimal port

def Registry.subKey (reg : Registry) : Bytes := Discovery.subKey reg.ip reg.port

inductive SyncAction
  | register
  | evict
  deriving DecidableEq

structure SyncInfo where
  action : SyncAction
  registry : Registry
  deriving DecidableEq

structure TransInfo where
  source : Bytes
  data : List SyncInfo
  deriving DecidableEq

/-- Where a call of `Register` or `Evict` stands: a `Register` that has read the clock, one
that has read the map, and a call that has written the map and has the rest to send. -/
inductive Call
  | looking (name ip : Bytes) (port weight : Int) (extra : Bytes) (ts : Int)
  | writing (name ip : Bytes) (port : Int) (reg : Registry)
  | sending (info : SyncInfo)

/-- The rest of a pass of `registryRefresh`: the names still to visit, and what is left of
the copy of the name it is at. -/
structure Pass where
  nowAt : Int
  names : List Bytes
  name : Bytes
  entries : List Registry

/-- Where `registryRefresh` stands: before it reads the clock, at its `select`, in a pass,
or in the `Evict` of a pass with the rest to send. -/
inductive Refresh
  | starting
  | waiting (nowAt : Int)
  | scanning (pass : Pass)
  | pushing (info : SyncInfo) (pass : Pass)

structure Endpoint where
  registryMap : SafeMap Registry
  sendChan : List SyncInfo
  recvChan : List TransInfo
  calls : List Call
  refresh : Refresh
  /-- The list `syncSend` collects. -/
  syncInfoList : List SyncInfo
  /-- What `syncRecv` has in hand. -/
  applying : Option TransInfo
  /-- The last time read. -/
  clock : Int

def newEndpoint : Endpoint where
  registryMap := .empty
  sendChan := []
  recvChan := []
  calls := []
  refresh := .starting
  syncInfoList := []
  applying := none
  clock := 0

inductive Move
  | register (name ip : Bytes) (port weight : Int) (extra : Bytes) (ts : Int)
  | evict (name ip : Bytes) (port : Int)
  | proceed (index : Nat)
  | readClock (now : Int)
  | refreshTick
  | nextName (index : Nat)
  | writeBack (index : Nat)
  | pushEvict
  | endPass
  | merge
  | sendTick
  | recv (transInfo : TransInfo)
  | takeBatch
  | applyInfo
  deriving DecidableEq

/-- What a move did to the map or to a channel. -/
inductive Event
  | registered (name key : Bytes) (reg : Registry)
  | evicted (name key : Bytes)
  | sent (info : SyncInfo)
  | dropped (info : SyncInfo)
  | started
  | copied (name : Bytes)
  | refreshed (name key : Bytes) (reg : Registry)
  | expired (name key : Bytes)
  | flushed (data : List SyncInfo)
  | received (transInfo : TransInfo)
  | refused (transInfo : TransInfo)
  | applied (source : Bytes) (info : SyncInfo)
  | silent
  deriving DecidableEq

/-- The status `registryRefresh` gives after `d` seconds without a heartbeat; with none
the instance is evicted. -/
def refreshStatus (d : Int) : Option Status :=
  if d ≤ 45 then some .green
  else if d > 45 ∧ d ≤ 60 then some .blue
  else if d > 60 ∧ d ≤ 75 then some .yellow
  else if d > 75 ∧ d ≤ 90 then some .orange
  else if d > 90 ∧ d ≤ 105 then some .red
  else none

/-- A difference of `int64` -/
def Registry.age (reg : Registry) (nowAt : Int) : Int := (nowAt - reg.updateAt).bmod (2 ^ 64)

/-- What `Register` stores, given what it has found. -/
def registration (name ip : Bytes) (port weight : Int) (extra : Bytes) (ts : Int) :
    Option Registry → Registry
  | none =>
    { name, ip, port, status := .green, createAt := ts, updateAt := ts, weight, extra }
  | some reg => { reg with weight := weight, updateAt := ts }

/-- What `Evict` sends: the other fields are zero. -/
def evictInfo (name ip : Bytes) (port : Int) : SyncInfo where
  action := .evict
  registry :=
    { name, ip, port, status := .green, createAt := 0, updateAt := 0, weight := 0, extra := [] }

/-- The `switch` of `syncRecv`. -/
def SyncInfo.applyTo (info : SyncInfo) (map : SafeMap Registry) : SafeMap Registry :=
  match info.action with
  | .register => map.hSet info.registry.name info.registry.subKey info.registry
  | .evict => map.hDel info.registry.name info.registry.subKey

namespace Endpoint

/-- A full channel drops what is sent to it. -/
def push (endpoint : Endpoint) (info : SyncInfo) : Endpoint × Event :=
  if endpoint.sendChan.length < defaultSendChannelLen then
    ({ endpoint with sendChan := endpoint.sendChan ++ [info] }, .sent info)
  else (endpoint, .dropped info)

def proceed (endpoint : Endpoint) (index : Nat) : Option (Endpoint × Event) :=
  match endpoint.calls[index]? with
  | none => none
  | some (.looking name ip port weight extra ts) =>
    let found := endpoint.registryMap.hGet name (subKey ip port)
    let call := Call.writing name ip port (registration name ip port weight extra ts found)
    some ({ endpoint with calls := endpoint.calls.set index call }, .silent)
  | some (.writing name ip port reg) =>
    some
      ({ endpoint with
          registryMap := endpoint.registryMap.hSet name (subKey ip port) reg
          calls := endpoint.calls.set index (.sending ⟨.register, reg⟩) },
        .registered name (subKey ip port) reg)
  | some (.sending info) =>
    some ({ endpoint with calls := endpoint.calls.eraseIdx index }.push info)

/-- The copy `Get` makes of one name; Go visits its entries in any order. -/
def nextName (endpoint : Endpoint) (index : Nat) : Option (Endpoint × Event) :=
  match endpoint.refresh with
  | .scanning pass =>
    match pass.entries, pass.names[index]? with
    | [], some name =>
      let names := pass.names.eraseIdx index
      match endpoint.registryMap.get name with
      | none => some ({ endpoint with refresh := .scanning { pass with names } }, .silent)
      | some regMap =>
        let entries := regMap.entries.map Sigma.snd
        some ({ endpoint with refresh := .scanning { pass with names, name, entries } },
          .copied name)
    | _, _ => none
  | _ => none

def writeBack (endpoint : Endpoint) (index : Nat) : Option (Endpoint × Event) :=
  match endpoint.refresh with
  | .scanning pass =>
    match pass.entries[index]? with
    | none => none
    | some reg =>
      let rest := { pass with entries := pass.entries.eraseIdx index }
      match refreshStatus (reg.age pass.nowAt) with
      | some status =>
        let reg := { reg with status := status }
        some
          ({ endpoint with
              registryMap := endpoint.registryMap.hSet pass.name reg.subKey reg
              refresh := .scanning rest },
            .refreshed pass.name reg.subKey reg)
      | none =>
        some
          ({ endpoint with
              registryMap := endpoint.registryMap.hDel pass.name reg.subKey
              refresh := .pushing (evictInfo pass.name reg.ip reg.port) rest },
            .expired pass.name reg.subKey)
  | _ => none

def merge (endpoint : Endpoint) : Option (Endpoint × Event) :=
  match endpoint.sendChan with
  | [] => none
  | syncInfo :: rest =>
    let syncInfoList := endpoint.syncInfoList ++ [syncInfo]
    if syncInfoList.length ≥ defaultMergeNum then
      some ({ endpoint with sendChan := rest, syncInfoList := [] }, .flushed syncInfoList)
    else some ({ endpoint with sendChan := rest, syncInfoList }, .silent)

def sendTick (endpoint : Endpoint) : Endpoint × Event :=
  if endpoint.syncInfoList.length > 0 then
    ({ endpoint with syncInfoList := [] }, .flushed endpoint.syncInfoList)
  else (endpoint, .silent)

def recv (endpoint : Endpoint) (transInfo : TransInfo) : Endpoint × Event :=
  if endpoint.recvChan.length < defaultRecvChannelLen then
    ({ endpoint with recvChan := endpoint.recvChan ++ [transInfo] }, .received transInfo)
  else (endpoint, .refused transInfo)

def takeBatch (endpoint : Endpoint) : Option (Endpoint × Event) :=
  match endpoint.applying, endpoint.recvChan with
  | none, transInfo :: rest =>
    some ({ endpoint with applying := some transInfo, recvChan := rest }, .silent)
  | _, _ => none

def applyInfo (endpoint : Endpoint) : Option (Endpoint × Event) :=
  match endpoint.applying with
  | none => none
  | some ⟨_, []⟩ => some ({ endpoint with applying := none }, .silent)
  | some ⟨source, info :: data⟩ =>
    some
      ({ endpoint with
          registryMap := info.applyTo endpoint.registryMap
          applying := some ⟨source, data⟩ },
        .applied source info)

def step (endpoint : Endpoint) : Move → Option (Endpoint × Event)
  | .register name ip port weight extra ts =>
    if endpoint.clock ≤ ts then
      let call := Call.looking name ip port weight extra ts
      some ({ endpoint with clock := ts, calls := endpoint.calls ++ [call] }, .silent)
    else none
  | .evict name ip port =>
    some
      ({ endpoint with
          registryMap := endpoint.registryMap.hDel name (subKey ip port)
          calls := endpoint.calls ++ [.sending (evictInfo name ip port)] },
        .evicted name (subKey ip port))
  | .proceed index => endpoint.proceed index
  | .readClock now =>
    match endpoint.refresh with
    | .starting =>
      if endpoint.clock ≤ now then
        some ({ endpoint with clock := now, refresh := .waiting now }, .silent)
      else none
    | _ => none
  | .refreshTick =>
    match endpoint.refresh with
    | .waiting nowAt =>
      let names := endpoint.registryMap.keys
      some ({ endpoint with refresh := .scanning ⟨nowAt, names, [], []⟩ }, .started)
    | _ => none
  | .nextName index => endpoint.nextName index
  | .writeBack index => endpoint.writeBack index
  | .pushEvict =>
    match endpoint.refresh with
    | .pushing info pass => some ({ endpoint with refresh := .scanning pass }.push info)
    | _ => none
  | .endPass =>
    match endpoint.refresh with
    | .scanning ⟨_, [], _, []⟩ => some ({ endpoint with refresh := .starting }, .silent)
    | _ => none
  | .merge => endpoint.merge
  | .sendTick => some endpoint.sendTick
  | .recv transInfo => some (endpoint.recv transInfo)
  | .takeBatch => endpoint.takeBatch
  | .applyInfo => endpoint.applyInfo

inductive Took (endpoint : Endpoint) : Move → Endpoint → Event → Prop
  | called (name ip port weight extra ts) (later : endpoint.clock ≤ ts) :
      Took endpoint (.register name ip port weight extra ts)
        { endpoint with
          clock := ts
          calls := endpoint.calls ++ [.looking name ip port weight extra ts] }
        .silent
  | looked (index name ip port weight extra ts)
      (atCall : endpoint.calls[index]? = some (.looking name ip port weight extra ts)) :
      Took endpoint (.proceed index)
        { endpoint with
          calls := endpoint.calls.set index
            (.writing name ip port (registration name ip port weight extra ts
              (endpoint.registryMap.hGet name (subKey ip port)))) }
        .silent
  | registered (index name ip port reg)
      (atCall : endpoint.calls[index]? = some (.writing name ip port reg)) :
      Took endpoint (.proceed index)
        { endpoint with
          registryMap := endpoint.registryMap.hSet name (subKey ip port) reg
          calls := endpoint.calls.set index (.sending ⟨.register, reg⟩) }
        (.registered name (subKey ip port) reg)
  | evicted (name ip port) :
      Took endpoint (.evict name ip port)
        { endpoint with
          registryMap := endpoint.registryMap.hDel name (subKey ip port)
          calls := endpoint.calls ++ [.sending (evictInfo name ip port)] }
        (.evicted name (subKey ip port))
  | sent (index info) (atCall : endpoint.calls[index]? = some (.sending info)) :
      Took endpoint (.proceed index)
        { endpoint with
          calls := endpoint.calls.eraseIdx index
          sendChan := endpoint.sendChan ++ [info] }
        (.sent info)
  | dropped (index info) (atCall : endpoint.calls[index]? = some (.sending info)) :
      Took endpoint (.proceed index) { endpoint with calls := endpoint.calls.eraseIdx index }
        (.dropped info)
  | clockRead (now) (atStart : endpoint.refresh = .starting) (later : endpoint.clock ≤ now) :
      Took endpoint (.readClock now) { endpoint with clock := now, refresh := .waiting now } .silent
  | started (nowAt) (atSelect : endpoint.refresh = .waiting nowAt) :
      Took endpoint .refreshTick
        { endpoint with refresh := .scanning ⟨nowAt, endpoint.registryMap.keys, [], []⟩ } .started
  | skipped (pass : Pass) (index names) (atPass : endpoint.refresh = .scanning pass)
      (copyDone : pass.entries = []) :
      Took endpoint (.nextName index)
        { endpoint with refresh := .scanning { pass with names } } .silent
  | copied (pass : Pass) (index names name regMap) (atPass : endpoint.refresh = .scanning pass)
      (found : endpoint.registryMap.get name = some regMap) :
      Took endpoint (.nextName index)
        { endpoint with
          refresh := .scanning
            { pass with names, name, entries := regMap.entries.map Sigma.snd } }
        (.copied name)
  | refreshed (pass index reg status) (atPass : endpoint.refresh = .scanning pass)
      (atEntry : pass.entries[index]? = some reg)
      (inTime : refreshStatus (reg.age pass.nowAt) = some status) :
      Took endpoint (.writeBack index)
        { endpoint with
          registryMap :=
            endpoint.registryMap.hSet pass.name reg.subKey { reg with status := status }
          refresh := .scanning { pass with entries := pass.entries.eraseIdx index } }
        (.refreshed pass.name reg.subKey { reg with status := status })
  | expired (pass index reg) (atPass : endpoint.refresh = .scanning pass)
      (atEntry : pass.entries[index]? = some reg)
      (late : refreshStatus (reg.age pass.nowAt) = none) :
      Took endpoint (.writeBack index)
        { endpoint with
          registryMap := endpoint.registryMap.hDel pass.name reg.subKey
          refresh := .pushing (evictInfo pass.name reg.ip reg.port)
            { pass with entries := pass.entries.eraseIdx index } }
        (.expired pass.name reg.subKey)
  | evictSent (info pass) (atEvict : endpoint.refresh = .pushing info pass) :
      Took endpoint .pushEvict
        { endpoint with
          refresh := .scanning pass
          sendChan := endpoint.sendChan ++ [info] }
        (.sent info)
  | evictDropped (info pass) (atEvict : endpoint.refresh = .pushing info pass) :
      Took endpoint .pushEvict { endpoint with refresh := .scanning pass } (.dropped info)
  | ended : Took endpoint .endPass { endpoint with refresh := .starting } .silent
  | merged (info rest) (queued : endpoint.sendChan = info :: rest) :
      Took endpoint .merge
        { endpoint with
          sendChan := rest
          syncInfoList := endpoint.syncInfoList ++ [info] }
        .silent
  | flushed (info rest) (queued : endpoint.sendChan = info :: rest) :
      Took endpoint .merge { endpoint with sendChan := rest, syncInfoList := [] }
        (.flushed (endpoint.syncInfoList ++ [info]))
  | ticked : Took endpoint .sendTick { endpoint with syncInfoList := [] }
      (.flushed endpoint.syncInfoList)
  | idle : Took endpoint .sendTick endpoint .silent
  | received (transInfo) :
      Took endpoint (.recv transInfo) { endpoint with recvChan := endpoint.recvChan ++ [transInfo] }
        (.received transInfo)
  | refused (transInfo) : Took endpoint (.recv transInfo) endpoint (.refused transInfo)
  | taken (transInfo rest) (free : endpoint.applying = none)
      (queued : endpoint.recvChan = transInfo :: rest) :
      Took endpoint .takeBatch
        { endpoint with applying := some transInfo, recvChan := rest } .silent
  | applied (source info data)
      (inHand : endpoint.applying = some ⟨source, info :: data⟩) :
      Took endpoint .applyInfo
        { endpoint with
          registryMap := info.applyTo endpoint.registryMap
          applying := some ⟨source, data⟩ }
        (.applied source info)
  | batchDone (source) (inHand : endpoint.applying = some ⟨source, []⟩) :
      Took endpoint .applyInfo { endpoint with applying := none } .silent

variable {endpoint next : Endpoint} {event : Event} {index : Nat}

theorem took_of_proceed (stepped : endpoint.proceed index = some (next, event)) :
    Took endpoint (.proceed index) next event := by
  simp only [proceed] at stepped
  split at stepped
  next => cases stepped
  next name ip port weight extra ts atCall =>
    cases stepped
    exact .looked index name ip port weight extra ts atCall
  next name ip port reg atCall =>
    cases stepped
    exact .registered index name ip port reg atCall
  next info atCall =>
    simp only [push, Option.some.injEq] at stepped
    split at stepped
    · cases stepped
      exact .sent index info atCall
    · cases stepped
      exact .dropped index info atCall

theorem took_of_nextName (stepped : endpoint.nextName index = some (next, event)) :
    Took endpoint (.nextName index) next event := by
  simp only [nextName] at stepped
  split at stepped
  next pass atPass =>
    split at stepped
    next name copyDone _ =>
      split at stepped <;> cases stepped
      next => exact .skipped pass index _ atPass copyDone
      next regMap found => exact .copied pass index _ name regMap atPass found
    next => cases stepped
  next => cases stepped

theorem took_of_writeBack (stepped : endpoint.writeBack index = some (next, event)) :
    Took endpoint (.writeBack index) next event := by
  simp only [writeBack] at stepped
  split at stepped
  next pass atPass =>
    split at stepped
    next => cases stepped
    next reg atEntry =>
      split at stepped <;> cases stepped
      next status inTime => exact .refreshed pass index reg status atPass atEntry inTime
      next late => exact .expired pass index reg atPass atEntry late
  next => cases stepped

theorem took_of_merge (stepped : endpoint.merge = some (next, event)) :
    Took endpoint .merge next event := by
  simp only [merge] at stepped
  split at stepped
  next => cases stepped
  next info rest queued =>
    split at stepped
    · cases stepped
      exact .flushed info rest queued
    · cases stepped
      exact .merged info rest queued

theorem took_of_applyInfo (stepped : endpoint.applyInfo = some (next, event)) :
    Took endpoint .applyInfo next event := by
  simp only [applyInfo] at stepped
  split at stepped <;> cases stepped
  next source inHand => exact .batchDone source inHand
  next source info data inHand => exact .applied source info data inHand

theorem took_of_step {move : Move} (stepped : endpoint.step move = some (next, event)) :
    Took endpoint move next event := by
  cases move with
  | register name ip port weight extra ts =>
    simp only [step] at stepped
    split at stepped <;> cases stepped
    next later => exact .called name ip port weight extra ts later
  | evict name ip port =>
    cases stepped
    exact .evicted name ip port
  | proceed index => exact took_of_proceed stepped
  | readClock now =>
    simp only [step] at stepped
    split at stepped
    next atStart =>
      split at stepped <;> cases stepped
      next later => exact .clockRead now atStart later
    next => cases stepped
  | refreshTick =>
    simp only [step] at stepped
    split at stepped <;> cases stepped
    next nowAt atSelect => exact .started nowAt atSelect
  | nextName index => exact took_of_nextName stepped
  | writeBack index => exact took_of_writeBack stepped
  | pushEvict =>
    simp only [step] at stepped
    split at stepped
    next info pass atEvict =>
      simp only [push, Option.some.injEq] at stepped
      split at stepped
      · cases stepped
        exact .evictSent info pass atEvict
      · cases stepped
        exact .evictDropped info pass atEvict
    next => cases stepped
  | endPass =>
    simp only [step] at stepped
    split at stepped <;> cases stepped
    exact .ended
  | merge => exact took_of_merge stepped
  | sendTick =>
    simp only [step, sendTick, Option.some.injEq] at stepped
    split at stepped
    · cases stepped
      exact .ticked
    · cases stepped
      exact .idle
  | recv transInfo =>
    simp only [step, recv, Option.some.injEq] at stepped
    split at stepped
    · cases stepped
      exact .received transInfo
    · cases stepped
      exact .refused transInfo
  | takeBatch =>
    simp only [step, takeBatch] at stepped
    split at stepped <;> cases stepped
    next transInfo rest free queued => exact .taken transInfo rest free queued
  | applyInfo => exact took_of_applyInfo stepped

end Endpoint

/-- The entry of the map that an event has set, or deleted. -/
def Event.write : Event → Option (Bytes × Bytes × Option Registry)
  | .registered name key reg | .refreshed name key reg => some (name, key, some reg)
  | .evicted name key | .expired name key => some (name, key, none)
  | .applied _ ⟨.register, reg⟩ => some (reg.name, reg.subKey, some reg)
  | .applied _ ⟨.evict, reg⟩ => some (reg.name, reg.subKey, none)
  | _ => none

def Event.Touches (name key : Bytes) (event : Event) : Prop :=
  ∃ value, event.write = some (name, key, value)

def Event.Registers (name key : Bytes) : Event → Prop
  | .registered otherName otherKey _ => otherName = name ∧ otherKey = key
  | .applied _ ⟨.register, reg⟩ => reg.name = name ∧ reg.subKey = key
  | _ => False

def Event.Evicts (name key : Bytes) (event : Event) : Prop :=
  event.write = some (name, key, none)

namespace Endpoint.Took

variable {endpoint next : Endpoint} {move : Move} {event : Event} {name key : Bytes}

section

variable (took : Took endpoint move next event)
include took

theorem registryMap_eq : next.registryMap = match event.write with
      | none => endpoint.registryMap
      | some (name, key, some reg) => endpoint.registryMap.hSet name key reg
      | some (name, key, none) => endpoint.registryMap.hDel name key := by
  cases took with
  | applied source info data inHand =>
    obtain ⟨action, reg⟩ := info
    cases action <;> rfl
  | _ => rfl

theorem hGet_of_write {value : Option Registry}
    (written : event.write = some (name, key, value)) : next.registryMap.hGet name key = value := by
  have result := took.registryMap_eq
  cases value with
  | none =>
    simp only [written] at result
    rw [result, hGet_hDel]
  | some reg =>
    simp only [written] at result
    rw [result, hGet_hSet]

theorem hGet_of_not_touches (untouched : ¬ event.Touches name key) :
    next.registryMap.hGet name key = endpoint.registryMap.hGet name key := by
  have result := took.registryMap_eq
  cases written : event.write with
  | none => simp [result, written]
  | some change =>
    obtain ⟨otherName, otherKey, value⟩ := change
    have differs : (name, key) ≠ (otherName, otherKey) := by
      intro same
      cases same
      exact untouched ⟨value, written⟩
    cases value with
    | none =>
      simp only [written] at result
      rw [result, hGet_hDel_of_ne _ _ _ differs]
    | some reg =>
      simp only [written] at result
      rw [result, hGet_hSet_of_ne _ _ _ _ differs]

end

end Endpoint.Took

theorem Event.registers_or_refreshed {event : Event} {name key : Bytes} {reg : Registry}
    (written : event.write = some (name, key, some reg)) :
    event.Registers name key ∨ event = .refreshed name key reg := by
  cases event with
  | registered otherName otherKey other =>
    cases written
    exact .inl ⟨rfl, rfl⟩
  | refreshed otherName otherKey other =>
    cases written
    exact .inr rfl
  | applied source info =>
    obtain ⟨action, other⟩ := info
    cases action with
    | register =>
      cases written
      exact .inl ⟨rfl, rfl⟩
    | evict => cases written
  | _ => cases written

def Refresh.pass? : Refresh → Option Pass
  | .scanning pass | .pushing _ pass => some pass
  | _ => none

def StoredNamed (map : SafeMap Registry) : Prop :=
  ∀ name key reg, map.hGet name key = some reg → reg.name = name ∧ reg.subKey = key

namespace StoredNamed

variable {map : SafeMap Registry}

section

variable (named : StoredNamed map)
include named

theorem hSet {name key : Bytes} {reg : Registry}
    (sameName : reg.name = name) (sameKey : reg.subKey = key) :
    StoredNamed (map.hSet name key reg) := by
  intro otherName otherKey other found
  by_cases same : (otherName, otherKey) = (name, key)
  · cases same
    cases (hGet_hSet map name key reg).symm.trans found
    exact ⟨sameName, sameKey⟩
  · exact named _ _ _ ((hGet_hSet_of_ne map name key reg same).symm.trans found)

theorem hDel (name key : Bytes) : StoredNamed (map.hDel name key) := by
  intro otherName otherKey other found
  by_cases same : (otherName, otherKey) = (name, key)
  · cases same
    cases (hGet_hDel map name key).symm.trans found
  · exact named _ _ _ ((hGet_hDel_of_ne map name key same).symm.trans found)

theorem applyTo (info : SyncInfo) : StoredNamed (info.applyTo map) := by
  rw [SyncInfo.applyTo]
  split
  next => exact named.hSet rfl rfl
  next => exact named.hDel _ _

theorem of_get {name : Bytes} {regMap : AList fun _ : Bytes => Registry}
    (found : map.get name = some regMap) {reg : Registry}
    (listed : reg ∈ regMap.entries.map Sigma.snd) :
    reg.name = name ∧ map.hGet name reg.subKey = some reg := by
  obtain ⟨⟨key, entry⟩, present, rfl⟩ := mem_map.mp listed
  have stored := hGet_of_get key found present
  obtain ⟨sameName, sameKey⟩ := named name key entry stored
  exact ⟨sameName, sameKey ▸ stored⟩

theorem registration (name ip : Bytes) (port weight : Int) (extra : Bytes) (ts : Int) :
    let reg := registration name ip port weight extra ts (map.hGet name (subKey ip port))
    reg.name = name ∧ reg.subKey = subKey ip port := by
  cases found : map.hGet name (subKey ip port) with
  | none => exact ⟨rfl, rfl⟩
  | some reg => exact named name (subKey ip port) reg found

end

end StoredNamed

/-- What is stored, about to be stored or about to be written back carries the name and
the key it goes under. -/
structure Endpoint.Named (endpoint : Endpoint) : Prop where
  stored : StoredNamed endpoint.registryMap
  writing : ∀ name ip port reg, .writing name ip port reg ∈ endpoint.calls →
    reg.name = name ∧ reg.subKey = subKey ip port
  copied : ∀ pass, endpoint.refresh.pass? = some pass → ∀ reg ∈ pass.entries, reg.name = pass.name

theorem newEndpoint_named : newEndpoint.Named where
  stored := by
    intro name key reg found
    cases found
  writing := by
    intro name ip port reg listed
    cases listed
  copied := by
    intro pass running
    cases running

namespace Endpoint.Took

variable {endpoint next : Endpoint} {move : Move} {event : Event}

section

variable (took : Took endpoint move next event)
include took

theorem named_calls (named : endpoint.Named) :
    ∀ name ip port reg, .writing name ip port reg ∈ next.calls →
      reg.name = name ∧ reg.subKey = subKey ip port := by
  intro name ip port reg listed
  cases took with
  | called | evicted =>
    rcases mem_append.mp listed with old | new
    · exact named.writing name ip port reg old
    · cases mem_singleton.mp new
  | looked index _ _ _ _ _ _ _ =>
    rcases mem_or_eq_of_mem_set listed with old | new
    · exact named.writing name ip port reg old
    · cases new
      exact named.stored.registration name ip port _ _ _
  | registered index _ _ _ _ _ =>
    rcases mem_or_eq_of_mem_set listed with old | new
    · exact named.writing name ip port reg old
    · cases new
  | sent | dropped => exact named.writing name ip port reg (mem_of_mem_eraseIdx listed)
  | _ => exact named.writing name ip port reg listed

theorem pass_cases {pass : Pass} (running : next.refresh.pass? = some pass) :
    (∃ regMap, event = .copied pass.name ∧ next.registryMap.get pass.name = some regMap ∧
      pass.entries = regMap.entries.map Sigma.snd) ∨
    ((∀ name, event ≠ .copied name) ∧ ∀ reg ∈ pass.entries, ∃ before,
      endpoint.refresh.pass? = some before ∧ before.name = pass.name ∧ reg ∈ before.entries) := by
  cases took with
  | clockRead | ended => cases running
  | copied before index names name regMap atPass found =>
    cases running
    exact .inl ⟨regMap, rfl, found, rfl⟩
  | started _ _ =>
    cases running
    exact .inr ⟨nofun, nofun⟩
  | skipped before index names atPass copyDone =>
    cases running
    refine .inr ⟨nofun, ?_⟩
    intro reg listed
    cases copyDone ▸ listed
  | refreshed before index _ _ atPass _ _ =>
    cases running
    refine .inr ⟨nofun, ?_⟩
    intro reg listed
    exact ⟨before, congrArg Refresh.pass? atPass, rfl, mem_of_mem_eraseIdx listed⟩
  | expired before index _ atPass _ _ =>
    cases running
    refine .inr ⟨nofun, ?_⟩
    intro reg listed
    exact ⟨before, congrArg Refresh.pass? atPass, rfl, mem_of_mem_eraseIdx listed⟩
  | evictSent info before atEvict =>
    cases running
    exact .inr ⟨nofun, fun reg listed => ⟨pass, congrArg Refresh.pass? atEvict, rfl, listed⟩⟩
  | evictDropped info before atEvict =>
    cases running
    exact .inr ⟨nofun, fun reg listed => ⟨pass, congrArg Refresh.pass? atEvict, rfl, listed⟩⟩
  | _ => exact .inr ⟨nofun, fun reg listed => ⟨pass, running, rfl, listed⟩⟩

theorem named_stored (named : endpoint.Named) : StoredNamed next.registryMap := by
  cases took with
  | registered index name ip port reg atCall =>
    obtain ⟨sameName, sameKey⟩ :=
      named.writing name ip port reg (mem_of_getElem? atCall)
    exact named.stored.hSet sameName sameKey
  | evicted name ip port => exact named.stored.hDel name _
  | refreshed pass index reg status atPass atEntry _ =>
    have sameName := named.copied pass (congrArg Refresh.pass? atPass) reg (mem_of_getElem? atEntry)
    exact named.stored.hSet sameName rfl
  | expired pass index reg _ _ _ => exact named.stored.hDel _ _
  | applied source info data _ => exact named.stored.applyTo info
  | _ => exact named.stored

theorem named (before : endpoint.Named) : next.Named where
  stored := took.named_stored before
  writing := took.named_calls before
  copied := by
    intro pass running reg listed
    rcases took.pass_cases running with ⟨regMap, _, found, entries⟩ | ⟨_, kept⟩
    · exact ((took.named_stored before).of_get found (entries ▸ listed)).1
    · obtain ⟨old, wasRunning, sameName, wasListed⟩ := kept reg listed
      exact (before.copied old wasRunning reg wasListed).trans sameName

end

end Endpoint.Took

theorem run_named {moves : List Move} {endpoint : Endpoint} {past : List Event}
    (ran : Machine.run Endpoint.step newEndpoint moves = some (endpoint, past)) :
    endpoint.Named := by
  have preserved : ∀ (past : List Event) (endpoint : Endpoint) move next event,
      endpoint.Named → endpoint.step move = some (next, event) → next.Named := by
    intro past endpoint move next event before stepped
    exact (Endpoint.took_of_step stepped).named before
  exact Machine.run_invariant preserved ran newEndpoint_named

theorem subKeys_eq {map : SafeMap Registry} {name : Bytes}
    (named : ∀ key reg, map.hGet name key = some reg → reg.subKey = key)
    {regMap : AList fun _ : Bytes => Registry} (found : map.get name = some regMap) :
    (regMap.entries.map Sigma.snd).map Registry.subKey = regMap.keys := by
  rw [map_map]
  refine map_congr_left ?_
  rintro ⟨key, reg⟩ listed
  exact named key reg (hGet_of_get key found listed)

end Elkeid.Discovery
