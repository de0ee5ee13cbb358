import Elkeid.Rasp.Lifecycle

/-!
# The channels of the RASP servers

`send_message_to_probe` of `rasp/librasp/src/manager.rs`, and `mnt_namespace_comm_pair` of
`ProcessMode`, the channels that `start_comm` opens beside the servers. `stop_comm` takes a server
out of its map and leaves its channel, but it takes out only a server that it has killed, and that
kill ends the manager too.
-/

namespace Elkeid.Rasp.Channels

open Foundations Machine AList Host Option

def channelSize : Nat := 50

structure ProbeConfigData where
  uuid : String := ""
  blocks : Option (List String) := none
  filters : Option (List String) := none
  limits : Option (List String) := none
  patches : Option (List String) := none

def ProbeConfigData.empty : Int → Except String ProbeConfigData
  | 6 => .ok { filters := some [] }
  | 7 => .ok { blocks := some [] }
  | 8 => .ok { limits := some [] }
  | 9 => .ok { patches := some [] }
  | _ => .error "message type not valid"

structure PidMissingProbeConfig where
  messageType : Int
  data : ProbeConfigData

structure Json where
  fromStr : String → Except String (List PidMissingProbeConfig)
  toString : PidMissingProbeConfig → Except String String

def emptyMessage (messageType : Int) : Except String PidMissingProbeConfig :=
  (ProbeConfigData.empty messageType).map (⟨messageType, ·⟩)

def validMessages (json : Json) (messages : List PidMissingProbeConfig) :
    Except String (List PidMissingProbeConfig) := do
  let messages ← if messages.length ≤ 0 then [6, 7, 8, 9].mapM emptyMessage else pure messages
  messages.filterMapM fun m =>
    if m.data.uuid = "" then some <$> emptyMessage m.messageType
    else pure ((json.toString m).toOption.map fun _ => m)

def texts (json : Json) (pid : Int) (nspid : Except String (Option Int)) (message : String) :
    Except String (List String) := do
  match ← nspid with
  | none => throw ("can not fetch nspid: " ++ toString pid)
  | some _ =>
    let valid ← validMessages json (← json.fromStr message)
    return valid.filterMap fun m => (json.toString m).toOption

structure Servers where
  host : Host
  /-- what each channel holds -/
  commPair : AList (fun _ : String => List String)
  /-- what the call of `send_message_to_probe` under way has still to send -/
  sending : Option (String × List String)

inductive Action where
  | start (info : ProcessInfo) (answers : Answers)
  | stop (info : ProcessInfo)
  | send (pid : Int) (mntNamespace message : String) (nspid : Except String (Option Int))
  /-- the call under way sends its next text -/
  | push
  /-- it has written the config file -/
  | finish (written : Except String Unit)
  /-- a text is taken out of a channel -/
  | take (mntNamespace : String)

inductive Event where
  | called (event : Rasp.Event)
  | enqueued (mntNamespace text : String)
  | other
  | returned (result : Except String Unit)

namespace Servers

def new (self : Process) : Servers := ⟨newServerHost self, ∅, none⟩

/-- The namespace in which `start_comm` of `ProcessMode` has spawned a server. -/
def spawned (host : Host) (info : ProcessInfo) (answers : Answers) : Option String :=
  match info.getMntNs, host.startComm info answers with
  | .ok mntNamespace, .ok _ =>
    if host.manager.namespaceTracer.serverState mntNamespace = none then some mntNamespace else none
  | _, _ => none

/-- What the manager does while it runs. -/
def act (json : Json) (servers : Servers) (action : Action) : Option (Servers × Event) :=
  match servers.sending, action with
  | none, .start info answers =>
    let called := servers.host.start info answers
    let commPair := match spawned servers.host info answers with
      | some mntNamespace => servers.commPair.insert mntNamespace []
      | none => servers.commPair
    some ({ servers with host := called.1, commPair }, .called called.2)
  | none, .stop info =>
    let called := servers.host.stop info
    some ({ servers with host := called.1 }, .called called.2)
  | none, .send pid mntNamespace message nspid =>
    match texts json pid nspid message with
    | .ok texts => some ({ servers with sending := some (mntNamespace, texts) }, .other)
    | .error message => some (servers, .returned (.error message))
  | some (mntNamespace, text :: rest), .push =>
    match servers.commPair.lookup mntNamespace with
    | none => some ({ servers with sending := some (mntNamespace, rest) }, .other)
    | some held =>
      -- the pair keeps a receiver, so a full channel blocks the call
      if held.length < channelSize then
        some ({ servers with
          commPair := servers.commPair.insert mntNamespace (held ++ [text])
          sending := some (mntNamespace, rest) }, .enqueued mntNamespace text)
      else none
  | some (_, []), .finish written => some ({ servers with sending := none }, .returned written)
  | _, .take mntNamespace =>
    match servers.commPair.lookup mntNamespace with
    | some (_ :: rest) =>
      some ({ servers with commPair := servers.commPair.insert mntNamespace rest }, .other)
    | _ => none
  | _, _ => none

def step (json : Json) (servers : Servers) (action : Action) : Option (Servers × Event) :=
  if servers.host.Alive then servers.act json action else none

/-- The namespaces with a channel are those where a server runs, and the last step has put a text
only into the channel of a running server. -/
def Kept (past : List Event) (servers : Servers) : Prop :=
  (∀ mntNamespace, mntNamespace ∈ servers.commPair ↔ servers.host.Serves mntNamespace) ∧
    ∀ mntNamespace text, past.getLast? = some (.enqueued mntNamespace text) →
      servers.host.Serves mntNamespace

/-- What a manager that is alive knows of its servers. -/
def Follows (past : List Event) (servers : Servers) : Prop :=
  servers.host.Alive →
    (∃ hostPast comm, Tracked hostPast servers.host comm) ∧ Kept past servers

variable {host : Host} {info : ProcessInfo} {answers : Answers} {hostPast : List Rasp.Event}
  {comm : ProcessMode} {mntNamespace elsewhere : String}

theorem mem_of_lookup {map : AList (fun _ : String => List String)} {held : List String}
    (found : map.lookup mntNamespace = some held) : mntNamespace ∈ map :=
  lookup_isSome.mp (isSome_iff_exists.mpr ⟨held, found⟩)

theorem mem_insert_of_lookup {map : AList (fun _ : String => List String)} {held new : List String}
    (found : map.lookup mntNamespace = some held) :
    elsewhere ∈ map.insert mntNamespace new ↔ elsewhere ∈ map :=
  (mem_insert _).trans (or_iff_right_of_imp fun same => same ▸ mem_of_lookup found)

theorem serves_start (tracked : Tracked hostPast host comm) :
    (host.start info answers).1.Serves elsewhere ↔
      spawned host info answers = some elsewhere ∨ host.Serves elsewhere := by
  rw [Host.start, spawned]
  cases isNs : info.getMntNs with
  | error message => simp
  | ok mntNamespace =>
    cases started : host.startComm info answers with
    | error message => simp
    | ok next =>
      cases took_of_startComm tracked.noThread tracked.isComm isNs started with
      | reused _ _ patchField isOpen =>
        simp only [isOpen, reduceCtorEq, if_false, false_or]
        exact (same_updatePatchField patchField).serves_iff
      | reopened _ _ closed => cases tracked.serverState closed
      | spawned _ _ patchField id absent =>
        simp only [if_pos absent, some.injEq]
        exact serves_spawned.trans (or_congr_left eq_comm)

theorem serves_stop (tracked : Tracked hostPast host comm) (alive : (host.stop info).1.Alive) :
    (host.stop info).1.Serves elsewhere ↔ host.Serves elsewhere := by
  rw [Host.stop] at alive ⊢
  cases isNs : info.getMntNs with
  | error message => rfl
  | ok mntNamespace =>
    simp only [isNs] at alive
    by_cases isFirst : host.entry mntNamespace = some ([info.pid], true)
    · -- the kill of the server has ended the manager
      rw [Alive, (tracked.stop_kills isFirst).2] at alive
      cases alive
    · exact (tracked.stop_spares isFirst).2.1.serves_iff

variable {json : Json} {servers later : Servers} {action : Action} {event : Event}
  {past : List Event}

/-- A call of the manager keeps the tracer in step with the servers. -/
theorem tracked_of_call {call : Rasp.Action} {next : Host} {called : Rasp.Event}
    (tracked : Tracked hostPast host comm) (stepped : host.step call = some (next, called))
    (alive : next.Alive) : ∃ past comm, Tracked past next comm :=
  ⟨_, (took_of_step tracked.noThread tracked.isComm stepped).tracked tracked alive⟩

theorem Follows.step (follows : Follows past servers)
    (stepped : servers.step json action = some (later, event)) :
    Follows (past ++ [event]) later := by
  intro alive
  obtain ⟨wasAlive, taken⟩ := ite_none_right_eq_some.mp stepped
  obtain ⟨⟨_, _, tracked⟩, kept⟩ := follows wasAlive
  unfold act at taken
  rw [Kept, List.getLast?_concat]
  split at taken
  next info answers _ =>
    obtain ⟨rfl, rfl⟩ := Prod.mk.inj (some.inj taken)
    have called : servers.host.step (.start info answers) = _ := if_pos wasAlive
    refine ⟨tracked_of_call tracked called alive, fun elsewhere => ?_, by rintro _ _ ⟨⟩⟩
    refine Iff.trans ?_ ((or_congr_right (kept.1 elsewhere)).trans (serves_start tracked).symm)
    cases isSpawned : spawned servers.host info answers with
    | none => simp
    | some mntNamespace => simp [mem_insert, eq_comm]
  next info _ =>
    obtain ⟨rfl, rfl⟩ := Prod.mk.inj (some.inj taken)
    have called : servers.host.step (.stop info) = _ := if_pos wasAlive
    refine ⟨tracked_of_call tracked called alive, fun elsewhere => ?_, by rintro _ _ ⟨⟩⟩
    exact (kept.1 elsewhere).trans (serves_stop tracked alive).symm
  next pid mntNamespace message nspid _ =>
    split at taken <;> cases taken <;> exact ⟨⟨_, _, tracked⟩, kept.1, by rintro _ _ ⟨⟩⟩
  next mntNamespace text rest _ =>
    split at taken
    next =>
      cases taken
      exact ⟨⟨_, _, tracked⟩, kept.1, by rintro _ _ ⟨⟩⟩
    next held found =>
      split at taken <;> cases taken
      refine ⟨⟨_, _, tracked⟩, fun elsewhere => ?_, ?_⟩
      · exact (mem_insert_of_lookup found).trans (kept.1 elsewhere)
      · rintro _ _ ⟨⟩
        exact (kept.1 _).mp (mem_of_lookup found)
  next =>
    cases taken
    exact ⟨⟨_, _, tracked⟩, kept.1, by rintro _ _ ⟨⟩⟩
  next =>
    split at taken <;> cases taken
    next found =>
      refine ⟨⟨_, _, tracked⟩, fun elsewhere => ?_, by rintro _ _ ⟨⟩⟩
      exact (mem_insert_of_lookup found).trans (kept.1 elsewhere)
  next => cases taken

theorem follows_new (id group : Nat) : Follows [] (new ⟨id, group, none⟩) := by
  intro _
  refine ⟨⟨_, _, newServerHost_tracked _ rfl⟩, fun _ => iff_of_false nofun ?_, by rintro _ _ ⟨⟩⟩
  rintro ⟨process, listed, serves⟩
  cases List.mem_singleton.mp listed
  cases serves

/-- After every run of a manager that is still alive, the namespaces with a channel are those where
a server runs, and the last text went to a running server. -/
theorem channels_iff_servers (json : Json) (id group : Nat) (actions : List Action)
    (events : List Event)
    (ran : run (step json) (new ⟨id, group, none⟩) actions = some (later, events))
    (alive : later.host.Alive) : Kept events later := by
  have atEnd : Follows events later :=
    run_invariant (fun _ _ _ _ _ follows => follows.step) ran (follows_new id group)
  exact (atEnd alive).2

def plainJson : Json := ⟨fun _ => .ok [], fun m => .ok (toString m.messageType)⟩

/-- Two pids start in one namespace, the second stops, and a text goes to the server. -/
def secondStops : List Action :=
  [.start (inNamespace 10 "mnt") (spawning 100), .start (inNamespace 11 "mnt") (spawning 101),
    .stop (inNamespace 11 "mnt"), .send 10 "mnt" "" (.ok (some 1)), .push]

theorem channels_iff_servers_secondStops : ∃ servers events,
    run (step plainJson) (new ⟨1, 1, none⟩) secondStops = some (servers, events) ∧
      events.getLast? = some (.enqueued "mnt" "6") ∧ servers.host.Alive ∧ Kept events servers :=
  ⟨_, _, rfl, rfl, by decide,
    channels_iff_servers plainJson 1 1 secondStops _ rfl (by decide)⟩

end Servers

end Elkeid.Rasp.Channels
