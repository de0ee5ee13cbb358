import Elkeid.Foundations.Machine

/-!
# Servers for RASP probes

`start_comm` and `stop_comm` of `rasp/librasp/src/manager.rs` with the two modes of `comm.rs`,
and `RASPServerProcess` of `rasp/rasp_server/src/process_mode.rs`. In server mode a server process
runs in each mount namespace with a probed process; the tracer decides when to start and to kill
it. The host has the manager's process and the servers it has spawned, which inherit its process
group.
-/

namespace Elkeid.Rasp

/-- What `start_comm` and `stop_comm` read of a process. -/
structure ProcessInfo where
  pid : Int
  cmdline : Option String
  exePath : Option String
  sid : Int
  ruid : Nat
  rgid : Nat
  euid : Nat
  egid : Nat
  suid : Nat
  sgid : Nat
  fuid : Nat
  fgid : Nat
  ppid : Int
  tgid : Int
  /-- `namespace_info`, and `mnt` in it. -/
  namespaceInfo : Option (Option String)
  deriving DecidableEq

namespace ProcessInfo

def getMntNs (info : ProcessInfo) : Except String String :=
  match info.namespaceInfo with
  | some (some mntNs) => .ok mntNs
  | some none => .error ("process mnt ns empty: " ++ toString info.pid)
  | none => .error ("fetch process ns failed: " ++ toString info.pid)

/-- What the server adds to the messages of a probe. -/
def patchField (info : ProcessInfo) (nspid : Int) : List (String × String) :=
  [("sid", toString info.sid), ("pid", toString info.pid), ("nspid", toString nspid),
    ("ppid", toString info.ppid), ("tgid", toString info.tgid), ("argv", info.cmdline.getD ""),
    ("exe", info.exePath.getD ""), ("ruid", toString info.ruid), ("rgid", toString info.rgid),
    ("euid", toString info.euid), ("egid", toString info.egid), ("suid", toString info.suid),
    ("sgid", toString info.sgid), ("fuid", toString info.fuid), ("fgid", toString info.fgid)]

end ProcessInfo

/-! ## Processes -/

structure Process where
  id : Nat
  group : Nat
  /-- The mount namespace of a RASP server. -/
  serves : Option String
  deriving DecidableEq

/-- `killpg` with SIGKILL; zero is the group of the caller. -/
def killpg (caller : Process) (group : Nat) (processes : List Process) : List Process :=
  let target := if group = 0 then caller.group else group
  processes.filter fun process => process.group != target

/-- `kill` with SIGKILL; zero is the group of the caller. -/
def kill (caller : Process) (id : Nat) (processes : List Process) : List Process :=
  if id = 0 then killpg caller 0 processes else processes.filter fun process => process.id != id

structure ServerProcess where
  childID : Nat
  patchField : AList (fun _ : String => List (String × String))
  pid : Int

namespace ServerProcess

def updatePatchField (server : ServerProcess) (patchField : List (String × String)) :
    ServerProcess :=
  match patchField.lookup "nspid" with
  | some nspid => { server with patchField := server.patchField.insert nspid patchField }
  | none => server

def new (pid : Int) (patchField : List (String × String)) : ServerProcess :=
  updatePatchField { childID := 0, patchField := ∅, pid := pid } patchField

/-- The id of the child names the threads that serve it; the field stays as it is. -/
def spawn (server : ServerProcess) (child : Except String Nat) :
    Except String (ServerProcess × Nat) :=
  match child with
  | .ok id => .ok (server, id)
  | .error message => .error ("spawn command failed: " ++ message)

def kill (server : ServerProcess) (caller : Process) (processes : List Process) : List Process :=
  Rasp.kill caller server.childID (killpg caller server.childID processes)

end ServerProcess

/-! ## The tracer -/

/-- `MntNamespaceTracer`: for each mount namespace its pids, and whether the server was started. -/
structure MntNamespaceTracer where
  tracer : AList (fun _ : String => List Int × Bool)

namespace MntNamespaceTracer

def new : MntNamespaceTracer := ⟨∅⟩

def add (self : MntNamespaceTracer) (mntNamespace : String) (pid : Int) : MntNamespaceTracer :=
  match self.tracer.lookup mntNamespace with
  | some (pids, started) =>
    if pids.contains pid then self
    else ⟨self.tracer.insert mntNamespace (pids ++ [pid], started)⟩
  | none => ⟨self.tracer.insert mntNamespace ([pid], false)⟩

def serverState (self : MntNamespaceTracer) (mntNamespace : String) : Option Bool :=
  (self.tracer.lookup mntNamespace).map Prod.snd

def serverStateOn (self : MntNamespaceTracer) (mntNamespace : String) : MntNamespaceTracer :=
  match self.tracer.lookup mntNamespace with
  | some (pids, _) => ⟨self.tracer.insert mntNamespace (pids, true)⟩
  | none => self

/-- The second result says whether to kill the server. -/
def serverStateOff (self : MntNamespaceTracer) (mntNamespace : String) (pid : Int) :
    MntNamespaceTracer × Bool :=
  match self.tracer.lookup mntNamespace with
  | some (pids, started) =>
    let left := if pids.contains pid then pids.erase pid else pids
    if left.length = 0 then (⟨self.tracer.erase mntNamespace⟩, true)
    else (⟨self.tracer.insert mntNamespace (left, started)⟩, false)
  | none => (self, false)

end MntNamespaceTracer

/-! ## The manager -/

structure ThreadMode where
  /-- The parent of `bind_path`. -/
  bindDir : Option String
  linkingTo : Option String
  usingMount : Bool

structure ProcessMode where
  mntNamespaceServerMap : AList (fun _ : String => ServerProcess)

/-- What the system answers while a process is started: `read_nspid`, the mount script, `ln` and
the id of a new process. -/
structure Answers where
  nspid : Except String (Option Int)
  mounted : Except String Unit
  linked : Except String Unit
  spawned : Except String Nat

def ThreadMode.startComm (comm : ThreadMode) (answers : Answers) : Except String Unit := do
  if comm.usingMount && comm.bindDir.isSome then answers.mounted
  if comm.linkingTo.isSome then
    match answers.linked with
    | .ok () => .ok ()
    | .error message => .error ("link bind path failed: " ++ message)

structure RASPManager where
  namespaceTracer : MntNamespaceTracer
  threadComm : Option ThreadMode
  processComm : Option ProcessMode

structure Host where
  manager : RASPManager
  self : Process
  processes : List Process

/-- A manager that `init` has made in the mode "server". -/
def newServerHost (self : Process) : Host where
  manager := { namespaceTracer := .new, threadComm := none, processComm := some ⟨∅⟩ }
  self := self
  processes := [self]

namespace Host

def track (host : Host) (mntNamespace : String) (pid : Int) : Host :=
  { host with manager.namespaceTracer :=
      (host.manager.namespaceTracer.add mntNamespace pid).serverStateOn mntNamespace }

def setProcessComm (host : Host) (comm : ProcessMode) : Host :=
  { host with manager.processComm := some comm }

/-- A new process inherits the group of the manager. -/
def withServer (host : Host) (comm : ProcessMode) (mntNamespace : String) (server : ServerProcess)
    (id : Nat) : Host :=
  { host.setProcessComm ⟨comm.mntNamespaceServerMap.insert mntNamespace server⟩ with
    processes := host.processes ++ [{ id, group := host.self.group, serves := some mntNamespace }] }

def startProcess (host : Host) (comm : ProcessMode) (pid : Int) (mntNamespace : String)
    (patchField : List (String × String)) (spawned : Except String Nat) : Except String Host := do
  let (server, id) ← (ServerProcess.new pid patchField).spawn spawned
  return host.withServer comm mntNamespace server id

/-- The server that a probe of the same namespace is told about. -/
def updatePatchField (host : Host) (comm : ProcessMode) (mntNamespace : String)
    (patchField : List (String × String)) : Host :=
  match comm.mntNamespaceServerMap.lookup mntNamespace with
  | some runner =>
    host.setProcessComm
      ⟨comm.mntNamespaceServerMap.insert mntNamespace (runner.updatePatchField patchField)⟩
  | none => host

def startComm (host : Host) (info : ProcessInfo) (answers : Answers) : Except String Host := do
  let mntNamespace ← info.getMntNs
  let nspid := (← answers.nspid).getD info.pid
  match host.manager.threadComm, host.manager.processComm with
  | some comm, _ =>
    comm.startComm answers
    return host.track mntNamespace info.pid
  | none, some comm =>
    match host.manager.namespaceTracer.serverState mntNamespace with
    | some true => return host.updatePatchField comm mntNamespace (info.patchField nspid)
    | some false => return host.track mntNamespace info.pid
    | none =>
      let started ← host.startProcess comm info.pid mntNamespace (info.patchField nspid)
        answers.spawned
      return started.track mntNamespace info.pid
  | none, none => throw "both thread && process comm mode not init"

/-- `stop_comm` of `ProcessMode`; the one of `ThreadMode` does nothing. -/
def stopProcess (host : Host) (mntNamespace : String) : Host × Except String Unit :=
  match host.manager.processComm with
  | some comm =>
    match comm.mntNamespaceServerMap.lookup mntNamespace with
    | some runner =>
      ({ host.setProcessComm ⟨comm.mntNamespaceServerMap.erase mntNamespace⟩ with
          processes := runner.kill host.self host.processes }, .ok ())
    | none => (host, .error ("didn't start server for mnt namespace: " ++ mntNamespace))
  | none => (host, .ok ())

def stopComm (host : Host) (pid : Int) (mntNamespace : String) : Host × Except String Unit :=
  let (namespaceTracer, killCheck) :=
    host.manager.namespaceTracer.serverStateOff mntNamespace pid
  let host := { host with manager.namespaceTracer := namespaceTracer }
  if killCheck then host.stopProcess mntNamespace else (host, .ok ())

end Host

/-! ## Calls -/

inductive Action
  | start (info : ProcessInfo) (answers : Answers)
  | stop (info : ProcessInfo)

inductive Event
  | started (pid : Int) (mntNamespace : String)
  | stopped (pid : Int) (mntNamespace : String)
  | failed (message : String)
  deriving DecidableEq

namespace Host

def Alive (host : Host) : Prop := host.self ∈ host.processes

instance (host : Host) : Decidable host.Alive := inferInstanceAs (Decidable (_ ∈ _))

def start (host : Host) (info : ProcessInfo) (answers : Answers) : Host × Event :=
  match info.getMntNs, host.startComm info answers with
  | .ok mntNamespace, .ok next => (next, .started info.pid mntNamespace)
  | .error message, _ | _, .error message => (host, .failed message)

/-- A stop counts, also where killing the server fails. -/
def stop (host : Host) (info : ProcessInfo) : Host × Event :=
  match info.getMntNs with
  | .ok mntNamespace => ((host.stopComm info.pid mntNamespace).1, .stopped info.pid mntNamespace)
  | .error message => (host, .failed message)

def step (host : Host) (action : Action) : Option (Host × Event) :=
  if host.Alive then
    match action with
    | .start info answers => some (host.start info answers)
    | .stop info => some (host.stop info)
  else none

inductive Took (host : Host) (comm : ProcessMode) : Host → Event → Prop
  | failed (message) : Took host comm host (.failed message)
  | reused (pid mntNamespace patchField)
      (isOpen : host.manager.namespaceTracer.serverState mntNamespace = some true) :
      Took host comm (host.updatePatchField comm mntNamespace patchField)
        (.started pid mntNamespace)
  | reopened (pid mntNamespace)
      (closed : host.manager.namespaceTracer.serverState mntNamespace = some false) :
      Took host comm (host.track mntNamespace pid) (.started pid mntNamespace)
  | spawned (pid mntNamespace patchField id)
      (absent : host.manager.namespaceTracer.serverState mntNamespace = none) :
      Took host comm
        ((host.withServer comm mntNamespace (.new pid patchField) id).track mntNamespace pid)
        (.started pid mntNamespace)
  | stopped (pid mntNamespace) :
      Took host comm (host.stopComm pid mntNamespace).1 (.stopped pid mntNamespace)

variable {host next : Host} {comm : ProcessMode} {event : Event}

theorem took_of_startComm {info : ProcessInfo} {answers : Answers} {mntNamespace : String}
    (noThread : host.manager.threadComm = none) (isComm : host.manager.processComm = some comm)
    (isNs : info.getMntNs = .ok mntNamespace) (started : host.startComm info answers = .ok next) :
    Took host comm next (.started info.pid mntNamespace) := by
  simp only [startComm, isNs, noThread, isComm, bind, Except.bind, pure, Except.pure] at started
  split at started
  next => cases started
  next nspid _ =>
    split at started
    next isOpen =>
      cases started
      exact .reused info.pid mntNamespace _ isOpen
    next closed =>
      cases started
      exact .reopened info.pid mntNamespace closed
    next absent =>
      cases spawned : answers.spawned with
      | error message =>
        rw [spawned] at started
        cases started
      | ok id =>
        rw [spawned] at started
        cases started
        exact .spawned info.pid mntNamespace _ id absent

theorem took_of_step {action : Action} (noThread : host.manager.threadComm = none)
    (isComm : host.manager.processComm = some comm)
    (stepped : host.step action = some (next, event)) :
    Took host comm next event := by
  obtain ⟨_, stepped⟩ := Option.ite_none_right_eq_some.mp stepped
  cases action with
  | start info answers =>
    simp only [start] at stepped
    split at stepped <;> cases stepped
    next mntNamespace later isNs started => exact took_of_startComm noThread isComm isNs started
    all_goals exact .failed _
  | stop info =>
    simp only [stop] at stepped
    split at stepped <;> cases stepped
    next mntNamespace _ => exact .stopped info.pid mntNamespace
    next message _ => exact .failed message

end Host

end Elkeid.Rasp
