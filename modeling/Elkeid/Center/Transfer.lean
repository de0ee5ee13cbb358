import Elkeid.Foundations.Machine
import Elkeid.Foundations.Positions
import Elkeid.Foundations.Text

/-!
# The agent center: connections and commands

`server/agent_center/grpctrans`: the pool of connections of `pool/pool.go` and the handler
of `grpc_handler/transfer_handler.go`. Each agent that connects has its own `Transfer` call
with the goroutines `recvData` and `sendData`; any number of `PostCommand` and `Close` calls
run beside them. A move is one operation of the pool's map, of a channel, of a stream or of
a context, or a timer that fires.
-/

namespace Elkeid.Center

open Foundations Option

structure Connection where
  agentID : Bytes
  sourceAddr : Bytes
  createAt : Int
  deriving DecidableEq

/-- Where `sendData` stands: at its `select`, in `stream.Send` of the command of a call,
back from it, about to run its deferred `CancelFuc`, or returned. -/
inductive Sender
  | selecting
  | sending (call : Nat)
  | reporting (call : Nat) (error : Option String)
  | returning
  | returned
  deriving DecidableEq

inductive Receiver
  | running
  | returning
  | returned
  deriving DecidableEq

/-- The goroutines of a connection; `cancelled` when its context is done. The command
channel has no buffer, so it holds nothing between two moves. -/
structure Goroutines where
  cancelled : Bool
  receiver : Receiver
  sender : Sender
  deriving DecidableEq

/-- Where a `Transfer` call that has started its goroutines stands; `deleting` and
`releasing` are before the two deferred calls. -/
inductive Stage
  | started
  | waiting
  | deleting
  | releasing
  | finished
  deriving DecidableEq

/-- A `Transfer` call: before the first packet, before and after the `Get` of `Add`, after
its `Set`, with its goroutines, or on its way out without them. -/
inductive Handler
  | receiving
  | adding (connection : Connection)
  | checked (connection : Connection)
  | stored (connection : Connection)
  | serving (stage : Stage) (connection : Connection) (goroutines : Goroutines)
  | leaving
  | left
  deriving DecidableEq

inductive Answer
  | done
  | notFound
  | sendPoolFull
  | resultTimedOut
  | sendFailed (error : String)
  deriving DecidableEq

def Answer.error : Answer → Option String
  | done => none
  | notFound => some "agentID not found"
  | sendPoolFull => some "the sendPool of the agent is full"
  | resultTimedOut => some "the command has been sent but get results timed out"
  | sendFailed error => some error

/-- `return cmdToSend.Error` -/
def Answer.ofError : Option String → Answer
  | none => done
  | some error => sendFailed error

inductive CallStage
  | offering
  | waiting
  | returned
  deriving DecidableEq

/-- A call of `PostCommand` with its `Command`, or of `Close`, which sends nil. The
connection is the one `GetByID` found. -/
structure Call where
  agentID : Bytes
  command : Option Bytes
  connection : Option Nat
  stage : CallStage
  error : Option String
  /-- `Ready` is closed. -/
  ready : Bool
  deriving DecidableEq

structure Config where
  poolLength : Nat
  chanLen : Nat
  deriving DecidableEq

/-- A connection is named by the index of its handler, a command by that of its call. -/
structure Server where
  conf : Config
  connPool : AList (fun _ : Bytes => Nat)
  tokens : Nat
  extraInfoChan : List Bytes
  confChan : List Bytes
  handlers : List Handler
  calls : List Call
  /-- The call `checkConfig` made last. -/
  checkingConfig : Option Nat
  panicked : Bool

def newServer (conf : Config) : Server where
  conf := conf
  connPool := ∅
  tokens := conf.poolLength
  extraInfoChan := []
  confChan := []
  handlers := []
  calls := []
  checkingConfig := none
  panicked := false

/-- What the first `Recv` and `peer.FromContext` give. -/
inductive FirstPacket
  | failed
  | noPeer
  | from (agentID sourceAddr : Bytes) (createAt : Int)
  deriving DecidableEq

inductive Move
  | connect
  | recvFirst (handler : Nat) (packet : FirstPacket)
  | get (handler : Nat)
  | set (handler : Nat)
  | loadTag (handler : Nat)
  | postLatestConfig (handler : Nat)
  | ctxDone (handler : Nat)
  | delete (handler : Nat)
  | releaseToken (handler : Nat)
  | recvFails (handler : Nat)
  | recvDone (handler : Nat)
  | recvReturn (handler : Nat)
  | sendDone (handler : Nat)
  | sendReturn (handler : Nat)
  | post (agentID command : Bytes)
  | close (agentID : Bytes)
  | accept (call : Nat)
  | send (handler : Nat) (error : Option String)
  | report (handler : Nat)
  | sendTimeOut (call : Nat)
  | ready (call : Nat)
  | resultTimeOut (call : Nat)
  | takeExtraInfo
  | takeConf (config : Option Bytes)
  deriving DecidableEq

inductive Event
  | refused
  | conflict (handler : Nat)
  | stored (handler : Nat) (agentID : Bytes)
  | deleted (handler : Nat) (agentID : Bytes)
  | sent (handler call : Nat) (error : Option String)
  | returned (call : Nat) (answer : Answer)
  | silent
  deriving DecidableEq

/-- The moves of `recvData` and `sendData` that no call sees; both cancel the context when
they return. -/
def Goroutines.advance (goroutines : Goroutines) : Move → Option Goroutines
  | .recvFails _ =>
    if goroutines.receiver = .running then some { goroutines with receiver := .returning } else none
  | .recvDone _ =>
    if goroutines.receiver = .running ∧ goroutines.cancelled then
      some { goroutines with receiver := .returning }
    else none
  | .recvReturn _ =>
    if goroutines.receiver = .returning then
      some { goroutines with receiver := .returned, cancelled := true }
    else none
  | .sendDone _ =>
    if goroutines.sender = .selecting ∧ goroutines.cancelled then
      some { goroutines with sender := .returning }
    else none
  | .sendReturn _ =>
    if goroutines.sender = .returning then
      some { goroutines with sender := .returned, cancelled := true }
    else none
  | _ => none

namespace Server

def getByID (server : Server) (agentID : Bytes) : Option Nat := server.connPool.lookup agentID

def setHandler (server : Server) (handler : Nat) (new : Handler) : Server :=
  { server with handlers := server.handlers.set handler new }

def setCall (server : Server) (call : Nat) (new : Call) : Server :=
  { server with calls := server.calls.set call new }

def beginCall (server : Server) (agentID : Bytes) (command : Option Bytes) : Server × Event :=
  match server.getByID agentID with
  | none =>
    ({ server with
        calls := server.calls ++ [⟨agentID, command, none, .returned, none, false⟩] },
      .returned server.calls.length .notFound)
  | some connection =>
    ({ server with
        calls := server.calls ++ [⟨agentID, command, some connection, .offering, none, false⟩] },
      .silent)

/-- A call sends on the command channel while `sendData` receives from it. -/
def accept (server : Server) (call : Nat) : Option (Server × Event) :=
  match server.calls[call]? with
  | some ⟨agentID, command, some handler, .offering, error, ready⟩ =>
    match server.handlers[handler]? with
    | some (.serving stage connection ⟨cancelled, receiver, .selecting⟩) =>
      match command with
      | none =>
        some
          ((server.setCall call
              ⟨agentID, none, some handler, .returned, error, ready⟩).setHandler handler
            (.serving stage connection ⟨cancelled, receiver, .returning⟩),
            .returned call .done)
      | some text =>
        some
          ((server.setCall call
              ⟨agentID, some text, some handler, .waiting, error, ready⟩).setHandler handler
            (.serving stage connection ⟨cancelled, receiver, .sending call⟩),
            .silent)
    | _ => none
  | _ => none

def transfer (server : Server) (index : Nat) (handler : Handler) : Move → Option (Server × Event)
  | .recvFirst _ packet =>
    match handler, packet with
    | .receiving, .failed => some (server.setHandler index .leaving, .silent)
    -- err is nil here, so err.Error() panics
    | .receiving, .noPeer => some ({ server with panicked := true }, .silent)
    | .receiving, .from agentID sourceAddr createAt =>
      some (server.setHandler index (.adding ⟨agentID, sourceAddr, createAt⟩), .silent)
    | _, _ => none
  | .get _ =>
    match handler with
    | .adding connection =>
      match server.getByID connection.agentID with
      | some _ => some (server.setHandler index .leaving, .conflict index)
      | none => some (server.setHandler index (.checked connection), .silent)
    | _ => none
  | .set _ =>
    match handler with
    | .checked connection =>
      let connPool := server.connPool.insert connection.agentID index
      some
        ({ server.setHandler index (.stored connection) with connPool },
          .stored index connection.agentID)
    | _ => none
  | .loadTag _ =>
    match handler with
    | .stored connection =>
      let extraInfoChan :=
        if server.extraInfoChan.length < server.conf.chanLen then
          server.extraInfoChan ++ [connection.agentID]
        else server.extraInfoChan
      let new := Handler.serving .started connection ⟨false, .running, .selecting⟩
      some ({ server.setHandler index new with extraInfoChan }, .silent)
    | _ => none
  | .postLatestConfig _ =>
    match handler with
    | .serving .started connection goroutines =>
      let confChan :=
        if server.confChan.length < server.conf.chanLen then
          server.confChan ++ [connection.agentID]
        else server.confChan
      let new := Handler.serving .waiting connection goroutines
      some ({ server.setHandler index new with confChan }, .silent)
    | _ => none
  | .ctxDone _ =>
    match handler with
    | .serving .waiting connection goroutines =>
      if goroutines.cancelled then
        some (server.setHandler index (.serving .deleting connection goroutines), .silent)
      else none
    | _ => none
  | .delete _ =>
    match handler with
    | .serving .deleting connection goroutines =>
      let connPool := server.connPool.erase connection.agentID
      let new := Handler.serving .releasing connection goroutines
      some ({ server.setHandler index new with connPool }, .deleted index connection.agentID)
    | _ => none
  | .releaseToken _ =>
    match handler with
    | .leaving => some ({ server.setHandler index .left with tokens := server.tokens + 1 }, .silent)
    | .serving .releasing connection goroutines =>
      let new := Handler.serving .finished connection goroutines
      some ({ server.setHandler index new with tokens := server.tokens + 1 }, .silent)
    | _ => none
  | _ => none

def send (server : Server) (index : Nat) (error : Option String) : Option (Server × Event) :=
  match server.handlers[index]? with
  | some (.serving stage connection ⟨cancelled, receiver, .sending call⟩) =>
    some
      (server.setHandler index
        (.serving stage connection ⟨cancelled, receiver, .reporting call error⟩),
        .sent index call error)
  | _ => none

/-- `cmd.Error` is set and `cmd.Ready` closed. -/
def report (server : Server) (index : Nat) : Option (Server × Event) :=
  match server.handlers[index]? with
  | some (.serving stage connection ⟨cancelled, receiver, .reporting call error⟩) =>
    match server.calls[call]? with
    | some found =>
      let sender := if error.isSome then Sender.returning else .selecting
      some
        ((server.setCall call { found with error := error, ready := true }).setHandler index
          (.serving stage connection ⟨cancelled, receiver, sender⟩), .silent)
    | none => none
  | _ => none

def conclude (server : Server) (call : Nat) (found : Call) : Move → Option (Server × Event)
  | .sendTimeOut _ =>
    if found.stage = .offering then
      some (server.setCall call { found with stage := .returned }, .returned call .sendPoolFull)
    else none
  | .ready _ =>
    if found.stage = .waiting ∧ found.ready then
      some
        (server.setCall call { found with stage := .returned },
          .returned call (.ofError found.error))
    else none
  | .resultTimeOut _ =>
    if found.stage = .waiting then
      some (server.setCall call { found with stage := .returned }, .returned call .resultTimedOut)
    else none
  | _ => none

def takeConf (server : Server) (config : Option Bytes) : Option (Server × Event) :=
  let free :=
    match server.checkingConfig with
    | none => true
    | some call => (server.calls[call]?).any (fun found => found.stage == .returned)
  match free, server.confChan, config with
  | true, _ :: rest, none => some ({ server with confChan := rest }, .silent)
  | true, agentID :: rest, some command =>
    let posting := { server with confChan := rest, checkingConfig := some server.calls.length }
    some (posting.beginCall agentID (some command))
  | _, _, _ => none

def onHandler (server : Server) (index : Nat) (move : Move) : Option (Server × Event) :=
  match server.handlers[index]? with
  | none => none
  | some handler => server.transfer index handler move

def onGoroutines (server : Server) (index : Nat) (move : Move) : Option (Server × Event) :=
  match server.handlers[index]? with
  | some (.serving stage connection goroutines) =>
    match goroutines.advance move with
    | some new => some (server.setHandler index (.serving stage connection new), .silent)
    | none => none
  | _ => none

def onCall (server : Server) (call : Nat) (move : Move) : Option (Server × Event) :=
  match server.calls[call]? with
  | none => none
  | some found => server.conclude call found move

def stepRunning (server : Server) (move : Move) : Option (Server × Event) :=
  match move with
  | .connect =>
    match server.tokens with
    | 0 => some (server, .refused)
    | tokens + 1 =>
      some ({ server with tokens, handlers := server.handlers ++ [.receiving] }, .silent)
  | .recvFirst index _ | .get index | .set index | .loadTag index | .postLatestConfig index
  | .ctxDone index | .delete index | .releaseToken index => server.onHandler index move
  | .recvFails index | .recvDone index | .recvReturn index | .sendDone index
  | .sendReturn index => server.onGoroutines index move
  | .send index error => server.send index error
  | .report index => server.report index
  | .post agentID command => some (server.beginCall agentID (some command))
  | .close agentID => some (server.beginCall agentID none)
  | .accept call => server.accept call
  | .sendTimeOut call | .ready call | .resultTimeOut call => server.onCall call move
  | .takeExtraInfo =>
    match server.extraInfoChan with
    | [] => none
    | _ :: rest => some ({ server with extraInfoChan := rest }, .silent)
  | .takeConf config => server.takeConf config

def step (server : Server) (move : Move) : Option (Server × Event) :=
  if server.panicked then none else server.stepRunning move

end Server

/-! ## What a move can do

Of a handler three things matter to the pool and to the calls: the agent it has stored a
connection for and not yet deleted, the agent of its connection, and the command its
`sendData` has taken. -/

/-- The call whose command `sendData` has taken, and what `stream.Send` returned. -/
def Sender.carried : Sender → Option (Nat × Option (Option String))
  | sending call => some (call, none)
  | reporting call error => some (call, some error)
  | _ => none

namespace Handler

def active : Handler → Option Bytes
  | stored connection => some connection.agentID
  | serving .started connection _ | serving .waiting connection _
  | serving .deleting connection _ => some connection.agentID
  | _ => none

def agent : Handler → Option Bytes
  | stored connection | serving _ connection _ => some connection.agentID
  | _ => none

def carried : Handler → Option (Nat × Option (Option String))
  | serving _ _ goroutines => goroutines.sender.carried
  | _ => none

/-- A change of a handler that neither the pool nor a call sees. -/
structure Quiet (old new : Handler) : Prop where
  active : new.active = old.active
  agent : ∀ agentID, old.agent = some agentID → new.agent = some agentID
  carried : new.carried = old.carried

end Handler

namespace Server

inductive Took (server next : Server) : Event → Prop
  | idle (event) (unseen : event = .silent ∨ event = .refused)
      (handlers : next.handlers = server.handlers) (connPool : next.connPool = server.connPool)
      (calls : next.calls = server.calls) : Took server next event
  | admitted (handlers : next.handlers = server.handlers ++ [.receiving])
      (connPool : next.connPool = server.connPool) (calls : next.calls = server.calls) :
      Took server next .silent
  | moved (event index old new) (unseen : event = .silent ∨ event = .conflict index)
      (found : server.handlers[index]? = some old)
      (handlers : next.handlers = server.handlers.set index new)
      (connPool : next.connPool = server.connPool) (calls : next.calls = server.calls)
      (quiet : old.Quiet new) : Took server next event
  | stored (index connection) (found : server.handlers[index]? = some (.checked connection))
      (handlers : next.handlers = server.handlers.set index (.stored connection))
      (connPool : next.connPool = server.connPool.insert connection.agentID index)
      (calls : next.calls = server.calls) : Took server next (.stored index connection.agentID)
  | deleted (index connection goroutines)
      (found : server.handlers[index]? = some (.serving .deleting connection goroutines))
      (handlers : next.handlers =
        server.handlers.set index (.serving .releasing connection goroutines))
      (connPool : next.connPool = server.connPool.erase connection.agentID)
      (calls : next.calls = server.calls) : Took server next (.deleted index connection.agentID)
  | missed (agentID command) (handlers : next.handlers = server.handlers)
      (connPool : next.connPool = server.connPool)
      (calls : next.calls =
        server.calls ++ [⟨agentID, command, none, .returned, none, false⟩]) :
      Took server next (.returned server.calls.length .notFound)
  | began (agentID command index) (found : server.getByID agentID = some index)
      (handlers : next.handlers = server.handlers) (connPool : next.connPool = server.connPool)
      (calls : next.calls =
        server.calls ++ [⟨agentID, command, some index, .offering, none, false⟩]) :
      Took server next .silent
  | accepted (call index stage connection cancelled receiver) (entry : Call)
      (found : server.calls[call]? = some entry) (offering : entry.stage = .offering)
      (aimed : entry.connection = some index)
      (serving : server.handlers[index]? =
        some (.serving stage connection ⟨cancelled, receiver, .selecting⟩))
      (handlers : next.handlers =
        server.handlers.set index (.serving stage connection ⟨cancelled, receiver, .sending call⟩))
      (connPool : next.connPool = server.connPool)
      (calls : next.calls = server.calls.set call { entry with stage := .waiting }) :
      Took server next .silent
  | closed (call index old new) (entry : Call) (found : server.calls[call]? = some entry)
      (offering : entry.stage = .offering) (isClose : entry.command = none)
      (serving : server.handlers[index]? = some old)
      (handlers : next.handlers = server.handlers.set index new)
      (connPool : next.connPool = server.connPool)
      (calls : next.calls = server.calls.set call { entry with stage := .returned })
      (quiet : old.Quiet new) : Took server next (.returned call .done)
  | sent (index call error stage connection cancelled receiver)
      (serving : server.handlers[index]? =
        some (.serving stage connection ⟨cancelled, receiver, .sending call⟩))
      (handlers : next.handlers =
        server.handlers.set index
          (.serving stage connection ⟨cancelled, receiver, .reporting call error⟩))
      (connPool : next.connPool = server.connPool) (calls : next.calls = server.calls) :
      Took server next (.sent index call error)
  | reported (index call error stage connection cancelled receiver sender) (entry : Call)
      (serving : server.handlers[index]? =
        some (.serving stage connection ⟨cancelled, receiver, .reporting call error⟩))
      (found : server.calls[call]? = some entry)
      (handlers : next.handlers =
        server.handlers.set index (.serving stage connection ⟨cancelled, receiver, sender⟩))
      (connPool : next.connPool = server.connPool)
      (calls : next.calls = server.calls.set call { entry with error := error, ready := true })
      (dropped : sender.carried = none) : Took server next .silent
  | concluded (call answer) (entry : Call) (found : server.calls[call]? = some entry)
      (handlers : next.handlers = server.handlers) (connPool : next.connPool = server.connPool)
      (calls : next.calls = server.calls.set call { entry with stage := .returned })
      (cause : (entry.stage = .offering ∧ answer = .sendPoolFull) ∨
        (entry.stage = .waiting ∧ answer = .resultTimedOut) ∨
        (entry.stage = .waiting ∧ entry.ready ∧ answer = .ofError entry.error)) :
      Took server next (.returned call answer)

variable {server next : Server} {event : Event}

theorem took_of_beginCall {agentID : Bytes} {command : Option Bytes}
    (stepped : server.beginCall agentID command = (next, event)) : Took server next event := by
  simp only [beginCall] at stepped
  split at stepped <;> cases stepped
  next => exact .missed agentID command rfl rfl rfl
  next index found => exact .began agentID command index found rfl rfl rfl

theorem took_of_accept {call : Nat} (stepped : server.accept call = some (next, event)) :
    Took server next event := by
  simp only [accept] at stepped
  split at stepped
  next agentID command index error ready found =>
    split at stepped
    next stage connection cancelled receiver serving =>
      split at stepped <;> cases stepped
      next =>
        refine .closed call index _ _ _ found rfl rfl serving rfl rfl rfl ⟨?_, fun _ => id, rfl⟩
        cases stage <;> rfl
      next text =>
        exact .accepted call index stage connection cancelled receiver _ found rfl rfl serving
          rfl rfl rfl
    next => cases stepped
  next => cases stepped

variable {index : Nat} {move : Move}

theorem took_of_transfer {handler : Handler} (found : server.handlers[index]? = some handler)
    (stepped : server.transfer index handler move = some (next, event)) :
    Took server next event := by
  cases move with
  | recvFirst _ packet =>
    simp only [transfer] at stepped
    split at stepped <;> cases stepped
    next => exact .moved _ index _ _ (.inl rfl) found rfl rfl rfl ⟨rfl, nofun, rfl⟩
    next => exact .idle _ (.inl rfl) rfl rfl rfl
    next => exact .moved _ index _ _ (.inl rfl) found rfl rfl rfl ⟨rfl, nofun, rfl⟩
  | get _ =>
    simp only [transfer] at stepped
    split at stepped
    next connection =>
      split at stepped <;> cases stepped
      next => exact .moved _ index _ _ (.inr rfl) found rfl rfl rfl ⟨rfl, nofun, rfl⟩
      next => exact .moved _ index _ _ (.inl rfl) found rfl rfl rfl ⟨rfl, nofun, rfl⟩
    next => cases stepped
  | set _ =>
    simp only [transfer] at stepped
    split at stepped <;> cases stepped
    next connection => exact .stored index connection found rfl rfl rfl
  | loadTag _ =>
    simp only [transfer] at stepped
    split at stepped <;> cases stepped
    next connection =>
      exact .moved _ index _ _ (.inl rfl) found rfl rfl rfl ⟨rfl, fun _ => id, rfl⟩
  | postLatestConfig _ =>
    simp only [transfer] at stepped
    split at stepped <;> cases stepped
    next connection goroutines =>
      exact .moved _ index _ _ (.inl rfl) found rfl rfl rfl ⟨rfl, fun _ => id, rfl⟩
  | ctxDone _ =>
    simp only [transfer] at stepped
    split at stepped
    next connection goroutines =>
      split at stepped <;> cases stepped
      exact .moved _ index _ _ (.inl rfl) found rfl rfl rfl ⟨rfl, fun _ => id, rfl⟩
    next => cases stepped
  | delete _ =>
    simp only [transfer] at stepped
    split at stepped <;> cases stepped
    next connection goroutines => exact .deleted index connection goroutines found rfl rfl rfl
  | releaseToken _ =>
    simp only [transfer] at stepped
    split at stepped <;> cases stepped
    next => exact .moved _ index _ _ (.inl rfl) found rfl rfl rfl ⟨rfl, nofun, rfl⟩
    next => exact .moved _ index _ _ (.inl rfl) found rfl rfl rfl ⟨rfl, fun _ => id, rfl⟩
  | _ => cases stepped

theorem carried_of_advance {goroutines new : Goroutines}
    (advanced : goroutines.advance move = some new) :
    new.sender.carried = goroutines.sender.carried := by
  cases move with
  | sendDone _ =>
    simp only [Goroutines.advance, ite_none_right_eq_some, some.injEq] at advanced
    obtain ⟨⟨atSelect, _⟩, rfl⟩ := advanced
    rw [atSelect]
    rfl
  | sendReturn _ =>
    simp only [Goroutines.advance, ite_none_right_eq_some, some.injEq] at advanced
    obtain ⟨atReturn, rfl⟩ := advanced
    rw [atReturn]
    rfl
  | recvFails _ | recvDone _ | recvReturn _ =>
    simp only [Goroutines.advance, ite_none_right_eq_some, some.injEq] at advanced
    obtain ⟨_, rfl⟩ := advanced
    rfl
  | _ => cases advanced

theorem took_of_onGoroutines
    (stepped : server.onGoroutines index move = some (next, event)) : Took server next event := by
  simp only [onGoroutines] at stepped
  split at stepped
  next stage connection goroutines found =>
    split at stepped <;> cases stepped
    next new advanced =>
      refine .moved _ index _ _ (.inl rfl) found rfl rfl rfl
        ⟨?_, fun _ => id, carried_of_advance advanced⟩
      cases stage <;> rfl
  next => cases stepped

theorem took_of_send {error : Option String}
    (stepped : server.send index error = some (next, event)) : Took server next event := by
  simp only [send] at stepped
  split at stepped <;> cases stepped
  next stage connection cancelled receiver call serving =>
    exact .sent index call error stage connection cancelled receiver serving rfl rfl rfl

theorem took_of_report (stepped : server.report index = some (next, event)) :
    Took server next event := by
  simp only [report] at stepped
  split at stepped
  next stage connection cancelled receiver call error serving =>
    split at stepped <;> cases stepped
    next entry found =>
      refine .reported index call error stage connection cancelled receiver _ entry serving found
        rfl rfl rfl ?_
      split <;> rfl
  next => cases stepped

theorem took_of_conclude {call : Nat} {entry : Call} (found : server.calls[call]? = some entry)
    (stepped : server.conclude call entry move = some (next, event)) : Took server next event := by
  cases move with
  | sendTimeOut _ =>
    simp only [conclude, ite_none_right_eq_some, some.injEq] at stepped
    obtain ⟨offering, ⟨⟩⟩ := stepped
    exact .concluded call _ entry found rfl rfl rfl (.inl ⟨offering, rfl⟩)
  | ready _ =>
    simp only [conclude, ite_none_right_eq_some, some.injEq] at stepped
    obtain ⟨⟨waiting, isReady⟩, ⟨⟩⟩ := stepped
    exact .concluded call _ entry found rfl rfl rfl (.inr (.inr ⟨waiting, isReady, rfl⟩))
  | resultTimeOut _ =>
    simp only [conclude, ite_none_right_eq_some, some.injEq] at stepped
    obtain ⟨waiting, ⟨⟩⟩ := stepped
    exact .concluded call _ entry found rfl rfl rfl (.inr (.inl ⟨waiting, rfl⟩))
  | _ => cases stepped

theorem took_of_takeConf {config : Option Bytes}
    (stepped : server.takeConf config = some (next, event)) : Took server next event := by
  simp only [takeConf] at stepped
  split at stepped
  next =>
    cases stepped
    exact .idle _ (.inl rfl) rfl rfl rfl
  next agentID rest command _ _ =>
    -- the other fields of the server play no part in what beginCall does
    simp only [beginCall, some.injEq] at stepped
    split at stepped <;> cases stepped
    next => exact .missed agentID (some command) rfl rfl rfl
    next index found => exact .began agentID (some command) index found rfl rfl rfl
  next => cases stepped

theorem took_of_step (stepped : server.step move = some (next, event)) :
    Took server next event := by
  simp only [step, ite_none_left_eq_some] at stepped
  obtain ⟨_, stepped⟩ := stepped
  have ofHandler : ∀ {index}, server.onHandler index move = some (next, event) →
      Took server next event := by
    intro index onHandler
    simp only [Server.onHandler] at onHandler
    split at onHandler
    next => cases onHandler
    next found => exact took_of_transfer found onHandler
  have ofCall : ∀ {call}, server.onCall call move = some (next, event) →
      Took server next event := by
    intro call onCall
    simp only [Server.onCall] at onCall
    split at onCall
    next => cases onCall
    next found => exact took_of_conclude found onCall
  cases move with
  | connect =>
    simp only [stepRunning] at stepped
    split at stepped <;> cases stepped
    next => exact .idle _ (.inr rfl) rfl rfl rfl
    next => exact .admitted rfl rfl rfl
  | recvFirst | get | set | loadTag | postLatestConfig | ctxDone | delete | releaseToken =>
    exact ofHandler stepped
  | recvFails | recvDone | recvReturn | sendDone | sendReturn => exact took_of_onGoroutines stepped
  | send => exact took_of_send stepped
  | report => exact took_of_report stepped
  | post agentID command | close agentID => exact took_of_beginCall (some.inj stepped)
  | accept => exact took_of_accept stepped
  | sendTimeOut | ready | resultTimeOut => exact ofCall stepped
  | takeExtraInfo =>
    simp only [stepRunning] at stepped
    split at stepped <;> cases stepped
    exact .idle _ (.inl rfl) rfl rfl rfl
  | takeConf => exact took_of_takeConf stepped

end Server

end Elkeid.Center
