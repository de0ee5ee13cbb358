import Mathlib

/-!
# The pairs of a RASP server

`new_pair`, `start_bind` and `looping` of `rasp/rasp_server/src/comm.rs`. Three tasks share the
map of pairs behind one lock: the dispatcher hands the agent's messages to the channels of the
probes, the cleaner removes the pairs of connections that have ended, and the acceptor registers
new ones. The task of a connection sends what is in its channel to the probe. The server is not
told to stop, and what the probes report to the agent is left out.
-/

namespace Elkeid.Rasp.Pairs

def channelSize : Nat := 5

/-- How far the task of a connection is; `ctrl` is stopped when `looping` has returned. -/
inductive Looping where
  | pending
  | running
  | returned
  deriving DecidableEq

/-- A connection with the channel of its pair, the frame that `looping` is sending and the frames
that the socket holds for the probe. -/
structure Connection where
  pid : Int
  channel : List String
  bounded : channel.length ≤ channelSize
  sending : Option String
  unread : Nat
  /-- the probe has not stopped reading -/
  reads : Bool
  looping : Looping

namespace Connection

def new (pid : Int) : Connection where
  pid := pid
  channel := []
  bounded := Nat.zero_le _
  sending := none
  unread := 0
  reads := true
  looping := .pending

/-- `looping` returns, and with it the receiver of the channel is gone. -/
def finish (connection : Connection) : Connection :=
  { connection with
    channel := []
    bounded := Nat.zero_le _
    sending := none
    looping := .returned }

/-- `sock_tx.recv` gives the first message of the channel. -/
def recv (connection : Connection) : Connection :=
  { connection with
    channel := connection.channel.tail
    bounded := by
      rw [List.length_tail]
      exact le_trans (Nat.sub_le _ 1) connection.bounded
    sending := connection.channel.head? }

/-- `framed_tx.send` has given the frame to the socket. -/
def sent (connection : Connection) : Connection :=
  { connection with sending := none, unread := connection.unread + 1 }

/-- One turn of `looping` on its channel. The socket takes one frame more than `room`; a turn that
is not possible waits. -/
def turn (room : Nat) (hasSender : Bool) (connection : Connection) : Option Connection :=
  match connection.looping, connection.sending with
  | .running, some _ => if connection.unread ≤ room then some connection.sent else none
  | .running, none =>
    if connection.channel = [] then
      -- `recv` gives nothing when the pair is gone
      if hasSender then none else some connection.finish
    else some connection.recv
  | _, _ => none

def push (connection : Connection) (message : String)
    (hasRoom : connection.channel.length < channelSize) : Connection :=
  { connection with
    channel := connection.channel ++ [message]
    bounded := by
      rw [List.length_append]
      exact hasRoom }

def read (connection : Connection) : Option Connection :=
  if connection.reads ∧ 0 < connection.unread then
    some { connection with unread := connection.unread - 1 }
  else none

def stop (connection : Connection) : Option Connection :=
  if connection.looping = .running then some { connection with reads := false } else none

def close (connection : Connection) : Option Connection :=
  if connection.looping = .running then some connection.finish else none

end Connection

inductive Task where
  | dispatcher
  | cleaner
  | acceptor
  deriving DecidableEq

inductive Dispatcher where
  | idle
  | locking (pid : Int) (message : String)
  /-- it has the lock and waits for the channel -/
  | sending (pid : Int) (connection : Nat) (message : String)
  /-- it sleeps with the lock -/
  | resting
  deriving DecidableEq

inductive Cleaner where
  | idle
  | checking
  /-- it has dropped the lock and asked for it again -/
  | removing (pids : Int → Bool)
  /-- it sleeps with the lock -/
  | resting

structure Server where
  connection : Nat → Connection
  accepted : Nat
  pairs : Int → Option Nat
  /-- the messages of the agent that the dispatcher has not taken -/
  globalRx : List (Int × String)
  /-- the tasks that have asked for the lock; the first one has it -/
  line : List Task
  dispatcher : Dispatcher
  cleaner : Cleaner
  /-- the connection that waits in `new_pair` -/
  acceptor : Option Nat

inductive Action where
  | accept (pid : Int)
  | register
  /-- the agent sends a message for a probe -/
  | send (pid : Int) (message : String)
  | receive
  | dispatch
  | clean
  | turn (connection : Nat)
  | read (connection : Nat)
  | stop (connection : Nat)
  | close (connection : Nat)

inductive Event where
  | registered (pid : Int) (connection : Nat)
  /-- a message has come into the channel of the pair -/
  | handed (pid : Int) (message : String)
  | other
  deriving DecidableEq

namespace Server

def start : Server where
  connection _ := .new 0
  accepted := 0
  pairs _ := none
  globalRx := []
  line := []
  dispatcher := .idle
  cleaner := .idle
  acceptor := none

def change (server : Server) (id : Nat) (connection : Connection) : Server :=
  { server with connection := Function.update server.connection id connection }

def hasSender (server : Server) (id : Nat) : Bool :=
  decide (server.pairs (server.connection id).pid = some id)

def stopped (server : Server) (pid : Int) : Bool :=
  (server.pairs pid).any (fun id => (server.connection id).looping = .returned)

def accept (server : Server) (pid : Int) : Option Server :=
  match server.acceptor with
  | some _ => none
  | none => some { server.change server.accepted (.new pid) with
      accepted := server.accepted + 1
      line := server.line ++ [.acceptor]
      acceptor := some server.accepted }

/-- `new_pair` inserts the pair and drops the lock, and the task of the connection is spawned. -/
def register (server : Server) : Option (Server × Event) :=
  match server.acceptor, server.line with
  | some id, .acceptor :: rest =>
    let connection := server.connection id
    some ({ server.change id { connection with looping := .running } with
      pairs := Function.update server.pairs connection.pid (some id)
      line := rest
      acceptor := none }, .registered connection.pid id)
  | _, _ => none

def receive (server : Server) : Option Server :=
  match server.dispatcher, server.globalRx with
  | .idle, (pid, message) :: rest => some { server with
      globalRx := rest
      line := server.line ++ [.dispatcher]
      dispatcher := .locking pid message }
  | _, _ => none

def dispatch (server : Server) : Option (Server × Event) :=
  match server.dispatcher, server.line with
  | .locking pid message, .dispatcher :: rest =>
    match server.pairs pid with
    | none => some ({ server with line := rest, dispatcher := .idle }, .other)
    | some id => some ({ server with dispatcher := .sending pid id message }, .other)
  | .sending pid id message, _ =>
    if (server.connection id).looping = .returned then
      some ({ server with dispatcher := .resting }, .other)
    else if hasRoom : (server.connection id).channel.length < channelSize then
      some ({ server.change id ((server.connection id).push message hasRoom) with
        dispatcher := .resting }, .handed pid message)
    else none
  | .resting, .dispatcher :: rest =>
    some ({ server with line := rest, dispatcher := .idle }, .other)
  | _, _ => none

def clean (server : Server) : Option Server :=
  match server.cleaner, server.line with
  | .idle, _ => some { server with line := server.line ++ [.cleaner], cleaner := .checking }
  | .checking, .cleaner :: rest => some { server with
      line := rest ++ [.cleaner]
      cleaner := .removing server.stopped }
  | .removing pids, .cleaner :: _ => some { server with
      pairs := fun pid => if pids pid then none else server.pairs pid
      cleaner := .resting }
  | .resting, .cleaner :: rest => some { server with line := rest, cleaner := .idle }
  | _, _ => none

def step (room : Nat) (server : Server) : Action → Option (Server × Event)
  | .accept pid => (server.accept pid).map (·, .other)
  | .register => server.register
  | .send pid message =>
    some ({ server with globalRx := server.globalRx ++ [(pid, message)] }, .other)
  | .receive => server.receive.map (·, .other)
  | .dispatch => server.dispatch
  | .clean => server.clean.map (·, .other)
  | .turn id =>
    ((server.connection id).turn room (server.hasSender id)).map (server.change id ·, .other)
  | .read id => (server.connection id).read.map (server.change id ·, .other)
  | .stop id => (server.connection id).stop.map (server.change id ·, .other)
  | .close id => (server.connection id).close.map (server.change id ·, .other)

end Server

end Elkeid.Rasp.Pairs
