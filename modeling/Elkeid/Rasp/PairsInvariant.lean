import Elkeid.Foundations.Locks
import Elkeid.Foundations.Machine
import Elkeid.Rasp.Pairs

/-!
# Invariants of the pairs of a RASP server

The line of the lock holds the tasks that have asked for it, the map holds connections that have
begun, and a connection in the map takes all messages on their way to it. The last is kept as long
as no more messages are sent for a probe that has stopped reading than fit into its socket, the
frame in hand and its channel.
-/

namespace Elkeid.Rasp.Pairs

open Foundations List Option Function Nat
open Foundations.Locks (Ordered)

variable {room : Nat}

/-! ## Connections -/

namespace Connection

variable {connection changed : Connection} {count less : Nat}

/-- The messages that the connection has taken and the probe has not read. -/
def load (connection : Connection) : Nat :=
  connection.unread + connection.sending.toList.length + connection.channel.length

/-- The connection takes so many messages more: it has ended, its probe reads, or they fit. -/
def Takes (room : Nat) (connection : Connection) (count : Nat) : Prop :=
  connection.looping = .returned ∨ connection.reads = true ∨
    connection.load + count ≤ room + 2 + channelSize

instance (room : Nat) (connection : Connection) (count : Nat) :
    Decidable (connection.Takes room count) :=
  inferInstanceAs (Decidable (_ ∨ _ ∨ _))

theorem Takes.mono (takes : connection.Takes room count) (isLess : less ≤ count) :
    connection.Takes room less := by
  rcases takes with returned | reads | fits
  · exact .inl returned
  · exact .inr (.inl reads)
  · exact .inr (.inr (Nat.le_trans (Nat.add_le_add_left isLess _) fits))

theorem Takes.push {message : String} {hasRoom : connection.channel.length < channelSize}
    (takes : connection.Takes room (count + 1)) :
    (connection.push message hasRoom).Takes room count := by
  rcases takes with returned | reads | fits
  · exact .inl returned
  · exact .inr (.inl reads)
  · refine .inr (.inr ?_)
    simp only [load, Connection.push, length_append, length_singleton] at fits ⊢
    omega

/-- What a step of the connection's task or of its probe keeps. -/
structure Evolves (connection changed : Connection) : Prop where
  pid : changed.pid = connection.pid
  pending : changed.looping = .pending ↔ connection.looping = .pending
  returned : connection.looping = .returned → changed.looping = .returned
  reads : connection.looping = .pending → changed.reads = connection.reads

theorem Evolves.refl (connection : Connection) : connection.Evolves connection :=
  ⟨rfl, .rfl, id, fun _ => rfl⟩

theorem evolves_of_running (isRunning : connection.looping = .running)
    (pid : changed.pid = connection.pid) (begun : changed.looping ≠ .pending) :
    connection.Evolves changed := by
  refine ⟨pid, iff_of_false begun ?_, ?_, ?_⟩
  all_goals rw [isRunning]; nofun

variable {hasSender : Bool}

section

variable (turned : connection.turn room hasSender = some changed)
include turned

theorem turn_spec :
    connection.looping = .running ∧ changed.pid = connection.pid ∧
      changed.reads = connection.reads ∧
      ((changed.looping = .running ∧ changed.load = connection.load) ∨
        (hasSender = false ∧ changed.looping = .returned)) := by
  unfold turn at turned
  split at turned
  next isRunning isSending =>
    split at turned <;> cases turned
    refine ⟨isRunning, rfl, rfl, .inl ⟨isRunning, ?_⟩⟩
    simp [load, sent, isSending]
  next isRunning isSending =>
    split at turned
    · split at turned <;> cases turned
      next noSender => exact ⟨isRunning, rfl, rfl, .inr ⟨Bool.eq_false_iff.mpr noSender, rfl⟩⟩
    next notEmpty =>
      cases turned
      refine ⟨isRunning, rfl, rfl, .inl ⟨isRunning, ?_⟩⟩
      obtain ⟨message, rest, isChannel⟩ := exists_cons_of_ne_nil notEmpty
      simp only [load, recv, isSending, isChannel, toList_none, head?_cons,
        toList_some, tail_cons, length_nil, length_cons]
      omega
  · cases turned

theorem evolves_turn : connection.Evolves changed := by
  obtain ⟨isRunning, pid, _, ⟨stays, _⟩ | ⟨_, returned⟩⟩ := turn_spec turned
  · exact evolves_of_running isRunning pid (by rw [stays]; nofun)
  · exact evolves_of_running isRunning pid (by rw [returned]; nofun)

theorem Takes.turn (takes : connection.Takes room count) : changed.Takes room count := by
  obtain ⟨isRunning, _, reads, ⟨_, load⟩ | ⟨_, returned⟩⟩ := turn_spec turned
  · rcases takes with isReturned | isReading | fits
    · rw [isRunning] at isReturned
      cases isReturned
    · exact .inr (.inl (reads.trans isReading))
    · exact .inr (.inr (load ▸ fits))
  · exact .inl returned

end

theorem read_eq_some (isRead : connection.read = some changed) :
    connection.reads = true ∧ 0 < connection.unread ∧
      changed = { connection with unread := connection.unread - 1 } := by
  unfold read at isRead
  split at isRead <;> cases isRead
  next possible => exact ⟨possible.1, possible.2, rfl⟩

theorem stop_eq_some (stopped : connection.stop = some changed) :
    connection.looping = .running ∧ changed = { connection with reads := false } := by
  unfold stop at stopped
  split at stopped <;> cases stopped
  next isRunning => exact ⟨isRunning, rfl⟩

theorem close_eq_some (closed : connection.close = some changed) :
    connection.looping = .running ∧ changed = connection.finish := by
  unfold close at closed
  split at closed <;> cases closed
  next isRunning => exact ⟨isRunning, rfl⟩

theorem evolves_read (isRead : connection.read = some changed) : connection.Evolves changed := by
  obtain ⟨_, _, rfl⟩ := read_eq_some isRead
  exact ⟨rfl, .rfl, id, fun _ => rfl⟩

theorem evolves_stop (stopped : connection.stop = some changed) : connection.Evolves changed := by
  obtain ⟨isRunning, rfl⟩ := stop_eq_some stopped
  exact evolves_of_running isRunning rfl (by rw [isRunning]; nofun)

theorem evolves_close (closed : connection.close = some changed) : connection.Evolves changed := by
  obtain ⟨isRunning, rfl⟩ := close_eq_some closed
  exact evolves_of_running isRunning rfl nofun

theorem evolves_push (message : String) (hasRoom : connection.channel.length < channelSize) :
    connection.Evolves (connection.push message hasRoom) :=
  ⟨rfl, .rfl, id, fun _ => rfl⟩

end Connection

/-! ## The lock -/

def Dispatcher.pid : Dispatcher → Option Int
  | .locking pid _ => some pid
  | .sending pid _ _ => some pid
  | _ => none

def Cleaner.collected : Cleaner → Int → Bool
  | .removing pids, pid => pids pid
  | _, _ => false

namespace Server

variable {server next : Server} {event : Event} {id : Nat} {pid : Int} {message : String}

/-- The tasks that have asked for the lock and not dropped it. -/
def Asks (server : Server) : Task → Prop
  | .dispatcher => server.dispatcher ≠ .idle
  | .cleaner => server.cleaner ≠ .idle
  | .acceptor => server.acceptor ≠ none

/-- The tasks that have gone on with the lock. -/
def Holds (server : Server) : Task → Prop
  | .dispatcher => server.dispatcher = .resting ∨
      ∃ pid id message, server.dispatcher = .sending pid id message
  | .cleaner => server.cleaner = .resting
  | .acceptor => False

/-- The pids of the messages that the server has and has not handed on. -/
def addressed (server : Server) : List Int :=
  server.dispatcher.pid.toList ++ server.globalRx.map Prod.fst

/-- The map holds connections that have begun, and the acceptor waits with one that has not. -/
structure Known (server : Server) : Prop where
  registered : ∀ pid id, server.pairs pid = some id → id < server.accepted ∧
    (server.connection id).pid = pid ∧ (server.connection id).looping ≠ .pending
  waiting : ∀ id, server.acceptor = some id → id < server.accepted ∧
    (server.connection id).looping = .pending ∧ (server.connection id).reads = true

structure Sound (room : Nat) (server : Server) : Prop extends server.Known where
  ordered : Ordered server.line server.Asks server.Holds
  target : ∀ pid id message, server.dispatcher = .sending pid id message →
    server.pairs pid = some id
  taken : ∀ pid id, server.pairs pid = some id →
    (server.connection id).Takes room (server.addressed.count pid)

theorem sound_start : start.Sound room where
  ordered := ⟨nodup_nil, by rintro (_ | _ | _) <;> simp [start, Asks],
    by rintro (_ | _ | _) <;> simp [start, Holds]⟩
  registered := nofun
  waiting := nofun
  target := nofun
  taken := nofun

@[simp]
theorem change_self : server.change id (server.connection id) = server := by
  rw [change, update_eq_self]

@[simp]
theorem change_change (first second : Connection) :
    (server.change id first).change id second = server.change id second := by
  simp [change]

@[simp]
theorem connection_change (connection : Connection) :
    (server.change id connection).connection id = connection := update_self ..

theorem connection_change_of_ne {other : Nat} (differs : other ≠ id) (connection : Connection) :
    (server.change id connection).connection other = server.connection other :=
  update_of_ne differs ..

theorem Sound.not_sending (sound : server.Sound room) {task : Task} {rest : List Task}
    (isLine : server.line = task :: rest) (differs : task ≠ .dispatcher) :
    server.dispatcher ≠ .sending pid id message := by
  intro isSending
  have isFirst := sound.ordered.held .dispatcher (.inr ⟨pid, id, message, isSending⟩)
  rw [isLine] at isFirst
  exact differs (some.inj isFirst)

/-! ## The steps of the tasks -/

theorem accept_eq_some (accepted : server.accept pid = some next) :
    server.acceptor = none ∧ next = { server.change server.accepted (.new pid) with
      accepted := server.accepted + 1
      line := server.line ++ [.acceptor]
      acceptor := some server.accepted } := by
  unfold accept at accepted
  split at accepted <;> cases accepted
  next isNone => exact ⟨isNone, rfl⟩

theorem register_first {rest : List Task} (isWaiting : server.acceptor = some id)
    (isLine : server.line = .acceptor :: rest) :
    server.register = some
      ({ server.change id { server.connection id with looping := .running } with
        pairs := Function.update server.pairs (server.connection id).pid (some id)
        line := rest
        acceptor := none }, .registered (server.connection id).pid id) := by
  simp [register, isWaiting, isLine]

theorem register_eq_some (registered : server.register = some (next, event)) :
    ∃ id rest, server.acceptor = some id ∧ server.line = .acceptor :: rest ∧
      next = { server.change id { server.connection id with looping := .running } with
        pairs := Function.update server.pairs (server.connection id).pid (some id)
        line := rest
        acceptor := none } ∧
      event = .registered (server.connection id).pid id := by
  unfold register at registered
  split at registered <;> cases registered
  next id rest isWaiting isLine => exact ⟨id, rest, isWaiting, isLine, rfl, rfl⟩

theorem receive_first {rest : List (Int × String)} (isIdle : server.dispatcher = .idle)
    (isFirst : server.globalRx = (pid, message) :: rest) :
    server.receive = some { server with
      globalRx := rest
      line := server.line ++ [.dispatcher]
      dispatcher := .locking pid message } := by
  simp [receive, isIdle, isFirst]

theorem receive_eq_some (received : server.receive = some next) :
    ∃ pid message rest, server.dispatcher = .idle ∧ server.globalRx = (pid, message) :: rest ∧
      next = { server with
        globalRx := rest
        line := server.line ++ [.dispatcher]
        dispatcher := .locking pid message } := by
  unfold receive at received
  split at received <;> cases received
  next pid message rest isIdle isFirst => exact ⟨pid, message, rest, isIdle, isFirst, rfl⟩

section Dispatch

variable {rest : List Task}

theorem dispatch_absent (isLocking : server.dispatcher = .locking pid message)
    (isLine : server.line = .dispatcher :: rest) (absent : server.pairs pid = none) :
    server.dispatch = some ({ server with line := rest, dispatcher := .idle }, .other) := by
  simp [dispatch, isLocking, isLine, absent]

theorem dispatch_found (isLocking : server.dispatcher = .locking pid message)
    (isLine : server.line = .dispatcher :: rest) (isPair : server.pairs pid = some id) :
    server.dispatch = some ({ server with dispatcher := .sending pid id message }, .other) := by
  simp [dispatch, isLocking, isLine, isPair]

theorem dispatch_returned (isSending : server.dispatcher = .sending pid id message)
    (returned : (server.connection id).looping = .returned) :
    server.dispatch = some ({ server with dispatcher := .resting }, .other) := by
  simp [dispatch, isSending, if_pos returned]

theorem dispatch_handed (isSending : server.dispatcher = .sending pid id message)
    (notReturned : (server.connection id).looping ≠ .returned)
    (hasRoom : (server.connection id).channel.length < channelSize) :
    server.dispatch = some ({ server.change id ((server.connection id).push message hasRoom) with
      dispatcher := .resting }, .handed pid message) := by
  simp [dispatch, isSending, if_neg notReturned, dif_pos hasRoom]

theorem dispatch_rested (isResting : server.dispatcher = .resting)
    (isLine : server.line = .dispatcher :: rest) :
    server.dispatch = some ({ server with line := rest, dispatcher := .idle }, .other) := by
  simp [dispatch, isResting, isLine]

end Dispatch

theorem dispatch_cases (dispatched : server.dispatch = some (next, event)) :
    (∃ rest, server.line = .dispatcher :: rest ∧
      (server.dispatcher = .resting ∨
        ∃ pid message, server.dispatcher = .locking pid message ∧ server.pairs pid = none) ∧
      next = { server with line := rest, dispatcher := .idle } ∧ event = .other) ∨
    (∃ pid id message rest, server.dispatcher = .locking pid message ∧
      server.line = .dispatcher :: rest ∧ server.pairs pid = some id ∧
      next = { server with dispatcher := .sending pid id message } ∧ event = .other) ∨
    (∃ pid id message, server.dispatcher = .sending pid id message ∧
      (server.connection id).looping = .returned ∧
      next = { server with dispatcher := .resting } ∧ event = .other) ∨
    (∃ pid id message hasRoom, server.dispatcher = .sending pid id message ∧
      (server.connection id).looping ≠ .returned ∧
      next = { server.change id ((server.connection id).push message hasRoom) with
        dispatcher := .resting } ∧ event = .handed pid message) := by
  unfold dispatch at dispatched
  split at dispatched
  next pid message rest isLocking isLine =>
    split at dispatched <;> cases dispatched
    next absent => exact .inl ⟨rest, isLine, .inr ⟨pid, message, isLocking, absent⟩, rfl, rfl⟩
    next id isPair =>
      exact .inr (.inl ⟨pid, id, message, rest, isLocking, isLine, isPair, rfl, rfl⟩)
  next pid id message isSending =>
    split at dispatched
    next returned =>
      cases dispatched
      exact .inr (.inr (.inl ⟨pid, id, message, isSending, returned, rfl, rfl⟩))
    next notReturned =>
      split at dispatched <;> cases dispatched
      next hasRoom =>
        exact .inr (.inr (.inr ⟨pid, id, message, hasRoom, isSending, notReturned, rfl, rfl⟩))
  next rest isResting isLine =>
    cases dispatched
    exact .inl ⟨rest, isLine, .inl isResting, rfl, rfl⟩
  · cases dispatched

theorem clean_cases (cleaned : server.clean = some next) : (server.cleaner = .idle ∧
      next = { server with line := server.line ++ [.cleaner], cleaner := .checking }) ∨
    (∃ rest, server.line = .cleaner :: rest ∧
      next = { server with line := rest ++ [.cleaner], cleaner := .removing server.stopped }) ∨
    (∃ pids, server.cleaner = .removing pids ∧ server.line.head? = some .cleaner ∧
      next = { server with
        pairs := fun pid => if pids pid then none else server.pairs pid
        cleaner := .resting }) ∨
    (∃ rest, server.line = .cleaner :: rest ∧
      next = { server with line := rest, cleaner := .idle }) := by
  unfold clean at cleaned
  split at cleaned <;> cases cleaned
  next isIdle => exact .inl ⟨isIdle, rfl⟩
  next rest isChecking isLine => exact .inr (.inl ⟨rest, isLine, rfl⟩)
  next pids rest isRemoving isLine =>
    exact .inr (.inr (.inl ⟨pids, isRemoving, by rw [isLine, head?_cons], rfl⟩))
  next rest isResting isLine => exact .inr (.inr (.inr ⟨rest, isLine, rfl⟩))

theorem map_other_eq_some {Value : Type} {value : Option Value} {state : Value → Server}
    (mapped : value.map (fun found => (state found, Event.other)) = some (next, event)) :
    ∃ found, value = some found ∧ next = state found ∧ event = .other := by
  obtain ⟨found, isFound, ⟨⟩⟩ := map_eq_some_iff.mp mapped
  exact ⟨found, isFound, rfl, rfl⟩

/-! ## What every step keeps -/

/-- What a step leaves of the connections, of the map and of the tasks. -/
structure Carries (server : Server) (action : Action) (next : Server) : Prop where
  accepted : server.accepted ≤ next.accepted
  evolves : ∀ id < server.accepted, (action = .register → server.acceptor ≠ some id) →
    (server.connection id).Evolves (next.connection id)
  pairs : ∀ pid id, next.pairs pid = some id → server.pairs pid = some id ∨
    action = .register ∧ server.acceptor = some id ∧ (server.connection id).pid = pid ∧
      (next.connection id).pid = pid ∧ (next.connection id).looping = .running
  acceptor : ∀ id, next.acceptor = some id → server.acceptor = some id ∧ action ≠ .register ∨
    id = server.accepted ∧ server.accepted < next.accepted ∧ ∃ pid, next.connection id = .new pid
  cleaner : next.cleaner = server.cleaner ∨ server.clean = some next
  count : (∃ pid, action = .accept pid) ∨ next.accepted = server.accepted

variable {action : Action}

theorem Carries.same (notRegister : action ≠ .register)
    (evolves : ∀ id, (server.connection id).Evolves (next.connection id))
    (accepted : next.accepted = server.accepted) (acceptor : next.acceptor = server.acceptor)
    (pairs : ∀ pid id, next.pairs pid = some id → server.pairs pid = some id)
    (cleaner : next.cleaner = server.cleaner ∨ server.clean = some next) :
    Carries server action next where
  accepted := le_of_eq accepted.symm
  evolves id _ _ := evolves id
  pairs pid id isPair := .inl (pairs pid id isPair)
  acceptor _ isWaiting := .inl ⟨acceptor ▸ isWaiting, notRegister⟩
  cleaner := cleaner
  count := .inr accepted

theorem evolves_change {connection : Connection}
    (evolves : (server.connection id).Evolves connection)
    (other : Nat) :
    (server.connection other).Evolves ((server.change id connection).connection other) := by
  by_cases isChanged : other = id
  · subst isChanged
    rw [connection_change]
    exact evolves
  · rw [connection_change_of_ne isChanged]
    exact .refl _

theorem carries_register (registered : server.register = some (next, event)) :
    Carries server .register next := by
  obtain ⟨id, rest, isWaiting, _, rfl, _⟩ := register_eq_some registered
  refine ⟨le_refl _, ?_, ?_, nofun, .inl rfl, .inr rfl⟩
  · intro other _ notWaiting
    have differs : other ≠ id := fun same => notWaiting rfl (same ▸ isWaiting)
    have same := @connection_change_of_ne server id other differs
      { server.connection id with looping := .running }
    exact same ▸ .refl (server.connection other)
  · intro pid other isPair
    by_cases samePid : pid = (server.connection id).pid
    · subst samePid
      cases (update_self ..).symm.trans isPair
      refine .inr ⟨rfl, isWaiting, rfl, ?_⟩
      simp only [Server.change, update_self]
      exact ⟨trivial, trivial⟩
    · exact .inl ((update_of_ne samePid ..).symm.trans isPair)

theorem pairs_clean (cleaned : server.clean = some next) (isPair : next.pairs pid = some id) :
    server.pairs pid = some id := by
  rcases clean_cases cleaned with ⟨_, rfl⟩ | ⟨_, _, rfl⟩ | ⟨pids, _, _, rfl⟩ | ⟨_, _, rfl⟩
  case inr.inr.inl =>
    dsimp only at isPair
    split at isPair
    · cases isPair
    · exact isPair
  all_goals exact isPair

theorem carries_of_step (taken : server.step room action = some (next, event)) :
    Carries server action next := by
  cases action with
  | register => exact carries_register taken
  | accept pid =>
    obtain ⟨_, accepted, rfl, _⟩ := map_other_eq_some taken
    obtain ⟨_, rfl⟩ := accept_eq_some accepted
    refine ⟨le_succ _, ?_, fun _ _ => .inl, ?_, .inl rfl, .inl ⟨pid, rfl⟩⟩
    · intro id old _
      have same := @connection_change_of_ne server _ id (Nat.ne_of_lt old) (.new pid)
      exact same ▸ .refl (server.connection id)
    · rintro id ⟨⟩
      exact .inr ⟨rfl, lt_succ_self _, pid, connection_change _⟩
  | send =>
    cases taken
    exact .same nofun (fun _ => .refl _) rfl rfl (fun _ _ => id) (.inl rfl)
  | receive =>
    obtain ⟨_, received, rfl, _⟩ := map_other_eq_some taken
    obtain ⟨_, _, _, _, _, rfl⟩ := receive_eq_some received
    exact .same nofun (fun _ => .refl _) rfl rfl (fun _ _ => id) (.inl rfl)
  | dispatch =>
    rcases dispatch_cases taken with ⟨_, _, _, rfl, _⟩ | ⟨_, _, _, _, _, _, _, rfl, _⟩ |
      ⟨_, _, _, _, _, rfl, _⟩ | ⟨_, _, message, hasRoom, _, _, rfl, _⟩
    iterate 3 exact .same nofun (fun _ => .refl _) rfl rfl (fun _ _ => id) (.inl rfl)
    exact .same nofun (evolves_change (Connection.evolves_push message hasRoom)) rfl rfl
      (fun _ _ => id) (.inl rfl)
  | clean =>
    obtain ⟨_, cleaned, rfl, _⟩ := map_other_eq_some taken
    refine .same nofun (fun id => ?_) ?_ ?_ (fun _ _ => pairs_clean cleaned) (.inr cleaned)
    all_goals
      rcases clean_cases cleaned with ⟨_, rfl⟩ | ⟨_, _, rfl⟩ | ⟨_, _, _, rfl⟩ | ⟨_, _, rfl⟩ <;>
        first | rfl | exact .refl _
  | turn | read | stop | close =>
    obtain ⟨_, changed, rfl, _⟩ := map_other_eq_some taken
    refine .same nofun (evolves_change ?_) rfl rfl (fun _ _ => id) (.inl rfl)
    first
    | exact Connection.evolves_turn changed
    | exact Connection.evolves_read changed
    | exact Connection.evolves_stop changed
    | exact Connection.evolves_close changed

theorem known_start : start.Known := ⟨nofun, nofun⟩

theorem Known.not_waiting (known : server.Known)
    (begun : (server.connection id).looping ≠ .pending) : server.acceptor ≠ some id :=
  fun isWaiting => begun (known.waiting id isWaiting).2.1

theorem Known.step (known : server.Known) (carries : server.Carries action next) :
    next.Known := by
  refine ⟨?_, ?_⟩
  · intro pid id isPair
    rcases carries.pairs pid id isPair with before | ⟨_, isWaiting, _, samePid, isRunning⟩
    · obtain ⟨old, samePid, begun⟩ := known.registered pid id before
      have evolves := carries.evolves id old fun _ => known.not_waiting begun
      exact ⟨lt_of_lt_of_le old carries.accepted, evolves.pid.trans samePid,
        fun isPending => begun (evolves.pending.mp isPending)⟩
    · exact ⟨lt_of_lt_of_le (known.waiting id isWaiting).1 carries.accepted, samePid,
        isRunning ▸ nofun⟩
  · intro id isWaiting
    rcases carries.acceptor id isWaiting with ⟨before, notRegister⟩ | ⟨rfl, grows, pid, isNew⟩
    · obtain ⟨old, isPending, reads⟩ := known.waiting id before
      have evolves := carries.evolves id old fun isRegister => absurd isRegister notRegister
      exact ⟨lt_of_lt_of_le old carries.accepted, evolves.pending.mpr isPending,
        (evolves.reads isPending).trans reads⟩
    · exact ⟨grows, isNew ▸ ⟨rfl, rfl⟩⟩

/-! ## Steps under the lock -/

section

variable (sound : server.Sound room)
include sound

theorem Sound.change {connection : Connection} (known : (server.change id connection).Known)
    (takes : ∀ pid, server.pairs pid = some id → connection.Takes room
    (server.addressed.count pid)) :
    (server.change id connection).Sound room where
  toKnown := known
  ordered := sound.ordered
  target := sound.target
  taken pid other isPair := by
    by_cases isChanged : other = id
    · subst isChanged
      rw [connection_change]
      exact takes pid isPair
    · rw [connection_change_of_ne isChanged]
      exact sound.taken pid other isPair

theorem Sound.accept (known : next.Known) (accepted : server.accept pid = some next) :
    next.Sound room := by
  obtain ⟨isFree, rfl⟩ := accept_eq_some accepted
  refine ⟨known, ?_, sound.target, ?_⟩
  · apply sound.ordered.join .acceptor (not_not_intro isFree)
    · rintro (_ | _ | _) <;> simp [Asks, Server.change]
    · rintro (_ | _ | _) <;> exact id
  · intro other id isPair
    have takes := sound.taken other id isPair
    rw [← connection_change_of_ne (Nat.ne_of_lt (sound.registered other id isPair).1)
      (.new pid)] at takes
    exact takes

theorem Sound.register (known : next.Known) (registered : server.register = some (next, event)) :
    next.Sound room := by
  obtain ⟨id, rest, isWaiting, isLine, rfl, _⟩ := register_eq_some registered
  refine ⟨known, ?_, ?_, ?_⟩
  · apply sound.ordered.leave isLine
    all_goals rintro (_ | _ | _) <;> simp [Asks, Holds, Server.change]
  · intro otherPid other message isSending
    exact absurd isSending (sound.not_sending isLine nofun)
  · intro otherPid other isPair
    by_cases isNew : other = id
    · subst isNew
      refine .inr (.inl ?_)
      simp only [Server.change, update_self]
      exact (sound.waiting other isWaiting).2.2
    · have before : server.pairs otherPid = some other := by
        rcases (carries_register registered).pairs otherPid other isPair with before | ⟨_, same, _⟩
        · exact before
        · exact absurd (some.inj (same.symm.trans isWaiting)) isNew
      have takes := sound.taken otherPid other before
      rw [← connection_change_of_ne isNew { server.connection id with looping := .running }]
        at takes
      exact takes

theorem Sound.receive (received : server.receive = some next) : next.Sound room := by
  obtain ⟨pid, message, rest, isIdle, isFirst, rfl⟩ := receive_eq_some received
  refine ⟨⟨sound.registered, sound.waiting⟩, ?_, nofun, ?_⟩
  · apply sound.ordered.join .dispatcher (not_not_intro isIdle)
    all_goals rintro (_ | _ | _) <;> simp [Asks, Holds]
  · intro otherPid id isPair
    have takes := sound.taken otherPid id isPair
    simp only [addressed, isIdle, isFirst] at takes
    exact takes

theorem Sound.release {dispatcher : Dispatcher} {line : List Task} (empty : dispatcher.pid = none)
   
    (ordered : Ordered line { server with line := line, dispatcher := dispatcher }.Asks
      { server with line := line, dispatcher := dispatcher }.Holds) :
    { server with line := line, dispatcher := dispatcher }.Sound room := by
  refine ⟨⟨sound.registered, sound.waiting⟩, ordered, ?_, ?_⟩
  · intro pid id message isSending
    rw [show dispatcher = _ from isSending] at empty
    cases empty
  · intro pid id isPair
    refine (sound.taken pid id isPair).mono (List.Sublist.count_le pid ?_)
    simp only [addressed, empty, toList_none, nil_append]
    exact sublist_append_right _ _

theorem Sound.rest (isSending : server.dispatcher = .sending pid id message) :
    { server with dispatcher := .resting }.Sound room := by
  apply @Sound.release room server sound .resting server.line rfl
  apply sound.ordered.keep (sound.ordered.held .dispatcher (.inr ⟨pid, id, message, isSending⟩))
  all_goals rintro (_ | _ | _) <;> simp [Asks, Holds, isSending]

theorem Sound.dispatch (known : next.Known) (dispatched : server.dispatch = some (next, event)) :
    next.Sound room := by
  rcases dispatch_cases dispatched with ⟨rest, isLine, _, rfl, _⟩ |
    ⟨pid, id, message, rest, isLocking, isLine, isPair, rfl, _⟩ |
    ⟨pid, id, message, isSending, _, rfl, _⟩ | ⟨pid, id, message, hasRoom, isSending, _, rfl, _⟩
  · apply sound.release rfl
    apply sound.ordered.leave isLine
    all_goals rintro (_ | _ | _) <;> simp [Asks, Holds]
  · refine ⟨⟨sound.registered, sound.waiting⟩, ?_, ?_, ?_⟩
    · apply sound.ordered.keep (by rw [isLine, head?_cons])
      all_goals rintro (_ | _ | _) <;> simp [Asks, Holds, isLocking]
    · rintro _ _ _ ⟨⟩
      exact isPair
    · intro otherPid other isOther
      have takes := sound.taken otherPid other isOther
      simp only [addressed, isLocking] at takes
      exact takes
  · exact sound.rest isSending
  · apply (sound.rest isSending).change known
    intro otherPid isPair
    -- only one pid has this connection, so the message in hand was one of those it takes
    have samePid : otherPid = pid :=
      (sound.registered otherPid id isPair).2.1.symm.trans
        (sound.registered pid id (sound.target pid id message isSending)).2.1
    subst samePid
    have takes := sound.taken otherPid id isPair
    simp only [addressed, isSending, Dispatcher.pid, toList_some, singleton_append,
      count_cons_self] at takes
    exact takes.push

theorem Sound.clean (known : next.Known) (cleaned : server.clean = some next) :
    next.Sound room := by
  have isCleaned := cleaned
  rcases clean_cases cleaned with ⟨isIdle, rfl⟩ | ⟨rest, isLine, rfl⟩ |
    ⟨pids, isRemoving, isFirst, rfl⟩ | ⟨rest, isLine, rfl⟩
  · refine ⟨⟨sound.registered, sound.waiting⟩, ?_, sound.target, sound.taken⟩
    apply sound.ordered.join .cleaner (not_not_intro isIdle)
    all_goals rintro (_ | _ | _) <;> simp [Asks, Holds]
  · refine ⟨⟨sound.registered, sound.waiting⟩, ?_, sound.target, sound.taken⟩
    have left : Ordered rest { server with cleaner := .idle }.Asks
        { server with cleaner := .idle }.Holds := by
      apply sound.ordered.leave isLine
      all_goals rintro (_ | _ | _) <;> simp [Asks, Holds]
    apply left.join .cleaner (not_not_intro rfl)
    all_goals rintro (_ | _ | _) <;> simp [Asks, Holds]
  · obtain ⟨rest, isLine⟩ := head?_eq_some_iff.mp isFirst
    refine ⟨known, ?_, ?_, ?_⟩
    · apply sound.ordered.keep isFirst
      all_goals rintro (_ | _ | _) <;> simp [Asks, Holds, isRemoving]
    · intro pid id message isSending
      exact absurd isSending (sound.not_sending isLine nofun)
    · intro pid id isPair
      exact sound.taken pid id (pairs_clean isCleaned isPair)
  · refine ⟨⟨sound.registered, sound.waiting⟩, ?_, sound.target, sound.taken⟩
    apply sound.ordered.leave isLine
    all_goals rintro (_ | _ | _) <;> simp [Asks, Holds]

end

/-! ## Runs -/

/-- The cleaner has not collected the pid of a connection that is registered. -/
def Timely (server : Server) : Action → Prop
  | .register => ∀ id ∈ server.acceptor,
      server.cleaner.collected (server.connection id).pid = false
  | _ => True

/-- The messages for a probe that does not read fit, and connections are registered in time. -/
def Fair (room : Nat) (server : Server) : Action → Prop
  | .send pid _ => ∀ id ∈ server.pairs pid,
      (server.connection id).Takes room (server.addressed.count pid + 1)
  | .stop id => server.hasSender id = true →
      { server.connection id with reads := false }.Takes room
        (server.addressed.count (server.connection id).pid)
  | action => server.Timely action

instance Fair.decidable (room : Nat) (server : Server) :
    ∀ action, Decidable (server.Fair room action)
  | .send .. => inferInstanceAs (Decidable (∀ id ∈ server.pairs _, _))
  | .stop .. => inferInstanceAs (Decidable (_ → _))
  | .register => inferInstanceAs (Decidable (∀ id ∈ server.acceptor, _))
  | .accept _ | .receive | .dispatch | .clean | .turn _ | .read _ | .close _ =>
    inferInstanceAs (Decidable True)

def sent (server : Server) (pid : Int) (message : String) : Server :=
  { server with globalRx := server.globalRx ++ [(pid, message)] }

theorem count_addressed_sent (other : Int) : (server.sent pid message).addressed.count other =
    server.addressed.count other + [pid].count other := by
  simp only [addressed, sent, map_append, map_cons, map_nil, count_append]
  omega

theorem Sound.sent (sound : server.Sound room) (takes : ∀ id, server.pairs pid = some id →
      (server.connection id).Takes room (server.addressed.count pid + 1)) :
    (server.sent pid message).Sound room := by
  refine ⟨⟨sound.registered, sound.waiting⟩, sound.ordered, sound.target, ?_⟩
  intro other id isPair
  rw [count_addressed_sent]
  by_cases isSent : other = pid
  · subst isSent
    rw [count_singleton_self]
    exact takes id isPair
  · rw [count_singleton, if_neg (by simpa using Ne.symm isSent)]
    exact sound.taken other id isPair

theorem Sound.step (sound : server.Sound room) (fair : server.Fair room action)
    (taken : server.step room action = some (next, event)) : next.Sound room := by
  have known := sound.toKnown.step (carries_of_step taken)
  cases action with
  | accept pid =>
    obtain ⟨changed, accepted, rfl, _⟩ := map_other_eq_some taken
    exact sound.accept known accepted
  | register => exact sound.register known taken
  | send pid message =>
    cases taken
    exact sound.sent fair
  | receive =>
    obtain ⟨changed, received, rfl, _⟩ := map_other_eq_some taken
    exact sound.receive received
  | dispatch => exact sound.dispatch known taken
  | clean =>
    obtain ⟨changed, cleaned, rfl, _⟩ := map_other_eq_some taken
    exact sound.clean known cleaned
  | turn id =>
    obtain ⟨connection, turned, rfl, _⟩ := map_other_eq_some taken
    exact sound.change known fun pid isPair => (sound.taken pid id isPair).turn turned
  | read id =>
    obtain ⟨connection, isRead, rfl, _⟩ := map_other_eq_some taken
    obtain ⟨reads, _, rfl⟩ := Connection.read_eq_some isRead
    exact sound.change known fun _ _ => .inr (.inl reads)
  | stop id =>
    obtain ⟨connection, stopped, rfl, _⟩ := map_other_eq_some taken
    obtain ⟨_, rfl⟩ := Connection.stop_eq_some stopped
    apply sound.change known
    intro pid isPair
    obtain ⟨_, rfl, _⟩ := sound.registered pid id isPair
    exact fair (decide_eq_true isPair)
  | close id =>
    obtain ⟨connection, closed, rfl, _⟩ := map_other_eq_some taken
    obtain ⟨_, rfl⟩ := Connection.close_eq_some closed
    exact sound.change known fun _ _ => .inl rfl

/-! ## Pairs that have stopped -/

theorem Fair.timely (fair : server.Fair room action) : server.Timely action := by
  cases action with
  | register => exact fair
  | _ => trivial

/-- The cleaner has collected only pairs that have stopped. -/
def Collected (server : Server) : Prop :=
  ∀ pid id, server.cleaner.collected pid = true → server.pairs pid = some id →
    (server.connection id).looping = .returned

theorem collected_start : start.Collected := nofun

theorem Collected.clean (cleaned : server.clean = some next) : next.Collected := by
  rcases clean_cases cleaned with ⟨_, rfl⟩ | ⟨_, _, rfl⟩ | ⟨_, _, _, rfl⟩ | ⟨_, _, rfl⟩
  · nofun
  · intro pid id isStopped isPair
    simpa only [Cleaner.collected, stopped, show server.pairs pid = some id from isPair,
      any_some, decide_eq_true_eq] using isStopped
  · nofun
  · nofun

theorem Collected.step (collected : server.Collected) (known : server.Known)
    (timely : server.Timely action) (carries : server.Carries action next) : next.Collected := by
  rcases carries.cleaner with same | cleaned
  · intro pid id isCollected isPair
    rw [same] at isCollected
    rcases carries.pairs pid id isPair with before | ⟨rfl, isWaiting, rfl, _⟩
    · obtain ⟨old, _, begun⟩ := known.registered pid id before
      exact (carries.evolves id old fun _ => known.not_waiting begun).returned
        (collected pid id isCollected before)
    · exact absurd ((timely id isWaiting).symm.trans isCollected) Bool.false_ne_true
  · exact Collected.clean cleaned

end Server

end Elkeid.Rasp.Pairs
