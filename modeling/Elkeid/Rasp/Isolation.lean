import Elkeid.Rasp.PairsInvariant

/-!
# Isolation of RASP probes

The dispatcher keeps the lock of the pairs while it waits for the channel of a probe. A probe that
has stopped reading takes what still fits into its socket, the frame in hand and its channel; with
one message more the dispatcher waits for ever, and nothing is registered or handed on. As long as
the messages for such probes fit, the server can go on from every state: it can always come to a
state without work, and from there register a connection or hand on a message.
-/

namespace Elkeid.Rasp.Pairs

open Foundations Machine List Option Function Nat
open Relation (ReflTransGen)

variable {room : Nat}

/-! ## Room in a channel -/

namespace Connection

variable {connection changed : Connection}

/-- A turn of the connection that does not end it, or a read of its probe. -/
def Acts (room : Nat) (connection changed : Connection) : Prop :=
  (∀ hasSender, connection.turn room hasSender = some changed) ∨ connection.read = some changed

theorem acts_recv (isRunning : connection.looping = .running) (isFree : connection.sending = none)
    (notEmpty : connection.channel ≠ []) : connection.Acts room connection.recv := by
  refine .inl fun hasSender => ?_
  simp [turn, isRunning, isFree, if_neg notEmpty]

theorem acts_sent (isRunning : connection.looping = .running) {message : String}
    (isSending : connection.sending = some message) (hasRoom : connection.unread ≤ room) :
    connection.Acts room connection.sent := by
  refine .inl fun hasSender => ?_
  simp [turn, isRunning, isSending, if_pos hasRoom]

theorem recv_length_lt (notEmpty : connection.channel ≠ []) :
    connection.recv.channel.length < channelSize := by
  have positive := length_pos_of_ne_nil notEmpty
  have bounded := connection.bounded
  simp only [recv, length_tail]
  omega

theorem exists_reads (reads : connection.reads = true) :
    ∃ unread ≤ room, ReflTransGen (Acts room) connection { connection with unread := unread } := by
  induction isUnread : connection.unread generalizing connection with
  | zero =>
    refine ⟨0, zero_le _, ?_⟩
    rw [← isUnread]
  | succ unread ih =>
    obtain ⟨last, fits, further⟩ :=
      @ih { connection with unread := unread } reads rfl
    refine ⟨last, fits, .head (.inr ?_) further⟩
    rw [read, if_pos ⟨reads, by rw [isUnread]; exact Nat.succ_pos _⟩, isUnread,
      Nat.add_sub_cancel]

theorem Takes.exists_room (takes : connection.Takes room 1)
    (isRunning : connection.looping = .running) :
    ∃ changed, ReflTransGen (Acts room) connection changed ∧ changed.looping = .running ∧
      changed.channel.length < channelSize := by
  by_cases hasRoom : connection.channel.length < channelSize
  · exact ⟨connection, .refl, isRunning, hasRoom⟩
  have notEmpty : connection.channel ≠ [] := by
    intro isEmpty
    rw [isEmpty] at hasRoom
    exact hasRoom (by decide)
  cases isSending : connection.sending with
  | none =>
    exact ⟨connection.recv, .single (acts_recv isRunning isSending notEmpty), isRunning,
      recv_length_lt notEmpty⟩
  | some message =>
    -- a full channel and a frame in hand leave no room, unless the socket takes the frame
    obtain ⟨unread, fits, reads⟩ : ∃ unread ≤ room,
        ReflTransGen (Acts room) connection { connection with unread := unread } := by
      rcases takes with returned | reads | fits
      · rw [isRunning] at returned
        cases returned
      · exact exists_reads reads
      · refine ⟨connection.unread, ?_, .refl⟩
        simp only [load, isSending, toList_some, length_singleton] at fits
        omega
    let middle : Connection := { connection with unread := unread }
    have isSent : middle.Acts room middle.sent := acts_sent isRunning isSending fits
    have isReceived : middle.sent.Acts room middle.sent.recv := acts_recv isRunning rfl notEmpty
    exact ⟨middle.sent.recv, (reads.tail isSent).tail isReceived, isRunning,
      recv_length_lt notEmpty⟩

/-- A connection that takes nothing any more. -/
structure Jammed (room : Nat) (connection : Connection) : Prop where
  running : connection.looping = .running
  silent : connection.reads = false
  unread : room < connection.unread
  inHand : connection.sending ≠ none
  full : connection.channel.length = channelSize

theorem Jammed.turn (jammed : connection.Jammed room) (hasSender : Bool) :
    connection.turn room hasSender = none := by
  obtain ⟨message, isSending⟩ := ne_none_iff_exists'.mp jammed.inHand
  simp [Connection.turn, jammed.running, isSending, if_neg (not_le.mpr jammed.unread)]

theorem Jammed.read (jammed : connection.Jammed room) : connection.read = none := by
  simp [Connection.read, jammed.silent]

end Connection

namespace Server

variable {server next : Server} {action : Action} {event : Event} {id : Nat} {pid : Int}
  {message : String}

/-- The actions of the server, and of the probes that read. -/
def Own : Action → Prop
  | .register | .receive | .dispatch | .clean | .turn _ | .read _ => True
  | .accept _ | .send _ _ | .stop _ | .close _ => False

/-- The actions that need no probe to stop or to end its connection. -/
def Cooperative : Action → Prop
  | .stop _ | .close _ => False
  | _ => True

theorem Own.cooperative (own : Own action) : Cooperative action := by
  cases action
  case stop | close => exact own
  all_goals trivial

/-- The server can go on to register a connection that is accepted next, and to hand a message to
each connected probe that takes one more than those on their way to it. -/
def CanGoOn (room : Nat) (server : Server) : Prop :=
  (∀ pid, CanShow (step room) Cooperative server (.registered pid server.accepted)) ∧
  ∀ pid id message, server.pairs pid = some id → (server.connection id).looping = .running →
    (server.connection id).Takes room (server.addressed.count pid + 1) →
      CanShow (step room) Cooperative server (.handed pid message)

/-! ## What the server keeps on its own -/

theorem Sound.own (sound : server.Sound room) (own : Own action)
    (taken : server.step room action = some (next, event)) : next.Sound room := by
  cases action
  case register => exact sound.register (sound.toKnown.step (carries_of_step taken)) taken
  case accept | send | stop | close => exact own.elim
  all_goals
    refine sound.step ?_ taken
    trivial

theorem own_accepted (own : Own action) (taken : server.step room action = some (next, event)) :
    next.accepted = server.accepted := by
  rcases (carries_of_step taken).count with ⟨pid, rfl⟩ | same
  · exact own.elim
  · exact same

theorem clean_sent : (server.sent pid message).clean =
    server.clean.map (·.sent pid message) := by
  unfold clean
  simp only [sent]
  split <;> rfl

theorem step_sent (own : Own action) (taken : server.step room action = some (next, event)) :
    (server.sent pid message).step room action = some (next.sent pid message, event) := by
  cases action with
  | accept | send | stop | close => exact own.elim
  | register =>
    obtain ⟨_, _, isWaiting, isLine, rfl, rfl⟩ := register_eq_some taken
    exact register_first isWaiting isLine
  | receive =>
    obtain ⟨_, received, rfl, rfl⟩ := map_other_eq_some taken
    obtain ⟨_, _, _, isIdle, isFirst, rfl⟩ := receive_eq_some received
    simp [step, receive, sent, isIdle, isFirst]
  | dispatch =>
    rcases dispatch_cases taken with
      ⟨_, isLine, isResting | ⟨_, _, isLocking, absent⟩, rfl, rfl⟩ |
      ⟨_, _, _, _, isLocking, isLine, isPair, rfl, rfl⟩ |
      ⟨_, _, _, isSending, returned, rfl, rfl⟩ |
      ⟨_, _, _, hasRoom, isSending, notReturned, rfl, rfl⟩
    · exact dispatch_rested isResting isLine
    · exact dispatch_absent isLocking isLine absent
    · exact dispatch_found isLocking isLine isPair
    · exact dispatch_returned isSending returned
    · exact @dispatch_handed (server.sent pid message) _ _ _ isSending notReturned hasRoom
  | clean =>
    obtain ⟨_, cleaned, rfl, rfl⟩ := map_other_eq_some taken
    rw [step, clean_sent, cleaned, map_some, map_some]
  | turn id | read id =>
    obtain ⟨_, turned, rfl, rfl⟩ := map_other_eq_some taken
    exact map_eq_some_iff.mpr ⟨_, turned, rfl⟩

/-- The connection of the pid runs, and the cleaner leaves its pair. -/
structure Serves (server : Server) (pid : Int) : Prop where
  running : ∃ id, server.pairs pid = some id ∧ (server.connection id).looping = .running
  spared : server.cleaner.collected pid = false

section

variable (serves : server.Serves pid)
include serves

theorem Serves.change {connection : Connection}
    (stays : server.pairs pid = some id → (server.connection id).looping = .running →
      connection.looping = .running) : (server.change id connection).Serves pid := by
  obtain ⟨other, isPair, isRunning⟩ := serves.running
  refine ⟨⟨other, isPair, ?_⟩, serves.spared⟩
  by_cases isChanged : other = id
  · subst isChanged
    rw [connection_change]
    exact stays isPair isRunning
  · rw [connection_change_of_ne isChanged]
    exact isRunning

theorem Serves.register (sound : server.Sound room)
    (registered : server.register = some (next, event)) : next.Serves pid := by
  obtain ⟨id, rest, isWaiting, _, rfl, _⟩ := register_eq_some registered
  refine ⟨?_, serves.spared⟩
  by_cases isNew : pid = (server.connection id).pid
  · refine ⟨id, ?_, ?_⟩
    · simp [isNew]
    · simp [Server.change]
  · obtain ⟨other, isPair, isRunning⟩ := serves.running
    have older : other ≠ id := by
      rintro rfl
      exact (sound.registered pid other isPair).2.2 (sound.waiting other isWaiting).2.1
    refine ⟨other, ?_, ?_⟩
    · simp only [update_of_ne isNew]
      exact isPair
    · simp only [Server.change, update_of_ne older]
      exact isRunning

theorem Serves.clean (cleaned : server.clean = some next) :
    next.Serves pid := by
  obtain ⟨id, isPair, isRunning⟩ := serves.running
  rcases clean_cases cleaned with ⟨_, rfl⟩ | ⟨_, _, rfl⟩ | ⟨pids, isRemoving, _, rfl⟩ | ⟨_, _, rfl⟩
  · exact ⟨serves.running, rfl⟩
  · refine ⟨serves.running, ?_⟩
    simp [Cleaner.collected, stopped, isPair, isRunning]
  · have spared := serves.spared
    simp only [isRemoving, Cleaner.collected] at spared
    refine ⟨⟨id, ?_, isRunning⟩, rfl⟩
    simp only [spared, Bool.false_eq_true, if_false]
    exact isPair
  · exact ⟨serves.running, rfl⟩

theorem Serves.own (sound : server.Sound room) (own : Own action)
    (taken : server.step room action = some (next, event)) : next.Serves pid := by
  cases action with
  | accept | send | stop | close => exact own.elim
  | register => exact serves.register sound taken
  | receive =>
    obtain ⟨_, received, rfl, _⟩ := map_other_eq_some taken
    obtain ⟨_, _, _, _, _, rfl⟩ := receive_eq_some received
    exact ⟨serves.running, serves.spared⟩
  | dispatch =>
    rcases dispatch_cases taken with ⟨_, _, _, rfl, _⟩ | ⟨_, _, _, _, _, _, _, rfl, _⟩ |
      ⟨_, _, _, _, _, rfl, _⟩ | ⟨_, _, message, hasRoom, _, _, rfl, _⟩
    · exact ⟨serves.running, serves.spared⟩
    · exact ⟨serves.running, serves.spared⟩
    · exact ⟨serves.running, serves.spared⟩
    · have changed := serves.change fun _ isRunning =>
        show (Connection.push _ message hasRoom).looping = .running from isRunning
      exact ⟨changed.running, changed.spared⟩
  | clean =>
    obtain ⟨_, cleaned, rfl, _⟩ := map_other_eq_some taken
    exact serves.clean cleaned
  | turn id =>
    obtain ⟨connection, turned, rfl, _⟩ := map_other_eq_some taken
    apply serves.change
    intro isPair _
    -- the pair is in the map, so the loop does not end
    have hasSender : server.hasSender id = true := by
      rw [hasSender, (sound.registered pid id isPair).2.1]
      exact decide_eq_true isPair
    obtain ⟨_, _, _, ⟨isRunning, _⟩ | ⟨noSender, _⟩⟩ := Connection.turn_spec turned
    · exact isRunning
    · exact absurd (hasSender.symm.trans noSender) nofun
  | read id =>
    obtain ⟨connection, isRead, rfl, _⟩ := map_other_eq_some taken
    apply serves.change
    intro _ isRunning
    obtain ⟨_, _, rfl⟩ := Connection.read_eq_some isRead
    exact isRunning

end

/-! ## The work of the server -/

end Server

def Dispatcher.work : Dispatcher → Nat
  | .idle => 0
  | .locking _ _ => 3
  | .sending _ _ _ => 2
  | .resting => 1

def Cleaner.work : Cleaner → Nat
  | .idle => 0
  | .checking => 3
  | .removing _ => 2
  | .resting => 1

namespace Server

variable {server next : Server} {action : Action} {event : Event} {id : Nat} {pid : Int}
  {message : String}

def work (server : Server) : Nat :=
  4 * server.globalRx.length + server.dispatcher.work + server.cleaner.work +
    server.acceptor.toList.length

/-- No task has asked for the lock, and no message waits. -/
def Quiet (server : Server) : Prop := server.line = [] ∧ server.globalRx = []

theorem Sound.idle_of_nil (sound : server.Sound room) (isLine : server.line = []) :
    server.dispatcher = .idle ∧ server.cleaner = .idle ∧ server.acceptor = none := by
  have none_asks : ∀ task, ¬ server.Asks task := by
    intro task asks
    have listed := (sound.ordered.asked task).mpr asks
    rw [isLine] at listed
    cases listed
  exact ⟨not_not.mp (none_asks .dispatcher), not_not.mp (none_asks .cleaner),
    not_not.mp (none_asks .acceptor)⟩

theorem goes_of_acts {first second : Connection} (acts : first.Acts room second) :
    Goes (step room) Own (server.change id first) (server.change id second) := by
  rcases acts with turned | isRead
  · refine ⟨.turn id, .other, trivial, ?_⟩
    simp [step, turned]
  · refine ⟨.read id, .other, trivial, ?_⟩
    simp [step, isRead]

theorem Sound.exists_handed (sound : server.Sound room)
    (isSending : server.dispatcher = .sending pid id message)
    (isRunning : (server.connection id).looping = .running) :
    ∃ middle next, ReflTransGen (Goes (Server.step room) Own) server middle ∧
      middle.dispatch = some (next, .handed pid message) ∧ next.work < server.work := by
  have takes : (server.connection id).Takes room 1 := by
    refine (sound.taken pid id (sound.target pid id message isSending)).mono ?_
    simp only [addressed, isSending, Dispatcher.pid, toList_some, singleton_append,
      count_cons_self]
    exact succ_le_succ (zero_le _)
  obtain ⟨connection, acts, stays, hasRoom⟩ := takes.exists_room isRunning
  have goes : ReflTransGen (Goes (Server.step room) Own) (server.change id (server.connection id))
      (server.change id connection) := acts.lift (server.change id ·) fun _ _ => goes_of_acts
  rw [change_self] at goes
  rw [← @connection_change server id connection] at stays hasRoom
  refine ⟨server.change id connection, _, goes,
    @dispatch_handed (server.change id connection) _ _ _ isSending (by rw [stays]; decide) hasRoom,
    ?_⟩
  simp only [work, Server.change, isSending, Dispatcher.work]
  omega

/-- Actions of its own lead the server to less work. -/
def Progresses (room : Nat) (server : Server) : Prop :=
  ∃ next, ReflTransGen (Goes (step room) Own) server next ∧ next.work < server.work

theorem goes_dispatch (dispatched : server.dispatch = some (next, event)) :
    Goes (step room) Own server next := ⟨.dispatch, event, trivial, dispatched⟩

theorem goes_clean (cleaned : server.clean = some next) : Goes (step room) Own server next :=
  ⟨.clean, .other, trivial, by simp only [step, cleaned, map_some]⟩

variable {rest : List Task}

section

variable (sound : server.Sound room)
include sound

theorem Sound.dispatcher_progress (isLine : server.line = .dispatcher :: rest) :
    server.Progresses room := by
  have asks : server.dispatcher ≠ .idle :=
    (sound.ordered.asked .dispatcher).mp (isLine ▸ mem_cons_self)
  cases isDispatcher : server.dispatcher with
  | idle => exact absurd isDispatcher asks
  | locking pid message =>
    cases isPair : server.pairs pid with
    | none =>
      refine ⟨_, .single (goes_dispatch (dispatch_absent isDispatcher isLine isPair)), ?_⟩
      simp only [work, isDispatcher, Dispatcher.work]
      omega
    | some id =>
      refine ⟨_, .single (goes_dispatch (dispatch_found isDispatcher isLine isPair)), ?_⟩
      simp only [work, isDispatcher, Dispatcher.work]
      omega
  | sending pid id message =>
    have isPair := sound.target pid id message isDispatcher
    cases isLooping : (server.connection id).looping with
    | pending => exact absurd isLooping (sound.registered pid id isPair).2.2
    | returned =>
      refine ⟨_, .single (goes_dispatch (dispatch_returned isDispatcher isLooping)), ?_⟩
      simp only [work, isDispatcher, Dispatcher.work]
      omega
    | running =>
      obtain ⟨middle, next, goes, handed, less⟩ := sound.exists_handed isDispatcher isLooping
      exact ⟨next, goes.tail (goes_dispatch handed), less⟩
  | resting =>
    refine ⟨_, .single (goes_dispatch (dispatch_rested isDispatcher isLine)), ?_⟩
    simp only [work, isDispatcher, Dispatcher.work]
    omega

theorem Sound.cleaner_progress (isLine : server.line = .cleaner :: rest) :
    server.Progresses room := by
  have asks : server.cleaner ≠ .idle :=
    (sound.ordered.asked .cleaner).mp (isLine ▸ mem_cons_self)
  cases isCleaner : server.cleaner with
  | idle => exact absurd isCleaner asks
  | checking | removing pids | resting =>
    refine ⟨_, .single (goes_clean (by simp only [Server.clean, isCleaner, isLine]; rfl)), ?_⟩
    simp only [work, isCleaner, Cleaner.work]
    omega

theorem Sound.acceptor_progress (isLine : server.line = .acceptor :: rest) :
    server.Progresses room := by
  have asks : server.acceptor ≠ none :=
    (sound.ordered.asked .acceptor).mp (isLine ▸ mem_cons_self)
  obtain ⟨id, isWaiting⟩ := ne_none_iff_exists'.mp asks
  refine ⟨_, .single ⟨.register, _, trivial, register_first isWaiting isLine⟩, ?_⟩
  simp only [work, Server.change, isWaiting, toList_some, toList_none,
    length_nil, length_singleton]
  omega

theorem Sound.progress (notQuiet : ¬ server.Quiet) : server.Progresses room := by
  cases isLine : server.line with
  | nil =>
    obtain ⟨isIdle, _, _⟩ := sound.idle_of_nil isLine
    obtain ⟨⟨pid, message⟩, rest, isFirst⟩ :=
      exists_cons_of_ne_nil fun isEmpty => notQuiet ⟨isLine, isEmpty⟩
    refine ⟨_, .single ⟨.receive, .other, trivial,
      congrArg (Option.map _) (receive_first isIdle isFirst)⟩, ?_⟩
    simp only [work, isIdle, isFirst, Dispatcher.work, length_cons]
    omega
  | cons task rest =>
    cases task with
    | dispatcher => exact sound.dispatcher_progress isLine
    | cleaner => exact sound.cleaner_progress isLine
    | acceptor => exact sound.acceptor_progress isLine

theorem Sound.exists_quiet {kept : Server → Prop}
    (preserved : ∀ server action next event, server.Sound room → kept server → Own action →
      server.step room action = some (next, event) → kept next)
    (isKept : kept server) :
    ∃ last, ReflTransGen (Goes (Server.step room) Own) server last ∧
      (last.Sound room ∧ kept last) ∧ last.Quiet := by
  apply @Machine.exists_quiet _ _ _ (Server.step room) server Own
    (fun server => server.Sound room ∧ kept server) Quiet work _ ⟨sound, isKept⟩
  rintro state ⟨isSound, isKept⟩ notQuiet
  obtain ⟨next, goes, less⟩ := isSound.progress notQuiet
  refine ⟨next, goes, ?_, less⟩
  apply goes_invariant _ goes ⟨isSound, isKept⟩
  rintro state action next event ⟨isSound, isKept⟩ own taken
  exact ⟨isSound.own own taken, preserved state action next event isSound isKept own taken⟩

end

theorem goes_cooperative {first last : Server}
    (goes : ReflTransGen (Goes (step room) Own) first last) :
    ReflTransGen (Goes (step room) Cooperative) first last := by
  refine ReflTransGen.mono ?_ _ _ goes
  rintro _ _ ⟨action, event, own, taken⟩
  exact ⟨action, event, own.cooperative, taken⟩

theorem Sound.canShow_registered (sound : server.Sound room) (pid : Int) :
    CanShow (Server.step room) Cooperative server (.registered pid server.accepted) := by
  obtain ⟨last, goes, ⟨isSound, sameCount⟩, isLine, _⟩ :=
    @Sound.exists_quiet room server sound (fun state => state.accepted = server.accepted)
      (fun _ _ _ _ _ same own taken => (own_accepted own taken).trans same) rfl
  obtain ⟨_, _, isFree⟩ := isSound.idle_of_nil isLine
  let accepting : Server := { last.change last.accepted (.new pid) with
    accepted := last.accepted + 1
    line := [.acceptor]
    acceptor := some last.accepted }
  have accepted : last.step room (.accept pid) = some (accepting, .other) := by
    simp only [Server.step, Server.accept, isFree, isLine, map_some, nil_append]
    rfl
  have registered := @register_first accepting _ _ rfl rfl
  rw [show (accepting.connection last.accepted).pid = pid from
    congrArg Connection.pid (connection_change _)] at registered
  rw [sameCount] at registered
  exact ⟨accepting, (goes_cooperative goes).tail ⟨.accept pid, .other, trivial, accepted⟩,
    .register, _, trivial, registered⟩

theorem Sound.canShow_handed (sound : server.Sound room) (collected : server.Collected)
    (isPair : server.pairs pid = some id) (isRunning : (server.connection id).looping = .running)
    (takes : (server.connection id).Takes room (server.addressed.count pid + 1)) :
    CanShow (Server.step room) Cooperative server (.handed pid message) := by
  have spared : server.cleaner.collected pid = false := by
    rw [Bool.eq_false_iff]
    intro isCollected
    rw [collected pid id isCollected isPair] at isRunning
    cases isRunning
  have soundSent : (server.sent pid message).Sound room := by
    apply sound.sent
    intro other isOther
    cases isPair.symm.trans isOther
    exact takes
  -- the message fits after those on their way, and stays so until they are handed on
  obtain ⟨last, goes, ⟨isSound, isSent, serves⟩, isLine, noMessage⟩ :=
    @Sound.exists_quiet room server sound
      (fun state => (state.sent pid message).Sound room ∧ state.Serves pid)
      (fun _ _ _ _ isSound ⟨isSent, serves⟩ own taken =>
        ⟨isSent.own own (step_sent own taken), serves.own isSound own taken⟩)
      ⟨soundSent, ⟨⟨id, isPair, isRunning⟩, spared⟩⟩
  obtain ⟨isIdle, _, _⟩ := isSound.idle_of_nil isLine
  obtain ⟨now, isPairNow, isRunningNow⟩ := serves.running
  have sent : last.step room (.send pid message) = some (last.sent pid message, .other) := rfl
  let locking : Server :=
    { last with globalRx := [], line := [.dispatcher], dispatcher := .locking pid message }
  have received : (last.sent pid message).step room .receive = some (locking, .other) := by
    simp only [Server.step, Server.receive, Server.sent, isIdle, isLine, noMessage,
      nil_append, map_some]
    rfl
  let sending : Server := { locking with dispatcher := .sending pid now message }
  have found : locking.step room .dispatch = some (sending, .other) :=
    @dispatch_found locking _ _ _ _ rfl rfl isPairNow
  have soundSending : sending.Sound room := by
    have soundLocking : locking.Sound room := isSent.own (show Own .receive from trivial) received
    exact soundLocking.own (show Own .dispatch from trivial) found
  obtain ⟨middle, next, further, handed, _⟩ := soundSending.exists_handed rfl isRunningNow
  have reached := (((goes_cooperative goes).tail ⟨.send pid message, .other, trivial, sent⟩).tail
    ⟨.receive, .other, trivial, received⟩).tail ⟨.dispatch, .other, trivial, found⟩
  exact ⟨middle, reached.trans (goes_cooperative further), .dispatch, next, trivial, handed⟩

/-- In a run whose steps are fair the server can go on from every state. -/
theorem canGoOn_of_fair (room : Nat) (actions : List Action)
    (fair : AllMeet (step room) (fun _ => Fair room) [] start actions) :
    Throughout (step room) (CanGoOn room) start actions := by
  apply @AllMeet.throughout _ _ _ (step room) _ _ _ _
    (fun server => server.Sound room ∧ server.Collected) _ _ _
    ⟨sound_start, collected_start⟩ fair
  · rintro _ server action next event ⟨sound, collected⟩ isFair taken
    exact ⟨sound.step isFair taken,
      collected.step sound.toKnown isFair.timely (carries_of_step taken)⟩
  · rintro server ⟨sound, collected⟩
    refine ⟨sound.canShow_registered, ?_⟩
    intro pid id message isPair isRunning takes
    exact sound.canShow_handed collected isPair isRunning takes

/-! ## A probe that does not read -/

def deliver (pid : Int) (message : String) : List Action :=
  [.send pid message, .receive, .dispatch, .dispatch, .dispatch]

/-- The first of two probes stops reading, and the agent sends it what still fits. -/
def fillingRun : List Action :=
  [.accept 1, .register, .accept 2, .register, .stop 0] ++ deliver 1 "config" ++
    [.turn 0, .turn 0] ++ deliver 1 "config" ++ [.turn 0] ++
    (replicate channelSize (deliver 1 "config")).flatten

theorem canGoOn_of_fair_filling : (run (step 0) start fillingRun).isSome ∧
    AllMeet (step 0) (fun _ => Fair 0) [] start fillingRun ∧
    Throughout (step 0) (CanGoOn 0) start fillingRun :=
  have fair : AllMeet (step 0) (fun _ => Fair 0) [] start fillingRun := by decide +kernel
  ⟨by decide +kernel, fair, canGoOn_of_fair 0 fillingRun fair⟩

/-- The dispatcher has the lock and waits for a connection that takes nothing any more. -/
structure Stalled (room : Nat) (server : Server) (id : Nat) : Prop where
  sending : ∃ pid message, server.dispatcher = .sending pid id message
  first : server.line.head? = some .dispatcher
  known : id < server.accepted
  jammed : (server.connection id).Jammed room

section

variable (stalled : server.Stalled room id)
include stalled

theorem Stalled.change {other : Nat} (differs : other ≠ id)
    (connection : Connection) : (server.change other connection).Stalled room id := by
  refine ⟨stalled.sending, stalled.first, stalled.known, ?_⟩
  rw [connection_change_of_ne differs.symm]
  exact stalled.jammed

theorem Stalled.waits {line : List Task} (task : Task)
    (isLine : line = server.line ++ [task]) : line.head? = some .dispatcher := by
  rw [isLine, head?_append, stalled.first, some_or]

theorem Stalled.not_first {task : Task}
    (differs : task ≠ .dispatcher) : server.line ≠ task :: rest := by
  intro isLine
  have first := stalled.first
  rw [isLine] at first
  exact differs (some.inj first)

theorem Stalled.dispatch : server.dispatch = none := by
  obtain ⟨pid, message, isSending⟩ := stalled.sending
  have notReturned : (server.connection id).looping ≠ .returned := by
    rw [stalled.jammed.running]
    nofun
  simp [Server.dispatch, isSending, if_neg notReturned, stalled.jammed.full]

theorem Stalled.clean (cleaned : server.clean = some next) :
    next.Stalled room id := by
  rcases clean_cases cleaned with ⟨_, rfl⟩ | ⟨_, isLine, _⟩ | ⟨_, _, isFirst, _⟩ | ⟨_, isLine, _⟩
  · exact ⟨stalled.sending, stalled.waits .cleaner rfl, stalled.known, stalled.jammed⟩
  · exact absurd isLine (stalled.not_first nofun)
  · cases stalled.first.symm.trans isFirst
  · exact absurd isLine (stalled.not_first nofun)

theorem Stalled.step (cooperative : Cooperative action)
    (taken : server.step room action = some (next, event)) :
    next.Stalled room id ∧ event = .other := by
  cases action with
  | stop | close => exact cooperative.elim
  | accept pid =>
    obtain ⟨_, accepted, rfl, isOther⟩ := map_other_eq_some taken
    obtain ⟨_, rfl⟩ := accept_eq_some accepted
    have changed := stalled.change (ne_of_gt stalled.known) (.new pid)
    exact ⟨⟨changed.sending, stalled.waits .acceptor rfl, lt_succ_of_lt stalled.known,
      changed.jammed⟩, isOther⟩
  | register =>
    obtain ⟨_, _, _, isLine, _⟩ := register_eq_some taken
    exact absurd isLine (stalled.not_first nofun)
  | send pid message =>
    cases taken
    exact ⟨⟨stalled.sending, stalled.first, stalled.known, stalled.jammed⟩, rfl⟩
  | receive =>
    obtain ⟨_, received, _⟩ := map_other_eq_some taken
    obtain ⟨_, _, _, isIdle, _⟩ := receive_eq_some received
    obtain ⟨_, _, isSending⟩ := stalled.sending
    cases isSending.symm.trans isIdle
  | dispatch => cases stalled.dispatch.symm.trans taken
  | clean =>
    obtain ⟨_, cleaned, rfl, isOther⟩ := map_other_eq_some taken
    exact ⟨stalled.clean cleaned, isOther⟩
  | turn other =>
    obtain ⟨connection, turned, rfl, isOther⟩ := map_other_eq_some taken
    refine ⟨stalled.change ?_ connection, isOther⟩
    rintro rfl
    cases (stalled.jammed.turn _).symm.trans turned
  | read other =>
    obtain ⟨connection, isRead, rfl, isOther⟩ := map_other_eq_some taken
    refine ⟨stalled.change ?_ connection, isOther⟩
    rintro rfl
    cases stalled.jammed.read.symm.trans isRead

theorem Stalled.not_canShow (shows : event ≠ .other) :
    ¬ CanShow (Server.step room) Cooperative server event := by
  rintro ⟨middle, goes, action, next, cooperative, taken⟩
  have stays : middle.Stalled room id := by
    refine @goes_invariant _ _ _ _ _ Cooperative (Stalled room · id) ?_ _ goes stalled
    intro _ _ _ _ isStalled isCooperative isTaken
    exact (isStalled.step isCooperative isTaken).1
  exact shows (stays.step cooperative taken).2

end

/-- With one message more the second probe and every new one are shut out. -/
theorem filledProbe_blocks : ∃ server events,
    run (step 0) start (fillingRun ++ [.send 1 "config", .receive, .dispatch]) =
      some (server, events) ∧
    server.pairs 2 = some 1 ∧ (server.connection 1).looping = .running ∧
    (server.connection 1).reads = true ∧
    ¬ CanShow (step 0) Cooperative server (.registered 3 server.accepted) ∧
    ¬ CanShow (step 0) Cooperative server (.handed 2 "config") := by
  have reached : (run (step 0) start (fillingRun ++ [.send 1 "config", .receive, .dispatch])).any
      (fun (server, _) => server.pairs 2 = some 1 ∧ (server.connection 1).looping = .running ∧
        (server.connection 1).reads = true ∧ server.dispatcher = .sending 1 0 "config" ∧
        server.line.head? = some .dispatcher ∧ 0 < server.accepted ∧
        (server.connection 0).looping = .running ∧
        ((server.connection 0).reads = false ∧ 0 < (server.connection 0).unread) ∧
        (server.connection 0).sending ≠ none ∧
        (server.connection 0).channel.length = channelSize) = true := by
    decide +kernel
  obtain ⟨⟨server, events⟩, ran, holds⟩ := (any_eq_true _ _).mp reached
  obtain ⟨isPair, isRunning, reads, isSending, first, known, running, unread, inHand, full⟩ :=
    of_decide_eq_true holds
  have stalled : server.Stalled 0 0 :=
    ⟨⟨1, "config", isSending⟩, first, known, running, unread.1, unread.2, inHand, full⟩
  exact ⟨server, events, ran, isPair, isRunning, reads, stalled.not_canShow nofun,
    stalled.not_canShow nofun⟩

end Server

end Elkeid.Rasp.Pairs
