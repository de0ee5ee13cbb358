import Elkeid.Center.Connections

/-!
# What PostCommand tells its caller

A command leaves its call through the channel once, is sent once by the goroutine that took
it, and only then reported ready. So an answer without an error means one successful send on
a connection of the agent, and an error from before the channel means none.
-/

namespace Elkeid.Center

open Foundations Machine List Function

theorem Answer.error_ofError {error : Option String} :
    (Answer.ofError error).error = none ↔ error = none := by
  cases error <;> exact Iff.rfl

/-- The errors from before the channel has accepted the command. -/
def Answer.Early : Answer → Prop
  | notFound | sendPoolFull => True
  | _ => False

theorem Answer.not_early_ofError (error : Option String) : ¬ (Answer.ofError error).Early := by
  cases error <;> exact id

namespace Event

/-- The connection a call's command was sent on, and what `stream.Send` returned. -/
def sendOf (call : Nat) : Event → Option (Nat × Option String)
  | sent index other error => if other = call then some (index, error) else none
  | _ => none

def about : Event → Option Nat
  | sent _ call _ | returned call _ => some call
  | _ => none

theorem sendOf_eq_none {event : Event} {call : Nat} (other : event.about ≠ some call) :
    event.sendOf call = none := by
  cases event with
  | sent index carried error =>
    rw [sendOf, if_neg]
    intro same
    exact other (congrArg some same)
  | _ => rfl

theorem about_silent (call : Nat) : Event.silent.about ≠ some call := by
  rintro ⟨⟩

end Event

def sendsOf (call : Nat) (events : List Event) : List (Nat × Option String) :=
  events.filterMap (Event.sendOf call)

namespace Server

def carried (server : Server) (index : Nat) : Option (Nat × Option (Option String)) :=
  viewAt Handler.carried server.handlers index

def agent (server : Server) (index : Nat) : Option Bytes :=
  viewAt Handler.agent server.handlers index

/-- The `sendData` that has taken the call's command, if one has. -/
def CarriedBy (server : Server) (call : Nat) (carriage : Option (Nat × Option (Option String))) :
    Prop :=
  ∀ index outcome, server.carried index = some (call, outcome) ↔ carriage = some (index, outcome)

/-- How far a call's command has come, and what its caller may have been told by then. -/
inductive Standing (events : List Event) (server : Server) (call : Nat) (entry : Call) : Prop
  | offered (stage : entry.stage = .offering) (notReady : entry.ready = false)
      (carried : server.CarriedBy call none) (unsent : sendsOf call events = [])
      (answers : ∀ answer, .returned call answer ∈ events → False)
  | refused (stage : entry.stage = .returned) (notReady : entry.ready = false)
      (carried : server.CarriedBy call none) (unsent : sendsOf call events = [])
      (answers : ∀ answer, .returned call answer ∈ events →
        answer.error = none → entry.command = none)
  | taken (index : Nat) (stage : entry.stage ≠ .offering) (notReady : entry.ready = false)
      (carried : server.CarriedBy call (some (index, none))) (aimed : entry.connection = some index)
      (unsent : sendsOf call events = [])
      (answers : ∀ answer, .returned call answer ∈ events → answer = .resultTimedOut)
  | sent (index : Nat) (error : Option String) (stage : entry.stage ≠ .offering)
      (notReady : entry.ready = false)
      (carried : server.CarriedBy call (some (index, some error)))
      (aimed : entry.connection = some index) (once : sendsOf call events = [(index, error)])
      (answers : ∀ answer, .returned call answer ∈ events → answer = .resultTimedOut)
  | settled (index : Nat) (stage : entry.stage ≠ .offering) (carried : server.CarriedBy call none)
      (aimed : entry.connection = some index) (once : sendsOf call events = [(index, entry.error)])
      (answers : ∀ answer, .returned call answer ∈ events →
        answer = .resultTimedOut ∨ answer = .ofError entry.error)

structure Explains (events : List Event) (server : Server) : Prop where
  pooled : server.Pooled
  aimed : ∀ entry ∈ server.calls, ∀ index, entry.connection = some index →
    server.agent index = some entry.agentID
  carried : ∀ index call outcome, server.carried index = some (call, outcome) →
    call < server.calls.length
  about : ∀ event ∈ events, ∀ call, event.about = some call → call < server.calls.length
  standing : ∀ call entry, server.calls[call]? = some entry → Standing events server call entry

variable {server next : Server} {event : Event} {events : List Event} {call : Nat} {entry : Call}
  {index : Nat}

theorem agent_of_active {agentID : Bytes}
    (isActive : server.active index = some agentID) : server.agent index = some agentID := by
  obtain ⟨handler, found, active⟩ := Option.bind_eq_some_iff.mp isActive
  rw [agent, viewAt_of_found found, ← active]
  cases handler with
  | serving stage connection goroutines => cases stage <;> cases active <;> rfl
  | _ => cases active <;> rfl

theorem Took.agent (took : Took server next event) {agentID : Bytes}
    (known : server.agent index = some agentID) : next.agent index = some agentID := by
  have ofSet : ∀ {position : Nat} {old new : Handler}, server.handlers[position]? = some old →
      next.handlers = server.handlers.set position new →
      (∀ other, old.agent = some other → new.agent = some other) →
      next.agent index = some agentID := by
    intro position old new found handlers kept
    rw [Server.agent, handlers, viewAt_set found]
    split
    next same =>
      subst same
      rw [Server.agent, viewAt_of_found found] at known
      exact kept agentID known
    next => exact known
  cases took with
  | idle _ _ handlers | missed _ _ handlers | began _ _ _ _ handlers | concluded _ _ _ _ handlers =>
    rw [Server.agent, handlers]
    exact known
  | admitted handlers =>
    rw [Server.agent, handlers, viewAt_concat rfl]
    exact known
  | moved _ _ _ _ _ found handlers _ _ quiet => exact ofSet found handlers quiet.agent
  | stored _ _ found handlers => exact ofSet found handlers nofun
  | deleted _ _ _ found handlers => exact ofSet found handlers (fun _ => id)
  | accepted _ _ _ _ _ _ _ _ _ _ serving handlers => exact ofSet serving handlers (fun _ => id)
  | closed _ _ _ _ _ _ _ _ serving handlers _ _ quiet => exact ofSet serving handlers quiet.agent
  | sent _ _ _ _ _ _ _ serving handlers => exact ofSet serving handlers (fun _ => id)
  | reported _ _ _ _ _ _ _ _ _ serving _ handlers => exact ofSet serving handlers (fun _ => id)

/-- What a move does to the calls and to the commands the senders have taken. -/
inductive CallChange (server next : Server) : Event → Prop
  | unconcerned (event : Event) (about : event.about = none)
      (carried : next.carried = server.carried)
      (calls : next.calls = server.calls) : CallChange server next event
  | began (event : Event) (new : Call) (notReady : new.ready = false)
      (first : new.stage = .offering ∧ event = .silent ∨
        new.stage = .returned ∧ event = .returned server.calls.length .notFound)
      (aimed : ∀ index, new.connection = some index → server.getByID new.agentID = some index)
      (carried : next.carried = server.carried)
      (calls : next.calls = server.calls ++ [new]) : CallChange server next event
  | accepted (call index : Nat) (entry : Call) (found : server.calls[call]? = some entry)
      (offering : entry.stage = .offering) (aimed : entry.connection = some index)
      (free : server.carried index = none)
      (carried : next.carried = update server.carried index (some (call, none)))
      (calls : next.calls = server.calls.set call { entry with stage := .waiting }) :
      CallChange server next .silent
  | returned (call : Nat) (answer : Answer) (entry : Call)
      (found : server.calls[call]? = some entry)
      (cause : (entry.stage = .offering ∧ (answer.error = none → entry.command = none)) ∨
        (entry.stage = .waiting ∧ answer = .resultTimedOut) ∨
        (entry.stage = .waiting ∧ entry.ready ∧ answer = .ofError entry.error))
      (carried : next.carried = server.carried)
      (calls : next.calls = server.calls.set call { entry with stage := .returned }) :
      CallChange server next (.returned call answer)
  | sent (index call : Nat) (error : Option String)
      (taken : server.carried index = some (call, none))
      (carried : next.carried = update server.carried index (some (call, some error)))
      (calls : next.calls = server.calls) : CallChange server next (.sent index call error)
  | reported (index call : Nat) (error : Option String) (entry : Call)
      (found : server.calls[call]? = some entry)
      (sent : server.carried index = some (call, some error))
      (carried : next.carried = update server.carried index none)
      (calls : next.calls = server.calls.set call { entry with error := error, ready := true }) :
      CallChange server next .silent

theorem Took.callChange (took : Took server next event) : CallChange server next event := by
  have same (handlers : next.handlers = server.handlers) : next.carried = server.carried := by
    funext index
    rw [carried, carried, handlers]
  have ofSet : ∀ {position : Nat} {old new : Handler}, server.handlers[position]? = some old →
      next.handlers = server.handlers.set position new →
      next.carried = update server.carried position new.carried := by
    intro position old new found handlers
    funext index
    rw [carried, handlers, update_apply]
    exact viewAt_set found index
  have ofQuiet : ∀ {position : Nat} {old new : Handler}, server.handlers[position]? = some old →
      next.handlers = server.handlers.set position new → new.carried = old.carried →
      next.carried = server.carried := by
    intro position old new found handlers sameCarried
    funext index
    rw [carried, handlers]
    exact viewAt_set_same found sameCarried index
  cases took with
  | idle _ unseen handlers _ calls =>
    rcases unseen with rfl | rfl
    all_goals exact .unconcerned _ rfl (same handlers) calls
  | admitted handlers _ calls =>
    refine .unconcerned _ rfl ?_ calls
    funext index
    rw [carried, handlers]
    exact viewAt_concat rfl index
  | moved _ _ _ _ unseen found handlers _ calls quiet =>
    rcases unseen with rfl | rfl
    all_goals exact .unconcerned _ rfl (ofQuiet found handlers quiet.carried) calls
  | stored _ _ found handlers _ calls => exact .unconcerned _ rfl (ofQuiet found handlers rfl) calls
  | deleted _ _ _ found handlers _ calls =>
    exact .unconcerned _ rfl (ofQuiet found handlers rfl) calls
  | missed _ _ handlers _ calls =>
    refine .began _ _ rfl (.inr ⟨rfl, rfl⟩) ?_ (same handlers) calls
    rintro _ ⟨⟩
  | began agentID command index found handlers _ calls =>
    refine .began _ _ rfl (.inl ⟨rfl, rfl⟩) ?_ (same handlers) calls
    rintro _ ⟨⟩
    exact found
  | accepted call index _ _ _ _ entry found offering aimed serving handlers _ calls =>
    exact .accepted call index entry found offering aimed (viewAt_of_found serving)
      (ofSet serving handlers) calls
  | closed call _ _ _ entry found offering isClose serving handlers _ calls quiet =>
    exact .returned call _ entry found (.inl ⟨offering, fun _ => isClose⟩)
      (ofQuiet serving handlers quiet.carried) calls
  | sent index call error _ _ _ _ serving handlers _ calls =>
    exact .sent index call error (viewAt_of_found serving) (ofSet serving handlers) calls
  | reported index call error _ _ _ _ sender entry serving found handlers _ calls dropped =>
    refine .reported index call error entry found (viewAt_of_found serving) ?_ calls
    rw [← dropped]
    exact ofSet serving handlers
  | concluded call answer entry found handlers _ calls cause =>
    refine .returned call answer entry found ?_ (same handlers) calls
    rcases cause with ⟨offering, rfl⟩ | later
    · exact .inl ⟨offering, nofun⟩
    · exact .inr later

theorem sendsOf_concat_of_ne (other : event.about ≠ some call) :
    sendsOf call (events ++ [event]) = sendsOf call events := by
  rw [sendsOf, filterMap_concat, Event.sendOf_eq_none other, Option.toList_none, append_nil]
  rfl

theorem answers_concat {holds : Answer → Prop} (other : event.about ≠ some call)
    (answers : ∀ answer, .returned call answer ∈ events → holds answer) (answer : Answer)
    (listed : .returned call answer ∈ events ++ [event]) : holds answer := by
  rcases mem_append.mp listed with old | new
  · exact answers answer old
  · cases mem_singleton.mp new
    exact absurd rfl other

theorem CarriedBy.of_same {carriage : Option (Nat × Option (Option String))}
    (carriedBy : server.CarriedBy call carriage)
    (same : next.carried = server.carried) : next.CarriedBy call carriage := by
  intro index outcome
  rw [same]
  exact carriedBy index outcome

theorem carriedBy_of_set {outcome : Option (Option String)}
    (elsewhere : ∀ other outcome, server.carried other = some (call, outcome) → other = index)
    (carried : next.carried = update server.carried index (some (call, outcome))) :
    next.CarriedBy call (some (index, outcome)) := by
  intro other otherOutcome
  rw [carried, update_apply]
  split
  next same => simp [same]
  next differs =>
    refine iff_of_false ?_ ?_
    · intro also
      exact differs (elsewhere other otherOutcome also)
    · rintro ⟨⟩
      exact differs rfl

theorem carried_elsewhere {new : Option (Nat × Option (Option String))}
    (carried : next.carried = update server.carried index new)
    (notBefore : ∀ outcome, server.carried index ≠ some (call, outcome))
    (notAfter : ∀ outcome, new ≠ some (call, outcome)) (other : Nat)
    (outcome : Option (Option String)) :
    next.carried other = some (call, outcome) ↔ server.carried other = some (call, outcome) := by
  rw [carried, update_apply]
  split
  next same =>
    subst same
    exact iff_of_false (notAfter outcome) (notBefore outcome)
  next => rfl

theorem Standing.frame (standing : Standing events server call entry)
    (other : event.about ≠ some call)
    (same : ∀ index outcome, next.carried index = some (call, outcome) ↔
      server.carried index = some (call, outcome)) :
    Standing (events ++ [event]) next call entry := by
  have sends : sendsOf call (events ++ [event]) = sendsOf call events := sendsOf_concat_of_ne other
  have carriedBy : ∀ {carriage}, server.CarriedBy call carriage → next.CarriedBy call carriage := by
    intro carriage before index outcome
    exact (same index outcome).trans (before index outcome)
  cases standing with
  | offered stage notReady carried unsent answers =>
    exact .offered stage notReady (carriedBy carried) (sends.trans unsent)
      (answers_concat other answers)
  | refused stage notReady carried unsent answers =>
    exact .refused stage notReady (carriedBy carried) (sends.trans unsent)
      (answers_concat other answers)
  | taken index stage notReady carried aimed unsent answers =>
    exact .taken index stage notReady (carriedBy carried) aimed (sends.trans unsent)
      (answers_concat other answers)
  | sent index error stage notReady carried aimed once answers =>
    exact .sent index error stage notReady (carriedBy carried) aimed (sends.trans once)
      (answers_concat other answers)
  | settled index stage carried aimed once answers =>
    exact .settled index stage (carriedBy carried) aimed (sends.trans once)
      (answers_concat other answers)

theorem Standing.accept (standing : Standing events server call entry)
    (offering : entry.stage = .offering) (aimed : entry.connection = some index)
    (carried : next.carried = update server.carried index (some (call, none))) :
    Standing (events ++ [.silent]) next call { entry with stage := .waiting } := by
  cases standing with
  | offered stage notReady before unsent answers =>
    refine .taken index nofun notReady ?_ aimed
      ((sendsOf_concat_of_ne (Event.about_silent call)).trans unsent)
      (answers_concat (Event.about_silent call) fun answer listed => (answers answer listed).elim)
    refine carriedBy_of_set ?_ carried
    intro other outcome also
    cases (before other outcome).mp also
  | refused stage => cases offering.symm.trans stage
  | taken _ stage | sent _ _ stage | settled _ stage => exact absurd offering stage

theorem forall_returned_concat {holds : Answer → Prop} {answer : Answer}
    (old : ∀ other, Event.returned call other ∈ events → holds other) (new : holds answer) :
    ∀ other, Event.returned call other ∈ events ++ [.returned call answer] → holds other := by
  intro other listed
  rcases mem_append.mp listed with isOld | isNew
  · exact old other isOld
  · cases mem_singleton.mp isNew
    exact new

section

variable (standing : Standing events server call entry)
include standing

theorem Standing.answer {answer : Answer}
    (cause : (entry.stage = .offering ∧ (answer.error = none → entry.command = none)) ∨
      (entry.stage = .waiting ∧ answer = .resultTimedOut) ∨
        (entry.stage = .waiting ∧ entry.ready ∧ answer = .ofError entry.error))
    (same : next.carried = server.carried) :
    Standing (events ++ [.returned call answer]) next call { entry with stage := .returned } := by
  have sends : sendsOf call (events ++ [.returned call answer]) = sendsOf call events := by
    rw [sendsOf, filterMap_concat]
    exact append_nil _
  -- without an answer to the command only the time can be over
  have timedOut (stage : entry.stage ≠ .offering) (notReady : entry.ready = false) :
      answer = .resultTimedOut := by
    rcases cause with ⟨offering, _⟩ | ⟨_, timedOut⟩ | ⟨_, isReady, _⟩
    · exact absurd offering stage
    · exact timedOut
    · cases notReady.symm.trans isReady
  cases standing with
  | offered stage notReady carried unsent answers =>
    refine .refused rfl notReady (carried.of_same same) (sends.trans unsent)
      (forall_returned_concat (fun other listed => (answers other listed).elim) ?_)
    rcases cause with ⟨_, onlyClose⟩ | ⟨waiting, _⟩ | ⟨waiting, _⟩
    · exact onlyClose
    all_goals cases stage.symm.trans waiting
  | refused stage =>
    rcases cause with ⟨offering, _⟩ | ⟨waiting, _⟩ | ⟨waiting, _⟩
    · cases stage.symm.trans offering
    all_goals cases stage.symm.trans waiting
  | taken index stage notReady carried aimed unsent answers =>
    exact .taken index nofun notReady (carried.of_same same) aimed (sends.trans unsent)
      (forall_returned_concat answers (timedOut stage notReady))
  | sent index error stage notReady carried aimed once answers =>
    exact .sent index error nofun notReady (carried.of_same same) aimed (sends.trans once)
      (forall_returned_concat answers (timedOut stage notReady))
  | settled index stage carried aimed once answers =>
    refine .settled index nofun (carried.of_same same) aimed (sends.trans once)
      (forall_returned_concat answers ?_)
    rcases cause with ⟨offering, _⟩ | ⟨_, timedOut⟩ | ⟨_, _, sameError⟩
    · exact absurd offering stage
    · exact .inl timedOut
    · exact .inr sameError

theorem Standing.send {error : Option String} (taken : server.carried index = some (call, none))
    (carried : next.carried = update server.carried index (some (call, some error))) :
    Standing (events ++ [.sent index call error]) next call entry := by
  cases standing with
  | taken aimedAt stage notReady before aimed unsent answers =>
    cases (before index none).mp taken
    refine .sent index error stage notReady ?_ aimed ?_ ?_
    · refine carriedBy_of_set ?_ carried
      intro other outcome also
      cases (before other outcome).mp also
      rfl
    · rw [sendsOf, filterMap_concat, Event.sendOf, if_pos rfl]
      exact congrArg (· ++ [(index, error)]) unsent
    · intro answer listed
      rcases mem_append.mp listed with old | new
      · exact answers answer old
      · cases mem_singleton.mp new
  | offered _ _ before | refused _ _ before | settled _ _ before =>
    cases (before index none).mp taken
  | sent _ _ _ _ before => cases (before index none).mp taken

theorem Standing.report {error : Option String}
    (sent : server.carried index = some (call, some error))
    (carried : next.carried = update server.carried index none) :
    Standing (events ++ [.silent]) next call { entry with error := error, ready := true } := by
  cases standing with
  | sent aimedAt otherError stage notReady before aimed once answers =>
    cases (before index (some error)).mp sent
    refine .settled index stage ?_ aimed
      ((sendsOf_concat_of_ne (Event.about_silent call)).trans once)
      (answers_concat (Event.about_silent call) fun answer listed => .inl (answers answer listed))
    intro other outcome
    rw [carried, update_apply]
    split
    next => exact iff_of_false nofun nofun
    next differs =>
      refine iff_of_false ?_ nofun
      intro also
      cases (before other outcome).mp also
      exact differs rfl
  | offered _ _ before | refused _ _ before | settled _ _ before =>
    cases (before index (some error)).mp sent
  | taken _ _ _ before => cases (before index (some error)).mp sent

end

theorem Explains.fresh (explains : Explains events server) :
    sendsOf server.calls.length events = [] ∧
    (∀ answer, .returned server.calls.length answer ∈ events → False) ∧
    server.CarriedBy server.calls.length none := by
  refine ⟨?_, ?_, ?_⟩
  · refine filterMap_eq_nil_iff.mpr ?_
    intro event listed
    refine Event.sendOf_eq_none ?_
    intro isAbout
    exact absurd (explains.about event listed _ isAbout) (lt_irrefl _)
  · intro answer listed
    exact absurd (explains.about _ listed _ rfl) (lt_irrefl _)
  · intro index outcome
    refine iff_of_false ?_ nofun
    intro isCarried
    exact absurd (explains.carried index _ outcome isCarried) (lt_irrefl _)

section

variable (change : CallChange server next event)
include change

theorem CallChange.standing (explains : Explains events server)
    (found : next.calls[call]? = some entry) : Standing (events ++ [event]) next call entry := by
  cases change with
  | unconcerned _ about carried calls =>
    rw [calls] at found
    exact (explains.standing call entry found).frame (by rw [about]; nofun)
      (fun index outcome => by rw [carried])
  | began _ new notReady first aimed carried calls =>
    rw [calls] at found
    rcases getElem?_concat_cases found with ⟨rfl, rfl⟩ | old
    · obtain ⟨unsent, unanswered, untaken⟩ := explains.fresh
      rcases first with ⟨offering, rfl⟩ | ⟨returned, rfl⟩
      · exact .offered offering notReady (untaken.of_same carried)
          ((sendsOf_concat_of_ne (Event.about_silent _)).trans unsent)
          (answers_concat (Event.about_silent _) unanswered)
      · refine .refused returned notReady (untaken.of_same carried) ?_ ?_
        · rw [sendsOf, filterMap_concat]
          exact (append_nil _).trans unsent
        · intro answer listed
          rcases mem_append.mp listed with old | new
          · exact (unanswered answer old).elim
          · cases mem_singleton.mp new
            exact nofun
    · refine (explains.standing call entry old).frame ?_ (fun index outcome => by rw [carried])
      have earlier := (List.getElem?_eq_some_iff.mp old).1
      rcases first with ⟨_, rfl⟩ | ⟨_, rfl⟩
      · exact Event.about_silent call
      · rintro ⟨⟩
        exact absurd earlier (lt_irrefl _)
  | accepted taker index old wasFound offering aimed free carried calls =>
    rw [calls] at found
    rcases getElem?_set_cases found with ⟨rfl, rfl⟩ | ⟨differs, before⟩
    · exact (explains.standing call old wasFound).accept offering aimed carried
    · refine (explains.standing call entry before).frame (Event.about_silent call)
        (carried_elsewhere carried ?_ ?_)
      · rw [free]
        nofun
      · rintro _ ⟨⟩
        exact differs rfl
  | returned answered answer old wasFound cause carried calls =>
    rw [calls] at found
    rcases getElem?_set_cases found with ⟨rfl, rfl⟩ | ⟨differs, before⟩
    · exact (explains.standing call old wasFound).answer cause carried
    · refine (explains.standing call entry before).frame ?_ (fun index outcome => by rw [carried])
      rintro ⟨⟩
      exact differs rfl
  | sent index sender error taken carried calls =>
    rw [calls] at found
    by_cases same : call = sender
    · subst same
      exact (explains.standing call entry found).send taken carried
    · refine (explains.standing call entry found).frame ?_ (carried_elsewhere carried ?_ ?_)
      · rintro ⟨⟩
        exact same rfl
      · rw [taken]
        rintro _ ⟨⟩
        exact same rfl
      · rintro _ ⟨⟩
        exact same rfl
  | reported index sender error old wasFound sent carried calls =>
    rw [calls] at found
    rcases getElem?_set_cases found with ⟨rfl, rfl⟩ | ⟨differs, before⟩
    · exact (explains.standing call old wasFound).report sent carried
    · refine (explains.standing call entry before).frame (Event.about_silent call)
        (carried_elsewhere carried ?_ nofun)
      rw [sent]
      rintro _ ⟨⟩
      exact differs rfl

theorem CallChange.length_le : server.calls.length ≤ next.calls.length := by
  cases change with
  | unconcerned _ _ _ calls | sent _ _ _ _ _ calls => rw [calls]
  | began _ _ _ _ _ _ calls => simp [calls]
  | accepted _ _ _ _ _ _ _ _ calls | returned _ _ _ _ _ _ calls | reported _ _ _ _ _ _ _ calls =>
    rw [calls, length_set]

theorem CallChange.carried_lt (explains : Explains events server) {outcome : Option (Option String)}
    (isCarried : next.carried index = some (call, outcome)) : call < next.calls.length := by
  refine lt_of_lt_of_le ?_ change.length_le
  cases change with
  | unconcerned _ _ carried _ | began _ _ _ _ _ carried _ | returned _ _ _ _ _ carried _ =>
    exact explains.carried index call outcome (carried ▸ isCarried)
  | accepted taker position entry found _ _ _ carried _ =>
    rw [carried, update_apply] at isCarried
    split at isCarried
    next =>
      cases isCarried
      exact (List.getElem?_eq_some_iff.mp found).1
    next => exact explains.carried index call outcome isCarried
  | sent position sender error taken carried _ =>
    rw [carried, update_apply] at isCarried
    split at isCarried
    next =>
      cases isCarried
      exact explains.carried position call none taken
    next => exact explains.carried index call outcome isCarried
  | reported position _ _ _ _ _ carried _ =>
    rw [carried, update_apply] at isCarried
    split at isCarried
    next => cases isCarried
    next => exact explains.carried index call outcome isCarried

theorem CallChange.about_lt
    (explains : Explains events server) (isAbout : event.about = some call) :
    call < next.calls.length := by
  cases change with
  | unconcerned _ about _ _ => cases about.symm.trans isAbout
  | began _ new _ first _ _ calls =>
    rcases first with ⟨_, rfl⟩ | ⟨_, rfl⟩
    · cases isAbout
    · cases isAbout
      simp [calls]
  | accepted | reported => cases isAbout
  | returned answered answer entry found _ _ calls =>
    cases isAbout
    rw [calls, List.length_set]
    exact (List.getElem?_eq_some_iff.mp found).1
  | sent index sender error taken _ calls =>
    cases isAbout
    rw [calls]
    exact explains.carried index call none taken

theorem CallChange.aimed (explains : Explains events server)
    (listed : entry ∈ next.calls) (isAimed : entry.connection = some index) :
    server.agent index = some entry.agentID := by
  cases change with
  | unconcerned _ _ _ calls | sent _ _ _ _ _ calls =>
    rw [calls] at listed
    exact explains.aimed entry listed index isAimed
  | began _ new _ _ found _ calls =>
    rw [calls] at listed
    rcases mem_append.mp listed with old | isNew
    · exact explains.aimed entry old index isAimed
    · cases mem_singleton.mp isNew
      exact agent_of_active (explains.pooled index entry.agentID (found index isAimed))
  | accepted _ _ old found _ _ _ _ calls | returned _ _ old found _ _ calls
  | reported _ _ _ old found _ _ calls =>
    rw [calls] at listed
    rcases mem_or_eq_of_mem_set listed with before | rfl
    · exact explains.aimed entry before index isAimed
    · exact explains.aimed old (mem_of_getElem? found) index isAimed

end

theorem Took.explains (took : Took server next event) (explains : Explains events server) :
    Explains (events ++ [event]) next := by
  have change := took.callChange
  refine ⟨took.pooled explains.pooled, ?_, ?_, ?_, ?_⟩
  · intro entry listed index isAimed
    exact took.agent (change.aimed explains listed isAimed)
  · intro index call outcome isCarried
    exact change.carried_lt explains isCarried
  · intro other listed call isAbout
    rcases mem_append.mp listed with old | new
    · exact lt_of_lt_of_le (explains.about other old call isAbout) change.length_le
    · cases mem_singleton.mp new
      exact change.about_lt explains isAbout
  · intro call entry found
    exact change.standing explains found

theorem newServer_explains (conf : Config) : Explains [] (newServer conf) where
  pooled := by
    rintro index agentID ⟨⟩
  aimed := nofun
  carried := nofun
  about := nofun
  standing := nofun

theorem run_explains {conf : Config} {moves : List Move}
    (ran : run Server.step (newServer conf) moves = some (server, events)) :
    Explains events server := by
  refine run_invariant ?_ ran (newServer_explains conf)
  intro past state move next event explains stepped
  exact (took_of_step stepped).explains explains

end Server

/-- In every run, no command is sent twice; a `PostCommand` that returned nil had its command
sent once, without an error and on a connection of its agent; and one that returned before
its command was accepted by the channel never had it sent. -/
theorem commands_sent_once {conf : Config} {moves : List Move} {server : Server}
    {events : List Event} (ran : run Server.step (newServer conf) moves = some (server, events))
    {call : Nat} {entry : Call} (found : server.calls[call]? = some entry) :
    (sendsOf call events).length ≤ 1 ∧
    (entry.command.isSome → ∀ answer, .returned call answer ∈ events → answer.error = none →
      ∃ index, sendsOf call events = [(index, none)] ∧ server.agent index = some entry.agentID) ∧
    (∀ answer, .returned call answer ∈ events → answer.Early → sendsOf call events = []) := by
  have explains := Server.run_explains ran
  cases explains.standing call entry found with
  | offered _ _ _ unsent answers =>
    refine ⟨by simp [unsent], ?_, ?_⟩
    · intro _ answer listed
      exact (answers answer listed).elim
    · intro answer listed
      exact (answers answer listed).elim
  | refused _ _ _ unsent answers =>
    refine ⟨by simp [unsent], ?_, fun _ _ _ => unsent⟩
    intro posted answer listed isNil
    rw [answers answer listed isNil] at posted
    cases posted
  | taken _ _ _ _ _ unsent answers =>
    refine ⟨by simp [unsent], ?_, fun _ _ _ => unsent⟩
    intro _ answer listed isNil
    cases answers answer listed
    cases isNil
  | sent _ _ _ _ _ _ once answers =>
    refine ⟨by simp [once], ?_, ?_⟩
    · intro _ answer listed isNil
      cases answers answer listed
      cases isNil
    · intro answer listed early
      cases answers answer listed
      exact early.elim
  | settled index _ _ aimed once answers =>
    refine ⟨by simp [once], ?_, ?_⟩
    · intro _ answer listed isNil
      refine ⟨index, ?_, explains.aimed entry (mem_of_getElem? found) index aimed⟩
      rcases answers answer listed with rfl | rfl
      · cases isNil
      · rw [once, Answer.error_ofError.mp isNil]
    · intro answer listed early
      rcases answers answer listed with rfl | rfl
      · exact early.elim
      · exact absurd early (Answer.not_early_ofError entry.error)

def onePost : List Move :=
  [.connect, .recvFirst 0 (.from [0x61] [0x31] 0), .get 0, .set 0, .loadTag 0, .post [0x61] [0x63],
    .accept 0, .send 0 none, .report 0, .ready 0]

theorem commands_sent_once_onePost :
    ∃ server events index, run Server.step (newServer ⟨1, 1⟩) onePost = some (server, events) ∧
      sendsOf 0 events = [(index, none)] ∧ server.agent index = some [0x61] := by
  have ran : ∃ server events, run Server.step (newServer ⟨1, 1⟩) onePost = some (server, events) ∧
      server.calls[0]? = some ⟨[0x61], some [0x63], some 0, .returned, none, true⟩ ∧
      .returned 0 .done ∈ events := ⟨_, _, rfl, rfl, by decide⟩
  obtain ⟨server, events, ran, found, answered⟩ := ran
  have ⟨_, sentOnce, _⟩ := commands_sent_once ran found
  obtain ⟨index, sends, ofAgent⟩ := sentOnce rfl .done answered rfl
  exact ⟨server, events, index, ran, sends, ofAgent⟩

end Elkeid.Center
