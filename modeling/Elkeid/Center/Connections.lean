import Elkeid.Center.Transfer

/-!
# One connection per agent

`Add` looks into the pool and stores in two steps, and `Delete` goes by the agent alone.
As long as no `Set` finds a connection stored since its `Get`, an agent has one handler and
the pool has that handler's connection; the first `Set` that does find one breaks it.
-/

namespace Elkeid.Center

open Foundations Machine AList

namespace Server

/-- The agent of a handler that is past a successful `Add` and before its `Delete`. -/
def active (server : Server) (index : Nat) : Option Bytes :=
  viewAt Handler.active server.handlers index

def OneConnection (server : Server) : Prop :=
  (∀ first second agentID, server.active first = some agentID →
    server.active second = some agentID → first = second) ∧
  ∀ index agentID, server.active index = some agentID → server.getByID agentID = some index

/-- What the pool has for an agent was stored by a handler that will still delete it. -/
def Pooled (server : Server) : Prop :=
  ∀ index agentID, server.getByID agentID = some index → server.active index = some agentID

end Server

/-- A `Set` finds no connection of its agent. -/
def Event.SetsEmpty (server : Server) : Event → Prop
  | .stored _ agentID => server.getByID agentID = none
  | _ => True

namespace Server

variable {server next : Server} {event : Event}

/-- What a move does to the pool and to the handlers with a connection in it. -/
def PoolChange (server next : Server) : Event → Prop
  | .stored index agentID =>
    server.active index = none ∧ next.connPool = server.connPool.insert agentID index ∧
      ∀ other, next.active other = if other = index then some agentID else server.active other
  | .deleted index agentID =>
    server.active index = some agentID ∧ next.connPool = server.connPool.erase agentID ∧
      ∀ other, next.active other = if other = index then none else server.active other
  | _ => next.connPool = server.connPool ∧ ∀ other, next.active other = server.active other

theorem Took.poolChange (took : Took server next event) : PoolChange server next event := by
  cases took with
  | stored index connection found handlers connPool _ =>
    refine ⟨viewAt_of_found found, connPool, ?_⟩
    simp only [active, handlers]
    exact viewAt_set found
  | deleted index connection goroutines found handlers connPool _ =>
    refine ⟨viewAt_of_found found, connPool, ?_⟩
    simp only [active, handlers]
    exact viewAt_set found
  | idle _ unseen handlers connPool _ =>
    have same : ∀ other, next.active other = server.active other := by
      simp [active, handlers]
    rcases unseen with rfl | rfl
    all_goals exact ⟨connPool, same⟩
  | admitted handlers connPool _ =>
    refine ⟨connPool, ?_⟩
    simp only [active, handlers]
    exact viewAt_concat rfl
  | moved _ index old new unseen found handlers connPool _ quiet =>
    have same : ∀ other, next.active other = server.active other := by
      simp only [active, handlers]
      exact viewAt_set_same found quiet.active
    rcases unseen with rfl | rfl
    all_goals exact ⟨connPool, same⟩
  | missed _ _ handlers connPool _ | began _ _ _ _ handlers connPool _
  | concluded _ _ _ _ handlers connPool _ _ =>
    exact ⟨connPool, by simp only [active, handlers, implies_true]⟩
  | accepted _ index stage _ _ _ _ _ _ _ serving handlers connPool _
  | sent index _ _ stage _ _ _ serving handlers connPool _
  | reported index _ _ stage _ _ _ _ _ serving _ handlers connPool _ _ =>
    refine ⟨connPool, ?_⟩
    simp only [active, handlers]
    exact viewAt_set_same serving (by cases stage <;> rfl)
  | closed _ index _ _ _ _ _ _ serving handlers connPool _ quiet =>
    refine ⟨connPool, ?_⟩
    simp only [active, handlers]
    exact viewAt_set_same serving quiet.active

theorem Took.pooled (took : Took server next event) (pooled : server.Pooled) : next.Pooled := by
  have change := took.poolChange
  intro index agentID found
  cases event with
  | stored newIndex newAgent =>
    obtain ⟨vacant, connPool, active⟩ := change
    rw [getByID, connPool] at found
    rw [active]
    by_cases sameAgent : agentID = newAgent
    · subst sameAgent
      cases (lookup_insert _).symm.trans found
      rw [if_pos rfl]
    · have before := pooled index agentID ((lookup_insert_ne sameAgent).symm.trans found)
      have differs : index ≠ newIndex := by
        rintro rfl
        cases vacant.symm.trans before
      rw [if_neg differs, before]
  | deleted oldIndex oldAgent =>
    obtain ⟨wasActive, connPool, active⟩ := change
    rw [getByID, connPool] at found
    have differs : agentID ≠ oldAgent := by
      rintro rfl
      cases (lookup_erase _ _).symm.trans found
    rw [lookup_erase_ne differs] at found
    have before := pooled index agentID found
    rw [active, if_neg, before]
    rintro rfl
    cases wasActive.symm.trans before
    exact differs rfl
  | _ =>
    obtain ⟨connPool, active⟩ := change
    rw [getByID, connPool] at found
    rw [active, pooled index agentID found]

theorem OneConnection.setsEmpty (took : Took server next event) (pooled : server.Pooled)
    (one : next.OneConnection) : event.SetsEmpty server := by
  have change := took.poolChange
  cases event with
  | stored index agentID =>
    obtain ⟨vacant, _, active⟩ := change
    rw [Event.SetsEmpty, Option.eq_none_iff_forall_ne_some]
    intro other found
    have before := pooled other agentID found
    have differs : other ≠ index := by
      rintro rfl
      cases vacant.symm.trans before
    -- both the handler found and the one that stores are past their Add now
    have bothActive := one.1 other index agentID (by rw [active, if_neg differs, before])
      (by rw [active, if_pos rfl])
    exact differs bothActive
  | _ => trivial

theorem OneConnection.of_getByID (own : ∀ index agentID, server.active index = some agentID →
      server.getByID agentID = some index) : server.OneConnection := by
  refine ⟨?_, own⟩
  intro first second agentID firstActive secondActive
  exact Option.some.inj
    ((own first agentID firstActive).symm.trans (own second agentID secondActive))

theorem Took.oneConnection (took : Took server next event) (one : server.OneConnection)
    (setsEmpty : event.SetsEmpty server) : next.OneConnection := by
  have change := took.poolChange
  refine .of_getByID ?_
  intro index agentID isActive
  cases event with
  | stored newIndex newAgent =>
    obtain ⟨_, connPool, active⟩ := change
    rw [getByID, connPool]
    rw [active] at isActive
    split at isActive
    next isNew =>
      cases isActive
      rw [isNew, lookup_insert]
    next =>
      have before := one.2 index agentID isActive
      have differs : agentID ≠ newAgent := by
        rintro rfl
        cases (show server.getByID agentID = none from setsEmpty).symm.trans before
      rw [lookup_insert_ne differs]
      exact before
  | deleted oldIndex oldAgent =>
    obtain ⟨wasActive, connPool, active⟩ := change
    rw [active] at isActive
    split at isActive
    next => cases isActive
    next other =>
      have differs : agentID ≠ oldAgent := by
        rintro rfl
        exact other (one.1 index oldIndex agentID isActive wasActive)
      rw [getByID, connPool, lookup_erase_ne differs]
      exact one.2 index agentID isActive
  | _ =>
    obtain ⟨connPool, active⟩ := change
    rw [getByID, connPool]
    exact one.2 index agentID ((active index).symm.trans isActive)

end Server

/-- However the handlers interleave, one connection per agent holds at every point exactly
when every `Set` finds the pool without its agent. -/
theorem one_connection_iff (conf : Config) (moves : List Move) :
    Always Server.step (fun _ server => server.OneConnection) [] (newServer conf) moves ↔
      AllMeet Server.step (OnOutput Server.step (fun _ server event => event.SetsEmpty server)) []
        (newServer conf) moves := by
  refine always_iff_allMeet (fun _ server => server.Pooled) ?_ ?_ ?_ ?_ moves
  · intro past server move next event pooled _ stepped
    exact (Server.took_of_step stepped).pooled pooled
  · intro past server move next event pooled one stepped
    have took := Server.took_of_step stepped
    exact ⟨fun after => after.setsEmpty took pooled, took.oneConnection one⟩
  · intro index agentID found
    cases found
  · exact .of_getByID nofun

def bothChecked : List Move :=
  [.connect, .connect, .recvFirst 0 (.from [0x61] [0x31] 0), .recvFirst 1 (.from [0x61] [0x32] 0),
    .get 0, .get 1]

/-- Both handlers end up serving the agent; when the first one is done, its `Delete` takes the
second one's connection out of the pool. -/
theorem bothChecked_two_connections : (∃ server events, run Server.step (newServer ⟨2, 2⟩)
        (bothChecked ++ [.set 0, .set 1, .loadTag 0, .loadTag 1, .postLatestConfig 0,
          .postLatestConfig 1]) = some (server, events) ∧
      server.active 0 = some [0x61] ∧ server.active 1 = some [0x61] ∧
      server.getByID [0x61] = some 1) ∧
    ∃ server events, run Server.step (newServer ⟨2, 2⟩)
        (bothChecked ++ [.set 0, .set 1, .loadTag 0, .loadTag 1, .postLatestConfig 0,
          .postLatestConfig 1, .recvFails 0, .recvReturn 0, .ctxDone 0, .delete 0]) =
        some (server, events) ∧
      server.active 1 = some [0x61] ∧ server.getByID [0x61] = none := by
  exact ⟨⟨_, _, rfl, rfl, rfl, rfl⟩, _, _, rfl, rfl, rfl⟩

end Elkeid.Center
