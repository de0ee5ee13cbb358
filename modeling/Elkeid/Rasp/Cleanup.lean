import Elkeid.Rasp.PairsInvariant

/-!
# Cleaning up the pairs

A pass of the cleaner collects the pids whose pairs have stopped, drops the lock, takes it again and
removes what stands under these pids by then. A pair that has stopped is gone behind the first pass
that begins after it. A connection that is registered under a collected pid is removed with it.
-/

namespace Elkeid.Rasp.Pairs

open Foundations Machine

/-- The pass under way still removes the pair of the pid, if it has stopped. -/
def Cleaner.Owes : Cleaner → Int → Prop
  | .idle, _ | .checking, _ => True
  | .removing pids, pid => pids pid = true
  | .resting, _ => False

namespace Server

variable {room : Nat} {server next : Server} {action : Action} {pid : Int} {id : Nat}

/-- The connection has ended, and the cleaner owes its removal as long as it is in the map. -/
structure Ends (pid : Int) (id : Nat) (server : Server) : Prop where
  old : id < server.accepted
  returned : (server.connection id).looping = .returned
  owed : server.pairs pid = some id → server.cleaner.Owes pid

theorem Ends.step (ends : server.Ends pid id) (known : server.Known)
    (carries : server.Carries action next) : next.Ends pid id := by
  have begun : (server.connection id).looping ≠ .pending := ends.returned ▸ nofun
  have notWaiting := known.not_waiting begun
  have returned := (carries.evolves id ends.old fun _ => notWaiting).returned ends.returned
  refine ⟨lt_of_lt_of_le ends.old carries.accepted, returned, ?_⟩
  intro isPair
  -- a connection that has ended does not come into the map again
  have before : server.pairs pid = some id :=
    (carries.pairs pid id isPair).resolve_right fun registered => notWaiting registered.2.1
  have owed := ends.owed before
  rcases carries.cleaner with same | cleaned
  · exact same ▸ owed
  · rcases clean_cases cleaned with ⟨_, rfl⟩ | ⟨_, _, rfl⟩ | ⟨pids, isRemoving, _, rfl⟩ |
      ⟨_, _, rfl⟩
    · trivial
    · simp [Cleaner.Owes, stopped, before, ends.returned]
    · rw [isRemoving] at owed
      have isCollected : pids pid = true := owed
      simp [isCollected] at isPair
    · trivial

/-- In a run that registers no connection under a pid that the cleaner has collected, the cleaner
removes only pairs that have stopped; and in every run a pair that has stopped before a pass begins
is gone when the pass is over. -/
theorem pairs_cleaned {actions : List Action} {events : List Event}
    (ran : run (step room) start actions = some (server, events)) :
    (AllMeet (step room) (fun _ => Timely) [] start actions →
      ∀ next pid id, server.clean = some next → server.pairs pid = some id →
        next.pairs pid ≠ some id → (server.connection id).looping = .returned) ∧
    (server.cleaner = .idle →
      ∀ pid id, server.pairs pid = some id → (server.connection id).looping = .returned →
        ∀ pass last later, run (step room) server pass = some (last, later) →
          last.cleaner = .resting → last.pairs pid ≠ some id) := by
  have known : server.Known := by
    refine @run_invariant _ _ _ _ _ _ _ (fun _ => Known) _ ?_ ran known_start
    exact fun _ _ _ _ _ known taken => known.step (carries_of_step taken)
  refine ⟨?_, ?_⟩
  · intro timely next pid id cleaned isPair removed
    have collected : server.Known ∧ server.Collected := by
      refine @AllMeet.invariant _ _ _ _ _ _ _ _ _
        (fun _ server => server.Known ∧ server.Collected) _
        ?_ timely ran ⟨known_start, collected_start⟩
      rintro past server action next event ⟨known, collected⟩ isTimely taken
      have carries := carries_of_step taken
      exact ⟨known.step carries, collected.step known isTimely carries⟩
    rcases clean_cases cleaned with ⟨_, rfl⟩ | ⟨_, _, rfl⟩ | ⟨pids, isRemoving, _, rfl⟩ |
      ⟨_, _, rfl⟩
    · exact absurd isPair removed
    · exact absurd isPair removed
    · refine collected.2 pid id ?_ isPair
      by_contra spared
      simp_all [Cleaner.collected]
    · exact absurd isPair removed
  · intro isIdle pid id isPair returned pass last later passed isResting isStill
    have ends : server.Ends pid id :=
      ⟨(known.registered pid id isPair).1, returned, fun _ => isIdle ▸ trivial⟩
    have kept : last.Known ∧ last.Ends pid id := by
      refine @run_invariant _ _ _ _ _ _ _ (fun _ server => server.Known ∧ server.Ends pid id) _ ?_
        passed ⟨known, ends⟩
      rintro past server action next event ⟨known, ends⟩ taken
      have carries := carries_of_step taken
      exact ⟨known.step carries, ends.step known carries⟩
    have owed := kept.2.owed isStill
    rw [isResting] at owed
    exact owed

/-- One connection ends, and a pass has collected its pid. -/
theorem pairs_cleaned_ended : ∃ server events,
    run (step 0) start [.accept 1, .register, .close 0, .clean, .clean] = some (server, events) ∧
      server.cleaner.collected 1 = true ∧
      ∀ next pid id, server.clean = some next → server.pairs pid = some id →
        next.pairs pid ≠ some id → (server.connection id).looping = .returned := by
  have ran : run (step 0) start [.accept 1, .register, .close 0, .clean, .clean] = some (_, _) :=
    rfl
  exact ⟨_, _, ran, rfl, (pairs_cleaned ran).1 ⟨trivial, fun _ _ => rfl, trivial, trivial, trivial,
    trivial⟩⟩

/-- The process has connected again between the two sections of the pass, and loses its pair. -/
theorem reconnected_removed : ∃ server events next,
    run (step 0) start [.accept 1, .register, .close 0, .clean, .accept 1, .clean, .register] =
      some (server, events) ∧ server.clean = some next ∧ server.pairs 1 = some 1 ∧
      (server.connection 1).looping = .running ∧ next.pairs 1 = none :=
  ⟨_, _, _, rfl, rfl, rfl, rfl, rfl⟩

end Server

end Elkeid.Rasp.Pairs
