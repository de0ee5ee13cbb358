import Elkeid.Manager.Whitelist.Consistency

/-!
# Alarms are screened before they are shown

A pass of the checker from its reading of the whitelists to its last update. `arrive` is the insert
of `BulkWrite` in `server/manager/task/hub_alarm.go`, of an alarm that `NewAlarm` made at any time
before.
-/

namespace Elkeid.Manager.Whitelist

open Foundations Machine List

namespace Store

variable {matcher : Matcher} {store next start opened last : Store matcher} {event : Event matcher}
  {id : Nat} {filter : matcher.Filter} {past events : List (Event matcher)}

/-- A pass goes on until it has marked, and a whitelist stays before it until it has applied it. -/
theorem Took.covers (took : Took store next event) (going : event ≠ .marked)
    (begun : store.checker ≠ .waiting) : next.checker ≠ .waiting ∧
      (store.checker.Covers id filter → next.checker.Covers id filter ∨
        event = .checked id filter) := by
  cases took with
  | found waiting => exact absurd waiting begun
  | stamped wls now found =>
    rw [found]
    exact ⟨nofun, .inl⟩
  | checked other applied wls updateTime checking =>
    rw [checking]
    refine ⟨nofun, fun covers => ?_⟩
    rcases mem_cons.mp covers with same | behind
    · cases same
      exact .inr rfl
    · exact .inl behind
  | marked => exact absurd rfl going
  | _ => exact ⟨begun, .inl⟩

theorem arrived_of_run {actions : List (Action matcher)}
    (ran : run step newStore actions = some (store, past)) {index : Nat}
    (inside : index < store.alarms.length) : .arrived index ∈ past := by
  have preserved : ∀ (past : List (Event matcher)) (store : Store matcher) action next event,
      (∀ index alarm, store.alarms[index]? = some alarm → .arrived index ∈ past) →
        store.step action = some (next, event) →
          ∀ index alarm, next.alarms[index]? = some alarm → .arrived index ∈ past ++ [event] := by
    intro past store action next event before stepped index alarm found
    rcases (took_of_step stepped).alarm found with ⟨rfl, _⟩ | ⟨_, old, _⟩
    · exact mem_concat_self
    · exact mem_append_left _ (before index _ old)
  exact run_invariant preserved ran nofun index _ (getElem?_eq_getElem inside)

/-- The pass is over, or the whitelist has been applied or is still to be. -/
def Screens (id : Nat) (filter : matcher.Filter) (events : List (Event matcher))
    (store : Store matcher) :
    Prop :=
  .marked ∈ events ∨ store.checker ≠ .waiting ∧
    (store.checker.Covers id filter ∨ .checked id filter ∈ events)

theorem Screens.step {action : Action matcher} (screens : store.Screens id filter past)
    (stepped : store.step action = some (next, event)) :
    next.Screens id filter (past ++ [event]) := by
  by_cases isMarked : event = .marked
  · exact .inl (isMarked ▸ mem_concat_self)
  rcases screens with wasMarked | ⟨begun, screened⟩
  · exact .inl (mem_append_left _ wasMarked)
  have ⟨goesOn, left⟩ := @Took.covers _ _ _ _ id filter (took_of_step stepped) isMarked begun
  refine .inr ⟨goesOn, ?_⟩
  rcases screened with covers | done
  · refine (left covers).imp_right ?_
    rintro rfl
    exact mem_concat_self
  · exact .inr (mem_append_left _ done)

theorem checked_of_pass {pass : List (Action matcher)}
    (passed : run step opened pass = some (last, events)) (going : .marked ∉ events)
    (begun : opened.checker ≠ .waiting) (covers : opened.checker.Covers id filter) :
    last.checker.Covers id filter ∨ .checked id filter ∈ events := by
  have screens : last.Screens id filter events :=
    run_invariant (fun _ _ _ _ _ => Screens.step) passed (.inr ⟨begun, .inl covers⟩)
  exact (screens.resolve_left going).2

/-- Where the last update of a pass selects only alarms that were there when the pass read the
whitelists, every alarm it marks has been evaluated against all of these since it was inserted. -/
theorem marked_screened {before pass : List (Action matcher)} {now : Int}
    (ran : run step newStore before = some (start, past))
    (found : start.step .find = some (opened, .found))
    (passed : run step opened pass = some (last, events)) (going : .marked ∉ events)
    (marked : last.step (.mark now) = some (next, .marked))
    (early : ∀ index, last.marks index = true → index < start.alarms.length) {index : Nat}
    {alarm after : Alarm matcher} (wasThere : last.alarms[index]? = some alarm)
    (unchecked : alarm.checked = false) (isThere : next.alarms[index]? = some after)
    (checked : after.checked = true) (listed : (id, filter) ∈ start.whitelists) :
    [.arrived index, .checked id filter].Sublist (past ++ .found :: events) := by
  cases took_of_step marked with
  | marked updateTime now checking =>
    rw [getElem?_map, wasThere] at isThere
    cases isThere
    have isMarked : last.marks index = true := by
      rcases Alarm.checked_mark checked with already | ⟨_, inTime⟩
      · cases unchecked.symm.trans already
      · simp [marks, checking, wasThere, inTime, unchecked]
    have isEvaluated : .checked id filter ∈ events := by
      cases took_of_step found with
      | found =>
        refine (checked_of_pass passed going (by rintro ⟨⟩) listed).resolve_left ?_
        rw [checking]
        exact not_mem_nil
    exact (singleton_sublist.mpr (arrived_of_run ran (early index isMarked))).append
      (singleton_sublist.mpr (mem_cons_of_mem _ isEvaluated))

end Store

theorem marked_screened_onePass : ∃ last events, run Store.step newStore (onePass.take 11) =
      some (last, events) ∧ [.arrived 0, .checked 2 (4 : Nat)].Sublist events := by
  refine ⟨_, _, rfl, @Store.marked_screened upward _ _ _ _ 2 (4 : Nat) _ _ (onePass.take 7)
    [.stamp 3, .check, .check] 3 rfl rfl rfl (by simp) rfl ?_ 0 _ _ rfl rfl rfl rfl
    (mem_cons_of_mem _ mem_cons_self)⟩
  rintro (_ | index) marks
  · exact Nat.zero_lt_one
  · cases marks

/-- The alarm was made before the pass, and is inserted when the pass has applied its whitelist. -/
theorem late_insert_marked :
    (run Store.step newStore
      [.addWhiteLists [(3 : Nat)], .insertOne 0 false, .find, .stamp 5, .check,
      .arrive (5 : Nat) 1, .mark 6] : Option (Store upward × _)).map
        (fun result => (result.1.alarms.map Alarm.checked, result.1.alarms.map Alarm.wl)) =
      some ([true], [[]]) := rfl

end Elkeid.Manager.Whitelist
