import Mathlib

/-!
# Runs of machines

A machine takes an action in a state, when the action is possible there, and gives
the next state with what can be seen of the step. A condition on the steps of a run
may look at what was seen before.
-/

namespace Elkeid.Foundations.Machine

open List

variable {State Action Output : Type} (step : State → Action → Option (State × Output))

def run : State → List Action → Option (State × List Output)
  | state, [] => some (state, [])
  | state, action :: rest =>
    match step state action with
    | none => none
    | some (next, output) => (run next rest).map (fun (last, outputs) => (last, output :: outputs))

/-- Every step of a run that starts after `past` meets the condition. -/
def AllMeet (condition : List Output → State → Action → Prop) :
    List Output → State → List Action → Prop
  | _, _, [] => True
  | past, state, action :: rest => condition past state action ∧
      match step state action with
      | none => True
      | some (next, output) => AllMeet condition (past ++ [output]) next rest

/-- Every state of a run has the property, the last one included. -/
def Throughout (holds : State → Prop) : State → List Action → Prop
  | state, [] => holds state
  | state, action :: rest => holds state ∧
      match step state action with
      | none => True
      | some (next, _) => Throughout holds next rest

/-- Every state of a run has the property, with what was seen up to it. -/
def Always (holds : List Output → State → Prop) : List Output → State → List Action → Prop
  | past, state, [] => holds past state
  | past, state, action :: rest => holds past state ∧
      match step state action with
      | none => True
      | some (next, output) => Always holds (past ++ [output]) next rest

/-- No step of a run is refused, and every state has the property, with what was seen up to it. -/
def Succeeds (holds : List Output → State → Prop) : List Output → State → List Action → Prop
  | past, state, [] => holds past state
  | past, state, action :: rest => holds past state ∧
      match step state action with
      | none => False
      | some (next, output) => Succeeds holds (past ++ [output]) next rest

instance AllMeet.decidable (condition : List Output → State → Action → Prop)
    [∀ past state action, Decidable (condition past state action)] :
    ∀ past state actions, Decidable (AllMeet step condition past state actions)
  | _, _, [] => .isTrue trivial
  | past, state, action :: rest => by
      unfold AllMeet
      refine @instDecidableAnd _ _ _ ?_
      cases step state action with
      | none => exact .isTrue trivial
      | some result => exact AllMeet.decidable condition _ _ _

/-- A condition on what can be seen of a step, where the step is possible. -/
def OnOutput (safe : List Output → State → Output → Prop) (past : List Output) (state : State)
    (action : Action) : Prop :=
  ∀ next output, step state action = some (next, output) → safe past state output

instance OnOutput.decidable (safe : List Output → State → Output → Prop)
    [∀ past state output, Decidable (safe past state output)] (past : List Output) (state : State)
    (action : Action) : Decidable (OnOutput step safe past state action) :=
  match taken : step state action with
  | none => .isTrue fun _ _ stepped => absurd (taken.symm.trans stepped) nofun
  | some (next, output) =>
    decidable_of_iff (safe past state output) ⟨fun isSafe _ _ stepped => by
      cases taken.symm.trans stepped
      exact isSafe, fun allSafe => allSafe next output taken⟩

/-- A step with an action that is allowed. -/
def Goes (allowed : Action → Prop) (state next : State) : Prop :=
  ∃ action output, allowed action ∧ step state action = some (next, output)

/-- Allowed actions can lead to a step that shows the output. -/
def CanShow (allowed : Action → Prop) (state : State) (output : Output) : Prop :=
  ∃ middle, Relation.ReflTransGen (Goes step allowed) state middle ∧
    ∃ action next, allowed action ∧ step middle action = some (next, output)

variable {step} {start : State} {actions : List Action} {outputs : List Output} {rest : List Action}

variable {action : Action}

theorem run_cons {state next : State} {output : Output}
    (taken : step state action = some (next, output)) :
    run step state (action :: rest) =
    (run step next rest).map (fun (last, outputs) => (last, output :: outputs)) := by
  simp [run, taken]

theorem run_cons_eq_some {state last : State}
    (ran : run step state (action :: rest) = some (last, outputs)) :
    ∃ next output later, step state action = some (next, output) ∧
      run step next rest = some (last, later) ∧ outputs = output :: later := by
  cases taken : step state action with
  | none => simp only [run, taken, reduceCtorEq] at ran
  | some result =>
    obtain ⟨next, output⟩ := result
    simp only [run, taken, Option.map_eq_some_iff] at ran
    obtain ⟨⟨final, later⟩, ranRest, ⟨⟩⟩ := ran
    exact ⟨next, output, later, rfl, ranRest, rfl⟩

variable {first second : List Action}

theorem run_append_eq_some {last : State}
    (ran : run step start (first ++ second) = some (last, outputs)) :
    ∃ middle early late, run step start first = some (middle, early) ∧
      run step middle second = some (last, late) ∧ outputs = early ++ late := by
  induction first generalizing start outputs with
  | nil => exact ⟨start, [], outputs, rfl, ran, rfl⟩
  | cons action first ih =>
    obtain ⟨next, output, later, taken, ranRest, rfl⟩ := run_cons_eq_some ran
    obtain ⟨middle, early, late, ranFirst, ranSecond, rfl⟩ := ih ranRest
    refine ⟨middle, output :: early, late, ?_, ranSecond, rfl⟩
    simp [run_cons taken, ranFirst]

theorem run_append {start middle : State} {first : List Action} {early : List Output}
    (ran : run step start first = some (middle, early)) (second : List Action) :
    run step start (first ++ second) =
      (run step middle second).map (fun (last, late) => (last, early ++ late)) := by
  induction first generalizing start early with
  | nil =>
    cases ran
    simp only [nil_append]
    exact Option.map_id'.symm
  | cons action first ih =>
    obtain ⟨next, output, later, taken, ranRest, rfl⟩ := run_cons_eq_some ran
    simp only [cons_append, run_cons taken, ih ranRest, Option.map_map]
    rfl

variable {condition : List Output → State → Action → Prop} {past : List Output}

/-- What every step that meets the condition preserves, with the record of what was
seen, holds at the end of a run whose steps all meet it. -/
theorem AllMeet.invariant {explains : List Output → State → Prop} {last : State}
    (preserved : ∀ past state action next output, explains past state →
      condition past state action → step state action = some (next, output) →
        explains (past ++ [output]) next)
    (meets : AllMeet step condition past start actions)
    (ran : run step start actions = some (last, outputs)) (holds : explains past start) :
    explains (past ++ outputs) last := by
  induction actions generalizing past start outputs with
  | nil =>
    cases ran
    simpa only [append_nil] using holds
  | cons action rest ih =>
    obtain ⟨next, output, later, taken, ranRest, rfl⟩ := run_cons_eq_some ran
    obtain ⟨meetsFirst, meetsRest⟩ := meets
    simp only [taken] at meetsRest
    have atNext := preserved past start action next output holds meetsFirst taken
    simpa only [append_assoc, singleton_append] using ih meetsRest ranRest atNext

theorem onOutput_iff {safe : List Output → State → Output → Prop} {state next : State}
    {output : Output} (taken : step state action = some (next, output)) :
    OnOutput step safe past state action ↔ safe past state output := by
  refine ⟨fun onOutput => onOutput next output taken, fun isSafe otherNext otherOutput again => ?_⟩
  cases taken.symm.trans again
  exact isSafe

theorem allMeet_onOutput_cons {safe : List Output → State → Output → Prop} {state next : State}
    {output : Output}
    (taken : step state action = some (next, output)) (isSafe : safe past state output)
    (later : AllMeet step (OnOutput step safe) (past ++ [output]) next rest) :
    AllMeet step (OnOutput step safe) past state (action :: rest) := by
  refine ⟨(onOutput_iff taken).mpr isSafe, ?_⟩
  simp only [taken]
  exact later

theorem allMeet_trivial (past : List Output) (start : State) (actions : List Action) :
    AllMeet step (fun _ _ _ => True) past start actions := by
  induction actions generalizing past start with
  | nil => trivial
  | cons action rest ih =>
    refine ⟨trivial, ?_⟩
    cases step start action with
    | none => trivial
    | some result => exact ih _ _

theorem run_invariant {explains : List Output → State → Prop} {last : State}
    (preserved : ∀ past state action next output, explains past state →
      step state action = some (next, output) → explains (past ++ [output]) next)
    (ran : run step start actions = some (last, outputs)) (holds : explains [] start) :
    explains outputs last :=
  (allMeet_trivial [] start actions).invariant
    (fun past state action next output before _ => preserved past state action next output before)
    ran holds

theorem AllMeet.of_append {start middle : State}
    {early : List Output} (meets : AllMeet step condition past start (first ++ second))
    (ran : run step start first = some (middle, early)) :
    AllMeet step condition (past ++ early) middle second := by
  induction first generalizing past start early with
  | nil =>
    cases ran
    simpa only [append_nil, nil_append] using meets
  | cons action first ih =>
    obtain ⟨next, output, later, taken, ranRest, rfl⟩ := run_cons_eq_some ran
    obtain ⟨_, meetsRest⟩ := meets
    simp only [append_eq, taken] at meetsRest
    simpa only [append_assoc, singleton_append] using ih meetsRest ranRest

theorem AllMeet.left (meets : AllMeet step condition past start (first ++ second)) :
    AllMeet step condition past start first := by
  induction first generalizing past start with
  | nil => trivial
  | cons action first ih =>
    obtain ⟨meetsFirst, meetsRest⟩ := meets
    refine ⟨meetsFirst, ?_⟩
    cases taken : step start action with
    | none => trivial
    | some result =>
      simp only [append_eq, taken] at meetsRest
      exact ih meetsRest

theorem AllMeet.and_throughout {holds : State → Prop}
    (meets : AllMeet step condition past start actions)
    (throughout : Throughout step holds start actions) :
    AllMeet step (fun past state action => condition past state action ∧ holds state)
      past start actions := by
  induction actions generalizing past start with
  | nil => trivial
  | cons action rest ih =>
    obtain ⟨meetsFirst, meetsRest⟩ := meets
    obtain ⟨holdsFirst, holdsRest⟩ := throughout
    refine ⟨⟨meetsFirst, holdsFirst⟩, ?_⟩
    cases taken : step start action with
    | none => trivial
    | some result =>
      simp only [taken] at meetsRest holdsRest
      exact ih meetsRest holdsRest

theorem Throughout.last {holds : State → Prop} {last : State}
    (throughout : Throughout step holds start actions)
    (ran : run step start actions = some (last, outputs)) : holds last := by
  induction actions generalizing start outputs with
  | nil =>
    cases ran
    exact throughout
  | cons action rest ih =>
    obtain ⟨next, output, later, taken, ranRest, rfl⟩ := run_cons_eq_some ran
    obtain ⟨_, holdsRest⟩ := throughout
    simp only [taken] at holdsRest
    exact ih holdsRest ranRest

/-- A property that a step keeps exactly when it meets the condition holds at every state
of a run exactly when every step meets it. -/
theorem always_iff_meets (invariant : List Output → State → Prop)
    {holds : List Output → State → Prop}
    (kept : ∀ past state action next output, invariant past state → holds past state →
      step state action = some (next, output) → invariant (past ++ [output]) next)
    (exact : ∀ past state action next output, invariant past state → holds past state →
      step state action = some (next, output) →
        (holds (past ++ [output]) next ↔ condition past state action))
    (stuck : ∀ past state action, invariant past state → step state action = none →
      condition past state action)
    (isInvariant : invariant past start) (holdsFirst : holds past start)
    (actions : List Action) :
    Always step holds past start actions ↔ AllMeet step condition past start actions := by
  induction actions generalizing past start with
  | nil => exact iff_of_true holdsFirst trivial
  | cons action rest ih =>
    cases taken : step start action with
    | none =>
      simp only [Always, AllMeet, taken, and_true]
      exact iff_of_true holdsFirst (stuck past start action isInvariant taken)
    | some result =>
      obtain ⟨next, output⟩ := result
      have invariantNext := kept past start action next output isInvariant holdsFirst taken
      have exactNext := exact past start action next output isInvariant holdsFirst taken
      simp only [Always, AllMeet, taken]
      constructor
      · rintro ⟨_, always⟩
        have holdsNext : holds (past ++ [output]) next := by
          cases rest with
          | nil => exact always
          | cons _ _ => exact always.1
        exact ⟨exactNext.mp holdsNext, (ih invariantNext holdsNext).mp always⟩
      · rintro ⟨meets, later⟩
        exact ⟨holdsFirst, (ih invariantNext (exactNext.mpr meets)).mpr later⟩

theorem always_iff_allMeet (invariant : List Output → State → Prop)
    {holds : List Output → State → Prop} {safe : List Output → State → Output → Prop}
    (kept : ∀ past state action next output, invariant past state → holds past state →
      step state action = some (next, output) → invariant (past ++ [output]) next)
    (exact : ∀ past state action next output, invariant past state → holds past state →
      step state action = some (next, output) →
        (holds (past ++ [output]) next ↔ safe past state output))
    (isInvariant : invariant past start) (holdsFirst : holds past start)
    (actions : List Action) :
    Always step holds past start actions ↔
      AllMeet step (OnOutput step safe) past start actions := by
  refine always_iff_meets invariant kept ?_ ?_ isInvariant holdsFirst actions
  · intro past state action next output isInvariant holdsHere taken
    rw [onOutput_iff taken]
    exact exact past state action next output isInvariant holdsHere taken
  · intro past state action _ taken next output again
    cases taken.symm.trans again

/-- What every step that meets the condition preserves holds at every state of a run whose steps
all meet it. -/
theorem AllMeet.throughout {invariant holds : State → Prop}
    (preserved : ∀ past state action next output, invariant state →
      condition past state action → step state action = some (next, output) → invariant next)
    (implies : ∀ state, invariant state → holds state)
    (isInvariant : invariant start) (meets : AllMeet step condition past start actions) :
    Throughout step holds start actions := by
  induction actions generalizing past start with
  | nil => exact implies start isInvariant
  | cons action rest ih =>
    obtain ⟨meetsFirst, meetsRest⟩ := meets
    refine ⟨implies start isInvariant, ?_⟩
    cases taken : step start action with
    | none => trivial
    | some result =>
      simp only [taken] at meetsRest
      exact ih (preserved _ _ _ _ _ isInvariant meetsFirst taken) meetsRest

section Succeeds

variable (invariant : List Output → State → Prop) {holds : List Output → State → Prop}

/-- What makes a step that meets the condition succeed, and is kept by it, makes a run succeed whose
steps all meet it. -/
theorem AllMeet.succeeds
    (serves : ∀ past state, ∀ action ∈ actions, invariant past state →
      condition past state action → ∃ next output, step state action = some (next, output) ∧
        invariant (past ++ [output]) next)
    (implies : ∀ past state, invariant past state → holds past state)
    (isInvariant : invariant past start) (meets : AllMeet step condition past start actions) :
    Succeeds step holds past start actions := by
  induction actions generalizing past start with
  | nil => exact implies past start isInvariant
  | cons action rest ih =>
    obtain ⟨meetsFirst, meetsRest⟩ := meets
    obtain ⟨next, output, taken, kept⟩ :=
      serves past start action mem_cons_self isInvariant meetsFirst
    simp only [taken] at meetsRest
    simp only [Succeeds, taken]
    refine ⟨implies past start isInvariant, ih ?_ kept meetsRest⟩
    exact fun past state other listed => serves past state other (mem_cons_of_mem _ listed)

theorem Succeeds.atStart (succeeds : Succeeds step holds past start actions) :
    holds past start := by
  cases actions with
  | nil => exact succeeds
  | cons => exact succeeds.1

theorem Succeeds.allMeet
    (needs : ∀ past state action next output, invariant past state →
      step state action = some (next, output) → holds (past ++ [output]) next →
        condition past state action ∧ invariant (past ++ [output]) next)
    (isInvariant : invariant past start) (succeeds : Succeeds step holds past start actions) :
    AllMeet step condition past start actions := by
  induction actions generalizing past start with
  | nil => trivial
  | cons action rest ih =>
    obtain ⟨_, later⟩ := succeeds
    cases taken : step start action with
    | none => simp only [taken] at later
    | some result =>
      simp only [taken] at later
      obtain ⟨meets, kept⟩ := needs past start action _ _ isInvariant taken later.atStart
      simp only [AllMeet, taken]
      exact ⟨meets, ih kept later⟩

theorem Succeeds.run (succeeds : Succeeds step holds past start actions) :
    ∃ last outputs, run step start actions = some (last, outputs) ∧
      holds (past ++ outputs) last := by
  induction actions generalizing past start with
  | nil => exact ⟨start, [], rfl, (append_nil past).symm ▸ succeeds⟩
  | cons action rest ih =>
    obtain ⟨_, later⟩ := succeeds
    cases taken : step start action with
    | none => simp only [taken] at later
    | some result =>
      simp only [taken] at later
      obtain ⟨last, outputs, ran, holdsLast⟩ := ih later
      refine ⟨last, result.2 :: outputs, ?_, ?_⟩
      · simp [run_cons taken, ran]
      · simpa only [append_assoc, singleton_append] using holdsLast

end Succeeds

theorem allMeet_congr (invariant : State → Prop) {other : List Output → State → Action → Prop}
    (kept : ∀ state action next output, invariant state → step state action = some (next, output) →
      invariant next)
    (same : ∀ past state action, invariant state →
      (condition past state action ↔ other past state action))
    (isInvariant : invariant start) :
    AllMeet step condition past start actions ↔ AllMeet step other past start actions := by
  induction actions generalizing past start with
  | nil => rfl
  | cons action rest ih =>
    refine and_congr (same past start action isInvariant) ?_
    cases taken : step start action with
    | none => rfl
    | some result => exact ih (kept start action _ _ isInvariant taken)

/-- If some allowed actions reduce the work while a state is not quiet, allowed actions lead to a
quiet state. -/
theorem exists_quiet {allowed : Action → Prop} {kept quiet : State → Prop} (work : State → Nat)
    (progress : ∀ state, kept state → ¬ quiet state → ∃ next,
      Relation.ReflTransGen (Goes step allowed) state next ∧ kept next ∧ work next < work state)
    (isKept : kept start) :
    ∃ last, Relation.ReflTransGen (Goes step allowed) start last ∧ kept last ∧ quiet last := by
  induction measured : work start using Nat.strongRecOn generalizing start with
  | _ amount ih =>
    by_cases isQuiet : quiet start
    · exact ⟨start, .refl, isKept, isQuiet⟩
    · obtain ⟨next, goes, keptNext, less⟩ := progress start isKept isQuiet
      obtain ⟨last, further, keptLast, quietLast⟩ :=
        ih (work next) (measured ▸ less) keptNext rfl
      exact ⟨last, goes.trans further, keptLast, quietLast⟩

theorem goes_invariant {allowed : Action → Prop} {kept : State → Prop}
    (preserved : ∀ state action next output, kept state → allowed action →
      step state action = some (next, output) → kept next) {last : State}
    (goes : Relation.ReflTransGen (Goes step allowed) start last) (isKept : kept start) :
    kept last := by
  induction goes with
  | refl => exact isKept
  | tail _ goesLast ih =>
    obtain ⟨action, output, isAllowed, taken⟩ := goesLast
    exact preserved _ action _ output ih isAllowed taken

theorem filterMap_concat {Value : Type} (visible : Output → Option Value) (outputs : List Output)
    (output : Output) : (outputs ++ [output]).filterMap visible =
      outputs.filterMap visible ++ (visible output).toList := by
  rw [filterMap_append, filterMap_cons, filterMap_nil]
  cases visible output <;> rfl

theorem flatMap_concat {Value : Type} (visible : Output → List Value) (outputs : List Output)
    (output : Output) :
    (outputs ++ [output]).flatMap visible = outputs.flatMap visible ++ visible output := by
  rw [flatMap_append, flatMap_singleton]

theorem pair_sublist_concat {first second output : Output} :
    List.Sublist [first, second] (outputs ++ [output]) ↔
      (second = output ∧ first ∈ outputs) ∨ List.Sublist [first, second] outputs := by
  have reversed : ∀ values : List Output,
      List.Sublist [first, second] values ↔ List.Sublist [second, first] values.reverse :=
    fun _ => reverse_sublist.symm
  rw [reversed, reversed, reverse_concat, cons_sublist_cons', singleton_sublist,
    mem_reverse, or_comm]

theorem mem_of_pair_sublist_concat {first second output : Output}
    (sublist : List.Sublist [first, second] (outputs ++ [output])) : first ∈ outputs := by
  rcases pair_sublist_concat.mp sublist with ⟨_, listed⟩ | earlier
  · exact listed
  · exact earlier.mem mem_cons_self

end Elkeid.Foundations.Machine
