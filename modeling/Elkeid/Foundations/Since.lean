import Mathlib

/-!
# What the last event said

Over a list of events, some of which set a fact and some of which clear it, the
fact holds in the end when an event set it and no later one cleared it. A state
that follows the events one by one shows exactly that.
-/

namespace Elkeid.Foundations

open List

variable {Event State : Type} (sets clears : Event → Prop)

def Since (events : List Event) : Prop :=
  ∃ earlier event later, events = earlier ++ event :: later ∧ sets event ∧
    ∀ other ∈ later, ¬ clears other

namespace Since

variable {sets clears}

@[simp]
theorem not_nil : ¬ Since sets clears [] := by
  rintro ⟨earlier, event, later, split, _⟩
  exact absurd split.symm (append_ne_nil_of_right_ne_nil _ (cons_ne_nil _ _))

variable {events : List Event}

@[simp]
theorem append_singleton {event : Event} : Since sets clears (events ++ [event]) ↔
      sets event ∨ (Since sets clears events ∧ ¬ clears event) := by
  constructor
  · rintro ⟨earlier, added, later, split, isSet, kept⟩
    rcases eq_nil_or_concat later with rfl | ⟨between, last, rfl⟩
    · obtain ⟨_, ⟨⟩⟩ := append_inj' split rfl
      exact Or.inl isSet
    · rw [concat_eq_append] at split kept
      have shape : events ++ [event] = (earlier ++ added :: between) ++ [last] := by
        rw [split]
        simp
      obtain ⟨front, ⟨⟩⟩ := append_inj' shape rfl
      refine Or.inr ⟨⟨earlier, added, between, front, isSet, ?_⟩, ?_⟩
      · intro other listed
        exact kept other (mem_append_left _ listed)
      · exact kept event (by simp)
  · rintro (isSet | ⟨⟨earlier, added, later, rfl, isSet, kept⟩, spared⟩)
    · refine ⟨events, event, [], rfl, isSet, ?_⟩
      intro other listed
      exact absurd listed not_mem_nil
    · refine ⟨earlier, added, later ++ [event], by simp, isSet, ?_⟩
      intro other listed
      rcases mem_append.mp listed with old | new
      · exact kept other old
      · rw [mem_singleton.mp new]
        exact spared

theorem foldl_iff {step : State → Event → State} {initial : State} (fact : State → Prop)
    (start : ¬ fact initial)
    (stepwise : ∀ state event,
      fact (step state event) ↔ sets event ∨ (fact state ∧ ¬ clears event))
    (events : List Event) : fact (events.foldl step initial) ↔ Since sets clears events := by
  induction events using reverseRecOn with
  | nil => exact iff_of_false start not_nil
  | append_singleton events event ih =>
    rw [foldl_append, append_singleton, ← ih]
    exact stepwise _ event

instance decidable [DecidablePred sets] [DecidablePred clears] (events : List Event) :
    Decidable (Since sets clears events) :=
  decidable_of_iff
    (events.foldl (fun holds event => decide (sets event) || (holds && !decide (clears event)))
      false = true)
    (foldl_iff (· = true) Bool.false_ne_true (fun holds event => by simp) events)

theorem exists_mem (since : Since sets clears events) : ∃ event ∈ events, sets event := by
  obtain ⟨earlier, event, later, rfl, isSet, _⟩ := since
  exact ⟨event, by simp, isSet⟩

theorem or_swap (relevant : ∃ event ∈ events, sets event ∨ clears event) :
    Since sets clears events ∨ Since clears sets events := by
  induction events using reverseRecOn with
  | nil =>
    obtain ⟨event, listed, _⟩ := relevant
    cases listed
  | append_singleton events event ih =>
    simp only [append_singleton]
    by_cases isSet : sets event
    · exact .inl (.inl isSet)
    · by_cases isCleared : clears event
      · exact .inr (.inl isCleared)
      · obtain ⟨other, listed, isRelevant⟩ := relevant
        have earlier : other ∈ events := by
          rcases mem_append.mp listed with old | new
          · exact old
          · cases mem_singleton.mp new
            exact absurd isRelevant (not_or.mpr ⟨isSet, isCleared⟩)
        exact (ih ⟨other, earlier, isRelevant⟩).imp
          (fun since => .inr ⟨since, isCleared⟩) (fun since => .inr ⟨since, isSet⟩)

end Since

/-! ## Events of several senders -/

variable {Sender : Type} [DecidableEq Sender]

def bySender (sender : Sender) (history : List (Sender × Event)) : List Event :=
  history.filterMap (fun entry => if entry.1 = sender then some entry.2 else none)

@[simp]
theorem bySender_concat (sender other : Sender) (history : List (Sender × Event)) (event : Event) :
    bySender sender (history ++ [(other, event)]) =
      bySender sender history ++ if other = sender then [event] else [] := by
  simp only [bySender, filterMap_append, filterMap_cons, filterMap_nil]
  split <;> simp_all

theorem mem_bySender {sender : Sender} {history : List (Sender × Event)} {event : Event} :
    event ∈ bySender sender history ↔ (sender, event) ∈ history := by
  simp only [bySender, mem_filterMap, Option.ite_none_right_eq_some, Option.some.injEq, Prod.exists]
  constructor
  · rintro ⟨other, found, listed, rfl, rfl⟩
    exact listed
  · intro listed
    exact ⟨sender, event, listed, rfl, rfl⟩

theorem Since.exists_sender {sets clears : Event → Prop} {history : List (Sender × Event)}
    (since : Since sets clears (history.map Prod.snd)) :
    ∃ sender event, (sender, event) ∈ history ∧ Since sets clears (bySender sender history) := by
  obtain ⟨earlier, event, later, split, isSet, kept⟩ := since
  obtain ⟨front, back, rfl, rfl, shape⟩ := map_eq_append_iff.mp split
  obtain ⟨⟨sender, _⟩, rest, rfl, rfl, rfl⟩ := map_eq_cons_iff.mp shape
  refine ⟨sender, _, mem_append_right _ mem_cons_self, bySender sender front, _,
    bySender sender rest, by simp [bySender], isSet, ?_⟩
  intro other listed
  exact kept other (mem_map_of_mem (mem_bySender.mp listed))

end Elkeid.Foundations
