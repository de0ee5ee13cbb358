import Mathlib

/-!
# Threads that take mutexes

A thread stands at a place of its code. The place says which mutexes the thread has
locked there and which one it is about to lock; the mutexes know their owners. A step
of a thread locks one mutex, unlocks one or does neither.
-/

namespace Elkeid.Foundations.Locks

open List Function

variable {Thread Lock Place : Type}

structure Code (Lock Place : Type) where
  held : Place → List Lock
  waits : Place → Option Lock

inductive Effect (Lock : Type) where
  | acquire (lock : Lock)
  | release (lock : Lock)
  | pass

/-- The effect is what the code says of two places, one after the other. -/
def Code.Leads (code : Code Lock Place) (place next : Place) : Effect Lock → Prop
  | .acquire lock => code.waits place = some lock ∧ code.held next = lock :: code.held place
  | .release lock => code.held place = lock :: code.held next ∧ lock ∉ code.held next
  | .pass => code.held next = code.held place

/-- A mutex belongs to the thread that stands where it has it locked. -/
def Consistent (code : Code Lock Place) (owner : Lock → Option Thread) (place : Thread → Place) :
    Prop :=
  ∀ lock thread, owner lock = some thread ↔ lock ∈ code.held (place thread)

/-- Some threads each wait for a mutex that another one of them owns. -/
def Deadlocked (code : Code Lock Place) (owner : Lock → Option Thread) (place : Thread → Place) :
    Prop :=
  ∃ stuck : Finset Thread, stuck.Nonempty ∧ ∀ thread ∈ stuck, ∃ lock,
    code.waits (place thread) = some lock ∧
      ∃ other ∈ stuck, other ≠ thread ∧ owner lock = some other

variable [DecidableEq Thread] [DecidableEq Lock]

/-- The owners behind a step of the thread; a mutex that is owned cannot be locked. -/
def Effect.apply (thread : Thread) (owner : Lock → Option Thread) :
    Effect Lock → Option (Lock → Option Thread)
  | .acquire lock => if owner lock = none then some (update owner lock (some thread)) else none
  | .release lock => some (update owner lock none)
  | .pass => some owner

section Steps

variable {code : Code Lock Place} {owner later : Lock → Option Thread} {place : Thread → Place}
  {thread : Thread} {next : Place}

omit [DecidableEq Lock] in
theorem consistent_update {owned : Lock → Option Thread}
    (self : ∀ lock, owned lock = some thread ↔ lock ∈ code.held next)
    (others : ∀ lock other, other ≠ thread →
      (owned lock = some other ↔ lock ∈ code.held (place other))) :
    Consistent code owned (update place thread next) := by
  intro lock other
  by_cases same : other = thread
  · rw [same, update_self]
    exact self lock
  · rw [update_of_ne same]
    exact others lock other same

section

variable (consistent : Consistent code owner place)
include consistent

theorem Consistent.step {effect : Effect Lock} (leads : code.Leads (place thread) next effect)
    (applied : effect.apply thread owner = some later) :
    Consistent code later (update place thread next) := by
  cases effect with
  | acquire taken =>
    obtain ⟨_, held⟩ := leads
    rw [Effect.apply] at applied
    split at applied <;> cases applied
    next isFree =>
      apply consistent_update
      · intro lock
        rw [held, mem_cons, ← consistent]
        by_cases same : lock = taken
        · simp [same]
        · simp [same]
      · intro lock other differs
        rw [← consistent]
        by_cases same : lock = taken
        · simp [same, isFree, differs.symm]
        · rw [update_of_ne same]
  | release dropped =>
    obtain ⟨held, notTwice⟩ := leads
    have owned : owner dropped = some thread := by
      rw [consistent, held]
      exact mem_cons_self
    cases applied
    apply consistent_update
    · intro lock
      by_cases same : lock = dropped
      · simp [same, notTwice]
      · rw [update_of_ne same, consistent, held, mem_cons, or_iff_right same]
    · intro lock other differs
      rw [← consistent]
      by_cases same : lock = dropped
      · simp [same, owned, differs.symm]
      · rw [update_of_ne same]
  | pass =>
    have held : code.held next = code.held (place thread) := leads
    cases applied
    apply consistent_update
    · intro lock
      rw [held, consistent]
    · intro lock other _
      rw [consistent]

theorem Consistent.owner_iff {effect : Effect Lock} (leads : code.Leads (place thread) next effect)
    (applied : effect.apply thread owner = some later) {other : Thread} (differs : other ≠ thread)
    (lock : Lock) : later lock = some other ↔ owner lock = some other := by
  rw [consistent.step leads applied, update_of_ne differs, consistent]

omit [DecidableEq Thread] [DecidableEq Lock] in
theorem Consistent.blocker {stuck : Finset Thread}
    (closed : ∀ thread ∈ stuck, ∃ lock, code.waits (place thread) = some lock ∧
      ∃ other ∈ stuck, other ≠ thread ∧ owner lock = some other)
    (isStuck : thread ∈ stuck) :
    ∃ lock other, code.waits (place thread) = some lock ∧ other ∈ stuck ∧
      owner lock = some other ∧ lock ∈ code.held (place other) := by
  obtain ⟨lock, waits, other, alsoStuck, _, owned⟩ := closed thread isStuck
  exact ⟨lock, other, waits, alsoStuck, owned, (consistent lock other).mp owned⟩

end

end Steps

/-! ## A lock that is handed on

The tasks that have asked for the lock stand in a line, and the first of them has it. -/

section Line

variable {Task : Type} {line rest : List Task} {asks holds asksLater holdsLater : Task → Prop}

/-- The line holds the tasks that ask, and a task that goes on under the lock is its first. -/
structure Ordered (line : List Task) (asks holds : Task → Prop) : Prop where
  nodup : line.Nodup
  asked : ∀ task, task ∈ line ↔ asks task
  held : ∀ task, holds task → line.head? = some task

theorem Ordered.join (ordered : Ordered line asks holds) (task : Task) (fresh : ¬ asks task)
    (asked : ∀ other, asksLater other ↔ asks other ∨ other = task)
    (held : ∀ other, holdsLater other → holds other) :
    Ordered (line ++ [task]) asksLater holdsLater where
  nodup := by
    rw [nodup_append_comm, singleton_append, nodup_cons, ordered.asked]
    exact ⟨fresh, ordered.nodup⟩
  asked other := by
    rw [mem_append, mem_singleton, ordered.asked, asked]
  held other isHeld := by
    rw [head?_append, ordered.held other (held other isHeld), Option.some_or]

theorem Ordered.leave {task : Task} (ordered : Ordered line asks holds)
    (isLine : line = task :: rest)
    (asked : ∀ other, asksLater other ↔ asks other ∧ other ≠ task)
    (held : ∀ other, holdsLater other → holds other ∧ other ≠ task) :
    Ordered rest asksLater holdsLater := by
  subst isLine
  obtain ⟨notAgain, nodup⟩ := nodup_cons.mp ordered.nodup
  refine ⟨nodup, ?_, ?_⟩
  · intro other
    rw [asked, ← ordered.asked, mem_cons]
    constructor
    · intro later
      refine ⟨Or.inr later, ?_⟩
      rintro rfl
      exact notAgain later
    · rintro ⟨isTask | later, differs⟩
      · exact absurd isTask differs
      · exact later
  · intro other isHeld
    obtain ⟨before, differs⟩ := held other isHeld
    exact absurd (Option.some.inj (ordered.held other before)).symm differs

theorem Ordered.keep {task : Task} (ordered : Ordered line asks holds)
    (first : line.head? = some task) (asked : ∀ other, asksLater other ↔ asks other)
    (held : ∀ other, other ≠ task → holdsLater other → holds other) :
    Ordered line asksLater holdsLater where
  nodup := ordered.nodup
  asked other := (ordered.asked other).trans (asked other).symm
  held other isHeld := by
    by_cases isFirst : other = task
    · rw [isFirst]
      exact first
    · exact ordered.held other (held other isFirst isHeld)

end Line

end Elkeid.Foundations.Locks
