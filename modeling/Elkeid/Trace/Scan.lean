import Mathlib

/-!
# The scan over the CPUs

`__find_next_entry` of `driver/LKM/src/trace.c` walks the possible CPUs with
`__cpumask_next_wrap`, from the one after the CPU read last around to it. The
number `n` of a call is kept as the CPU after it, so that `-1` is `0`. The walk
is shown to visit the possible CPUs from `start` on and then those before it.
-/

namespace Elkeid.Trace

open List Option Nat

/-- `nr_cpumask_bits` and `cpu_possible_mask`. -/
structure Cpus where
  bits : Nat
  possible : Nat → Bool

namespace Cpus

variable (cpus : Cpus)

/-- `cpumask_next(after - 1, cpu_possible_mask)`. -/
def cpumaskNext (after : Nat) : Nat :=
  ((range' after (cpus.bits - after)).find? cpus.possible).getD cpus.bits

/-- The first argument bounds the jumps to `again`. -/
def cpumaskNextWrap (start : Nat) : Nat → Nat → Bool → Option Nat
  | 0, _, _ => none
  | jumps + 1, after, wrap =>
    let next := cpus.cpumaskNext after
    if wrap ∧ after ≤ start ∧ start ≤ next then some cpus.bits
    else if cpus.bits ≤ next then cpumaskNextWrap start jumps 0 true
    else some next

/-- Where the scan starts that follows a read from a CPU. -/
def scanStart (entCpu : Nat) : Nat := if cpus.bits ≤ entCpu + 1 then 0 else entCpu + 1

section Loop

variable {Entry : Type} (rings : Nat → List Entry)

/-- The loop of `__find_next_entry`; `none` when it does not end within the given rounds. -/
def findLoop (start : Nat) : Nat → Nat → Option (Option (Nat × Entry))
  | 0, _ => none
  | rounds + 1, cpu =>
    if cpu < cpus.bits then
      match rings cpu with
      | entry :: _ => some (some (cpu, entry))
      | [] => do findLoop start rounds (← cpus.cpumaskNextWrap start 2 (cpu + 1) true)
    else some none

def findNextEntry (entCpu : Nat) : Option (Option (Nat × Entry)) := do
  let start := cpus.scanStart entCpu
  cpus.findLoop rings start (cpus.bits + 1) (← cpus.cpumaskNextWrap start 2 start false)

/-- The same loop together with the CPUs whose rings it looks at. -/
def inspectLoop (start : Nat) : Nat → Nat → Option (Option (Nat × Entry) × List Nat)
  | 0, _ => none
  | rounds + 1, cpu =>
    if cpu < cpus.bits then
      match rings cpu with
      | entry :: _ => some (some (cpu, entry), [cpu])
      | [] => do
          let (found, later) ←
            inspectLoop start rounds (← cpus.cpumaskNextWrap start 2 (cpu + 1) true)
          return (found, cpu :: later)
    else some (none, [])

def inspectNextEntry (entCpu : Nat) : Option (Option (Nat × Entry) × List Nat) := do
  let start := cpus.scanStart entCpu
  cpus.inspectLoop rings start (cpus.bits + 1) (← cpus.cpumaskNextWrap start 2 start false)

end Loop

def possibleIn (low high : Nat) : List Nat :=
  (range' low (high - low)).filter cpus.possible

def scanOrder (start : Nat) : List Nat :=
  cpus.possibleIn start cpus.bits ++ cpus.possibleIn 0 start

/-- What is left of the scan after a CPU. -/
def scanAfter (start cpu : Nat) : List Nat :=
  if start ≤ cpu then cpus.possibleIn (cpu + 1) cpus.bits ++ cpus.possibleIn 0 start
  else cpus.possibleIn (cpu + 1) start

/-- The CPU at the head of what is left, or the end of the scan. -/
def headOf (rest : List Nat) : Nat := rest.head?.getD cpus.bits

theorem cpumaskNext_eq (after : Nat) :
    cpus.cpumaskNext after = cpus.headOf (cpus.possibleIn after cpus.bits) := by
  rw [cpumaskNext, headOf, possibleIn, head?_filter]

variable {low high cpu after start : Nat}

theorem mem_possibleIn :
    cpu ∈ cpus.possibleIn low high ↔ (low ≤ cpu ∧ cpu < high) ∧ cpus.possible cpu = true := by
  rw [possibleIn, mem_filter, mem_range'_1]
  constructor
  all_goals
    rintro ⟨⟨above, below⟩, isPossible⟩
    exact ⟨⟨above, by omega⟩, isPossible⟩

theorem possibleIn_split {middle : Nat} (first : low ≤ middle) (second : middle ≤ high) :
    cpus.possibleIn low high = cpus.possibleIn low middle ++ cpus.possibleIn middle high := by
  obtain ⟨front, rfl⟩ := Nat.exists_eq_add_of_le first
  obtain ⟨back, rfl⟩ := Nat.exists_eq_add_of_le second
  rw [possibleIn, possibleIn, possibleIn, add_assoc, Nat.add_sub_cancel_left,
    Nat.add_sub_cancel_left, ← add_assoc, Nat.add_sub_cancel_left, ← range'_append_1,
    filter_append]

theorem possibleIn_of_head {rest : List Nat}
    (isHead : cpus.possibleIn low high = cpu :: rest) : rest = cpus.possibleIn (cpu + 1) high := by
  obtain ⟨⟨above, below⟩, isPossible⟩ := cpus.mem_possibleIn.mp (isHead ▸ mem_cons_self)
  have single : cpus.possibleIn cpu (cpu + 1) = [cpu] := by
    rw [possibleIn, Nat.add_sub_cancel_left, range'_one, filter_singleton, isPossible]
    rfl
  have noEarlier : cpus.possibleIn low cpu = [] := by
    cases earlier : cpus.possibleIn low cpu with
    | nil => rfl
    | cons other others =>
      rw [cpus.possibleIn_split above below.le, earlier, cons_append] at isHead
      obtain ⟨⟨_, less⟩, _⟩ := cpus.mem_possibleIn.mp (earlier ▸ mem_cons_self)
      exact absurd (head_eq_of_cons_eq isHead) less.ne
  rw [cpus.possibleIn_split above below.le, noEarlier, nil_append,
    cpus.possibleIn_split (le_succ cpu) below, single] at isHead
  exact (tail_eq_of_cons_eq isHead).symm

@[simp]
theorem headOf_nil : cpus.headOf [] = cpus.bits := rfl

@[simp]
theorem headOf_cons (cpu : Nat) (rest : List Nat) : cpus.headOf (cpu :: rest) = cpu := rfl

theorem cpumaskNext_of_cons {rest : List Nat}
    (found : cpus.possibleIn after cpus.bits = cpu :: rest) :
    cpus.cpumaskNext after = cpu ∧ cpu < cpus.bits := by
  obtain ⟨⟨_, below⟩, _⟩ := cpus.mem_possibleIn.mp (found ▸ mem_cons_self)
  rw [cpumaskNext_eq, found]
  exact ⟨rfl, below⟩

theorem cpumaskNext_of_nil (none : cpus.possibleIn after cpus.bits = []) :
    cpus.cpumaskNext after = cpus.bits := by
  rw [cpumaskNext_eq, none]
  rfl

section

variable (inside : start ≤ cpus.bits)
include inside

theorem nextWrap_below (early : after ≤ start) (jumps : Nat) :
    cpus.cpumaskNextWrap start (jumps + 1) after true =
      some (cpus.headOf (cpus.possibleIn after start)) := by
  have split := cpus.possibleIn_split early inside
  rw [cpumaskNextWrap]
  cases before : cpus.possibleIn after start with
  | nil =>
    have late : start ≤ cpus.cpumaskNext after := by
      rw [cpumaskNext_eq, split, before, nil_append]
      cases later : cpus.possibleIn start cpus.bits with
      | nil => exact inside
      | cons cpu rest => exact (cpus.mem_possibleIn.mp (later ▸ mem_cons_self)).1.1
    rw [if_pos ⟨rfl, early, late⟩]
    rfl
  | cons cpu rest =>
    rw [before, cons_append] at split
    obtain ⟨⟨_, less⟩, _⟩ := cpus.mem_possibleIn.mp (before ▸ mem_cons_self)
    obtain ⟨next, below⟩ := cpus.cpumaskNext_of_cons split
    rw [next, if_neg (fun wrapped => absurd wrapped.2.2 (not_le.mpr less)),
      if_neg (not_le.mpr below)]
    rfl

theorem nextWrap_above {wrap : Bool} (unwrapped : ¬ (wrap = true ∧ after ≤ start)) :
    cpus.cpumaskNextWrap start 2 after wrap =
      some (cpus.headOf (cpus.possibleIn after cpus.bits ++ cpus.possibleIn 0 start)) := by
  have notDone (next : Nat) : ¬ (wrap = true ∧ after ≤ start ∧ start ≤ next) :=
    fun done => unwrapped ⟨done.1, done.2.1⟩
  rw [cpumaskNextWrap]
  cases later : cpus.possibleIn after cpus.bits with
  | nil =>
    rw [cpus.cpumaskNext_of_nil later, if_neg (notDone _), if_pos (le_refl _), nil_append]
    exact cpus.nextWrap_below inside (zero_le start) 0
  | cons cpu rest =>
    obtain ⟨next, below⟩ := cpus.cpumaskNext_of_cons later
    rw [next, if_neg (notDone _), if_neg (not_le.mpr below)]
    rfl

theorem nextWrap_first :
    cpus.cpumaskNextWrap start 2 start false = some (cpus.headOf (cpus.scanOrder start)) :=
  cpus.nextWrap_above inside (fun done => Bool.false_ne_true done.1)

theorem nextWrap_scanAfter (cpu : Nat) :
    cpus.cpumaskNextWrap start 2 (cpu + 1) true =
      some (cpus.headOf (cpus.scanAfter start cpu)) := by
  rw [scanAfter]
  split
  next behind =>
    apply cpus.nextWrap_above inside
    rintro ⟨_, wrapped⟩
    exact absurd wrapped (not_le.mpr (lt_succ_of_le behind))
  next before => exact cpus.nextWrap_below inside (not_le.mp before) 1

/-- A list that goes on after its head as the scan does. -/
def Follows (start : Nat) : List Nat → Prop
  | [] => True
  | cpu :: rest => rest = cpus.scanAfter start cpu ∧ cpu < cpus.bits

theorem follows_below (low : Nat) : cpus.Follows start (cpus.possibleIn low start) := by
  cases found : cpus.possibleIn low start with
  | nil => trivial
  | cons cpu rest =>
    obtain ⟨⟨_, less⟩, _⟩ := cpus.mem_possibleIn.mp (found ▸ mem_cons_self)
    refine ⟨?_, less.trans_le inside⟩
    rw [scanAfter, if_neg (not_le.mpr less)]
    exact cpus.possibleIn_of_head found

theorem follows_above (behind : start ≤ low) :
    cpus.Follows start (cpus.possibleIn low cpus.bits ++ cpus.possibleIn 0 start) := by
  cases found : cpus.possibleIn low cpus.bits with
  | nil => exact cpus.follows_below inside 0
  | cons cpu rest =>
    obtain ⟨⟨above, below⟩, _⟩ := cpus.mem_possibleIn.mp (found ▸ mem_cons_self)
    refine ⟨?_, below⟩
    rw [scanAfter, if_pos (behind.trans above), ← cpus.possibleIn_of_head found]
    rfl

theorem follows_scanAfter (cpu : Nat) : cpus.Follows start (cpus.scanAfter start cpu) := by
  rw [scanAfter]
  split
  next behind => exact cpus.follows_above inside (le_succ_of_le behind)
  next before => exact cpus.follows_below inside _

theorem length_scanOrder : (cpus.scanOrder start).length ≤ cpus.bits := by
  have sizes : (cpus.bits - start) + (start - 0) = cpus.bits := by omega
  rw [scanOrder, length_append]
  calc (cpus.possibleIn start cpus.bits).length + (cpus.possibleIn 0 start).length
      ≤ (cpus.bits - start) + (start - 0) := by
        apply Nat.add_le_add
        all_goals exact (length_filter_le _ _).trans_eq length_range'
    _ = cpus.bits := sizes

end

theorem scanStart_le (entCpu : Nat) : cpus.scanStart entCpu ≤ cpus.bits := by
  rw [scanStart]
  split
  next => exact zero_le _
  next below => exact (not_le.mp below).le

theorem mem_scanOrder_iff (inside : start ≤ cpus.bits) :
    cpu ∈ cpus.scanOrder start ↔ cpu ∈ cpus.possibleIn 0 cpus.bits := by
  rw [cpus.possibleIn_split (zero_le start) inside, scanOrder, mem_append, mem_append]
  exact or_comm

theorem nodup_possibleIn (low high : Nat) : (cpus.possibleIn low high).Nodup :=
  List.Nodup.filter _ nodup_range'

theorem nodup_scanOrder (start : Nat) : (cpus.scanOrder start).Nodup := by
  apply List.Nodup.append (cpus.nodup_possibleIn _ _) (cpus.nodup_possibleIn _ _)
  intro cpu behind before
  have above := (cpus.mem_possibleIn.mp behind).1.1
  have below := (cpus.mem_possibleIn.mp before).1.2
  exact absurd above (not_le.mpr below)

/-- The possible CPUs behind the given one, and then those up to it. -/
def cyclicAfter (cpu : Nat) : List Nat :=
  cpus.possibleIn (cpu + 1) cpus.bits ++ cpus.possibleIn 0 (min (cpu + 1) cpus.bits)

theorem scanOrder_eq_cyclicAfter (entCpu : Nat) :
    cpus.scanOrder (cpus.scanStart entCpu) = cpus.cyclicAfter entCpu := by
  rw [scanOrder, scanStart, cyclicAfter]
  split
  next last =>
    have noneBehind : cpus.possibleIn (entCpu + 1) cpus.bits = [] := by
      rw [possibleIn, Nat.sub_eq_zero_of_le last]
      rfl
    rw [min_eq_right last, noneBehind, nil_append]
    exact append_nil _
  next inside => rw [min_eq_left (not_le.mp inside).le]

theorem mem_cyclicAfter_iff {entCpu : Nat} :
    cpu ∈ cpus.cyclicAfter entCpu ↔ cpu < cpus.bits ∧ cpus.possible cpu = true := by
  rw [← scanOrder_eq_cyclicAfter, cpus.mem_scanOrder_iff (cpus.scanStart_le entCpu), mem_possibleIn,
    and_iff_right (zero_le cpu)]

section Entries

variable {Entry : Type} (rings : Nat → List Entry)

def firstPending (order : List Nat) : Option (Nat × Entry) :=
  order.findSome? (fun cpu => (rings cpu).head?.map (fun entry => (cpu, entry)))

variable {order : List Nat}

theorem firstPending_eq_some {rings : Nat → List Entry} {cpu : Nat}
    {entry : Entry} (found : firstPending rings order = some (cpu, entry)) :
    cpu ∈ order ∧ (rings cpu).head? = some entry := by
  obtain ⟨other, listed, mapped⟩ := exists_of_findSome?_eq_some found
  obtain ⟨waiting, isHead, ⟨⟩⟩ := map_eq_some_iff.mp mapped
  exact ⟨listed, isHead⟩

theorem findLoop_eq {start : Nat} (inside : start ≤ cpus.bits)
    (follows : cpus.Follows start order) {rounds : Nat} (enough : order.length < rounds) :
    cpus.findLoop rings start rounds (cpus.headOf order) = some (firstPending rings order) := by
  induction rounds generalizing order with
  | zero => exact absurd enough (not_lt_zero _)
  | succ rounds ih =>
    cases order with
    | nil =>
      rw [findLoop, headOf_nil, if_neg (lt_irrefl _)]
      rfl
    | cons cpu rest =>
      obtain ⟨goesOn, below⟩ := follows
      rw [findLoop, headOf_cons, if_pos below, firstPending, findSome?_cons]
      cases ring : rings cpu with
      | cons entry later => rfl
      | nil =>
        rw [cpus.nextWrap_scanAfter inside cpu, ← goesOn]
        have restFollows : cpus.Follows start rest := by
          rw [goesOn]
          exact cpus.follows_scanAfter inside cpu
        exact ih restFollows (lt_of_succ_lt_succ enough)

theorem findNextEntry_eq (entCpu : Nat) : cpus.findNextEntry rings entCpu =
      some (firstPending rings (cpus.scanOrder (cpus.scanStart entCpu))) := by
  have inside := cpus.scanStart_le entCpu
  rw [findNextEntry, cpus.nextWrap_first inside]
  exact cpus.findLoop_eq rings inside (cpus.follows_above inside (le_refl _))
    (lt_succ_of_le (cpus.length_scanOrder inside))

theorem inspectLoop_fst (start rounds cpu : Nat) :
    (cpus.inspectLoop rings start rounds cpu).map Prod.fst =
    cpus.findLoop rings start rounds cpu := by
  induction rounds generalizing cpu with
  | zero => rfl
  | succ rounds ih =>
    rw [inspectLoop, findLoop]
    split
    next =>
      cases rings cpu with
      | cons entry later => rfl
      | nil =>
        cases cpus.cpumaskNextWrap start 2 (cpu + 1) true with
        | none => rfl
        | some next =>
          simp only [bind_eq_bind, bind_some, ← ih next, map_bind]
          cases cpus.inspectLoop rings start rounds next <;> rfl
    next => rfl

theorem inspectNextEntry_fst (entCpu : Nat) :
    (cpus.inspectNextEntry rings entCpu).map Prod.fst = cpus.findNextEntry rings entCpu := by
  rw [inspectNextEntry, findNextEntry, bind_eq_bind, map_bind]
  congr 1
  funext cpu
  exact cpus.inspectLoop_fst rings _ _ cpu

/-- The loop looks at the rings of an initial part of the order and stops at the first
of them that has an entry. -/
theorem inspectLoop_eq {start : Nat} (inside : start ≤ cpus.bits)
    (follows : cpus.Follows start order) {rounds : Nat} (enough : order.length < rounds) :
    ∃ found inspected, cpus.inspectLoop rings start rounds (cpus.headOf order) =
        some (found, inspected) ∧ inspected <+: order ∧
      (found = none → inspected = order ∧ ∀ cpu ∈ order, rings cpu = []) ∧
      ∀ cpu entry, found = some (cpu, entry) → (rings cpu).head? = some entry ∧
        ∃ passed, inspected = passed ++ [cpu] ∧ ∀ other ∈ passed, rings other = [] := by
  induction rounds generalizing order with
  | zero => exact absurd enough (not_lt_zero _)
  | succ rounds ih =>
    cases order with
    | nil =>
      rw [inspectLoop, headOf_nil, if_neg (lt_irrefl _)]
      exact ⟨none, [], rfl, prefix_rfl, fun _ => ⟨rfl, forall_mem_nil _⟩, nofun⟩
    | cons cpu rest =>
      obtain ⟨goesOn, below⟩ := follows
      rw [inspectLoop, headOf_cons, if_pos below]
      cases ring : rings cpu with
      | cons entry later =>
        refine ⟨_, _, rfl, prefix_append [cpu] rest, nofun, ?_⟩
        rintro _ _ ⟨⟩
        exact ⟨by rw [ring]; rfl, [], rfl, forall_mem_nil _⟩
      | nil =>
        have restFollows : cpus.Follows start rest := by
          rw [goesOn]
          exact cpus.follows_scanAfter inside cpu
        obtain ⟨found, inspected, looped, isPrefix, allEmpty, isFirst⟩ :=
          ih restFollows (lt_of_succ_lt_succ enough)
        refine ⟨found, cpu :: inspected, ?_, cons_prefix_cons.mpr ⟨rfl, isPrefix⟩, ?_, ?_⟩
        · rw [cpus.nextWrap_scanAfter inside cpu, ← goesOn, bind_eq_bind, bind_some, looped]
          rfl
        · intro isNone
          obtain ⟨rfl, restEmpty⟩ := allEmpty isNone
          exact ⟨rfl, forall_mem_cons.mpr ⟨ring, restEmpty⟩⟩
        · intro last entry isFound
          obtain ⟨isHead, passed, rfl, passedEmpty⟩ := isFirst last entry isFound
          exact ⟨isHead, cpu :: passed, rfl, forall_mem_cons.mpr ⟨ring, passedEmpty⟩⟩

/-- `__find_next_entry` ends. It looks at possible CPUs in cyclic order from the first
behind the CPU read last, at each at most once, and returns the entry of the first that
has one. -/
theorem findNextEntry_cyclic (entCpu : Nat) :
    ∃ found inspected, cpus.inspectNextEntry rings entCpu = some (found, inspected) ∧
      cpus.findNextEntry rings entCpu = some found ∧
      inspected <+: cpus.cyclicAfter entCpu ∧ inspected.Nodup ∧
      (found = none ↔ ∀ cpu < cpus.bits, cpus.possible cpu = true → rings cpu = []) ∧
      ∀ cpu entry, found = some (cpu, entry) → (rings cpu).head? = some entry ∧
        ∃ passed, inspected = passed ++ [cpu] ∧ ∀ other ∈ passed, rings other = [] := by
  have inside := cpus.scanStart_le entCpu
  obtain ⟨found, inspected, looped, isPrefix, allEmpty, isFirst⟩ := cpus.inspectLoop_eq rings inside
    (cpus.follows_above inside (le_refl _)) (lt_succ_of_le (cpus.length_scanOrder inside))
  have ran : cpus.inspectNextEntry rings entCpu = some (found, inspected) := by
    rw [inspectNextEntry, cpus.nextWrap_first inside]
    exact looped
  have order := cpus.scanOrder_eq_cyclicAfter entCpu
  rw [scanOrder] at order
  rw [order] at isPrefix allEmpty
  refine ⟨found, inspected, ran, ?_, isPrefix, ?_, ⟨?_, ?_⟩, isFirst⟩
  · rw [← cpus.inspectNextEntry_fst, ran]
    rfl
  · rw [← order] at isPrefix
    exact (cpus.nodup_scanOrder _).sublist isPrefix.sublist
  · intro isNone cpu below isPossible
    exact (allEmpty isNone).2 cpu (cpus.mem_cyclicAfter_iff.mpr ⟨below, isPossible⟩)
  · intro noneWaits
    match found, isFirst with
    | none, _ => rfl
    | some (cpu, entry), isFirst =>
      obtain ⟨isHead, passed, rfl, _⟩ := isFirst cpu entry rfl
      have listed := isPrefix.subset (mem_append_right _ (mem_singleton_self cpu))
      obtain ⟨below, isPossible⟩ := cpus.mem_cyclicAfter_iff.mp listed
      rw [noneWaits cpu below isPossible] at isHead
      cases isHead

end Entries

end Cpus

end Elkeid.Trace
