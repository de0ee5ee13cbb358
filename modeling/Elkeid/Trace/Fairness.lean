import Elkeid.Foundations.Machine
import Elkeid.Trace.Pipe

/-!
# Whose turn it is

Runs of many calls of `trace_read_pipe`, with events that come and go on the rings
between any two steps of the reader. Each turn of the loop over the entries goes on
from the CPU that was read last, but every pass from `waitagain` clears the iterator
and with it that CPU. As long as the cleared iterator finds the same CPU, the CPUs
take turns.
-/

namespace Elkeid.Trace

open Foundations Machine List Option Nat

namespace Reader

/-- One turn of the loop over the entries: the CPU that an event was consumed from,
whether the loop goes on, and the iterator. -/
def turn (cnt : Nat) (reader : Reader) : Option (Option Nat × Bool × Reader) := do
  match ← reader.cpus.findNextEntry reader.rings reader.cpu with
  | none => return (none, false, reader)
  | some (cpu, event) =>
    let saveLen := reader.seq.content.length
    match printTraceFmtLine reader.seq event.val with
    | (seq, .partialLine) =>
      let seq := { seq with content := seq.content.take saveLen }
      return (none, false, { reader with seq, cpu })
    | (seq, .handled) =>
      let rings := Function.update reader.rings cpu (reader.rings cpu).tail
      return (some cpu, decide (seq.used < cnt), { reader with rings, seq, cpu })

end Reader

/-- Where a call stands; `cnt` is what is asked for. -/
inductive Phase where
  | idle
  | waiting (cnt : Nat)
  | filling (cnt : Nat)
  | copying (cnt : Nat)

structure Pipe where
  reader : Reader
  phase : Phase

inductive Move where
  /-- events come to the rings or are overwritten there -/
  | produce (rings : Nat → List Reserved)
  | call (cnt : Nat)
  | advance

/-- The next state and the CPU that an event was consumed from. -/
def Pipe.step : Pipe → Move → Option (Pipe × Option Nat)
  | ⟨reader, phase⟩, .produce rings => some (⟨{ reader with rings }, phase⟩, none)
  | ⟨reader, .idle⟩, .call cnt =>
    match reader.seq.toUser cnt with
    | some (_, seq) => some (⟨{ reader with seq }, .idle⟩, none)
    | none => some (⟨{ reader with seq := .init }, .waiting cnt⟩, none)
  | ⟨reader, .waiting cnt⟩, .advance =>
    if reader.isTraceEmpty then some (⟨reader, .waiting cnt⟩, none)
    else some (⟨{ reader with seq := .init, cpu := 0 }, .filling (Reader.capCount cnt)⟩, none)
  | ⟨reader, .filling cnt⟩, .advance => do
      let (consumed, more, reader) ← reader.turn cnt
      return (⟨reader, if more then .filling cnt else .copying cnt⟩, consumed)
  | ⟨reader, .copying cnt⟩, .advance =>
    match reader.seq.toUser cnt with
    | none => some (⟨{ reader with seq := .init }, .waiting cnt⟩, none)
    | some (_, seq) =>
      let seq := if seq.used ≤ seq.readpos then .init else seq
      some (⟨{ reader with seq }, .idle⟩, none)
  | _, _ => none

section Calls

theorem Reader.fill_succ (cnt rounds : Nat) (reader : Reader) :
    fill cnt (rounds + 1) reader = (reader.turn cnt).bind (fun (_, more, next) =>
      if more then fill cnt rounds next else some next) := by
  rw [fill, turn]
  cases reader.cpus.findNextEntry reader.rings reader.cpu with
  | none => rfl
  | some found =>
    cases found with
    | none => rfl
    | some pair =>
      obtain ⟨cpu, event⟩ := pair
      simp only [bind_eq_bind, bind_some]
      rcases printTraceFmtLine reader.seq event.val with ⟨seq, line⟩
      cases line with
      | partialLine => rfl
      | handled =>
        by_cases filled : cnt ≤ seq.used
        · simp [filled, not_lt.mpr filled]
        · simp [filled, not_le.mp filled]

variable {cnt : Nat} {reader last : Reader}

theorem Reader.fill_run {rounds : Nat} (filled : fill cnt rounds reader = some last) :
    ∃ turns outputs, run Pipe.step ⟨reader, .filling cnt⟩ (replicate turns .advance) =
      some (⟨last, .copying cnt⟩, outputs) := by
  induction rounds generalizing reader with
  | zero => cases filled
  | succ rounds ih =>
    rw [fill_succ] at filled
    obtain ⟨⟨consumed, more, next⟩, turned, goesOn⟩ := bind_eq_some_iff.mp filled
    have taken : Pipe.step ⟨reader, .filling cnt⟩ .advance =
        some (⟨next, if more then .filling cnt else .copying cnt⟩, consumed) := by
      simp only [Pipe.step, turned, bind_eq_bind, bind_some]
      rfl
    cases more with
    | false =>
      cases goesOn
      exact ⟨1, [consumed], run_cons taken⟩
    | true =>
      obtain ⟨turns, outputs, ran⟩ := ih goesOn
      refine ⟨turns + 1, consumed :: outputs, (run_cons taken).trans ?_⟩
      simp [ran]

theorem Reader.waitAgain_run {passes : Nat} {bytes : Bytes}
    (returned : waitAgain cnt passes reader = some (bytes, last)) :
    ∃ turns outputs, run Pipe.step ⟨reader, .waiting cnt⟩ (replicate turns .advance) =
      some (⟨last, .idle⟩, outputs) := by
  induction passes generalizing cnt reader with
  | zero => cases returned
  | succ passes ih =>
    rw [waitAgain] at returned
    split at returned
    next => cases returned
    next awake =>
      have woken : Pipe.step ⟨reader, .waiting cnt⟩ .advance =
          some (⟨{ reader with seq := .init, cpu := 0 }, .filling (capCount cnt)⟩, none) :=
        if_neg awake
      obtain ⟨⟨copied, passed⟩, isPass, goesOn⟩ := bind_eq_some_iff.mp returned
      obtain ⟨filled, isFilled, isCopied⟩ := bind_eq_some_iff.mp isPass
      obtain ⟨turns, outputs, ran⟩ := fill_run isFilled
      have upToCopy := (run_cons woken).trans (congrArg _ ran)
      rw [map_some, ← replicate_succ] at upToCopy
      cases toUser : filled.seq.toUser (capCount cnt) with
      | none =>
        simp only [toUser] at isCopied
        cases isCopied
        obtain ⟨more, later, ranMore⟩ := ih goesOn
        have again : Pipe.step ⟨filled, .copying (capCount cnt)⟩ .advance =
            some (⟨{ filled with seq := .init }, .waiting (capCount cnt)⟩, none) := by
          simp [Pipe.step, toUser]
        refine ⟨turns + 1 + (more + 1), none :: outputs ++ none :: later, ?_⟩
        rw [replicate_add, run_append upToCopy, replicate_succ, run_cons again, ranMore]
        rfl
      | some result =>
        obtain ⟨out, seq⟩ := result
        simp only [toUser] at isCopied
        cases isCopied
        cases goesOn
        have done : Pipe.step ⟨filled, .copying (capCount cnt)⟩ .advance =
            some (⟨{ filled with seq := if seq.used ≤ seq.readpos then .init else seq },
              .idle⟩, none) := by
          simp [Pipe.step, toUser]
        refine ⟨turns + 1 + 1, none :: outputs ++ [none], ?_⟩
        rw [replicate_add, run_append upToCopy, replicate_one, run_cons done]
        rfl

theorem Reader.traceReadPipe_run {passes : Nat} {bytes : Bytes}
    (returned : reader.traceReadPipe passes cnt = some (bytes, last)) :
    ∃ turns outputs, run Pipe.step ⟨reader, .idle⟩ (.call cnt :: replicate turns .advance) =
      some (⟨last, .idle⟩, outputs) := by
  rw [traceReadPipe] at returned
  cases copied : reader.seq.toUser cnt with
  | some result =>
    obtain ⟨out, seq⟩ := result
    rw [copied] at returned
    cases returned
    refine ⟨0, [none], ?_⟩
    simp [run, Pipe.step, copied]
  | none =>
    rw [copied] at returned
    obtain ⟨turns, outputs, ran⟩ := waitAgain_run returned
    have called : Pipe.step ⟨reader, .idle⟩ (.call cnt) =
        some (⟨{ reader with seq := .init }, .waiting cnt⟩, none) := by
      simp [Pipe.step, copied]
    exact ⟨turns, none :: outputs, (run_cons called).trans (congrArg _ ran)⟩

end Calls

namespace Cpus

variable (cpus : Cpus) {cpu : Nat}

theorem possibleIn_around {low high : Nat} (listed : cpu ∈ cpus.possibleIn low high) :
    cpus.possibleIn low high =
      cpus.possibleIn low cpu ++ cpu :: cpus.possibleIn (cpu + 1) high := by
  obtain ⟨⟨above, below⟩, isPossible⟩ := cpus.mem_possibleIn.mp listed
  have single : cpus.possibleIn cpu (cpu + 1) = [cpu] := by
    simp [possibleIn, isPossible]
  rw [cpus.possibleIn_split above below.le, cpus.possibleIn_split (le_succ cpu) below, single]
  rfl

theorem scanOrder_scanStart (listed : cpu ∈ cpus.possibleIn 0 cpus.bits) :
    cpus.scanOrder (cpus.scanStart cpu) =
      cpus.possibleIn (cpu + 1) cpus.bits ++ cpus.possibleIn 0 cpu ++ [cpu] := by
  obtain ⟨⟨_, below⟩, _⟩ := cpus.mem_possibleIn.mp listed
  have upTo : cpus.possibleIn 0 (cpu + 1) = cpus.possibleIn 0 cpu ++ [cpu] := by
    have inRange : cpu ∈ cpus.possibleIn 0 (cpu + 1) :=
      cpus.mem_possibleIn.mpr ⟨⟨zero_le _, lt_succ_self _⟩, (cpus.mem_possibleIn.mp listed).2⟩
    rw [cpus.possibleIn_around inRange]
    simp [possibleIn]
  rw [scanOrder, scanStart]
  split
  next last =>
    have atEnd : cpus.bits = cpu + 1 := le_antisymm last below
    rw [atEnd, upTo]
    simp [possibleIn]
  next => rw [upTo, append_assoc]

theorem scanOrder_turned {start : Nat} (inside : start ≤ cpus.bits) {front back : List Nat}
    (split : cpus.scanOrder start = front ++ cpu :: back) :
    cpus.scanOrder (cpus.scanStart cpu) = back ++ front ++ [cpu] := by
  have listed : cpu ∈ cpus.possibleIn 0 cpus.bits := by
    apply (cpus.mem_scanOrder_iff inside).mp
    rw [split]
    exact mem_append_right _ mem_cons_self
  have below := (cpus.mem_possibleIn.mp listed).1.2
  have isPossible := (cpus.mem_possibleIn.mp listed).2
  have alone := cpus.nodup_scanOrder start
  rw [split, nodup_middle, nodup_cons, mem_append, not_or] at alone
  rw [cpus.scanOrder_scanStart listed]
  by_cases behind : start ≤ cpu
  · have inRange : cpu ∈ cpus.possibleIn start cpus.bits :=
      cpus.mem_possibleIn.mpr ⟨⟨behind, below⟩, isPossible⟩
    rw [scanOrder, cpus.possibleIn_around inRange, append_assoc, cons_append] at split
    obtain ⟨rfl, _, rfl⟩ :=
      (append_cons_inj_of_notMem alone.1.1 alone.1.2).mp split.symm
    rw [cpus.possibleIn_split (zero_le start) behind]
    simp
  · have early := not_le.mp behind
    have inRange : cpu ∈ cpus.possibleIn 0 start :=
      cpus.mem_possibleIn.mpr ⟨⟨zero_le _, early⟩, isPossible⟩
    rw [scanOrder, cpus.possibleIn_around inRange, ← append_assoc] at split
    obtain ⟨rfl, _, rfl⟩ :=
      (append_cons_inj_of_notMem alone.1.1 alone.1.2).mp split.symm
    rw [cpus.possibleIn_split early inside]
    simp

end Cpus

/-- The CPU that a scan finds after a read from the given one. -/
def Reader.pendingAfter (reader : Reader) (cpu : Nat) : Option Nat :=
  (Cpus.firstPending reader.rings (reader.cpus.scanOrder (reader.cpus.scanStart cpu))).map Prod.fst

namespace Pipe

def lastRead (past : List (Option Nat)) : Option Nat := past.reduceOption.getLast?

/-- The turn finds the CPU that it would find if the pipe remembered the CPU read last. -/
def KeepsTurn (past : List (Option Nat)) (pipe : Pipe) (move : Move) : Prop :=
  match move, pipe.phase, lastRead past with
  | .advance, .filling _, some last =>
    pipe.reader.pendingAfter pipe.reader.cpu = pipe.reader.pendingAfter last
  | _, _, _ => True

instance (past : List (Option Nat)) (pipe : Pipe) (move : Move) :
    Decidable (KeepsTurn past pipe move) := by
  unfold KeepsTurn
  split <;> infer_instance

def Possible (pipe : Pipe) (cpu : Nat) : Prop :=
  cpu ∈ pipe.reader.cpus.possibleIn 0 pipe.reader.cpus.bits

instance (pipe : Pipe) (cpu : Nat) : Decidable (pipe.Possible cpu) :=
  inferInstanceAs (Decidable (cpu ∈ pipe.reader.cpus.possibleIn 0 pipe.reader.cpus.bits))

def Waits (cpu : Nat) (pipe : Pipe) : Prop := pipe.reader.rings cpu ≠ []

/-- Between two events from one CPU every other CPU that waits all the time has its turn. -/
def RoundRobin (start : Pipe) (moves : List Move) : Prop :=
  ∀ before first between second after, moves = before ++ first :: (between ++ second :: after) →
    ∀ pipe next late last past outputs cpu, run step start before = some (pipe, past) →
      step pipe first = some (next, some cpu) → run step next between = some (late, outputs) →
        step late second = some (last, some cpu) →
          ∀ other, other ≠ cpu → start.Possible other → Throughout step (Waits other) next between →
            some other ∈ outputs

/-- While a CPU waits without a turn, each possible CPU has at most one. -/
def Unstarved (start : Pipe) (moves : List Move) : Prop :=
  ∀ before between after, moves = before ++ (between ++ after) →
    ∀ pipe last past outputs, run step start before = some (pipe, past) →
      run step pipe between = some (last, outputs) →
        ∀ other, start.Possible other → Throughout step (Waits other) pipe between →
          some other ∉ outputs →
            outputs.reduceOption.length ≤
              (start.reader.cpus.possibleIn 0 start.reader.cpus.bits).length

theorem turn_cases {cnt : Nat} {reader next : Reader} {consumed : Option Nat} {more : Bool}
    (turned : reader.turn cnt = some (consumed, more, next)) :
    next.cpus = reader.cpus ∧ (consumed = none ∨
      ∃ cpu, consumed = some cpu ∧ reader.pendingAfter reader.cpu = some cpu) := by
  rw [Reader.turn, Reader.findNextEntry_next, bind_eq_bind, bind_some] at turned
  cases found : reader.next with
  | none =>
    rw [found] at turned
    cases turned
    exact ⟨rfl, .inl rfl⟩
  | some pair =>
    obtain ⟨cpu, event⟩ := pair
    rw [found] at turned
    dsimp only at turned
    have pending : reader.pendingAfter reader.cpu = some cpu := congrArg (Option.map Prod.fst) found
    generalize printTraceFmtLine reader.seq event.val = printed at turned
    obtain ⟨seq, line⟩ := printed
    cases line with
    | partialLine =>
      cases turned
      exact ⟨rfl, .inl rfl⟩
    | handled =>
      cases turned
      exact ⟨rfl, .inr ⟨cpu, rfl, pending⟩⟩

theorem step_cases {pipe next : Pipe} {move : Move} {consumed : Option Nat}
    (taken : step pipe move = some (next, consumed)) :
    next.reader.cpus = pipe.reader.cpus ∧ (consumed = none ∨
      ∃ cnt cpu, move = .advance ∧ pipe.phase = .filling cnt ∧ consumed = some cpu ∧
        pipe.reader.pendingAfter pipe.reader.cpu = some cpu) := by
  obtain ⟨reader, phase⟩ := pipe
  cases move with
  | produce rings =>
    cases taken
    exact ⟨rfl, .inl rfl⟩
  | call cnt =>
    cases phase with
    | idle =>
      rw [step] at taken
      split at taken
      all_goals
        cases taken
        exact ⟨rfl, .inl rfl⟩
    | waiting _ => cases taken
    | filling _ => cases taken
    | copying _ => cases taken
  | advance =>
    cases phase with
    | idle => cases taken
    | waiting | copying =>
      rw [step] at taken
      split at taken
      all_goals
        cases taken
        exact ⟨rfl, .inl rfl⟩
    | filling cnt =>
      obtain ⟨⟨served, more, last⟩, turned, ⟨⟩⟩ := bind_eq_some_iff.mp taken
      obtain ⟨sameCpus, nothing | ⟨cpu, isServed, pending⟩⟩ := turn_cases turned
      · exact ⟨sameCpus, .inl nothing⟩
      · exact ⟨sameCpus, .inr ⟨cnt, cpu, rfl, rfl, isServed, pending⟩⟩

end Pipe

namespace Cpus

variable (cpus : Cpus)

/-- The scan comes to `other` before it comes back to a CPU. -/
def Before (last other cpu : Nat) : Prop :=
  List.Sublist [other, cpu] (cpus.scanOrder (cpus.scanStart last))

theorem before_of_read {other cpu : Nat} (differs : other ≠ cpu)
    (otherListed : other ∈ cpus.possibleIn 0 cpus.bits)
    (listed : cpu ∈ cpus.possibleIn 0 cpus.bits) : cpus.Before cpu other cpu := by
  have ahead := (cpus.mem_scanOrder_iff (cpus.scanStart_le cpu)).mpr otherListed
  rw [Before]
  rw [cpus.scanOrder_scanStart listed] at ahead ⊢
  apply List.Sublist.append (singleton_sublist.mpr ?_) (List.Sublist.refl [cpu])
  cases mem_append.mp ahead with
  | inl found => exact found
  | inr isCpu => exact absurd (mem_singleton.mp isCpu) differs

/-- A read passes over no CPU that waits: the CPUs that `other` is before stay behind it,
and the one that is read is none of them. -/
theorem before_next {Entry : Type} {rings : Nat → List Entry} {last other cpu : Nat} {entry : Entry}
    (waits : rings other ≠ []) (differs : other ≠ cpu)
    (found : firstPending rings (cpus.scanOrder (cpus.scanStart last)) = some (cpu, entry))
    {served : Nat} (behind : cpus.Before last other served) :
    cpus.Before cpu other served ∧ served ≠ cpu := by
  obtain ⟨front, next, back, split, isNext, passed⟩ := findSome?_eq_some_iff.mp found
  obtain ⟨_, _, ⟨⟩⟩ := map_eq_some_iff.mp isNext
  have notPassed : other ∉ front := by
    intro listed
    have skipped := passed other listed
    rw [map_eq_none_iff, head?_eq_none_iff] at skipped
    exact waits skipped
  have alone := cpus.nodup_scanOrder (cpus.scanStart last)
  rw [Before, split] at behind
  rw [split, nodup_middle, nodup_cons, mem_append, not_or] at alone
  have inBack : List.Sublist [other, served] back := by
    obtain ⟨early, late, parts, earlySub, lateSub⟩ := sublist_append_iff.mp behind
    cases early with
    | cons head tail =>
      obtain rfl := head_eq_of_cons_eq parts
      exact absurd (earlySub.subset mem_cons_self) notPassed
    | nil =>
      cases parts
      cases lateSub with
      | cons _ inRest => exact inRest
      | cons_cons => exact absurd rfl differs
  constructor
  · rw [Before, cpus.scanOrder_turned (cpus.scanStart_le last) split, append_assoc]
    exact inBack.trans (sublist_append_left _ _)
  · rintro rfl
    exact alone.1.2 (inBack.subset (mem_cons_of_mem _ mem_cons_self))

end Cpus

namespace Pipe

/-- What is known of a stretch in which `other` waits without a turn: the CPUs served
in it are distinct and possible, and the scan comes to `other` before any of them. -/
structure Passed (cpus : Cpus) (other : Nat) (earlier past : List (Option Nat)) (pipe : Pipe) :
    Prop where
  sameCpus : pipe.reader.cpus = cpus
  served : ∃ outputs, past = earlier ++ outputs ∧ (some other ∉ outputs →
    outputs.reduceOption.Nodup ∧ ∀ cpu ∈ outputs.reduceOption,
      cpu ∈ cpus.possibleIn 0 cpus.bits ∧
        ∃ last, lastRead past = some last ∧ cpus.Before last other cpu)

theorem lastRead_none (past : List (Option Nat)) : lastRead (past ++ [none]) = lastRead past := by
  simp [lastRead, reduceOption_append]

theorem lastRead_some (past : List (Option Nat)) (cpu : Nat) :
    lastRead (past ++ [some cpu]) = some cpu := by
  simp [lastRead, reduceOption_append]

variable {past earlier outputs : List (Option Nat)} {pipe start : Pipe} {cpus : Cpus} {other : Nat}
  {moves : List Move}

theorem KeepsTurn.pendingAfter {cnt last : Nat}
    (keeps : KeepsTurn past pipe .advance) (filling : pipe.phase = .filling cnt)
    (isLast : lastRead past = some last) :
    pipe.reader.pendingAfter pipe.reader.cpu = pipe.reader.pendingAfter last := by
  simpa only [KeepsTurn, filling, isLast] using keeps

theorem possible_of_pendingAfter {reader : Reader} {last cpu : Nat}
    (pending : reader.pendingAfter last = some cpu) :
    cpu ∈ reader.cpus.possibleIn 0 reader.cpus.bits := by
  obtain ⟨⟨_, entry⟩, found, rfl⟩ := map_eq_some_iff.mp pending
  exact (reader.cpus.mem_scanOrder_iff (reader.cpus.scanStart_le last)).mp
    (Cpus.firstPending_eq_some found).1

theorem Passed.step {next : Pipe} {move : Move} {output : Option Nat}
    (otherPossible : other ∈ cpus.possibleIn 0 cpus.bits)
    (passed : Passed cpus other earlier past pipe) (keeps : KeepsTurn past pipe move)
    (waits : Waits other pipe) (taken : pipe.step move = some (next, output)) :
    Passed cpus other earlier (past ++ [output]) next := by
  obtain ⟨sameCpus, outputs, isPast, served⟩ := passed
  obtain ⟨unchanged, isOutput⟩ := step_cases taken
  refine ⟨unchanged.trans sameCpus, outputs ++ [output], by rw [isPast, append_assoc], ?_⟩
  intro notServed
  rw [mem_append, not_or] at notServed
  obtain ⟨distinct, behind⟩ := served notServed.1
  obtain rfl | ⟨cnt, cpu, rfl, filling, rfl, pending⟩ := isOutput
  · rw [lastRead_none, reduceOption_append, reduceOption_singleton, toList_none,
      append_nil]
    exact ⟨distinct, behind⟩
  · have differs : other ≠ cpu := fun same => notServed.2 (by simp [same])
    have isPossible := possible_of_pendingAfter pending
    rw [sameCpus] at isPossible
    have after : ∀ early ∈ outputs.reduceOption, cpus.Before cpu other early ∧ early ≠ cpu := by
      intro early listed
      obtain ⟨_, last, isLast, ahead⟩ := behind early listed
      rw [keeps.pendingAfter filling isLast, Reader.pendingAfter, sameCpus] at pending
      obtain ⟨⟨_, entry⟩, found, rfl⟩ := map_eq_some_iff.mp pending
      exact cpus.before_next waits differs found ahead
    rw [lastRead_some, reduceOption_append, reduceOption_singleton, toList_some]
    constructor
    · rw [nodup_append_comm, singleton_append, nodup_cons]
      exact ⟨fun listed => (after cpu listed).2 rfl, distinct⟩
    · intro early listed
      cases mem_append.mp listed with
      | inl before => exact ⟨(behind early before).1, cpu, rfl, (after early before).1⟩
      | inr isNew =>
        cases mem_singleton.mp isNew
        exact ⟨isPossible, cpu, rfl, cpus.before_of_read differs otherPossible isPossible⟩

theorem Passed.run {last : Pipe} (otherPossible : other ∈ cpus.possibleIn 0 cpus.bits)
    (passed : Passed cpus other earlier past pipe)
    (meets : AllMeet Pipe.step KeepsTurn past pipe moves)
    (throughout : Throughout Pipe.step (Waits other) pipe moves)
    (ran : Machine.run Pipe.step pipe moves = some (last, outputs)) :
    Passed cpus other earlier (past ++ outputs) last := by
  apply (meets.and_throughout throughout).invariant _ ran passed
  intro past pipe move next output before meetsBoth taken
  exact before.step otherPossible meetsBoth.1 meetsBoth.2 taken

theorem run_cpus {last : Pipe}
    (ran : run step start moves = some (last, outputs)) : last.reader.cpus = start.reader.cpus := by
  have preserved : ∀ (past : List (Option Nat)) (pipe : Pipe) (move : Move) (next : Pipe)
      (output : Option Nat), pipe.reader.cpus = start.reader.cpus →
        step pipe move = some (next, output) → next.reader.cpus = start.reader.cpus := by
    intro past pipe move next output before taken
    exact (step_cases taken).1.trans before
  exact run_invariant preserved ran rfl

theorem Passed.distinct (passed : Passed cpus other earlier (earlier ++ outputs) pipe)
    (notServed : some other ∉ outputs) :
    outputs.reduceOption.Nodup ∧
      outputs.reduceOption ⊆ cpus.possibleIn 0 cpus.bits := by
  obtain ⟨_, served, same, known⟩ := passed
  cases append_cancel_left same
  obtain ⟨distinct, behind⟩ := known notServed
  exact ⟨distinct, fun cpu listed => (behind cpu listed).1⟩

theorem roundRobin_of_keepsTurn
    (meets : AllMeet step KeepsTurn [] start moves) : RoundRobin start moves := by
  rintro before first between second after rfl pipe next late last past outputs cpu ranBefore
    takenFirst ranBetween takenSecond other differs otherPossible throughout
  by_contra notServed
  have meetsFirst : AllMeet step KeepsTurn ([] ++ past) pipe
      ([first] ++ (between ++ second :: after)) := meets.of_append ranBefore
  have ranFirst : run step pipe [first] = some (next, [some cpu]) := by
    rw [run_cons takenFirst]
    rfl
  have meetsBetween := meetsFirst.of_append ranFirst
  have meetsSecond := meetsBetween.of_append ranBetween
  have sameCpus : pipe.reader.cpus = start.reader.cpus := run_cpus ranBefore
  obtain ⟨unchanged, isServed⟩ := step_cases takenFirst
  obtain nothing | ⟨cnt, served, _, _, isCpu, pending⟩ := isServed
  · cases nothing
  cases isCpu
  have isPossible := possible_of_pendingAfter pending
  rw [sameCpus] at isPossible
  have afterFirst : Passed start.reader.cpus other past ([] ++ past ++ [some cpu]) next := by
    refine ⟨unchanged.trans sameCpus, [some cpu], rfl, fun _ => ⟨nodup_singleton _, ?_⟩⟩
    intro early listed
    cases mem_singleton.mp listed
    exact ⟨isPossible, cpu, lastRead_some _ _,
      start.reader.cpus.before_of_read differs otherPossible isPossible⟩
  have afterBetween := afterFirst.run otherPossible meetsBetween.left throughout ranBetween
  have afterSecond := afterBetween.step otherPossible meetsSecond.1 (throughout.last ranBetween)
    takenSecond
  simp only [nil_append, append_assoc] at afterSecond
  have twice := (afterSecond.distinct (by simp [differs, notServed])).1
  simp [reduceOption_append] at twice

theorem unstarved_of_keepsTurn
    (meets : AllMeet step KeepsTurn [] start moves) : Unstarved start moves := by
  rintro before between after rfl pipe last past outputs ranBefore ranBetween other otherPossible
    throughout notServed
  have meetsBetween := (meets.of_append ranBefore).left
  have atStart : Passed start.reader.cpus other past past pipe := by
    refine ⟨run_cpus ranBefore, [], (append_nil past).symm, fun _ => ⟨nodup_nil, ?_⟩⟩
    intro early listed
    cases listed
  have atEnd := atStart.run otherPossible meetsBetween throughout ranBetween
  obtain ⟨distinct, possible⟩ := atEnd.distinct notServed
  exact (distinct.subperm possible).length_le

/-- The CPUs take turns in every run in which the cleared iterator finds, at each turn,
the CPU that it would have found had it not been cleared. -/
theorem draining_fair (start : Pipe) (moves : List Move)
    (meets : AllMeet step KeepsTurn [] start moves) :
    RoundRobin start moves ∧ Unstarved start moves :=
  ⟨roundRobin_of_keepsTurn meets, unstarved_of_keepsTurn meets⟩

def shortEvent : Reserved := ⟨Reader.setsidEvent ⟨[0x2f, 0x62], by decide⟩, by decide⟩

theorem traceReadPipe_run_short : ∃ turns last, run step ⟨.oneWaiting shortEvent, .idle⟩
    (.call 9 :: replicate turns .advance) = some last := by
  obtain ⟨turns, _, ran⟩ := @Reader.traceReadPipe_run 9 (.oneWaiting shortEvent) _ 1 _ rfl
  exact ⟨turns, _, ran⟩

def bothWaiting (count : Nat) : Pipe :=
  ⟨⟨⟨2, fun _ => true⟩, fun cpu => if cpu = 1 then replicate count shortEvent else [shortEvent],
    .init, 0⟩, .idle⟩

theorem draining_fair_oneCall :
    RoundRobin (bothWaiting 2) [.call 4095, .advance, .advance, .advance, .advance] ∧
      Unstarved (bothWaiting 2) [.call 4095, .advance, .advance, .advance, .advance] :=
  draining_fair _ _ (by decide +kernel)

def twoCalls : List Move :=
  [.call shortEvent.val.line.length, .advance, .advance, .advance,
    .call shortEvent.val.line.length, .advance, .advance]

/-- Both calls read from CPU 1 while the event on CPU 0 waits. -/
theorem twoCalls_not_roundRobin : ¬ RoundRobin (bothWaiting 2) twoCalls := by
  intro fair
  have skipped := fair [.call shortEvent.val.line.length, .advance] .advance
    [.advance, .call shortEvent.val.line.length, .advance] .advance [] rfl _ _ _ _ _ _ 1
    rfl rfl rfl rfl 0 zero_ne_one (by decide)
    ⟨cons_ne_nil _ _, cons_ne_nil _ _, cons_ne_nil _ _, cons_ne_nil _ _⟩
  simp at skipped

end Pipe

end Elkeid.Trace
