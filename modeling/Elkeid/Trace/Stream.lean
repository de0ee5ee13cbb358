import Elkeid.Foundations.Sums
import Elkeid.Trace.Fairness

/-!
# The stream of a trace pipe

What a user reads over many calls of `trace_read_pipe`. Events arrive at the ends of the
rings at any time, also while a call is under way. A line that an earlier call has cut is
in the sequence buffer, and the next call goes on with it; a line that does not fit the
buffer any more waits on its ring for a later pass.
-/

namespace Elkeid.Trace

open Foundations Machine TraceSeq List Option Function Nat

inductive Act where
  | arrive (cpu : Nat) (event : Reserved)
  | call (cnt : Nat)
  | advance

/-- What is seen of a step from outside. -/
inductive Seen where
  | arrived (cpu : Nat) (event : Reserved)
  | consumed (cpu : Nat) (event : Reserved)
  | returned (bytes : Bytes)
  | nothing

namespace Seen

def arrivals : Seen → List (Nat × Reserved)
  | arrived cpu event => [(cpu, event)]
  | _ => []

def consumptions : Seen → List (Nat × Reserved)
  | consumed cpu event => [(cpu, event)]
  | _ => []

def bytes : Seen → Bytes
  | returned bytes => bytes
  | _ => []

end Seen

def onCpu (cpu : Nat) (events : List (Nat × Reserved)) : List Reserved :=
  (events.filter (fun event => event.1 = cpu)).map Prod.snd

def lines (events : List (Nat × Reserved)) : Bytes :=
  events.flatMap (fun event => event.2.val.line)

namespace Pipe

def opened (cpus : Cpus) (rings : Nat → List Reserved) : Pipe := ⟨⟨cpus, rings, .init, 0⟩, .idle⟩

def unread (pipe : Pipe) : Bytes := pipe.reader.seq.content.drop pipe.reader.seq.readpos

def copied (pipe : Pipe) (cnt : Nat) : Bytes := ((pipe.reader.seq.toUser cnt).map Prod.fst).getD []

def move (pipe : Pipe) : Act → Move
  | .arrive cpu event =>
    .produce (Function.update pipe.reader.rings cpu (pipe.reader.rings cpu ++ [event]))
  | .call cnt => .call cnt
  | .advance => .advance

def seen (pipe : Pipe) : Act → Option Nat → Seen
  | .arrive cpu event, _ => .arrived cpu event
  | .call cnt, _ => .returned (pipe.copied cnt)
  | .advance, some cpu =>
    match pipe.reader.rings cpu with
    | event :: _ => .consumed cpu event
    | [] => .nothing
  | .advance, none =>
    match pipe.phase with
    | .copying cnt => .returned (pipe.copied cnt)
    | _ => .nothing

def observe (pipe : Pipe) (act : Act) : Option (Pipe × Seen) :=
  (pipe.step (pipe.move act)).map (fun (next, served) => (next, pipe.seen act served))

end Pipe

/-- What the phases of a call know of the sequence. -/
def Phase.Fits (seq : TraceSeq) : Phase → Prop
  | idle => seq.content.length < pageSize
  | waiting _ => seq = .init
  | filling _ => seq.Writable
  | copying _ => seq.content.length < pageSize

section Copying

variable {seq : TraceSeq} {cnt : Nat}

theorem TraceSeq.drop_of_toUser_none (fits : seq.content.length < pageSize)
    (nothing : seq.toUser cnt = none) :
    seq.content.drop seq.readpos = [] := by
  rw [toUser] at nothing
  split at nothing
  next => cases nothing
  next =>
    split at nothing
    next drained =>
      rw [used, min_eq_left fits.le] at drained
      exact drop_eq_nil_of_le drained
    next => cases nothing

theorem TraceSeq.append_of_toUser {bytes : Bytes} {next : TraceSeq}
    (copied : seq.toUser cnt = some (bytes, next)) :
    next.content = seq.content ∧ bytes ++ next.content.drop next.readpos =
      seq.content.drop seq.readpos := by
  rw [toUser] at copied
  split at copied
  next =>
    cases copied
    exact ⟨rfl, rfl⟩
  next =>
    split at copied <;> cases copied
    refine ⟨rfl, ?_⟩
    rw [← drop_drop, take_append_drop]

end Copying

namespace Pipe

variable {cnt : Nat} {reader : Reader} {pipe next last : Pipe}

theorem turn_spec {next : Reader} {served : Option Nat} {more : Bool}
    (writable : reader.seq.Writable) (turned : reader.turn cnt = some (served, more, next)) :
    next.cpus = reader.cpus ∧ ((served = none ∧ more = false ∧ next.rings = reader.rings ∧
          next.seq.content = reader.seq.content ∧ next.seq.readpos = 0) ∨
        ∃ cpu event later, served = some cpu ∧ cpu ∈ reader.cpus.possibleIn 0 reader.cpus.bits ∧
          reader.rings cpu = event :: later ∧ next.rings = Function.update reader.rings cpu later ∧
          next.seq.Writable ∧ next.seq.content = reader.seq.content ++ event.val.line) := by
  rw [Reader.turn, Reader.findNextEntry_next, bind_eq_bind, bind_some] at turned
  cases found : reader.next with
  | none =>
    rw [found] at turned
    cases turned
    exact ⟨rfl, .inl ⟨rfl, rfl, rfl, rfl, writable.unread⟩⟩
  | some pair =>
    obtain ⟨cpu, event⟩ := pair
    obtain ⟨listed, isHead⟩ := Cpus.firstPending_eq_some found
    rw [found] at turned
    dsimp only at turned
    by_cases fits : reader.seq.content.length + event.val.line.length < pageSize
    · obtain ⟨seq, printed, writableSeq, appended⟩ := print_fitting writable event.val fits
      rw [printed] at turned
      cases turned
      obtain ⟨later, waiting⟩ := head?_eq_some_iff.mp isHead
      refine ⟨rfl, .inr ⟨cpu, event, later, rfl, ?_, waiting, ?_, writableSeq, appended⟩⟩
      · exact (reader.cpus.mem_scanOrder_iff (reader.cpus.scanStart_le _)).mp listed
      · dsimp only
        rw [waiting, tail_cons]
    · rw [print_overflowing writable event.val (not_lt.mp fits)] at turned
      cases turned
      exact ⟨rfl, .inl ⟨rfl, rfl, rfl, take_length, writable.unread⟩⟩

/-- What one step does to the stream and to the rings. -/
structure Stepped (pipe next : Pipe) (seen : Seen) : Prop where
  sameCpus : next.reader.cpus = pipe.reader.cpus
  fits : next.phase.Fits next.reader.seq
  whole : seen.bytes ++ next.unread = pipe.unread ++ lines seen.consumptions
  possible : ∀ event ∈ seen.consumptions,
    event.1 ∈ pipe.reader.cpus.possibleIn 0 pipe.reader.cpus.bits
  ordered : ∀ cpu, pipe.reader.rings cpu ++ onCpu cpu seen.arrivals =
    onCpu cpu seen.consumptions ++ next.reader.rings cpu

theorem stepped_of_rings {seen : Seen}
    (sameCpus : next.reader.cpus = pipe.reader.cpus)
    (sameRings : next.reader.rings = pipe.reader.rings)
    (noArrival : seen.arrivals = []) (noConsumption : seen.consumptions = [])
    (fits : next.phase.Fits next.reader.seq) (whole : seen.bytes ++ next.unread = pipe.unread) :
    Stepped pipe next seen where
  sameCpus := sameCpus
  fits := fits
  whole := by
    rw [noConsumption, whole]
    exact (append_nil _).symm
  possible := by
    rw [noConsumption]
    exact forall_mem_nil _
  ordered cpu := by
    rw [noArrival, noConsumption, sameRings]
    exact append_nil _

@[simp]
theorem onCpu_singleton (cpu other : Nat) (event : Reserved) :
    onCpu cpu [(other, event)] = if other = cpu then [event] else [] := by
  rw [onCpu, filter_singleton]
  by_cases same : other = cpu
  · simp [same]
  · simp [same]

theorem stepped_arrive (cpu : Nat) (event : Reserved) (fits : pipe.phase.Fits pipe.reader.seq) :
    Stepped pipe ⟨{ pipe.reader with
      rings := Function.update pipe.reader.rings cpu (pipe.reader.rings cpu ++ [event]) },
        pipe.phase⟩
      (.arrived cpu event) where
  sameCpus := rfl
  fits := fits
  whole := (append_nil _).symm
  possible := forall_mem_nil _
  ordered other := by
    rw [Seen.arrivals, onCpu_singleton]
    by_cases same : other = cpu
    · rw [same, if_pos rfl]
      exact (update_self cpu _ pipe.reader.rings).symm
    · rw [if_neg (Ne.symm same), append_nil]
      exact (update_of_ne same _ pipe.reader.rings).symm

theorem stepped_copied {bytes : Bytes} {seq kept : TraceSeq} (fits : kept.content.length < pageSize)
    (copied : pipe.reader.seq.toUser cnt = some (bytes, seq))
    (sameRest : kept.content.drop kept.readpos = seq.content.drop seq.readpos) :
    Stepped pipe ⟨{ pipe.reader with seq := kept }, .idle⟩ (.returned (pipe.copied cnt)) := by
  refine stepped_of_rings rfl rfl rfl rfl fits ?_
  rw [Pipe.copied, copied, unread, unread, sameRest]
  exact (append_of_toUser copied).2

theorem stepped_cleared (fits : pipe.reader.seq.content.length < pageSize)
    (nothing : pipe.reader.seq.toUser cnt = none) :
    Stepped pipe ⟨{ pipe.reader with seq := .init }, .waiting cnt⟩
      (.returned (pipe.copied cnt)) := by
  refine stepped_of_rings rfl rfl rfl rfl rfl ?_
  rw [Pipe.copied, nothing, unread, unread, drop_of_toUser_none fits nothing]
  rfl

theorem stepped_turn {next : Reader} {served : Option Nat} {more : Bool}
    (writable : reader.seq.Writable) (turned : reader.turn cnt = some (served, more, next)) :
    Stepped ⟨reader, .filling cnt⟩ ⟨next, if more then .filling cnt else .copying cnt⟩
      (seen ⟨reader, .filling cnt⟩ .advance served) := by
  have atStart : unread ⟨reader, .filling cnt⟩ = reader.seq.content := by
    rw [unread, writable.unread, drop_zero]
  obtain ⟨sameCpus, ⟨rfl, rfl, sameRings, sameContent, unreadNext⟩ |
    ⟨cpu, event, later, rfl, isPossible, waiting, updated, writableNext, appended⟩⟩ :=
    turn_spec writable turned
  · refine stepped_of_rings sameCpus sameRings rfl rfl ?_ ?_
    · have fits := writable.fits
      rw [← sameContent] at fits
      exact fits
    · rw [atStart, unread, unreadNext, sameContent]
      rfl
  · have isSeen : seen ⟨reader, .filling cnt⟩ .advance (some cpu) = .consumed cpu event := by
      simp [seen, waiting]
    rw [isSeen]
    refine ⟨sameCpus, ?_, ?_, ?_, ?_⟩
    · cases more with
      | true => exact writableNext
      | false => exact writableNext.fits
    · rw [atStart, unread, writableNext.unread, appended, lines, Seen.consumptions,
        flatMap_singleton]
      rfl
    · exact forall_mem_singleton.mpr isPossible
    · intro other
      have noArrival : (Seen.consumed cpu event).arrivals = [] := rfl
      rw [Seen.consumptions, onCpu_singleton, noArrival, updated]
      by_cases same : other = cpu
      · rw [same, if_pos rfl, waiting, update_self]
        exact append_nil _
      · rw [if_neg (Ne.symm same), update_of_ne same]
        exact append_nil _

theorem observe_stepped {act : Act} {seen : Seen}
    (fits : pipe.phase.Fits pipe.reader.seq) (observed : pipe.observe act = some (next, seen)) :
    Stepped pipe next seen := by
  obtain ⟨⟨last, served⟩, taken, ⟨⟩⟩ := map_eq_some_iff.mp observed
  obtain ⟨reader, phase⟩ := pipe
  cases act with
  | arrive cpu event =>
    cases taken
    exact stepped_arrive cpu event fits
  | call cnt =>
    cases phase with
    | idle =>
      rw [move, step] at taken
      split at taken <;> cases taken
      next bytes seq copied =>
        have small : seq.content.length < pageSize :=
          (append_of_toUser copied).1.symm ▸ fits
        exact stepped_copied small copied rfl
      next nothing => exact stepped_cleared fits nothing
    | waiting _ | filling _ | copying _ => cases taken
  | advance =>
    cases phase with
    | idle => cases taken
    | waiting cnt =>
      have isInit : reader.seq = .init := fits
      rw [move, step] at taken
      split at taken <;> cases taken
      next => exact stepped_of_rings rfl rfl rfl rfl fits rfl
      next =>
        refine stepped_of_rings rfl rfl rfl rfl writable_init ?_
        rw [unread, unread, isInit]
        rfl
    | filling cnt =>
      obtain ⟨⟨consumed, more, last⟩, turned, ⟨⟩⟩ := bind_eq_some_iff.mp taken
      exact stepped_turn fits turned
    | copying cnt =>
      rw [move, step] at taken
      split at taken <;> cases taken
      next nothing => exact stepped_cleared fits nothing
      next bytes seq copied =>
        have small : seq.content.length < pageSize :=
          (append_of_toUser copied).1.symm ▸ fits
        split
        next drained =>
          refine stepped_copied TraceSeq.writable_init.fits copied ?_
          rw [TraceSeq.used, min_eq_left small.le] at drained
          exact (drop_eq_nil_of_le drained).symm
        next => exact stepped_copied small copied rfl

/-- What has been returned and what the sequence keeps are the lines of the consumed
events, one after the other, and each ring gives its events in the order of their arrival. -/
structure Lossless (rings : Nat → List Reserved) (past : List Seen) (pipe : Pipe) : Prop where
  whole : past.flatMap Seen.bytes ++ pipe.unread = lines (past.flatMap Seen.consumptions)
  ordered : ∀ cpu, rings cpu ++ onCpu cpu (past.flatMap Seen.arrivals) =
    onCpu cpu (past.flatMap Seen.consumptions) ++ pipe.reader.rings cpu

@[simp]
theorem onCpu_append (cpu : Nat) (events others : List (Nat × Reserved)) :
    onCpu cpu (events ++ others) = onCpu cpu events ++ onCpu cpu others := by
  rw [onCpu, filter_append, map_append]
  rfl

theorem Lossless.step {rings : Nat → List Reserved} {past : List Seen}
    {seen : Seen} (lossless : Lossless rings past pipe) (stepped : Stepped pipe next seen) :
    Lossless rings (past ++ [seen]) next := by
  constructor
  · rw [flatMap_append, flatMap_singleton, append_assoc, stepped.whole,
      ← append_assoc, lossless.whole, flatMap_append, flatMap_singleton]
    exact (flatMap_append ..).symm
  · intro cpu
    rw [flatMap_append, flatMap_singleton, onCpu_append, ← append_assoc,
      lossless.ordered, append_assoc, stepped.ordered, flatMap_append,
      flatMap_singleton, onCpu_append, append_assoc]

theorem lossless_run {rings : Nat → List Reserved} {acts : List Act}
    {past seen : List Seen} (fits : pipe.phase.Fits pipe.reader.seq)
    (lossless : Lossless rings past pipe) (ran : run observe pipe acts = some (last, seen)) :
    last.phase.Fits last.reader.seq ∧ Lossless rings (past ++ seen) last := by
  have preserved : ∀ past pipe act next seen, pipe.phase.Fits pipe.reader.seq ∧
      Lossless rings past pipe → True → observe pipe act = some (next, seen) →
        next.phase.Fits next.reader.seq ∧ Lossless rings (past ++ [seen]) next := by
    intro past pipe act next seen before _ observed
    have stepped := observe_stepped before.1 observed
    exact ⟨stepped.fits, before.2.step stepped⟩
  exact (allMeet_trivial past pipe acts).invariant preserved ran ⟨fits, lossless⟩

def lineBytes (events : List Reserved) : Nat := total (fun event => event.val.line.length) events

def pending (pipe : Pipe) : Nat :=
  pipe.unread.length + total (fun cpu => lineBytes (pipe.reader.rings cpu))
    (pipe.reader.cpus.possibleIn 0 pipe.reader.cpus.bits)

@[simp]
theorem lineBytes_append (events others : List Reserved) :
    lineBytes (events ++ others) = lineBytes events + lineBytes others :=
  total_append _ events others

theorem total_consumptions {cpus : List Nat} (distinct : cpus.Nodup) (seen : Seen)
    (possible : ∀ event ∈ seen.consumptions, event.1 ∈ cpus) :
    total (fun cpu => lineBytes (onCpu cpu seen.consumptions)) cpus =
      (lines seen.consumptions).length := by
  cases seen with
  | consumed cpu event =>
    have each (other : Nat) : lineBytes (onCpu other [(cpu, event)]) =
        if cpu = other then event.val.line.length else 0 := by
      rw [onCpu_singleton, apply_ite lineBytes]
      rfl
    simp only [Seen.consumptions, each]
    rw [total_single distinct (possible _ (mem_singleton_self _)), lines, flatMap_singleton]
  | arrived _ _ | returned _ | nothing => exact total_eq_zero _ (fun _ _ => rfl)

theorem Stepped.pending {seen : Seen} (stepped : Stepped pipe next seen)
    (noArrival : seen.arrivals = []) : seen.bytes.length + next.pending = pipe.pending := by
  have streamed := congrArg length stepped.whole
  rw [length_append, length_append] at streamed
  have ringed (cpu : Nat) : lineBytes (pipe.reader.rings cpu) =
      lineBytes (onCpu cpu seen.consumptions) + lineBytes (next.reader.rings cpu) := by
    rw [← lineBytes_append, ← stepped.ordered, noArrival]
    exact congrArg lineBytes (append_nil _).symm
  rw [Pipe.pending, Pipe.pending, stepped.sameCpus]
  simp only [ringed]
  rw [total_add, total_consumptions (Cpus.nodup_possibleIn ..) seen stepped.possible]
  omega

/-- A later state of a pipe to which no event has come. -/
structure Later (pipe later : Pipe) : Prop where
  sameCpus : later.reader.cpus = pipe.reader.cpus
  fits : later.phase.Fits later.reader.seq
  left : ∀ cpu, later.reader.rings cpu <:+ pipe.reader.rings cpu
  pending : later.pending ≤ pipe.pending

theorem Stepped.later {seen : Seen} (stepped : Stepped pipe next seen)
    (noArrival : seen.arrivals = []) : Later pipe next where
  sameCpus := stepped.sameCpus
  fits := stepped.fits
  left cpu := by
    refine ⟨onCpu cpu seen.consumptions, ?_⟩
    rw [← stepped.ordered, noArrival]
    exact append_nil _
  pending := by
    have balance := stepped.pending noArrival
    omega

theorem Later.trans {middle : Pipe} (first : Later pipe middle)
    (second : Later middle last) : Later pipe last where
  sameCpus := second.sameCpus.trans first.sameCpus
  fits := second.fits
  left cpu := (second.left cpu).trans (first.left cpu)
  pending := second.pending.trans first.pending

theorem seen_advance (pipe : Pipe) (served : Option Nat) :
    (pipe.seen .advance served).arrivals = [] := by
  cases served with
  | some | none =>
    rw [seen]
    split <;> rfl

theorem later_advance {turns : Nat} {outputs : List (Option Nat)}
    (fits : pipe.phase.Fits pipe.reader.seq)
    (ran : run step pipe (replicate turns .advance) = some (last, outputs)) :
    Later pipe last ∧
      ∃ seen, run observe pipe (replicate turns .advance) = some (last, seen) := by
  induction turns generalizing pipe outputs with
  | zero =>
    cases ran
    exact ⟨⟨rfl, fits, fun _ => suffix_rfl, le_refl _⟩, [], rfl⟩
  | succ turns ih =>
    obtain ⟨next, served, _, taken, ranRest, _⟩ := run_cons_eq_some ran
    have observed : pipe.observe .advance = some (next, pipe.seen .advance served) :=
      map_eq_some_iff.mpr ⟨_, taken, rfl⟩
    have first := (observe_stepped fits observed).later (pipe.seen_advance served)
    obtain ⟨rest, seen, ranSeen⟩ := ih first.fits ranRest
    refine ⟨first.trans rest, pipe.seen .advance served :: seen, ?_⟩
    rw [replicate_succ, run_cons observed, ranSeen]
    rfl

def Short (pipe : Pipe) : Prop :=
  ∀ cpu, ∀ event ∈ pipe.reader.rings cpu, event.val.line.length < pageSize

theorem Later.short {later : Pipe} (isLater : Later pipe later) (short : pipe.Short) :
    later.Short := fun cpu event listed => short cpu event ((isLater.left cpu).subset listed)

theorem copied_ne_nil (positive : 0 < cnt)
    (fits : pipe.reader.seq.content.length < pageSize) (left : pipe.unread ≠ []) :
    ∃ bytes seq, pipe.reader.seq.toUser cnt = some (bytes, seq) ∧ 0 < (pipe.copied cnt).length := by
  have unread : pipe.reader.seq.readpos < pipe.reader.seq.used := by
    rw [TraceSeq.used, min_eq_left fits.le]
    by_contra drained
    exact left (drop_eq_nil_of_le (not_lt.mp drained))
  obtain ⟨bytes, seq, copied, someBytes⟩ := toUser_of_unread positive unread
  refine ⟨bytes, seq, copied, ?_⟩
  rw [Pipe.copied, copied]
  exact length_pos_iff.mpr someBytes

theorem first_of_pending (drained : pipe.unread = []) (isPending : 0 < pipe.pending) :
    ∃ cpu event, pipe.reader.first = some (cpu, event) := by
  cases found : pipe.reader.first with
  | some pair => exact ⟨pair.1, pair.2, rfl⟩
  | none =>
    rw [pending, drained, length_nil, zero_add, total_eq_zero] at isPending
    · cases isPending
    intro cpu listed
    have noEvent := findSome?_eq_none_iff.mp found cpu
      ((pipe.reader.cpus.mem_scanOrder_iff (pipe.reader.cpus.scanStart_le 0)).mpr listed)
    rw [map_eq_none_iff, head?_eq_none_iff] at noEvent
    rw [noEvent]
    rfl

theorem waiting_fills {cpu : Nat} {event : Reserved}
    (isFirst : reader.first = some (cpu, event)) (short : event.val.line.length < pageSize)
    (positive : 0 < cnt) :
    ∃ turns last outputs, run step ⟨{ reader with seq := .init }, .waiting cnt⟩
        (replicate turns .advance) = some (⟨last, .copying (Reader.capCount cnt)⟩, outputs) ∧
      unread ⟨last, .copying (Reader.capCount cnt)⟩ ≠ [] := by
  have woken : step ⟨{ reader with seq := .init }, .waiting cnt⟩ .advance =
      some (⟨{ reader with seq := .init, cpu := 0 }, .filling (Reader.capCount cnt)⟩, none) :=
    if_neg (@Reader.awake_of_first { reader with seq := .init } cpu event isFirst)
  obtain ⟨last, filled, atStart, _, _, printed⟩ := @Reader.fill_spec (Reader.capCount cnt)
    (Reader.capCount cnt + 1) { reader with seq := .init, cpu := 0 } writable_init
    (Reader.capCount_pos positive) (by simp [init])
  have hasLine : event.val.line <+: last.seq.content :=
    printed cpu event isFirst (by simpa [init] using short)
  obtain ⟨turns, outputs, ran⟩ := Reader.fill_run filled
  refine ⟨turns + 1, last, none :: outputs, ?_, ?_⟩
  · rw [replicate_succ, run_cons woken, ran]
    rfl
  · rw [unread, atStart, drop_zero]
    rintro isNil
    rw [isNil] at hasLine
    exact event.val.line_ne_nil (prefix_nil.mp hasLine)

theorem copying_returns (positive : 0 < cnt)
    (fits : reader.seq.content.length < pageSize) (left : unread ⟨reader, .copying cnt⟩ ≠ []) :
    ∃ last seen, observe ⟨reader, .copying cnt⟩ .advance = some (last, seen) ∧ last.phase = .idle ∧
      Later ⟨reader, .copying cnt⟩ last ∧ last.pending < pending ⟨reader, .copying cnt⟩ := by
  obtain ⟨bytes, seq, copied, someBytes⟩ := copied_ne_nil positive fits left
  have observed : observe ⟨reader, .copying cnt⟩ .advance =
      some (⟨{ reader with seq := if seq.used ≤ seq.readpos then .init else seq }, .idle⟩,
        .returned (Pipe.copied ⟨reader, .copying cnt⟩ cnt)) := by
    rw [observe, move, step, copied]
    rfl
  have isFit : Phase.Fits reader.seq (.copying cnt) := fits
  have stepped := observe_stepped isFit observed
  have balance := stepped.pending rfl
  rw [Seen.bytes] at balance
  exact ⟨_, _, observed, rfl, stepped.later rfl, by omega⟩

theorem call_returns (idle : pipe.phase = .idle)
    (fits : pipe.phase.Fits pipe.reader.seq) (short : pipe.Short) (isPending : 0 < pipe.pending)
    (positive : 0 < cnt) :
    ∃ turns last seen, run observe pipe (.call cnt :: replicate turns .advance) =
      some (last, seen) ∧ last.phase = .idle ∧ Later pipe last ∧ last.pending < pipe.pending := by
  obtain ⟨reader, phase⟩ := pipe
  cases idle
  by_cases drained : unread ⟨reader, .idle⟩ = []
  · -- the sequence is empty: the call waits, fills it and copies from it
    have nothing : reader.seq.toUser cnt = none := by
      apply (toUser_eq_none_iff positive).mpr
      exact (min_le_left _ _).trans (drop_eq_nil_iff.mp drained)
    have called : observe ⟨reader, .idle⟩ (.call cnt) =
        some (⟨{ reader with seq := .init }, .waiting cnt⟩,
          .returned (Pipe.copied ⟨reader, .idle⟩ cnt)) := by
      rw [observe, move, step, nothing]
      rfl
    have first := (observe_stepped fits called).later rfl
    obtain ⟨cpu, event, isFirst⟩ := first_of_pending drained isPending
    have isShort := short cpu event (mem_of_mem_head? (Cpus.firstPending_eq_some isFirst).2)
    obtain ⟨turns, filled, _, ran, left⟩ := waiting_fills isFirst isShort positive
    obtain ⟨second, seen, ranSeen⟩ := later_advance first.fits ran
    obtain ⟨last, copied, observed, isIdle, third, fewer⟩ :=
      copying_returns (Reader.capCount_pos positive) second.fits left
    refine ⟨turns + 1, last, .returned (Pipe.copied ⟨reader, .idle⟩ cnt) :: (seen ++ [copied]), ?_,
      isIdle, (first.trans second).trans third, fewer.trans_le (first.trans second).pending⟩
    rw [run_cons called, replicate_succ', run_append ranSeen, run_cons observed]
    rfl
  · -- an earlier call has left bytes
    obtain ⟨bytes, seq, copied, someBytes⟩ := copied_ne_nil positive fits drained
    have observed : observe ⟨reader, .idle⟩ (.call cnt) = some (⟨{ reader with seq }, .idle⟩,
        .returned (Pipe.copied ⟨reader, .idle⟩ cnt)) := by
      rw [observe, move, step, copied]
      rfl
    have stepped := observe_stepped fits observed
    have balance := stepped.pending rfl
    refine ⟨0, ⟨{ reader with seq }, .idle⟩, [.returned (Pipe.copied ⟨reader, .idle⟩ cnt)],
      ?_, rfl, stepped.later rfl, ?_⟩
    · rw [replicate_zero, run_cons observed]
      rfl
    · rw [Seen.bytes] at balance
      omega

def callActs (calls : List (Nat × Nat)) : List Act :=
  calls.flatMap (fun call => .call call.1 :: replicate call.2 .advance)

/-- Nothing is left in the sequence or on the rings of possible CPUs. -/
structure Drained (pipe : Pipe) : Prop where
  idle : pipe.phase = .idle
  noBytes : pipe.unread = []
  noEvents : ∀ cpu ∈ pipe.reader.cpus.possibleIn 0 pipe.reader.cpus.bits, pipe.reader.rings cpu = []

theorem drained_of_pending (idle : pipe.phase = .idle) (nothing : pipe.pending = 0) :
    pipe.Drained := by
  rw [pending, Nat.add_eq_zero_iff] at nothing
  refine ⟨idle, length_eq_zero_iff.mp nothing.1, ?_⟩
  intro cpu listed
  cases waiting : pipe.reader.rings cpu with
  | nil => rfl
  | cons event later =>
    have weighs := le_total (fun cpu => lineBytes (pipe.reader.rings cpu)) listed
    have isLine := length_pos_iff.mpr event.val.line_ne_nil
    rw [nothing.2, waiting, lineBytes, total_cons] at weighs
    omega

theorem calls_drain (idle : pipe.phase = .idle)
    (fits : pipe.phase.Fits pipe.reader.seq) (short : pipe.Short) {counts : List Nat}
    (positive : ∀ cnt ∈ counts, 0 < cnt) (enough : pipe.pending ≤ counts.length) :
    ∃ calls last seen, calls.map Prod.fst <+: counts ∧
      run observe pipe (callActs calls) = some (last, seen) ∧ last.Drained := by
  induction counts generalizing pipe with
  | nil =>
    have nothing := le_zero.mp enough
    exact ⟨[], pipe, [], nil_prefix, rfl, drained_of_pending idle nothing⟩
  | cons cnt counts ih =>
    by_cases nothing : pipe.pending = 0
    · exact ⟨[], pipe, [], nil_prefix, rfl, drained_of_pending idle nothing⟩
    · obtain ⟨turns, next, early, ran, nextIdle, later, fewer⟩ :=
        call_returns idle fits short (pos_of_ne_zero nothing) (positive cnt mem_cons_self)
      rw [length_cons] at enough
      obtain ⟨calls, last, late, asked, ranRest, drained⟩ := ih nextIdle later.fits
        (later.short short) (forall_mem_cons.mp positive).2
        (by omega)
      refine ⟨(cnt, turns) :: calls, last, early ++ late, ?_, ?_, drained⟩
      · exact cons_prefix_cons.mpr ⟨rfl, asked⟩
      · rw [callActs, flatMap_cons, run_append ran]
        exact congrArg _ ranRest

theorem lossless_opened (cpus : Cpus) (rings : Nat → List Reserved) :
    Lossless rings [] (opened cpus rings) :=
  ⟨rfl, fun _ => append_nil _⟩

/-- In every run of calls and arrivals the bytes returned, with those that the sequence
keeps for the next call, are the complete lines of the consumed events, each once and
those of a CPU in the order of its ring; what is not consumed is still on its ring. When
all lines are shorter than the sequence, further calls return the rest of the stream. -/
theorem stream_lossless {cpus : Cpus} {rings : Nat → List Reserved} {acts : List Act} {last : Pipe}
    {past : List Seen} (ran : run observe (opened cpus rings) acts = some (last, past)) :
    Lossless rings past last ∧
      (last.phase = .idle → last.Short → ∀ counts : List Nat, (∀ cnt ∈ counts, 0 < cnt) →
        last.pending ≤ counts.length → ∃ calls final later, calls.map Prod.fst <+: counts ∧
            run observe last (callActs calls) = some (final, later) ∧
            Lossless rings (past ++ later) final ∧ final.Drained) := by
  have fitsFirst : Phase.Fits init .idle := TraceSeq.writable_init.fits
  obtain ⟨fits, lossless⟩ := lossless_run fitsFirst (lossless_opened cpus rings) ran
  refine ⟨lossless, ?_⟩
  intro idle short counts positive enough
  obtain ⟨calls, final, later, asked, ranOn, drained⟩ := calls_drain idle fits short positive enough
  exact ⟨calls, final, later, asked, ranOn, (lossless_run fits lossless ranOn).2, drained⟩

def oneEvent : Pipe := opened ⟨2, fun _ => true⟩ (fun cpu => if cpu = 1 then [shortEvent] else [])

def oneByte : List Act := [.call 1, .advance, .advance, .advance]

theorem stream_lossless_oneByte : ∃ last past, run observe oneEvent oneByte = some (last, past) ∧
      Lossless oneEvent.reader.rings past last := by
  have returns : (run observe oneEvent oneByte).isSome = true := by decide +kernel
  obtain ⟨⟨last, past⟩, ran⟩ := isSome_iff_exists.mp returns
  exact ⟨last, past, ran, (stream_lossless ran).1⟩

theorem lines_getLast {events : List (Nat × Reserved)} (someEvent : events ≠ []) :
    (lines events).getLast? = some Event.recordMark := by
  obtain ⟨init, last, rfl⟩ := (eq_nil_or_concat' events).resolve_left someEvent
  rw [lines, flatMap_append, flatMap_singleton, Event.line, ← append_assoc, getLast?_concat]

/-- The call consumes the event and returns the first byte of its line, which is no
sequence of complete lines. -/
theorem oneByte_cuts :
    ((run observe oneEvent oneByte).map fun reached => reached.2.flatMap Seen.bytes) =
        some (shortEvent.val.line.take 1) ∧
      ∀ events, lines events ≠ shortEvent.val.line.take 1 := by
  have first : shortEvent.val.line.take 1 = [0x31] := by decide +kernel
  refine ⟨by decide +kernel, ?_⟩
  rw [first]
  intro events same
  have someEvent : events ≠ [] := by
    rintro rfl
    cases same
  have ends := lines_getLast someEvent
  rw [same] at ends
  cases ends

end Pipe

end Elkeid.Trace
