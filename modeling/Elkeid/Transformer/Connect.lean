import Elkeid.Transformer.Robust

/-!
# De-duplication of connections

The arm for data type 42 drops an event whose session, address, port and result it has
seen within the last half hour. It remembers the four values as one byte string, so
two connections that differ only in where one value ends and the next begins are one
to it.
-/

namespace Elkeid.Transformer

open Foundations List Option

structure ConnectCall where
  time : Nat
  timestamp : UInt64
  data : Bytes
  dst : Bytes
  dstBound : dst.length < 2 ^ 64
  values : List Bytes
  isConnect : splitRecord data = some (.ok ⟨42, values⟩)

/-- The session id, the destination's address and port, and the result. -/
def ConnectCall.fields (call : ConnectCall) : Bytes × Bytes × Bytes × Bytes :=
  (call.values.getD 6 [], call.values.getD 13 [], call.values.getD 14 [], call.values.getD 17 [])

/-- The event goes nowhere: `transform` returns `Ok(0)`. -/
def suppressed : Except Failure (Nat × Bytes) → Bool
  | .ok (written, _) => written == 0
  | .error _ => false

section Calls

variable {Caches : Type} (lookups : Lookups Caches)

def ConnectCall.run (state : State Caches) (call : ConnectCall) :
    Option (Except Failure (Nat × Bytes) × State Caches) :=
  transform lookups state call.time call.timestamp call.data call.dst

def ConnectCall.Unfiltered (call : ConnectCall) : Prop :=
  filteredAddress lookups (call.values.getD 12 []) (call.values.getD 13 []) = false

def afterConnects (state : State Caches) : List ConnectCall → Option (State Caches)
  | [] => some state
  | call :: rest => do
      let (_, state) ← call.run lookups state
      afterConnects state rest

/-- Every call that is not filtered is suppressed if and only if an earlier one that is
not filtered had its four fields. -/
def ExactlyDeduplicated (state : State Caches) (calls : List ConnectCall) : Prop :=
  ∀ before call after, calls = before ++ call :: after → call.Unfiltered lookups →
    ∃ middle result last, afterConnects lookups state before = some middle ∧
      call.run lookups middle = some (result, last) ∧
      (suppressed result = true ↔
        ∃ earlier ∈ before, earlier.Unfiltered lookups ∧ earlier.fields = call.fields)

end Calls

/-- The blocks that go on to the next one and leave `connect_filter` alone. -/
def Step.passes : Step → Bool
  | .connectFilter | .dnsWhitelist | .argvUnless .. | .argvDynamic .. => false
  | _ => true

section Passing

variable {Caches : Type} (lookups : Lookups Caches) {time : Nat}

theorem perform_passes {state : State Caches} {values : List Bytes} {step : Step}
    (passes : step.passes = true) {progress : Progress Caches}
    (performed : perform lookups time state values step = some progress) :
    ∃ next values, progress = .next next values ∧ next.connectFilter = state.connectFilter := by
  cases step with
  | connectFilter | dnsWhitelist | argvUnless | argvDynamic => cases passes
  | exeFilter =>
    simp only [perform, bind_eq_bind, bind_eq_some_iff] at performed
    obtain ⟨_, _, performed⟩ := performed
    split at performed
    next =>
      cases performed
      exact ⟨_, _, rfl, rfl⟩
    next =>
      obtain ⟨_, _, ⟨⟩⟩ := bind_eq_some_iff.mp performed
      exact ⟨_, _, rfl, rfl⟩
  | podName slot =>
    simp only [perform, bind_eq_bind, bind_eq_some_iff] at performed
    obtain ⟨_, _, _, _, performed⟩ := performed
    split at performed
    next =>
      simp only [bind_eq_some_iff] at performed
      obtain ⟨_, _, _, _, ⟨⟩⟩ := performed
      exact ⟨_, _, rfl, rfl⟩
    next =>
      obtain ⟨_, _, ⟨⟩⟩ := bind_eq_some_iff.mp performed
      exact ⟨_, _, rfl, rfl⟩
  | _ =>
    simp only [perform, bind_eq_bind, bind_eq_some_iff] at performed
    obtain ⟨_, _, _, _, performed⟩ := performed
    first
    | cases performed
      exact ⟨_, _, rfl, rfl⟩
    | obtain ⟨_, _, performed⟩ := performed
      cases performed
      exact ⟨_, _, rfl, rfl⟩

theorem performAll_passes {state : State Caches} {values : List Bytes} {arm : List Step}
    (passes : ∀ step ∈ arm, step.passes = true) {progress : Progress Caches}
    (performed : performAll lookups time state values arm = some progress) :
    ∃ next values, progress = .next next values ∧ next.connectFilter = state.connectFilter := by
  induction arm generalizing state values with
  | nil =>
    cases performed
    exact ⟨_, _, rfl, rfl⟩
  | cons step rest ih =>
    obtain ⟨first, others⟩ := forall_mem_cons.mp passes
    rw [performAll, bind_eq_bind] at performed
    obtain ⟨middle, stepped, performed⟩ := bind_eq_some_iff.mp performed
    obtain ⟨next, nextValues, rfl, kept⟩ := perform_passes lookups first stepped
    obtain ⟨last, lastValues, ends, keptLater⟩ := ih others performed
    exact ⟨last, lastValues, ends, keptLater.trans kept⟩

end Passing

section Run

variable {Caches : Type} (lookups : Lookups Caches)

theorem ConnectCall.run_spec (state : State Caches) (call : ConnectCall) :
    ∃ result next, call.run lookups state = some (result, next) ∧
      suppressed result = (connectDecision lookups state.connectFilter call.time call.values).1 ∧
      next.connectFilter =
        (connectDecision lookups state.connectFilter call.time call.values).2 := by
  obtain ⟨_, returned⟩ | ⟨_, _, returned⟩ | ⟨_, _, slots, _, handled, length, split⟩ :=
    splitRecord_cases call.data
  · cases call.isConnect.symm.trans returned
  · cases call.isConnect.symm.trans returned
  cases call.isConnect.symm.trans split
  have fits := armFits handled
  obtain ⟨keys, keyed, nonempty, fewer⟩ := fits.keyed
  have arm : steps 42 = .exeFilter :: .connectFilter :: (enrich 18 ++ [.pidTree 24]) := rfl
  have inside := fits.inside
  rw [arm, forall_mem_cons, forall_mem_cons] at inside
  obtain ⟨exeInside, connectInside, restInside⟩ := inside
  have long : 17 < call.values.length := length.symm ▸ connectInside 17 (by decide)
  obtain ⟨counted, performed, sameFilter⟩ := perform_exeFilter lookups call.time state
    (show 1 < call.values.length by omega)
  have tested := filterConnect_eq lookups counted.connectFilter call.time long
  rw [sameFilter] at tested
  rw [ConnectCall.run, transform, call.isConnect]
  simp only [bind_eq_bind, bind_some, keyed, arm]
  rw [performAll, performed, bind_eq_bind, bind_some]
  dsimp only
  rw [performAll, perform, sameFilter, tested]
  simp only [bind_eq_bind, bind_some]
  cases (connectDecision lookups state.connectFilter call.time call.values).1 with
  | true => exact ⟨_, _, rfl, rfl, rfl⟩
  | false =>
    have goesOn : ∀ step ∈ enrich 18 ++ [.pidTree 24], step.passes = true := by decide
    obtain ⟨progress, enriched, kept⟩ := performAll_keeps lookups call.time
      { counted with connectFilter :=
        (connectDecision lookups state.connectFilter call.time call.values).2 } length restInside
    obtain ⟨last, values, rfl, lastFilter⟩ := performAll_passes lookups goesOn enriched
    simp only [Bool.false_eq_true, if_false, bind_some, enriched]
    obtain ⟨error, encoded⟩ | ⟨written, next, encoded, positive⟩ :=
      @Wire.protobufEncode_returns keys values call.dst call.timestamp.toNat 42 fits.positive
        nonempty ((kept last values rfl).symm ▸ fewer) (by decide) call.timestamp.toNat_lt
        call.dstBound
    · rw [encoded]
      exact ⟨_, _, rfl, rfl, lastFilter⟩
    · rw [encoded]
      exact ⟨_, _, rfl, beq_false_of_ne positive.ne', lastFilter⟩

/-- What the filter knows until `deadline`: the keys of the calls that were not filtered. -/
def Remembers (deadline : Nat) (connectFilter : TtlCache) (calls : List ConnectCall) : Prop :=
  ∀ time ≤ deadline, ∀ key, (connectFilter.getMut time key).isSome = true ↔
    ∃ earlier ∈ calls, earlier.Unfiltered lookups ∧ connectKey earlier.values = key

theorem remembers_empty (deadline : Nat) : Remembers lookups deadline TtlCache.empty [] := by
  intro time _ key
  refine iff_of_false Bool.false_ne_true ?_
  rintro ⟨_, listed, _⟩
  cases listed

theorem getMut_insert {cache : TtlCache} {now time value window : Nat} (alive : time ≤ now + window)
    (key other : Bytes) :
    ((cache.insert now key value window).getMut time other).isSome =
      (decide (other = key) || (cache.getMut time other).isSome) := by
  by_cases same : other = key
  · subst same
    have written : cache.insert now other value window other = some ⟨value, now + window⟩ :=
      Function.update_self ..
    simp [TtlCache.getMut, written, Nat.not_lt.mpr alive]
  · have kept : cache.insert now key value window other = cache other :=
      Function.update_of_ne same ..
    simp [TtlCache.getMut, kept, same]

theorem mem_snoc_iff {calls : List ConnectCall} {call : ConnectCall} {P : ConnectCall → Prop} :
    (∃ earlier ∈ calls ++ [call], P earlier) ↔ (∃ earlier ∈ calls, P earlier) ∨ P call := by
  simp [or_and_right, exists_or]

theorem connectDecision_spec {deadline : Nat} {connectFilter : TtlCache} {calls : List ConnectCall}
    (remembers : Remembers lookups deadline connectFilter calls) {call : ConnectCall}
    (timely : call.time ≤ deadline) (recent : deadline ≤ call.time + connectFilterTime) :
    (call.Unfiltered lookups →
      ((connectDecision lookups connectFilter call.time call.values).1 = true ↔
        ∃ earlier ∈ calls, earlier.Unfiltered lookups ∧
          connectKey earlier.values = connectKey call.values)) ∧
    Remembers lookups deadline (connectDecision lookups connectFilter call.time call.values).2
      (calls ++ [call]) := by
  rw [connectDecision]
  split
  next filtered =>
    have notUnfiltered : ¬ call.Unfiltered lookups := by
      rw [ConnectCall.Unfiltered, filtered]
      exact Bool.noConfusion
    refine ⟨fun unfiltered => absurd unfiltered notUnfiltered, ?_⟩
    intro time within key
    rw [mem_snoc_iff, or_iff_left (fun last => notUnfiltered last.1)]
    exact remembers time within key
  next passed =>
    have unfiltered : call.Unfiltered lookups := Bool.eq_false_of_not_eq_true passed
    have known := remembers call.time timely (connectKey call.values)
    split
    next seen =>
      refine ⟨fun _ => iff_of_true rfl (known.mp seen), ?_⟩
      intro time within key
      rw [mem_snoc_iff, or_iff_left_of_imp]
      · exact remembers time within key
      · rintro ⟨_, rfl⟩
        exact known.mp seen
    next unseen =>
      refine ⟨fun _ => iff_of_false Bool.false_ne_true (mt known.mpr unseen), ?_⟩
      intro time within key
      rw [mem_snoc_iff, getMut_insert (within.trans recent), Bool.or_eq_true, decide_eq_true_iff,
        remembers time within key, or_comm]
      apply or_congr_right
      constructor
      · rintro rfl
        exact ⟨unfiltered, rfl⟩
      · rintro ⟨_, rfl⟩
        rfl

/-- The calls that a filter filled since `start` can tell apart by time. -/
def Timely (start : Nat) (calls : List ConnectCall) : Prop :=
  ∀ call ∈ calls, start ≤ call.time ∧ call.time ≤ start + connectFilterTime

instance (start : Nat) (calls : List ConnectCall) : Decidable (Timely start calls) :=
  inferInstanceAs (Decidable (∀ call ∈ calls, _))

theorem afterConnects_remembers {start : Nat} {state : State Caches} {past calls : List ConnectCall}
    (remembers : Remembers lookups (start + connectFilterTime) state.connectFilter past)
    (timely : Timely start calls) :
    ∃ last, afterConnects lookups state calls = some last ∧
      Remembers lookups (start + connectFilterTime) last.connectFilter (past ++ calls) := by
  induction calls generalizing state past with
  | nil => exact ⟨state, rfl, (append_nil past).symm ▸ remembers⟩
  | cons call rest ih =>
    obtain ⟨⟨late, early⟩, others⟩ := forall_mem_cons.mp timely
    obtain ⟨result, next, ran, _, nextFilter⟩ := call.run_spec lookups state
    have remembered := (connectDecision_spec lookups remembers early
      (Nat.add_le_add_right late _)).2
    rw [← nextFilter] at remembered
    obtain ⟨last, finished, lastRemembers⟩ := ih remembered others
    refine ⟨last, ?_, ?_⟩
    · rw [afterConnects, ran]
      exact finished
    · rw [append_assoc, singleton_append] at lastRemembers
      exact lastRemembers

theorem suppressed_iff {start : Nat} {state : State Caches} {before : List ConnectCall}
    {call : ConnectCall} (fresh : state.connectFilter = TtlCache.empty)
    (timely : Timely start (before ++ [call])) (unfiltered : call.Unfiltered lookups) :
    ∃ middle result last, afterConnects lookups state before = some middle ∧
      call.run lookups middle = some (result, last) ∧
      (suppressed result = true ↔ ∃ earlier ∈ before, earlier.Unfiltered lookups ∧
        connectKey earlier.values = connectKey call.values) := by
  obtain ⟨earlierTimely, callTimely⟩ := forall_mem_append.mp timely
  obtain ⟨late, early⟩ := callTimely call (mem_singleton_self call)
  obtain ⟨middle, reached, remembers⟩ := @afterConnects_remembers _ lookups start state [] before
    (fresh.symm ▸ remembers_empty lookups _) earlierTimely
  obtain ⟨result, last, ran, answer, _⟩ := call.run_spec lookups middle
  refine ⟨middle, result, last, reached, ran, ?_⟩
  rw [answer]
  exact (connectDecision_spec lookups remembers early (Nat.add_le_add_right late _)).1 unfiltered

/-- No two of the calls that are not filtered have one key for different fields. -/
def KeysTellApart (calls : List ConnectCall) : Prop :=
  ∀ first ∈ calls, ∀ second ∈ calls, first.Unfiltered lookups → second.Unfiltered lookups →
    connectKey first.values = connectKey second.values → first.fields = second.fields

theorem connectKey_of_fields {first second : ConnectCall} (same : first.fields = second.fields) :
    connectKey first.values = connectKey second.values := by
  simp only [ConnectCall.fields, Prod.mk.injEq] at same
  obtain ⟨session, address, port, outcome⟩ := same
  rw [connectKey, connectKey, session, address, port, outcome]

/-- From an empty filter and within the time that it keeps its keys, the events of a
sequence are de-duplicated exactly if and only if their keys tell them apart. -/
theorem exactlyDeduplicated_iff {start : Nat} {state : State Caches} {calls : List ConnectCall}
    (fresh : state.connectFilter = TtlCache.empty) (timely : Timely start calls) :
    ExactlyDeduplicated lookups state calls ↔ KeysTellApart lookups calls := by
  have timelyUpTo {before after : List ConnectCall} {call : ConnectCall}
      (cut : calls = before ++ call :: after) : Timely start (before ++ [call]) := by
    intro other listed
    apply timely
    rw [cut, ← singleton_append, ← append_assoc]
    exact mem_append_left _ listed
  constructor
  · intro exactly
    suffices upTo : ∀ before after, calls = before ++ after → KeysTellApart lookups before from
      upTo calls [] (append_nil calls).symm
    intro before
    induction before using reverseRecOn with
    | nil =>
      intro _ _ first listed
      cases listed
    | append_singleton before call ih =>
      intro after cut
      rw [append_assoc, singleton_append] at cut
      have earlierApart := ih (call :: after) cut
      -- a call is suppressed for its key, and exactness finds its fields among the earlier ones
      have sameFields : ∀ earlier ∈ before, earlier.Unfiltered lookups → call.Unfiltered lookups →
          connectKey earlier.values = connectKey call.values → earlier.fields = call.fields := by
        intro earlier listed earlierUnfiltered unfiltered sameKey
        obtain ⟨_, _, _, reached, ran, answer⟩ :=
          suppressed_iff lookups fresh (timelyUpTo cut) unfiltered
        obtain ⟨_, _, _, alsoReached, alsoRan, shouldAnswer⟩ :=
          exactly before call after cut unfiltered
        cases reached.symm.trans alsoReached
        cases ran.symm.trans alsoRan
        have dropped := answer.mpr ⟨earlier, listed, earlierUnfiltered, sameKey⟩
        obtain ⟨twin, twinListed, twinUnfiltered, twinFields⟩ := shouldAnswer.mp dropped
        have twinKey := sameKey.trans (connectKey_of_fields twinFields).symm
        exact (earlierApart earlier listed twin twinListed earlierUnfiltered twinUnfiltered
          twinKey).trans twinFields
      intro first firstListed second secondListed firstUnfiltered secondUnfiltered sameKey
      rcases mem_append.mp firstListed with firstEarlier | firstLast
      · rcases mem_append.mp secondListed with secondEarlier | secondLast
        · exact earlierApart first firstEarlier second secondEarlier firstUnfiltered
            secondUnfiltered sameKey
        · cases mem_singleton.mp secondLast
          exact sameFields first firstEarlier firstUnfiltered secondUnfiltered sameKey
      · cases mem_singleton.mp firstLast
        rcases mem_append.mp secondListed with secondEarlier | secondLast
        · exact (sameFields second secondEarlier secondUnfiltered firstUnfiltered sameKey.symm).symm
        · cases mem_singleton.mp secondLast
          rfl
  · intro apart before call after cut unfiltered
    obtain ⟨middle, result, last, reached, ran, answer⟩ :=
      suppressed_iff lookups fresh (timelyUpTo cut) unfiltered
    refine ⟨middle, result, last, reached, ran, answer.trans ?_⟩
    constructor
    · rintro ⟨earlier, listed, alsoUnfiltered, sameKey⟩
      refine ⟨earlier, listed, alsoUnfiltered, ?_⟩
      apply apart earlier _ call _ alsoUnfiltered unfiltered sameKey
      · exact cut ▸ mem_append_left _ listed
      · exact cut ▸ mem_append_right _ mem_cons_self
    · rintro ⟨earlier, listed, alsoUnfiltered, sameFields⟩
      exact ⟨earlier, listed, alsoUnfiltered, connectKey_of_fields sameFields⟩

end Run

/-- A parser that knows two addresses, 1.2.3.4 and 11.2.3.4. -/
def twoAddresses : Lookups Unit :=
  { noLookups with
    parseIpv4 := fun text =>
      if text = Text.ofChars "1.2.3.4".toList then some 0x01020304
      else if text = Text.ofChars "11.2.3.4".toList then some 0x0b020304
      else none }

/-- The values that the kernel prints for a connection of the given session to the
given address, port 80. -/
def connectValues (session address : String) : List Bytes :=
  keys ["0", "/usr/bin/curl", "7", "1", "7", "7", session, "curl", "h", "1", "1", "1", "2", address,
    "80", "10.0.0.1", "4000", "0"]

def connectCall (session address : String) (time : Nat)
    (isConnect : splitRecord
      (keys ["42"] ++ connectValues session address |>.intersperse [separator]
      |>.flatten) = some (.ok ⟨42, connectValues session address ++ replicate 7 []⟩)) :
    ConnectCall :=
  ⟨time, 1700000000, _, replicate 64 0, by decide, _, isConnect⟩

theorem exactlyDeduplicated_repeated : ExactlyDeduplicated twoAddresses newState
      [connectCall "11" "1.2.3.4" 0 rfl, connectCall "11" "1.2.3.4" 1 rfl] := by
  apply (@exactlyDeduplicated_iff _ twoAddresses 0 newState _ rfl (by decide)).mpr
  have same : ∀ call ∈ [connectCall "11" "1.2.3.4" 0 rfl, connectCall "11" "1.2.3.4" 1 rfl],
      call.fields = (connectCall "11" "1.2.3.4" 0 rfl).fields := by decide
  intro first firstListed second secondListed _ _ _
  exact (same first firstListed).trans (same second secondListed).symm

def sessionEleven : ConnectCall := connectCall "11" "1.2.3.4" 0 rfl

def sessionOne : ConnectCall := connectCall "1" "11.2.3.4" 1 rfl

theorem shiftedSession_dropped :
    ¬ ExactlyDeduplicated twoAddresses newState [sessionEleven, sessionOne] := by
  intro exactly
  obtain ⟨_, _, _, reached, ran, answer⟩ :=
    @suppressed_iff _ twoAddresses 0 newState [sessionEleven] sessionOne rfl (by decide) rfl
  obtain ⟨_, _, _, alsoReached, alsoRan, shouldAnswer⟩ :=
    exactly [sessionEleven] sessionOne [] rfl rfl
  cases reached.symm.trans alsoReached
  cases ran.symm.trans alsoRan
  have dropped := answer.mpr ⟨sessionEleven, mem_singleton_self _, rfl, rfl⟩
  obtain ⟨earlier, listed, _, sameFields⟩ := shouldAnswer.mp dropped
  cases mem_singleton.mp listed
  revert sameFields
  decide

end Elkeid.Transformer
