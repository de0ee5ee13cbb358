import Elkeid.Transformer.Transform
import Elkeid.Wire.Layout

/-!
# Records that the transformer survives

Every block of an arm stays inside the array of its arm, the driver's filters and the
encoder always return, so a record can only end the thread where it is split: behind
the data type, and in the loop that fills the array.
-/

namespace Elkeid.Transformer

open Foundations List Option

def Step.indices : Step → List Nat
  | .exeFilter => [1]
  | .execveFilter => [1, 12]
  | .connectFilter => [6, 12, 13, 14, 17]
  | .dnsWhitelist => [12]
  | .argv pid slot | .argvUnless pid slot _ | .argvDynamic pid slot => [pid, slot]
  | .username uid slot => [uid, slot]
  | .podName slot => [6, 10, 11, slot]
  | .exeHash slot => [1, slot]
  | .pidTree slot => [5, slot]
  | .putArgv => [5, 12]
  | .insertPidTree tree => [5, tree]

/-- The facts about an arm that its blocks and the encoding rest on. -/
structure ArmFits (dataType slots : Nat) : Prop where
  positive : 0 < dataType
  small : dataType < 2 ^ 32
  keyed : ∃ keys, schema dataType = some keys ∧ keys ≠ [] ∧ keys.length ≤ slots
  inside : ∀ step ∈ steps dataType, ∀ index ∈ step.indices, index < slots

theorem armFits {dataType slots : Nat} (handled : valueSlots dataType = some slots) :
    ArmFits dataType slots := by
  unfold valueSlots at handled
  split at handled
  all_goals
    first
    | cases handled
      exact ⟨by decide, by decide, ⟨_, rfl, by decide, by decide⟩, by decide⟩
    | cases handled

theorem exists_added {full : Prop} [Decidable full] {entries : List Kmod.Entry}
    (notEmpty : full → entries ≠ [])
    (replaced : Kmod.Entry → List Kmod.Entry → Kmod.Queues × List Bytes)
    (appended : Kmod.Queues × List Bytes) :
    ∃ next written, (if full then
        match entries with
        | [] => none
        | front :: rest => some (replaced front rest)
      else some appended) = some (next, written) := by
  split
  next isFull =>
    obtain ⟨front, rest, rfl⟩ := exists_cons_of_ne_nil (notEmpty isFull)
    exact ⟨_, _, rfl⟩
  next => exact ⟨_, _, rfl⟩

theorem addFilteredExe_isSome {queues : Kmod.Queues} (opened : queues.controler = true) (now : Nat)
    (exe : Bytes) : ∃ next written, queues.addFilteredExe now exe = some (next, written) := by
  rw [Kmod.Queues.addFilteredExe, if_pos opened]
  exact exists_added (fun full => ne_nil_of_length_pos (Nat.zero_lt_of_lt full)) _ _

theorem addFilteredArgv_isSome {queues : Kmod.Queues} (opened : queues.controler = true) (now : Nat)
    (argv : Bytes) : ∃ next written, queues.addFilteredArgv now argv = some (next, written) := by
  rw [Kmod.Queues.addFilteredArgv, if_pos opened]
  exact exists_added
    (fun full => ne_nil_of_length_pos (lt_of_lt_of_le (by decide) full)) _ _

theorem LiveKmod.call_isSome (kmod : LiveKmod) (now : Nat) (call : Call) :
    ∃ next, kmod.call now call = some next := by
  cases call with
  | addFilteredExe exe =>
    obtain ⟨_, _, added⟩ := addFilteredExe_isSome kmod.property now exe
    rw [LiveKmod.call]
    split
    next missing => cases missing.symm.trans added
    next => exact ⟨_, rfl⟩
  | addFilteredArgv argv =>
    obtain ⟨_, _, added⟩ := addFilteredArgv_isSome kmod.property now argv
    rw [LiveKmod.call]
    split
    next missing => cases missing.symm.trans added
    next => exact ⟨_, rfl⟩

theorem LiveKmod.calls_isSome (kmod : LiveKmod) (now : Nat) (calls : List Call) :
    ∃ next, calls.foldlM (fun kmod call => LiveKmod.call kmod now call) kmod = some next := by
  induction calls generalizing kmod with
  | nil => exact ⟨kmod, rfl⟩
  | cons call calls ih =>
    obtain ⟨next, called⟩ := kmod.call_isSome now call
    rw [foldlM_cons, called]
    exact ih next

/-- The block has returned and has left the array as long as it was. -/
def Keeps {Caches : Type} (slots : Nat) (result : Option (Progress Caches)) : Prop :=
  ∃ progress, result = some progress ∧
    ∀ state values, progress = .next state values → values.length = slots

theorem getElem?_eq_getD {values : List Bytes} {index : Nat} (inside : index < values.length) :
    values[index]? = some (values.getD index []) := by
  rw [getD_eq_getElem _ _ inside, getElem?_eq_getElem inside]

def connectKey (values : List Bytes) : Bytes :=
  values.getD 6 [] ++ values.getD 13 [] ++ values.getD 14 [] ++ values.getD 17 []

section Blocks

variable {Caches : Type} {slots : Nat}

/-- The test of an event whose array has all its slots. -/
def connectDecision (lookups : Lookups Caches) (connectFilter : TtlCache) (time : Nat)
    (values : List Bytes) : Bool × TtlCache :=
  if filteredAddress lookups (values.getD 12 []) (values.getD 13 []) then (true, connectFilter)
  else if (connectFilter.getMut time (connectKey values)).isSome then (true, connectFilter)
  else (false, connectFilter.insert time (connectKey values) 0 connectFilterTime)

variable {values : List Bytes}

theorem filterConnect_eq (lookups : Lookups Caches) (connectFilter : TtlCache) (time : Nat)
    (long : 17 < values.length) :
    filterConnect lookups connectFilter time values =
      some (connectDecision lookups connectFilter time values) := by
  have fetched {index : Nat} (early : index ≤ 17) := getElem?_eq_getD (early.trans_lt long)
  rw [connectDecision, apply_ite some, apply_ite some]
  simp only [filterConnect, @fetched 13 (by decide), @fetched 12 (by decide),
    @fetched 6 (by decide), @fetched 14 (by decide), @fetched 17 (by decide),
    bind_eq_bind, bind_some, connectKey]
  rfl

theorem Keeps.next {state : State Caches} (length : values.length = slots) :
    Keeps slots (some (.next state values)) := by
  refine ⟨_, rfl, ?_⟩
  rintro _ _ ⟨⟩
  exact length

theorem Keeps.skipped (state : State Caches) : Keeps slots (some (.skipped state)) :=
  ⟨_, rfl, fun _ _ same => nomatch same⟩

theorem Keeps.stored {state : State Caches} (length : values.length = slots)
    {slot : Nat} (inside : slot < slots) (value : Bytes) :
    Keeps slots ((store values slot value).bind fun values => some (.next state values)) := by
  rw [store, if_pos (length.symm ▸ inside), bind_some]
  exact Keeps.next (length_set.trans length)

variable (lookups : Lookups Caches) (time : Nat) (state : State Caches) {values : List Bytes}

theorem perform_exeFilter (long : 1 < values.length) :
    ∃ next, perform lookups time state values .exeFilter = some (.next next values) ∧
      next.connectFilter = state.connectFilter := by
  obtain ⟨kmod, called⟩ := state.kmod.calls_isSome time
    (countExe state.filters.exeFilter ⟨time, values⟩).2
  simp only [perform, getElem?_eq_getD long, bind_eq_bind, bind_some, called]
  split <;> exact ⟨_, rfl, rfl⟩

theorem perform_keeps (length : values.length = slots) {step : Step}
    (inside : ∀ index ∈ step.indices, index < slots) :
    Keeps slots (perform lookups time state values step) := by
  have fetched : ∀ index ∈ step.indices, values[index]? = some (values.getD index []) :=
    fun index listed => getElem?_eq_getD (length.symm ▸ inside index listed)
  cases step with
  | exeFilter =>
    obtain ⟨next, performed, _⟩ := perform_exeFilter lookups time state
      (length.symm ▸ inside 1 (by decide))
    rw [performed]
    exact Keeps.next length
  | connectFilter =>
    have long : 17 < values.length := length.symm ▸ inside 17 (by decide)
    simp only [perform, filterConnect_eq lookups state.connectFilter time long,
      bind_eq_bind, bind_some]
    cases (connectDecision lookups state.connectFilter time values).1 with
    | true => exact Keeps.skipped _
    | false => exact Keeps.next length
  | execveFilter =>
    obtain ⟨kmod, called⟩ := state.kmod.calls_isSome time
      (filterExecve state.filters ⟨time, values⟩).2.calls
    simp only [Step.indices, forall_mem_cons] at fetched
    simp only [perform, fetched, bind_eq_bind, bind_some, called]
    exact Keeps.next length
  | dnsWhitelist =>
    simp only [Step.indices, forall_mem_cons] at fetched
    simp only [perform, fetched, bind_eq_bind, bind_some]
    split
    next => exact Keeps.skipped _
    next => exact Keeps.next length
  | putArgv | insertPidTree =>
    simp only [Step.indices, forall_mem_cons] at fetched
    simp only [perform, fetched, bind_eq_bind, bind_some]
    exact Keeps.next length
  | argv | username | exeHash | pidTree =>
    simp only [Step.indices, forall_mem_cons] at fetched inside
    simp only [perform, fetched, bind_eq_bind, bind_some]
    exact Keeps.stored length inside.2.1 _
  | argvUnless | argvDynamic =>
    simp only [Step.indices, forall_mem_cons] at fetched inside
    simp only [perform, fetched, bind_eq_bind, bind_some]
    split
    next => exact Keeps.skipped _
    next => exact Keeps.stored length inside.2.1 _
  | podName =>
    simp only [Step.indices, forall_mem_cons] at fetched inside
    simp only [perform, fetched, bind_eq_bind, bind_some]
    split <;> exact Keeps.stored length inside.2.2.2.1 _

theorem performAll_keeps (length : values.length = slots) {arm : List Step}
    (inside : ∀ step ∈ arm, ∀ index ∈ step.indices, index < slots) :
    Keeps slots (performAll lookups time state values arm) := by
  induction arm generalizing state values with
  | nil => exact Keeps.next length
  | cons step rest ih =>
    obtain ⟨first, others⟩ := forall_mem_cons.mp inside
    obtain ⟨progress, performed, kept⟩ := perform_keeps lookups time state length first
    rw [performAll, performed, bind_eq_bind, bind_some]
    cases progress with
    | next state values => exact ih state (kept state values rfl) others
    | skipped state => exact Keeps.skipped state

end Blocks

/-- What the splitting asks of a record: a number in front is followed by a separator,
and the number of a handled data type by no more than its array has slots. -/
def Separable (data : Bytes) : Prop :=
  ∀ dataType, parseU32 (data.takeWhile (· ≠ separator)) = some dataType →
    separator ∈ data ∧ ∀ slots, valueSlots dataType = some slots → data.count separator ≤ slots

variable {data : Bytes}

theorem split_separator (separated : separator ∈ data) :
    data = data.takeWhile (· ≠ separator) ++
      separator :: data.drop ((data.takeWhile (· ≠ separator)).length + 1) := by
  induction data with
  | nil => cases separated
  | cons byte rest ih =>
    by_cases here : byte = separator
    · rw [takeWhile_cons_of_neg (by simp [here]), here]
      rfl
    · have later : separator ∈ rest := (mem_cons.mp separated).resolve_left (Ne.symm here)
      rw [takeWhile_cons_of_pos (by simp [here]), length_cons, drop_succ_cons,
        cons_append, ← ih later]

theorem not_mem_takeWhile (data : Bytes) : separator ∉ data.takeWhile (· ≠ separator) := by
  intro listed
  have passes := mem_takeWhile_imp listed
  simp at passes

theorem count_separator (separated : separator ∈ data) :
    ((data.drop ((data.takeWhile (· ≠ separator)).length + 1)).splitOn separator).length =
      data.count separator := by
  rw [Separated.length_splitOn]
  conv_rhs => rw [split_separator separated]
  rw [count_append, count_cons_self, count_eq_zero_of_not_mem (not_mem_takeWhile data),
    zero_add]

theorem no_separator_iff :
    data.length < (data.takeWhile (· ≠ separator)).length + 1 ↔ separator ∉ data := by
  constructor
  · intro short separated
    have length := congrArg length (split_separator separated)
    rw [length_append, length_cons] at length
    omega
  · intro absent
    have whole : data.takeWhile (· ≠ separator) = data := by
      apply takeWhile_eq_self_iff.mpr
      intro byte listed
      exact decide_eq_true (fun same => absent (same ▸ listed))
    rw [whole]
    exact Nat.lt_succ_self _

theorem splitRecord_cases (data : Bytes) :
    (¬ Separable data ∧ splitRecord data = none) ∨
    (Separable data ∧ ∃ error, splitRecord data = some (.error error)) ∨
    (Separable data ∧ ∃ dataType slots values, valueSlots dataType = some slots ∧
      values.length = slots ∧ splitRecord data = some (.ok ⟨dataType, values⟩)) := by
  rw [splitRecord]
  cases parsed : parseU32 (data.takeWhile (· ≠ separator)) with
  | none =>
    refine .inr (.inl ⟨?_, _, rfl⟩)
    intro dataType alsoParsed
    cases parsed.symm.trans alsoParsed
  | some dataType =>
    dsimp only
    split
    next short =>
      refine .inl ⟨?_, rfl⟩
      intro separable
      exact no_separator_iff.mp short (separable dataType parsed).1
    next long =>
      have separated : separator ∈ data := by
        by_contra absent
        exact long (no_separator_iff.mpr absent)
      cases handled : valueSlots dataType with
      | none =>
        refine .inr (.inl ⟨?_, _, rfl⟩)
        intro other alsoParsed
        cases parsed.symm.trans alsoParsed
        exact ⟨separated, fun slots alsoHandled => nomatch handled.symm.trans alsoHandled⟩
      | some slots =>
        dsimp only
        rw [splitLoop_start]
        dsimp only
        rw [count_separator separated]
        split
        next fits =>
          refine .inr (.inr ⟨?_, dataType, slots, _, handled, ?_, rfl⟩)
          · intro other alsoParsed
            cases parsed.symm.trans alsoParsed
            refine ⟨separated, fun others alsoHandled => ?_⟩
            cases handled.symm.trans alsoHandled
            exact fits
          · rw [length_append, length_replicate, count_separator separated]
            exact Nat.add_sub_of_le fits
        next overfull =>
          refine .inl ⟨?_, rfl⟩
          intro separable
          exact overfull ((separable dataType parsed).2 slots handled)

section Transform

variable {Caches : Type} (lookups : Lookups Caches)

/-- A call returns exactly on the records that can be split. -/
theorem transform_returns_iff (state : State Caches) (time : Nat) (timestamp : UInt64)
    (data dst : Bytes) (dstBound : dst.length < 2 ^ 64) :
    (∃ result, transform lookups state time timestamp data dst = some result) ↔
      Separable data := by
  rw [transform]
  obtain ⟨inseparable, split⟩ | ⟨separable, error, split⟩ |
    ⟨separable, dataType, slots, values, handled, length, split⟩ := splitRecord_cases data
  · rw [split]
    refine iff_of_false ?_ inseparable
    rintro ⟨_, returned⟩
    cases returned
  · rw [split]
    exact iff_of_true ⟨_, rfl⟩ separable
  · have fits := armFits handled
    obtain ⟨keys, keyed, nonempty, fewer⟩ := fits.keyed
    obtain ⟨progress, performed, kept⟩ :=
      performAll_keeps lookups time state length fits.inside
    refine iff_of_true ?_ separable
    simp only [split, keyed, performed, bind_eq_bind, bind_some]
    cases progress with
    | skipped state => exact ⟨_, rfl⟩
    | next state values =>
      have filled := kept state values rfl
      obtain ⟨error, encoded⟩ | ⟨written, next, encoded, _⟩ :=
        @Wire.protobufEncode_returns keys values dst timestamp.toNat dataType fits.positive nonempty
          (filled.symm ▸ fewer) (fits.small.trans (by decide)) timestamp.toNat_lt dstBound
      all_goals
        simp only [encoded, bind_some]
        exact ⟨_, rfl⟩

end Transform

def noLookups : Lookups Unit where
  argvGet _ _ := (unknownValue, ())
  argvPut _ _ _ := ()
  userGet _ _ := (unknownValue, ())
  nsGet _ _ _ := (unknownValue, ())
  hashGet _ _ := (unknownValue, ())
  pidTreeGet _ _ := (none, ())
  pidTreeInsert _ _ _ := ()
  parseIpv4 _ := none
  parseIpv6 _ := none

def newState : State Unit :=
  ⟨(), TtlCache.empty, ⟨TtlCache.empty, TtlCache.empty⟩, TtlCache.empty, ⟨⟨[], [], true⟩, rfl⟩⟩

/-- `700`, a separator and the name of a module. -/
theorem transform_returns_moduleName :
    ∃ result, transform noLookups newState 0 1700000000 [0x37, 0x30, 0x30, 0x1e, 0x78]
      (replicate 64 0) = some result := by
  apply (transform_returns_iff noLookups newState 0 1700000000 _ _ (by decide)).mpr
  intro dataType parsed
  cases parsed
  refine ⟨by decide, ?_⟩
  rintro _ ⟨⟩
  decide

/-- The bytes `59` without a separator behind them, and `607` with four values for three slots. -/
theorem transform_panics :
    transform noLookups newState 0 1700000000 [0x35, 0x39] (replicate 64 0) = none ∧
      transform noLookups newState 0 1700000000
        [0x36, 0x30, 0x37, 0x1e, 0x61, 0x1e, 0x62, 0x1e, 0x63, 0x1e, 0x64] (replicate 64 0) =
          none :=
  ⟨rfl, rfl⟩

end Elkeid.Transformer
