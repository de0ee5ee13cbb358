import Elkeid.Foundations.Since
import Elkeid.Manager.Whitelist.Worker

/-!
# The order of the updates

Every update goes through one channel, so the updates of a run form one list: those that were
applied and those that wait. Where the requests keep their order, no whitelist is added to alarms
after a deletion has named it, and the two updates of a deletion are not torn apart by another
deletion.
-/

namespace Elkeid.Manager.Whitelist

open Foundations Machine List Option

variable {matcher : Matcher}

def Update.deletes : Update matcher → Option Nat
  | .clear id _ | .pull id => some id
  | .add _ _ _ => none

namespace Request

/-- The whitelists whose `$pull` is still to be enqueued. -/
def ids : Request matcher → List Nat
  | .clearing ids => ids
  | .pulling id ids => id :: ids
  | _ => []

def named : Request matcher → List Nat
  | .deleting ids => ids
  | request => request.ids

/-- Between its two updates of one whitelist. -/
def opened : Request matcher → Option Nat
  | .pulling id _ => some id
  | _ => none

variable {request : Request matcher} {nextID : Nat}

theorem Plain.ids_eq_nil (plain : request.Plain nextID) : request.ids = [] := by
  cases plain <;> rfl

theorem Plain.opened_eq_none (plain : request.Plain nextID) : request.opened = none := by
  cases plain <;> rfl

theorem Plain.named_lt (plain : request.Plain nextID) : ∀ id ∈ request.named, id < nextID := by
  cases plain with
  | deleting ids known => exact known
  | _ => exact nofun

theorem named_of_ids {id : Nat} (listed : id ∈ request.ids) : id ∈ request.named := by
  cases request with
  | clearing | pulling => exact listed
  | _ => cases listed

variable {old new : Request matcher} {update : Update matcher}

section

variable (enqueues : old.Enqueues update new)
include enqueues

variable {id : Nat}

theorem Enqueues.ids_of_new (listed : id ∈ new.ids) : id ∈ old.ids := by
  cases enqueues with
  | add => cases listed
  | clear => exact listed
  | pull => exact mem_cons_of_mem _ listed

theorem Enqueues.ids_of_old (listed : id ∈ old.ids) : update = .pull id ∨ id ∈ new.ids := by
  cases enqueues with
  | add => cases listed
  | clear => exact .inr listed
  | pull =>
    rcases mem_cons.mp listed with rfl | later
    · exact .inl rfl
    · exact .inr later

theorem Enqueues.ids_of_update (deletes : update.deletes = some id) : id ∈ old.ids := by
  cases enqueues with
  | add => cases deletes
  | clear | pull =>
    cases deletes
    exact mem_cons_self

theorem Enqueues.named_of_new (listed : id ∈ new.named) : id ∈ old.named := by
  cases enqueues with
  | add => cases listed
  | clear => exact listed
  | pull => exact mem_cons_of_mem _ listed

end

end Request

def Event.enqueuedUpdate : Event matcher → Option (Update matcher)
  | .enqueued update => some update
  | _ => none

def Event.appliedUpdate : Event matcher → Option (Update matcher)
  | .applied update => some update
  | _ => none

def enqueued (past : List (Event matcher)) : List (Update matcher) :=
  past.filterMap Event.enqueuedUpdate

def applied (past : List (Event matcher)) : List (Update matcher) :=
  past.filterMap Event.appliedUpdate

@[simp]
theorem enqueued_concat (past : List (Event matcher)) (event : Event matcher) :
    enqueued (past ++ [event]) = enqueued past ++ event.enqueuedUpdate.toList :=
  filterMap_concat _ past event

@[simp]
theorem applied_concat (past : List (Event matcher)) (event : Event matcher) :
    applied (past ++ [event]) = applied past ++ event.appliedUpdate.toList :=
  filterMap_concat _ past event

theorem enqueued_concat_of_none {past : List (Event matcher)} {event : Event matcher}
    (notEnqueued : event.enqueuedUpdate = none) : enqueued (past ++ [event]) = enqueued past := by
  rw [enqueued_concat, notEnqueued, toList_none, append_nil]

theorem applied_concat_of_none {past : List (Event matcher)} {event : Event matcher}
    (notApplied : event.appliedUpdate = none) : applied (past ++ [event]) = applied past := by
  rw [applied_concat, notApplied, toList_none, append_nil]

instance Event.decidableArrived (index : Nat) : (event : Event matcher) →
    Decidable (event = .arrived index)
  | .arrived other => decidable_of_iff (other = index) (by rw [Event.arrived.injEq])
  | .enqueued _ | .applied _ | .found | .checked _ _ | .marked | .silent => .isFalse nofun

instance Event.decidableFound : (event : Event matcher) → Decidable (event = .found)
  | .found => .isTrue rfl
  | .arrived _ | .enqueued _ | .applied _ | .checked _ _ | .marked | .silent => .isFalse nofun

/-- Whether the last update of the pass under way selects an alarm. -/
def Store.marks (store : Store matcher) (index : Nat) : Bool :=
  match store.checker, store.alarms[index]? with
  | .checking [] updateTime, some alarm => alarm.updateTime < updateTime && !alarm.checked
  | _, _ => false

/-- An addition enqueues its update, and the checker applies a whitelist, while the whitelist
still exists; a deletion does not enqueue between the two updates of another one; and no alarm is
marked by a pass that had begun when it arrived. -/
def Event.Orderly (past : List (Event matcher)) (store : Store matcher) : Event matcher → Prop
  | .enqueued (.add filter id _) => (id, filter) ∈ store.whitelists
  | .enqueued (.clear _ _) => ∀ request ∈ store.requests, request.opened = none
  | .checked id filter => (id, filter) ∈ store.whitelists
  | .marked => ∀ index < store.alarms.length, store.marks index = true →
      ¬ Since (· = .arrived index) (· = .found) past
  | _ => True

instance Event.Orderly.decidable [DecidableEq matcher.Filter] (past : List (Event matcher))
    (store : Store matcher) : (event : Event matcher) → Decidable (event.Orderly past store)
  | .enqueued (.add filter id _) => inferInstanceAs (Decidable ((id, filter) ∈ store.whitelists))
  | .enqueued (.clear _ _) =>
    inferInstanceAs (Decidable (∀ request ∈ store.requests, request.opened = none))
  | .checked id filter => inferInstanceAs (Decidable ((id, filter) ∈ store.whitelists))
  | .marked =>
    inferInstanceAs (Decidable (∀ index < store.alarms.length, store.marks index = true →
      ¬ Since (· = .arrived index) (· = .found) past))
  | .enqueued (.pull _) | .arrived _ | .applied _ | .found | .silent => .isTrue trivial

namespace Store

variable {store next : Store matcher} {event : Event matcher} {past : List (Event matcher)}

/-! ## Deleted whitelists -/

/-- A deletion of the whitelist has come that far that its updates are or will be enqueued. -/
def Doomed (past : List (Event matcher)) (store : Store matcher) (id : Nat) : Prop :=
  (∃ update ∈ enqueued past, update.deletes = some id) ∨
    ∃ request ∈ store.requests, id ∈ request.ids

structure Registry (past : List (Event matcher)) (store : Store matcher) : Prop where
  known : ∀ request ∈ store.requests, ∀ id ∈ request.named, id < store.nextID
  fifo : enqueued past = applied past ++ store.queue
  gone : ∀ id, Doomed past store id → id < store.nextID ∧ ∀ filter, (id, filter) ∉ store.whitelists
  ordered : ∀ update filter id time, List.Sublist [update, .add filter id time] (enqueued past) →
    update.deletes ≠ some id

theorem Registry.unmoved (registry : Registry past store)
    (notEnqueued : event.enqueuedUpdate = none) (notApplied : event.appliedUpdate = none)
    (sameLists : next.whitelists = store.whitelists) (sameNext : next.nextID = store.nextID)
    (sameQueue : next.queue = store.queue) (sameRequests : next.requests = store.requests) :
    Registry (past ++ [event]) next := by
  have sameEnqueued : enqueued (past ++ [event]) = enqueued past :=
    enqueued_concat_of_none notEnqueued
  refine ⟨?_, ?_, ?_, ?_⟩
  · rw [sameRequests, sameNext]
    exact registry.known
  · rw [sameEnqueued, applied_concat_of_none notApplied, sameQueue]
    exact registry.fifo
  · intro id doomed
    rw [Doomed, sameEnqueued, sameRequests] at doomed
    rw [sameNext, sameLists]
    exact registry.gone id doomed
  · rw [sameEnqueued]
    exact registry.ordered

theorem Registry.setRequest (registry : Registry past store) {requests : List (Request matcher)}
    {whitelists : List (Nat × matcher.Filter)} {nextID : Nat} {new : Request matcher}
    (from_old : ∀ request ∈ requests, request ∈ store.requests ∨ request = new)
    (grows : store.nextID ≤ nextID) (namedLt : ∀ id ∈ new.named, id < nextID)
    (gone : ∀ id filter, (id, filter) ∈ whitelists →
      ¬ Doomed past store id ∧ id ∉ new.ids) :
    Registry (past ++ [.silent]) { store with requests, whitelists, nextID } := by
  have sameEnqueued : enqueued (past ++ [Event.silent]) = enqueued past :=
    enqueued_concat_of_none rfl
  refine ⟨?_, ?_, ?_, ?_⟩
  · intro request listed id named
    rcases from_old request listed with old | rfl
    · exact lt_of_lt_of_le (registry.known request old id named) grows
    · exact namedLt id named
  · rw [sameEnqueued, applied_concat_of_none rfl]
    exact registry.fifo
  · intro id doomed
    have split : Doomed past store id ∨ id ∈ new.ids := by
      rcases doomed with ⟨update, listed, deletes⟩ | ⟨request, listed, isID⟩
      · exact .inl (.inl ⟨update, sameEnqueued ▸ listed, deletes⟩)
      · rcases from_old request listed with old | rfl
        · exact .inl (.inr ⟨request, old, isID⟩)
        · exact .inr isID
    refine ⟨?_, ?_⟩
    · rcases split with before | isNew
      · exact lt_of_lt_of_le (registry.gone id before).1 grows
      · exact namedLt id (Request.named_of_ids isNew)
    · intro filter listed
      obtain ⟨notBefore, notNew⟩ := gone id filter listed
      exact split.elim notBefore notNew
  · rw [sameEnqueued]
    exact registry.ordered

theorem Took.registry (took : Took store next event) (orderly : event.Orderly past store)
    (registry : Registry past store) : Registry (past ++ [event]) next := by
  have notDoomed : ∀ id filter, (id, filter) ∈ store.whitelists → ¬ Doomed past store id :=
    fun id filter listed doomed => (registry.gone id doomed).2 filter listed
  cases took with
  | arrived | found | checked | marked | stamped =>
    exact registry.unmoved rfl rfl rfl rfl rfl rfl
  | started request plain =>
    refine registry.setRequest ?_ (le_refl _) plain.named_lt ?_
    · intro other listed
      exact (mem_append.mp listed).imp_right mem_singleton.mp
    · intro id filter listed
      exact ⟨notDoomed id filter listed, by rw [plain.ids_eq_nil]; exact not_mem_nil⟩
  | gaveUp index old new found _ plain =>
    refine registry.setRequest (fun _ => mem_or_eq_of_mem_set) (le_refl _) plain.named_lt ?_
    intro id filter listed
    exact ⟨notDoomed id filter listed, by rw [plain.ids_eq_nil]; exact not_mem_nil⟩
  | inserted index filter filters found =>
    refine registry.setRequest (fun _ => mem_or_eq_of_mem_set) (Nat.le_succ _) nofun ?_
    intro id other listed
    refine ⟨?_, not_mem_nil⟩
    rcases mem_append.mp listed with old | new
    · exact notDoomed id other old
    · cases mem_singleton.mp new
      -- the id is new, so no request can have named it
      exact fun doomed => lt_irrefl _ (registry.gone _ doomed).1
  | deleted index objList found =>
    refine registry.setRequest (fun _ => mem_or_eq_of_mem_set) (le_refl _)
      (fun id => registry.known _ (mem_of_getElem? found) id) ?_
    intro id filter listed
    obtain ⟨old, kept⟩ := mem_filter.mp listed
    refine ⟨notDoomed id filter old, fun isID => ?_⟩
    rw [Bool.not_eq_true', ← Bool.not_eq_true, contains_iff_mem] at kept
    exact kept isID
  | applied update rest queue =>
    refine ⟨registry.known, ?_, ?_, ?_⟩
    · rw [enqueued_concat_of_none rfl, applied_concat, registry.fifo, queue, append_assoc]
      rfl
    · intro id doomed
      rw [Doomed, enqueued_concat_of_none rfl] at doomed
      exact registry.gone id doomed
    · rw [enqueued_concat_of_none rfl]
      exact registry.ordered
  | enqueued index old update new found enqueues =>
    have isRequest := mem_of_getElem? found
    have before : ∀ id, Doomed (past ++ [.enqueued update])
        { store.setRequest index new with queue := store.queue ++ [update] } id →
          Doomed past store id := by
      rintro id (⟨other, listed, deletes⟩ | ⟨request, listed, isID⟩)
      · rw [enqueued_concat] at listed
        rcases mem_append.mp listed with earlier | this
        · exact .inl ⟨other, earlier, deletes⟩
        · cases mem_singleton.mp this
          exact .inr ⟨old, isRequest, enqueues.ids_of_update deletes⟩
      · rcases mem_or_eq_of_mem_set listed with earlier | rfl
        · exact .inr ⟨request, earlier, isID⟩
        · exact .inr ⟨old, isRequest, enqueues.ids_of_new isID⟩
    refine ⟨?_, ?_, fun id doomed => registry.gone id (before id doomed), ?_⟩
    · intro request listed id named
      rcases mem_or_eq_of_mem_set listed with earlier | rfl
      · exact registry.known request earlier id named
      · exact registry.known old isRequest id (enqueues.named_of_new named)
    · rw [enqueued_concat, applied_concat_of_none rfl, registry.fifo, append_assoc]
      rfl
    · intro other filter id time sublist deletes
      rw [enqueued_concat] at sublist
      rcases pair_sublist_concat.mp sublist with ⟨rfl, listed⟩ | earlier
      · exact (registry.gone id (.inl ⟨other, listed, deletes⟩)).2 filter orderly
      · exact registry.ordered other filter id time earlier deletes

theorem Registry.not_deleted_before (registry : Registry past store) {update : Update matcher}
    {filter : matcher.Filter} {id : Nat} {time : Int} (before : update ∈ applied past)
    (waits : .add filter id time ∈ store.queue) : update.deletes ≠ some id := by
  refine registry.ordered update filter id time ?_
  rw [registry.fifo]
  exact (singleton_sublist.mpr before).append (singleton_sublist.mpr waits)

/-! ## The two updates of a deletion -/

/-- Follows the deletions: which one has cleared the flag and not pulled its whitelist yet. There
is no result when the updates of two deletions are mixed. -/
def pairStep : Option Nat → Update matcher → Option (Option Nat)
  | opened, .add _ _ _ => some opened
  | none, .clear id _ => some (some id)
  | some id, .pull other => if other = id then some none else none
  | _, _ => none

def pairing (updates : List (Update matcher)) : Option (Option Nat) := updates.foldlM pairStep none

theorem pairStep_cases {opened next : Option Nat} {update : Update matcher}
    (stepped : pairStep opened update = some next) :
    (∃ filter id time, update = .add filter id time ∧ next = opened) ∨
      (∃ id time, update = .clear id time ∧ opened = none ∧ next = some id) ∨
        ∃ id, update = .pull id ∧ opened = some id ∧ next = none := by
  cases update with
  | add filter id time =>
    rw [pairStep, Option.some.injEq] at stepped
    exact .inl ⟨filter, id, time, rfl, stepped.symm⟩
  | clear id time =>
    cases opened with
    | none =>
      cases stepped
      exact .inr (.inl ⟨id, time, rfl, rfl, rfl⟩)
    | some other => cases stepped
  | pull id =>
    cases opened with
    | none => cases stepped
    | some other =>
      obtain ⟨rfl, ⟨⟩⟩ := ite_none_right_eq_some.mp stepped
      exact .inr (.inr ⟨id, rfl, rfl, rfl⟩)

@[simp]
theorem pairing_append (first second : List (Update matcher)) :
    pairing (first ++ second) = (pairing first).bind fun opened => second.foldlM pairStep opened :=
  foldlM_append

@[simp]
theorem pairing_concat (updates : List (Update matcher)) (update : Update matcher) :
    pairing (updates ++ [update]) = (pairing updates).bind fun opened =>
      pairStep opened update := by
  simp

theorem exists_deletes_of_pairing {updates : List (Update matcher)} {id : Nat}
    (paired : pairing updates = some (some id)) : ∃ update ∈ updates, update.deletes = some id := by
  induction updates using reverseRecOn with
  | nil => cases paired
  | append_singleton updates update ih =>
    rw [pairing_concat] at paired
    obtain ⟨opened, earlier, stepped⟩ := bind_eq_some_iff.mp paired
    rcases pairStep_cases stepped with ⟨_, _, _, _, same⟩ | ⟨other, time, rfl, _, same⟩ |
      ⟨_, _, _, same⟩
    · obtain ⟨found, listed, deletes⟩ := ih (earlier.trans (congrArg some same.symm))
      exact ⟨found, mem_append_left _ listed, deletes⟩
    · cases same
      exact ⟨_, mem_concat_self, rfl⟩
    · cases same

/-- No request but one stands between its two updates of a whitelist. -/
def Opened (requests : List (Request matcher)) : Option Nat → Prop
  | none => ∀ index, viewAt Request.opened requests index = none
  | some id => ∃ owner, ∀ index,
      viewAt Request.opened requests index = if index = owner then some id else none

theorem Opened.congr {requests others : List (Request matcher)} {id : Option Nat}
    (same : ∀ index, viewAt Request.opened others index = viewAt Request.opened requests index)
    (opened : Opened requests id) : Opened others id := by
  cases id with
  | none => exact fun index => (same index).trans (opened index)
  | some id =>
    obtain ⟨owner, only⟩ := opened
    exact ⟨owner, fun index => (same index).trans (only index)⟩

/-- Each deletion enqueues its second update before another one enqueues its first. -/
def Paired (past : List (Event matcher)) (store : Store matcher) : Prop :=
  ∃ opened, pairing (enqueued past) = some opened ∧ Opened store.requests opened

theorem Paired.unmoved (paired : Paired past store) (notEnqueued : event.enqueuedUpdate = none)
    (same : ∀ index, viewAt Request.opened next.requests index =
      viewAt Request.opened store.requests index) : Paired (past ++ [event]) next := by
  obtain ⟨id, found, opened⟩ := paired
  refine ⟨id, ?_, opened.congr same⟩
  rw [enqueued_concat_of_none notEnqueued, found]

theorem Took.paired (took : Took store next event) (orderly : event.Orderly past store)
    (paired : Paired past store) : Paired (past ++ [event]) next := by
  cases took with
  | arrived | found | checked | marked | stamped | applied => exact paired.unmoved rfl fun _ => rfl
  | started request plain => exact paired.unmoved rfl (viewAt_concat plain.opened_eq_none)
  | gaveUp index old new found wasPlain plain =>
    refine paired.unmoved rfl (viewAt_set_same found ?_)
    rcases wasPlain with ⟨filters, rfl⟩ | ⟨ids, rfl⟩ <;> exact plain.opened_eq_none
  | inserted index filter filters found => exact paired.unmoved rfl (viewAt_set_same found rfl)
  | deleted index objList found => exact paired.unmoved rfl (viewAt_set_same found rfl)
  | enqueued index old update new found enqueues =>
    obtain ⟨id, paired, opened⟩ := paired
    have concat : pairing (Whitelist.enqueued (past ++ [.enqueued update])) =
        pairStep id update := by
      rw [enqueued_concat, Event.enqueuedUpdate, toList_some, pairing_concat, paired, bind_some]
    cases enqueues with
    | add filter added filters time => exact ⟨id, concat, opened.congr (viewAt_set_same found rfl)⟩
    | clear cleared rest time =>
      have nobody : ∀ position, viewAt Request.opened store.requests position = none := by
        intro position
        cases seen : viewAt Request.opened store.requests position with
        | none => rfl
        | some other =>
          obtain ⟨request, isRequest, isOpen⟩ := viewAt_eq_some_iff.mp seen
          rw [orderly request (mem_of_getElem? isRequest)] at isOpen
          cases isOpen
      have closed : id = none := by
        cases id with
        | none => rfl
        | some other =>
          obtain ⟨owner, only⟩ := opened
          have seen := only owner
          rw [nobody, if_pos rfl] at seen
          cases seen
      subst closed
      refine ⟨some cleared, concat, index, fun position => ?_⟩
      exact (viewAt_set found position).trans (by rw [nobody]; rfl)
    | pull pulled rest =>
      have isOpen : viewAt Request.opened store.requests index = some pulled :=
        viewAt_of_found found
      cases id with
      | none => cases (opened index).symm.trans isOpen
      | some other =>
        obtain ⟨owner, only⟩ := opened
        rw [only, ite_none_right_eq_some] at isOpen
        obtain ⟨rfl, ⟨⟩⟩ := isOpen
        refine ⟨none, concat.trans (if_pos rfl), fun position => ?_⟩
        rw [setRequest, viewAt_set found, only]
        split <;> rfl

end Store

end Elkeid.Manager.Whitelist
