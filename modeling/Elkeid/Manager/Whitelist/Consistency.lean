import Elkeid.Manager.Whitelist.Order

/-!
# What the alarms say about the whitelists

Where the updates keep their order, an alarm that no update is on its way to says exactly which
whitelists match it, and its flag says whether there is one.
-/

namespace Elkeid.Manager.Whitelist

open Foundations Machine Alarm List Bool

variable {matcher : Matcher} {wl : List Nat}

theorem mem_addToSet {id other : Nat} : other ∈ addToSet wl id ↔ other ∈ wl ∨ other = id := by
  rw [addToSet]
  split
  next listed =>
    refine ⟨.inl, ?_⟩
    rintro (old | rfl)
    · exact old
    · exact contains_iff_mem.mp listed
  next => rw [mem_append, mem_singleton]

theorem nodup_addToSet (distinct : wl.Nodup) (id : Nat) : (addToSet wl id).Nodup := by
  rw [addToSet]
  split
  next => exact distinct
  next absent =>
    rw [contains_iff_mem] at absent
    exact concat_eq_append ▸ List.Nodup.concat absent distinct

theorem filter_ne_nil_iff (distinct : wl.Nodup) (id : Nat) :
    wl.filter (fun other => other != id) ≠ [] ↔ wl ≠ [] ∧ wl ≠ [id] := by
  rw [ne_eq, filter_eq_nil_iff]
  constructor
  · intro survives
    refine ⟨?_, ?_⟩
    · rintro rfl
      exact survives nofun
    · rintro rfl
      refine survives fun other listed => ?_
      rw [mem_singleton.mp listed, bne_self_eq_false]
      exact false_ne_true
  · rintro ⟨nonempty, several⟩ pulled
    have allSame : ∀ other ∈ wl, other = id :=
      fun other listed => by simpa using pulled other listed
    obtain ⟨count, rfl⟩ : ∃ count, wl = replicate count id :=
      ⟨wl.length, eq_replicate_of_mem allSame⟩
    have atMostOne := nodup_replicate.mp distinct
    obtain rfl | rfl : count = 0 ∨ count = 1 := by omega
    · exact nonempty rfl
    · exact several rfl

namespace Alarm

variable {alarm : Alarm matcher} {opened : Option Nat}

@[simp]
theorem data_update (alarm : Alarm matcher) (update : Update matcher) :
    (alarm.update update).data = alarm.data := by
  cases update with
  | add | clear => rw [update]; split <;> rfl
  | pull => rfl

@[simp]
theorem data_check (alarm : Alarm matcher) (id : Nat) (filter : matcher.Filter) :
    (alarm.check id filter).data = alarm.data := by
  rw [check]
  split <;> rfl

@[simp]
theorem data_mark (alarm : Alarm matcher) (updateTime now : Int) :
    (alarm.mark updateTime now).data = alarm.data := by
  rw [mark]
  split <;> rfl

@[simp]
theorem wl_mark (alarm : Alarm matcher) (updateTime now : Int) :
    (alarm.mark updateTime now).wl = alarm.wl := by
  rw [mark]
  split <;> rfl

@[simp]
theorem hitWL_mark (alarm : Alarm matcher) (updateTime now : Int) :
    (alarm.mark updateTime now).hitWL = alarm.hitWL := by
  rw [mark]
  split <;> rfl

@[simp]
theorem checked_update (alarm : Alarm matcher) (update : Update matcher) :
    (alarm.update update).checked = alarm.checked := by
  cases update with
  | add | clear => rw [update]; split <;> rfl
  | pull => rfl

@[simp]
theorem checked_check (alarm : Alarm matcher) (id : Nat) (filter : matcher.Filter) :
    (alarm.check id filter).checked = alarm.checked := by
  rw [check]
  split <;> rfl

/-- The flag, when one deletion has cleared flags and not pulled its whitelist yet. -/
def Flagged (opened : Option Nat) (alarm : Alarm matcher) : Prop :=
  alarm.hitWL = true ↔ alarm.wl ≠ [] ∧ ∀ id, opened = some id → alarm.wl ≠ [id]

variable {id : Nat}

theorem Flagged.of_gain (isSet : alarm.hitWL = true) (listed : id ∈ alarm.wl)
    (other : opened ≠ some id) : alarm.Flagged opened := by
  refine iff_of_true isSet ⟨ne_nil_of_mem listed, ?_⟩
  intro pending isOpened single
  rw [single, mem_singleton] at listed
  exact other (listed ▸ isOpened)

theorem Flagged.update (flagged : alarm.Flagged opened) (distinct : alarm.wl.Nodup)
    {update : Update matcher} {later : Option Nat}
    (stepped : Store.pairStep opened update = some later)
    (fresh : ∀ filter id time, update = .add filter id time → opened ≠ some id) :
    (alarm.update update).Flagged later := by
  rcases Store.pairStep_cases stepped with ⟨filter, id, time, rfl, rfl⟩ |
    ⟨id, time, rfl, rfl, rfl⟩ |
    ⟨id, rfl, rfl, rfl⟩
  · rw [update]
    split
    next => exact .of_gain rfl (mem_addToSet.mpr (.inr rfl)) (fresh filter id time rfl)
    next => exact flagged
  · have noneOpened : alarm.hitWL = true ↔ alarm.wl ≠ [] := flagged.trans (and_iff_left nofun)
    rw [update]
    split
    next single => exact iff_of_false nofun fun both => both.2 id rfl single
    next several =>
      refine noneOpened.trans (and_iff_left ?_).symm
      rintro other ⟨⟩
      exact several
  · have oneOpened : alarm.hitWL = true ↔ alarm.wl ≠ [] ∧ alarm.wl ≠ [id] := by
      refine flagged.trans (and_congr_right fun _ => ⟨fun others => others id rfl, ?_⟩)
      rintro several other ⟨⟩
      exact several
    exact (oneOpened.trans (filter_ne_nil_iff distinct id).symm).trans (and_iff_left nofun).symm

theorem Flagged.check (flagged : alarm.Flagged opened) (filter : matcher.Filter)
    (other : opened ≠ some id) : (alarm.check id filter).Flagged opened := by
  rw [Alarm.check]
  split
  next => exact .of_gain rfl (mem_addToSet.mpr (.inr rfl)) other
  next => exact flagged

theorem nodup_update (distinct : alarm.wl.Nodup) (update : Update matcher) :
    (alarm.update update).wl.Nodup := by
  cases update with
  | add filter id time =>
    rw [update]
    split
    next => exact nodup_addToSet distinct id
    next => exact distinct
  | clear id time =>
    rw [update]
    split <;> exact distinct
  | pull id => exact distinct.filter _

theorem nodup_check (distinct : alarm.wl.Nodup) (id : Nat) (filter : matcher.Filter) :
    (alarm.check id filter).wl.Nodup := by
  rw [check]
  split
  next => exact nodup_addToSet distinct id
  next => exact distinct

theorem mem_wl_update {update : Update matcher} (listed : id ∈ (alarm.update update).wl) :
    (id ∈ alarm.wl ∧ update ≠ .pull id) ∨
      ∃ filter time, update = .add filter id time ∧ matcher.hits filter alarm.data = true := by
  cases update with
  | add filter added time =>
    rw [update] at listed
    split at listed
    next hit =>
      rcases mem_addToSet.mp listed with old | rfl
      · exact .inl ⟨old, nofun⟩
      · exact .inr ⟨filter, time, rfl, hit⟩
    next => exact .inl ⟨listed, nofun⟩
  | clear cleared time =>
    rw [update] at listed
    split at listed <;> exact .inl ⟨listed, nofun⟩
  | pull pulled =>
    obtain ⟨old, other⟩ := mem_filter.mp listed
    refine .inl ⟨old, ?_⟩
    rintro ⟨⟩
    exact bne_iff_ne.mp other rfl

variable {filter : matcher.Filter}

theorem mem_wl_check {id other : Nat} (listed : other ∈ (alarm.check id filter).wl) :
    other ∈ alarm.wl ∨ other = id ∧ matcher.hits filter alarm.data = true := by
  rw [check] at listed
  split at listed
  next hit =>
    exact (mem_addToSet.mp listed).imp_right fun same => ⟨same, (and_eq_true_iff.mp hit).1⟩
  next => exact .inl listed

theorem mem_wl_of_update {update : Update matcher} (listed : id ∈ alarm.wl)
    (other : update ≠ .pull id) : id ∈ (alarm.update update).wl := by
  cases update with
  | add filter added time =>
    rw [update]
    split
    next => exact mem_addToSet.mpr (.inl listed)
    next => exact listed
  | clear cleared time =>
    rw [update]
    split <;> exact listed
  | pull pulled =>
    refine mem_filter.mpr ⟨listed, bne_iff_ne.mpr ?_⟩
    rintro rfl
    exact other rfl

theorem mem_wl_of_add {time : Int} (hit : matcher.hits filter alarm.data = true) :
    id ∈ (alarm.update (.add filter id time)).wl := by
  rw [update, if_pos hit]
  exact mem_addToSet.mpr (.inr rfl)

theorem mem_wl_of_check {id other : Nat} (listed : other ∈ alarm.wl ∨
      other = id ∧ matcher.hits filter alarm.data = true ∧ alarm.checked = false) :
    other ∈ (alarm.check id filter).wl := by
  rw [check]
  split
  next => exact mem_addToSet.mpr (listed.imp_right And.left)
  next missed =>
    rcases listed with old | ⟨_, hit, unchecked⟩
    · exact old
    · exact absurd (by rw [hit, unchecked]; rfl) missed

theorem checked_mark {updateTime now : Int}
    (unchecked : (alarm.mark updateTime now).checked = true) :
    alarm.checked = true ∨ alarm.checked = false ∧ alarm.updateTime < updateTime := by
  rw [mark] at unchecked
  split at unchecked
  next marks =>
    rw [and_eq_true, decide_eq_true_iff, not_eq_true'] at marks
    exact .inr ⟨marks.2, marks.1⟩
  next => exact .inl unchecked

inductive Changed (store : Store matcher) (before : Alarm matcher) :
    Event matcher → Alarm matcher → Prop
  | same {event} (notApplied : event.appliedUpdate = none)
      (notChecked : ∀ id filter, event ≠ .checked id filter) : Changed store before event before
  | applied (update rest) (queue : store.queue = update :: rest) :
      Changed store before (.applied update) (before.update update)
  | checked (id filter wls updateTime)
      (checking : store.checker = .checking ((id, filter) :: wls) updateTime) :
      Changed store before (.checked id filter) (before.check id filter)
  | marked (updateTime now) (checking : store.checker = .checking [] updateTime) :
      Changed store before .marked (before.mark updateTime now)

variable {store : Store matcher} {before after : Alarm matcher} {event : Event matcher}

section

variable (changed : before.Changed store event after)
include changed

theorem Changed.data_eq : after.data = before.data := by
  cases changed with
  | same => rfl
  | applied update => exact data_update before update
  | checked id filter => exact data_check before id filter
  | marked updateTime now => exact data_mark before updateTime now

theorem Changed.mem_wl {id : Nat} (listed : id ∈ after.wl) :
    (id ∈ before.wl ∧ event ≠ .applied (.pull id)) ∨
      (∃ filter time rest, event = .applied (.add filter id time) ∧
        store.queue = .add filter id time :: rest ∧ matcher.hits filter before.data = true) ∨
        ∃ filter, event = .checked id filter ∧ matcher.hits filter before.data = true := by
  cases changed with
  | same notApplied =>
    refine .inl ⟨listed, ?_⟩
    rintro rfl
    cases notApplied
  | applied update rest queue =>
    rcases mem_wl_update listed with ⟨old, other⟩ | ⟨filter, time, rfl, hit⟩
    · exact .inl ⟨old, fun same => other (Event.applied.inj same)⟩
    · exact .inr (.inl ⟨filter, time, rest, rfl, queue, hit⟩)
  | checked added filter =>
    rcases mem_wl_check listed with old | ⟨rfl, hit⟩
    · exact .inl ⟨old, nofun⟩
    · exact .inr (.inr ⟨filter, rfl, hit⟩)
  | marked =>
    rw [wl_mark] at listed
    exact .inl ⟨listed, nofun⟩

theorem Changed.mem_wl_of_ne {id : Nat}
    (listed : id ∈ before.wl) (other : event ≠ .applied (.pull id)) : id ∈ after.wl := by
  cases changed with
  | same => exact listed
  | applied update => exact mem_wl_of_update listed fun same => other (same ▸ rfl)
  | checked added filter => exact mem_wl_of_check (.inl listed)
  | marked => exact (wl_mark before _ _).symm ▸ listed

end

end Alarm

/-- A request that has written the collection and not enqueued all that follows from it. -/
def Request.owes : Request matcher → Bool
  | .inserted _ _ _ | .clearing (_ :: _) | .pulling _ _ => true
  | _ => false

theorem Request.ids_of_not_owes {request : Request matcher} (owesNothing : request.owes = false) :
    request.ids = [] := by
  cases request with
  | clearing ids =>
    cases ids with
    | nil => rfl
    | cons => cases owesNothing
  | pulling => cases owesNothing
  | _ => rfl

/-- The whitelists that the pass under way, or else the next one, still applies. -/
def Checker.Covers (id : Nat) (filter : matcher.Filter) : Checker matcher → Prop
  | .waiting => True
  | .found wls | .checking wls _ => (id, filter) ∈ wls

namespace Store

variable {store next : Store matcher} {event : Event matcher} {past : List (Event matcher)}

theorem Took.alarm (took : Took store next event) {index : Nat} {after : Alarm matcher}
    (found : next.alarms[index]? = some after) :
    (event = .arrived index ∧ ∃ data updateTime, after = newAlarm data updateTime) ∨
      ∃ before, store.alarms[index]? = some before ∧ before.Changed store event after := by
  have ofMap : ∀ {change : Alarm matcher → Alarm matcher},
      (store.alarms.map change)[index]? = some after →
        ∃ before, store.alarms[index]? = some before ∧ change before = after := by
    intro change found
    rw [getElem?_map] at found
    exact Option.map_eq_some_iff.mp found
  cases took with
  | arrived data updateTime =>
    rcases getElem?_concat_cases found with ⟨rfl, rfl⟩ | old
    · exact .inl ⟨rfl, data, updateTime, rfl⟩
    · exact .inr ⟨after, old, .same rfl nofun⟩
  | started | gaveUp | inserted | deleted | enqueued | found | stamped =>
    exact .inr ⟨after, found, .same rfl nofun⟩
  | applied update rest queue =>
    obtain ⟨before, old, rfl⟩ := ofMap found
    exact .inr ⟨before, old, .applied update rest queue⟩
  | checked id filter wls updateTime checking =>
    obtain ⟨before, old, rfl⟩ := ofMap found
    exact .inr ⟨before, old, .checked id filter wls updateTime checking⟩
  | marked updateTime now checking =>
    obtain ⟨before, old, rfl⟩ := ofMap found
    exact .inr ⟨before, old, .marked updateTime now checking⟩

/-! ## The flag -/

structure Flags (past : List (Event matcher)) (store : Store matcher) : Prop where
  distinct : ∀ (index : Nat) (alarm : Alarm matcher), store.alarms[index]? = some alarm →
    alarm.wl.Nodup
  flagged : ∀ opened, pairing (applied past) = some opened →
    ∀ (index : Nat) (alarm : Alarm matcher), store.alarms[index]? = some alarm →
      alarm.Flagged opened

variable {filter : matcher.Filter} {id : Nat}

theorem Registry.not_opened (registry : Registry past store) {opened : Option Nat}
    (paired : pairing (applied past) = some opened)
    (listed : (id, filter) ∈ store.whitelists) : opened ≠ some id := by
  rintro rfl
  obtain ⟨update, isApplied, deletes⟩ := exists_deletes_of_pairing paired
  refine (registry.gone id (.inl ⟨update, ?_, deletes⟩)).2 filter listed
  rw [registry.fifo]
  exact mem_append_left _ isApplied

theorem Took.flags (took : Took store next event) (orderly : event.Orderly past store)
    (registry : Registry past store) (flags : Flags past store) : Flags (past ++ [event]) next where
  distinct := by
    intro index alarm found
    rcases took.alarm found with ⟨_, data, updateTime, rfl⟩ | ⟨before, old, changed⟩
    · exact nodup_nil
    · have distinct := flags.distinct index before old
      cases changed with
      | same => exact distinct
      | applied update => exact nodup_update distinct update
      | checked id filter => exact nodup_check distinct id filter
      | marked => exact (wl_mark before _ _).symm ▸ distinct
  flagged := by
    intro opened paired index alarm found
    rcases took.alarm found with ⟨rfl, data, updateTime, rfl⟩ | ⟨before, old, changed⟩
    · exact iff_of_false nofun fun both => both.1 rfl
    · cases changed with
      | same notApplied =>
        rw [applied_concat_of_none notApplied] at paired
        exact flags.flagged opened paired index alarm old
      | applied update rest queue =>
        rw [applied_concat, Event.appliedUpdate, Option.toList_some, pairing_concat] at paired
        obtain ⟨earlier, isEarlier, stepped⟩ := Option.bind_eq_some_iff.mp paired
        refine (flags.flagged earlier isEarlier index before old).update
          (flags.distinct index before old) stepped ?_
        rintro filter id time rfl rfl
        obtain ⟨other, isApplied, deletes⟩ := exists_deletes_of_pairing isEarlier
        exact registry.not_deleted_before isApplied (queue ▸ mem_cons_self) deletes
      | checked id filter =>
        rw [applied_concat_of_none rfl] at paired
        exact (flags.flagged opened paired index before old).check filter
          (registry.not_opened paired orderly)
      | marked =>
        rw [applied_concat_of_none rfl] at paired
        rw [Alarm.Flagged, hitWL_mark, wl_mark]
        exact flags.flagged opened paired index before old

/-! ## No whitelist that is gone -/

/-- A deletion will still pull the whitelist from all alarms. -/
def PullComes (store : Store matcher) (id : Nat) : Prop :=
  .pull id ∈ store.queue ∨ ∃ request ∈ store.requests, id ∈ request.ids

theorem Took.pullComes (took : Took store next event) (comes : store.PullComes id) :
    next.PullComes id ∨ event = .applied (.pull id) := by
  -- a request that goes on without an update has no whitelist to pull
  have ofSet : ∀ {index : Nat} {old new : Request matcher}, store.requests[index]? = some old →
      (id ∈ old.ids → id ∈ new.ids) → (∃ request ∈ store.requests, id ∈ request.ids) →
      ∃ request ∈ store.requests.set index new, id ∈ request.ids := by
    rintro index old new found keeps ⟨request, listed, isID⟩
    by_cases same : request = old
    · subst same
      exact ⟨new, mem_set_at found, keeps isID⟩
    · exact ⟨request, mem_set_of_ne listed found same, isID⟩
  cases took with
  | arrived | found | stamped | checked | marked => exact .inl comes
  | started request plain =>
    refine .inl (comes.imp_right ?_)
    rintro ⟨other, listed, isID⟩
    exact ⟨other, mem_append_left _ listed, isID⟩
  | gaveUp index old new found wasPlain plain =>
    refine .inl (comes.imp_right (ofSet found ?_))
    rcases wasPlain with ⟨filters, rfl⟩ | ⟨ids, rfl⟩ <;> exact nofun
  | inserted index filter filters found => exact .inl (comes.imp_right (ofSet found nofun))
  | deleted index objList found => exact .inl (comes.imp_right (ofSet found nofun))
  | applied update rest queue =>
    rcases comes with waits | later
    · rw [queue] at waits
      rcases mem_cons.mp waits with rfl | behind
      · exact .inr rfl
      · exact .inl (.inl behind)
    · exact .inl (.inr later)
  | enqueued index old update new found enqueues =>
    rcases comes with waits | ⟨request, listed, isID⟩
    · exact .inl (.inl (mem_append_left _ waits))
    · by_cases same : request = old
      · subst same
        rcases enqueues.ids_of_old isID with rfl | kept
        · exact .inl (.inl (mem_concat_self))
        · exact .inl (.inr ⟨new, mem_set_at found, kept⟩)
      · exact .inl (.inr ⟨request, mem_set_of_ne listed found same, isID⟩)

theorem Took.whitelist (took : Took store next event) (listed : (id, filter) ∈ store.whitelists) :
    (id, filter) ∈ next.whitelists ∨ next.PullComes id := by
  cases took with
  | deleted index objList found =>
    by_cases named : id ∈ objList
    · exact .inr (.inr ⟨.clearing objList, mem_set_at found, named⟩)
    · exact .inl (mem_filter.mpr ⟨listed, by simpa using named⟩)
  | inserted => exact .inl (mem_append_left _ listed)
  | _ => exact .inl listed

structure Backed (store : Store matcher) : Prop where
  listed : ∀ (index : Nat) (alarm : Alarm matcher), store.alarms[index]? = some alarm →
    ∀ id ∈ alarm.wl, (∃ filter, (id, filter) ∈ store.whitelists ∧
      matcher.hits filter alarm.data = true) ∨ store.PullComes id
  queued : ∀ filter id time, .add filter id time ∈ store.queue →
    (id, filter) ∈ store.whitelists ∨ store.PullComes id

theorem Took.backed (took : Took store next event) (orderly : event.Orderly past store)
    (registry : Registry past store) (backed : Backed store) : Backed next := by
  have keeps : ∀ {id filter}, event ≠ .applied (.pull id) →
      (id, filter) ∈ store.whitelists ∨ store.PullComes id →
        (id, filter) ∈ next.whitelists ∨ next.PullComes id := by
    intro id filter other before
    rcases before with exists_ | comes
    · exact took.whitelist exists_
    · exact .inr ((took.pullComes comes).resolve_right other)
  refine ⟨?_, ?_⟩
  · intro index alarm found id listed
    rcases took.alarm found with ⟨_, data, updateTime, rfl⟩ | ⟨before, old, changed⟩
    · cases listed
    · have sameData := changed.data_eq
      have ofFilter : ∀ filter, matcher.hits filter before.data = true →
          (id, filter) ∈ next.whitelists ∨ next.PullComes id →
          (∃ filter, (id, filter) ∈ next.whitelists ∧ matcher.hits filter alarm.data = true) ∨
            next.PullComes id := by
        intro filter hit kept
        rw [sameData]
        exact kept.imp_left fun isListed => ⟨filter, isListed, hit⟩
      rcases changed.mem_wl listed with ⟨wasListed, other⟩ | ⟨filter, time, rest, rfl, queue, hit⟩ |
        ⟨filter, rfl, hit⟩
      · rcases backed.listed index before old id wasListed with ⟨filter, isListed, hit⟩ | comes
        · exact ofFilter filter hit (took.whitelist isListed)
        · exact .inr ((took.pullComes comes).resolve_right other)
      · exact ofFilter filter hit
          (keeps nofun (backed.queued filter id time (queue ▸ mem_cons_self)))
      · exact ofFilter filter hit (took.whitelist orderly)
  · intro filter id time waits
    cases took with
    | applied update rest queue =>
      refine keeps ?_ (backed.queued filter id time (queue ▸ mem_cons_of_mem _ waits))
      rintro ⟨⟩
      refine registry.ordered (.pull id) filter id time ?_ rfl
      rw [registry.fifo, queue]
      exact ((singleton_sublist.mpr waits).cons_cons _).trans (sublist_append_right _ _)
    | enqueued index old update new found enqueues =>
      rcases mem_append.mp waits with before | this
      · exact keeps nofun (backed.queued filter id time before)
      · cases mem_singleton.mp this
        exact keeps nofun (.inl orderly)
    | _ => exact keeps nofun (backed.queued filter id time waits)

/-! ## No whitelist that is missed -/

/-- The update of an addition is still to be applied. -/
def AddComes (store : Store matcher) (id : Nat) (filter : matcher.Filter) : Prop :=
  (∃ time, .add filter id time ∈ store.queue) ∨
    ∃ filters, .inserted filter id filters ∈ store.requests

theorem Took.addComes (took : Took store next event) (comes : store.AddComes id filter) :
    next.AddComes id filter ∨ ∃ time, event = .applied (.add filter id time) := by
  cases took with
  | arrived | found | stamped | checked | marked => exact .inl comes
  | started request plain =>
    refine .inl (comes.imp_right ?_)
    rintro ⟨filters, listed⟩
    exact ⟨filters, mem_append_left _ listed⟩
  | gaveUp index old new found wasPlain plain =>
    refine .inl (comes.imp_right ?_)
    rintro ⟨filters, listed⟩
    refine ⟨filters, mem_set_of_ne listed found ?_⟩
    rcases wasPlain with ⟨_, rfl⟩ | ⟨_, rfl⟩ <;> exact nofun
  | inserted index _ _ found | deleted index _ found =>
    refine .inl (comes.imp_right ?_)
    rintro ⟨filters, listed⟩
    exact ⟨filters, mem_set_of_ne listed found nofun⟩
  | applied update rest queue =>
    rcases comes with ⟨time, waits⟩ | later
    · rw [queue] at waits
      rcases mem_cons.mp waits with rfl | behind
      · exact .inr ⟨time, rfl⟩
      · exact .inl (.inl ⟨time, behind⟩)
    · exact .inl (.inr later)
  | enqueued index old update new found enqueues =>
    rcases comes with ⟨time, waits⟩ | ⟨filters, listed⟩
    · exact .inl (.inl ⟨time, mem_append_left _ waits⟩)
    · by_cases same : .inserted filter id filters = old
      · subst same
        cases enqueues with
        | add _ _ _ time => exact .inl (.inl ⟨time, mem_concat_self⟩)
      · exact .inl (.inr ⟨filters, mem_set_of_ne listed found same⟩)

theorem Took.whitelist_origin (took : Took store next event)
    (listed : (id, filter) ∈ next.whitelists) :
    (id, filter) ∈ store.whitelists ∨ next.AddComes id filter := by
  cases took with
  | inserted index filter filters found =>
    rcases mem_append.mp listed with old | new
    · exact .inl old
    · cases mem_singleton.mp new
      exact .inr (.inr ⟨filters, mem_set_at found⟩)
  | deleted => exact .inl (mem_of_mem_filter listed)
  | _ => exact .inl listed

/-- The pass that will mark an alarm applies the whitelist before, or the alarm is not one that
the pass under way may mark. -/
def Covered (past : List (Event matcher)) (store : Store matcher) (index id : Nat)
    (filter : matcher.Filter) : Prop :=
  store.checker.Covers id filter ∨ Since (· = .arrived index) (· = .found) past

theorem Took.covered (took : Took store next event) {index id : Nat}
    (listed : (id, filter) ∈ store.whitelists) (covered : Covered past store index id filter) :
    Covered (past ++ [event]) next index id filter ∨ event = .checked id filter := by
  have later : event ≠ .found → Since (· = .arrived index) (· = .found) past →
      Since (· = .arrived index) (· = .found) (past ++ [event]) :=
    fun notFound since => Since.append_singleton.mpr (.inr ⟨since, notFound⟩)
  cases took with
  | arrived | started | gaveUp | inserted | deleted | enqueued | applied =>
    exact .inl (covered.imp_right (later (by rintro ⟨⟩)))
  | found => exact .inl (.inl listed)
  | stamped wls now found =>
    refine .inl (covered.imp (fun covers => ?_) (later (by rintro ⟨⟩)))
    rw [found] at covers
    exact covers
  | checked other applied wls updateTime checking =>
    rcases covered with covers | since
    · rw [checking] at covers
      rcases mem_cons.mp covers with same | behind
      · cases same
        exact .inr rfl
      · exact .inl (.inl behind)
    · exact .inl (.inr (later (by rintro ⟨⟩) since))
  | marked => exact .inl (.inl trivial)

def Complete (past : List (Event matcher)) (store : Store matcher) : Prop :=
  ∀ (index : Nat) (alarm : Alarm matcher), store.alarms[index]? = some alarm →
    ∀ id filter, (id, filter) ∈ store.whitelists → matcher.hits filter alarm.data = true →
      id ∈ alarm.wl ∨ store.AddComes id filter ∨
        (alarm.checked = false ∧ Covered past store index id filter)

theorem unchecked_of_marked {index id : Nat} {before : Alarm matcher}
    {updateTime : Int} (now : Int) (orderly : Event.marked.Orderly past store)
    (found : store.alarms[index]? = some before)
    (checking : store.checker = .checking [] updateTime)
    (unchecked : before.checked = false) (covered : Covered past store index id filter) :
    (before.mark updateTime now).checked = false := by
  by_contra isChecked
  rw [not_eq_false] at isChecked
  rcases checked_mark isChecked with already | ⟨_, early⟩
  · cases unchecked.symm.trans already
  · rcases covered with covers | since
    · rw [checking] at covers
      cases covers
    · refine orderly index (List.getElem?_eq_some_iff.mp found).1 ?_ since
      simp [marks, checking, found, early, unchecked]

theorem Registry.pull_not_queued (registry : Registry past store)
    (listed : (id, filter) ∈ store.whitelists) :
    .pull id ∉ store.queue := by
  intro waits
  refine (registry.gone id (.inl ⟨.pull id, ?_, rfl⟩)).2 filter listed
  rw [registry.fifo]
  exact mem_append_right _ waits

theorem Took.complete (took : Took store next event) (orderly : event.Orderly past store)
    (registry : Registry past store) (complete : Complete past store) :
    Complete (past ++ [event]) next := by
  intro index alarm found id filter isListed hit
  rcases took.alarm found with ⟨rfl, data, updateTime, rfl⟩ | ⟨before, old, changed⟩
  · exact .inr (.inr ⟨rfl, .inr (Since.append_singleton.mpr (.inl rfl))⟩)
  · rw [changed.data_eq] at hit
    rcases took.whitelist_origin isListed with wasListed | comes
    · have notPulled : event ≠ .applied (.pull id) := by
        rintro rfl
        cases took with
        | applied _ rest queue =>
          exact registry.pull_not_queued wasListed (queue ▸ mem_cons_self)
      rcases complete index before old id filter wasListed hit with member | comes |
        ⟨unchecked, covered⟩
      · exact .inl (changed.mem_wl_of_ne member notPulled)
      · rcases took.addComes comes with later | ⟨time, rfl⟩
        · exact .inr (.inl later)
        · cases changed with
          | same notApplied => cases notApplied
          | applied => exact .inl (mem_wl_of_add hit)
      · rcases took.covered wasListed covered with later | rfl
        · refine .inr (.inr ⟨?_, later⟩)
          cases changed with
          | same => exact unchecked
          | applied update => exact (checked_update before update).trans unchecked
          | checked other applied => exact (checked_check before other applied).trans unchecked
          | marked updateTime now checking =>
            exact unchecked_of_marked now orderly old checking unchecked covered
        · cases changed with
          | same _ notChecked => exact absurd rfl (notChecked id filter)
          | checked => exact .inl (mem_wl_of_check (.inr ⟨rfl, hit, unchecked⟩))
    · exact .inr (.inl comes)

/-! ## Whole runs -/

structure Kept (past : List (Event matcher)) (store : Store matcher) : Prop where
  registry : Registry past store
  paired : Paired past store
  flags : Flags past store
  backed : Backed store
  complete : Complete past store

theorem newStore_kept : Kept [] (newStore : Store matcher) where
  registry := by
    refine ⟨nofun, rfl, ?_, ?_⟩
    · rintro id (⟨_, listed, _⟩ | ⟨_, listed, _⟩) <;> cases listed
    · intro update filter id time sublist
      cases sublist
  paired := ⟨none, rfl, fun _ => rfl⟩
  flags := ⟨nofun, fun _ _ => nofun⟩
  backed := ⟨nofun, nofun⟩
  complete := nofun

/-- Nothing is on its way: the channel is empty, the checker waits for its ticker, and no
request owes it an update. -/
structure Quiet (store : Store matcher) : Prop where
  queue : store.queue = []
  checker : store.checker = .waiting
  requests : ∀ request ∈ store.requests, request.owes = false

theorem Quiet.not_pullComes (quiet : store.Quiet) (id : Nat) : ¬ store.PullComes id := by
  rintro (waits | ⟨request, listed, isID⟩)
  · rw [quiet.queue] at waits
    cases waits
  · rw [Request.ids_of_not_owes (quiet.requests request listed)] at isID
    cases isID

theorem Quiet.not_addComes (quiet : store.Quiet) (id : Nat) (filter : matcher.Filter) :
    ¬ store.AddComes id filter := by
  rintro (⟨time, waits⟩ | ⟨filters, listed⟩)
  · rw [quiet.queue] at waits
    cases waits
  · cases quiet.requests _ listed

theorem Paired.closed_of_quiet (paired : Paired past store) (registry : Registry past store)
    (quiet : store.Quiet) : pairing (applied past) = some none := by
  obtain ⟨opened, found, isOpened⟩ := paired
  rw [registry.fifo, quiet.queue, append_nil] at found
  cases opened with
  | none => exact found
  | some id =>
    obtain ⟨owner, only⟩ := isOpened
    obtain ⟨request, isRequest, isOpen⟩ := viewAt_eq_some_iff.mp ((only owner).trans (if_pos rfl))
    have owes := quiet.requests request (mem_of_getElem? isRequest)
    cases request with
    | pulling => cases owes
    | _ => cases isOpen

end Store

/-- The flag says whether there is a whitelist, and when the alarm was checked its list has the
existing whitelists that match it. -/
structure Alarm.Consistent (store : Store matcher) (alarm : Alarm matcher) : Prop where
  flag : alarm.hitWL = true ↔ alarm.wl ≠ []
  list : alarm.checked = true → ∀ id, id ∈ alarm.wl ↔
    ∃ filter, (id, filter) ∈ store.whitelists ∧ matcher.hits filter alarm.data = true

/-- In every run of the requests, the worker and the checker whose updates keep their order, all
alarms are consistent whenever nothing is on its way. -/
theorem alarms_consistent {actions : List (Action matcher)} {store : Store matcher}
    {events : List (Event matcher)}
    (orderly : AllMeet Store.step
      (OnOutput Store.step (fun past store event => event.Orderly past store)) [] newStore actions)
    (ran : run Store.step newStore actions = some (store, events)) (quiet : store.Quiet) :
    ∀ alarm ∈ store.alarms, alarm.Consistent store := by
  have preserved : ∀ past (store : Store matcher) action next event, Store.Kept past store →
      OnOutput Store.step (fun past store event => event.Orderly past store) past store action →
      store.step action = some (next, event) → Store.Kept (past ++ [event]) next := by
    intro past store action next event kept safe stepped
    have took := Store.took_of_step stepped
    have isOrderly := safe next event stepped
    exact ⟨took.registry isOrderly kept.registry, took.paired isOrderly kept.paired,
      took.flags isOrderly kept.registry kept.flags,
      took.backed isOrderly kept.registry kept.backed,
      took.complete isOrderly kept.registry kept.complete⟩
  have kept : Store.Kept events store := orderly.invariant preserved ran Store.newStore_kept
  intro alarm listed
  obtain ⟨index, found⟩ := mem_iff_getElem?.mp listed
  have closed := kept.paired.closed_of_quiet kept.registry quiet
  refine ⟨(kept.flags.flagged none closed index alarm found).trans (and_iff_left nofun), ?_⟩
  intro checked id
  constructor
  · intro member
    exact (kept.backed.listed index alarm found id member).resolve_right (quiet.not_pullComes id)
  · rintro ⟨filter, isListed, hit⟩
    rcases kept.complete index alarm found id filter isListed hit with member | comes |
      ⟨unchecked, _⟩
    · exact member
    · exact absurd comes (quiet.not_addComes id filter)
    · cases checked.symm.trans unchecked

def upward : Matcher where
  Filter := Nat
  Data := Nat
  hits filter data := Nat.ble filter data

instance : DecidableEq upward.Filter := inferInstanceAs (DecidableEq Nat)

def onePass : List (Action upward) :=
  [.arrive (5 : Nat) 1, .addWhiteLists [(3 : Nat), (4 : Nat)], .insertOne 0 false, .enqueue 0 2,
    .insertOne 0 false, .enqueue 0 2, .work, .find, .stamp 3, .check, .check, .mark 3, .work,
    .delWhiteLists [some 1], .deleteMany 1 false, .enqueue 1 4, .enqueue 1 4, .enqueue 1 4,
    .enqueue 1 4, .work, .work, .work, .work]

theorem alarms_consistent_onePass :
    ∃ store events, run Store.step newStore onePass = some (store, events) ∧ store.Quiet ∧
      store.alarms.map Alarm.wl = [[2]] ∧ store.alarms.map Alarm.checked = [true] ∧
      ∀ alarm ∈ store.alarms, alarm.Consistent store := by
  have orderly : AllMeet Store.step
      (OnOutput Store.step (fun past store event => event.Orderly past store)) [] newStore
      onePass := by
    decide
  have ⟨store, events, ran, quiet, lists, marks⟩ : ∃ store events,
      run Store.step newStore onePass = some (store, events) ∧ store.Quiet ∧
        store.alarms.map Alarm.wl = [[2]] ∧ store.alarms.map Alarm.checked = [true] := by
    refine ⟨_, _, rfl, ⟨rfl, rfl, ?_⟩, rfl, rfl⟩
    decide
  exact ⟨store, events, ran, quiet, lists, marks, alarms_consistent orderly ran quiet⟩

/-- Two deletions enqueue their updates at the same time. Each finds the other's whitelist still
on the alarm, so none clears the flag. -/
def twoDeletions : List (Action upward) :=
  [.arrive (5 : Nat) 1, .addWhiteLists [(3 : Nat), (4 : Nat)], .insertOne 0 false, .enqueue 0 2,
    .insertOne 0 false, .enqueue 0 2, .work, .work, .find, .stamp 3, .check, .check, .mark 3,
    .delWhiteLists [some 1], .delWhiteLists [some 2], .deleteMany 1 false, .deleteMany 2 false,
    .enqueue 1 4, .enqueue 1 4, .enqueue 2 4, .enqueue 2 4,
    .enqueue 1 4, .enqueue 2 4, .enqueue 1 4, .enqueue 2 4,
    .work, .work, .work, .work, .work, .work, .work, .work]

theorem twoDeletions_inconsistent :
    ∃ store events, run Store.step newStore twoDeletions = some (store, events) ∧ store.Quiet ∧
      store.whitelists = [] ∧
      ∃ alarm ∈ store.alarms, alarm.wl = [] ∧ alarm.hitWL = true ∧ alarm.checked = true := by
  refine ⟨_, _, rfl, ⟨rfl, rfl, ?_⟩, rfl, _, mem_cons_self, rfl, rfl, rfl⟩
  decide

end Elkeid.Manager.Whitelist
