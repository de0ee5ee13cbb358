import Elkeid.Foundations.Machine
import Elkeid.Foundations.Positions

/-!
# Whitelists of alarms

`server/manager/biz/hander/v1/agent_whitelist.go` with `WhiteListAddMulti` and
`WhiteListDelMulti` of `server/manager/biz/hander/v6/alarm_whitelist.go`: the collections of
alarms and of whitelists, the requests that add and delete whitelists, the channel of updates
with its one worker, and the checker. A step is one operation of the database or of the channel.
The updates of alarms and the reading of the whitelists do not fail.
-/

namespace Elkeid.Manager.Whitelist

/-- What `FilterQuery.Transform` asks the database: which alarms a filter selects. -/
structure Matcher where
  Filter : Type
  Data : Type
  hits : Filter → Data → Bool

variable {matcher : Matcher}

structure Alarm (matcher : Matcher) where
  data : matcher.Data
  hitWL : Bool
  wl : List Nat
  checked : Bool
  updateTime : Int

/-- An alarm as `NewAlarm` makes it; there is no `__wl` yet. -/
def newAlarm (data : matcher.Data) (updateTime : Int) : Alarm matcher where
  data := data
  hitWL := false
  wl := []
  checked := false
  updateTime := updateTime

/-- `WLUpdater`: what an addition enqueues, and the two updates of a deletion. -/
inductive Update (matcher : Matcher)
  | add (filter : matcher.Filter) (id : Nat) (time : Int)
  | clear (id : Nat) (time : Int)
  | pull (id : Nat)

def addToSet (wl : List Nat) (id : Nat) : List Nat := if wl.contains id then wl else wl ++ [id]

namespace Alarm

/-- `UpdateMany` of the worker, for one alarm. -/
def update (alarm : Alarm matcher) : Update matcher → Alarm matcher
  | .add filter id time =>
    if matcher.hits filter alarm.data then
      { alarm with hitWL := true, updateTime := time, wl := addToSet alarm.wl id }
    else alarm
  | .clear id time =>
    if alarm.wl = [id] then { alarm with hitWL := false, updateTime := time } else alarm
  | .pull id => { alarm with wl := alarm.wl.filter (fun other => other != id) }

/-- `UpdateMany` of the checker for one whitelist. -/
def check (alarm : Alarm matcher) (id : Nat) (filter : matcher.Filter) : Alarm matcher :=
  if matcher.hits filter alarm.data && !alarm.checked then
    { alarm with hitWL := true, wl := addToSet alarm.wl id }
  else alarm

/-- The last `UpdateMany` of a pass. -/
def mark (alarm : Alarm matcher) (updateTime now : Int) : Alarm matcher :=
  if alarm.updateTime < updateTime && !alarm.checked then
    { alarm with checked := true, updateTime := now }
  else alarm

end Alarm

/-- Where a request stands. `NewWhiteList` adds one filter, `WhiteListAddMulti` several. -/
inductive Request (matcher : Matcher)
  | adding (filters : List matcher.Filter)
  | inserted (filter : matcher.Filter) (id : Nat) (filters : List matcher.Filter)
  | deleting (objList : List Nat)
  | clearing (objList : List Nat)
  | pulling (id : Nat) (objList : List Nat)

inductive Checker (matcher : Matcher)
  | waiting
  | found (wls : List (Nat × matcher.Filter))
  | checking (wls : List (Nat × matcher.Filter)) (updateTime : Int)

/-- An id is the number of its `InsertOne`; zero is the empty `ObjectID`. -/
structure Store (matcher : Matcher) where
  alarms : List (Alarm matcher)
  whitelists : List (Nat × matcher.Filter)
  nextID : Nat
  queue : List (Update matcher)
  requests : List (Request matcher)
  checker : Checker matcher

def newStore : Store matcher where
  alarms := []
  whitelists := []
  nextID := 1
  queue := []
  requests := []
  checker := .waiting

def wlChanSize : Nat := 1024

/-- `objList` of a deletion: it is made with a length, and the ids are appended to that. -/
def objList (idList : List (Option Nat)) : List Nat :=
  List.replicate idList.length 0 ++ idList.filterMap id

inductive Action (matcher : Matcher)
  | arrive (data : matcher.Data) (updateTime : Int)
  | addWhiteLists (filters : List matcher.Filter)
  | delWhiteLists (idList : List (Option Nat))
  | insertOne (request : Nat) (fails : Bool)
  | deleteMany (request : Nat) (fails : Bool)
  | enqueue (request : Nat) (now : Int)
  | work
  | find
  | stamp (now : Int)
  | check
  | mark (now : Int)

inductive Event (matcher : Matcher)
  | arrived (alarm : Nat)
  | enqueued (update : Update matcher)
  | applied (update : Update matcher)
  | found
  | checked (id : Nat) (filter : matcher.Filter)
  | marked
  | silent

namespace Store

def setRequest (store : Store matcher) (index : Nat) (request : Request matcher) : Store matcher :=
  { store with requests := store.requests.set index request }

/-- `Add` puts an update into the channel when there is room. -/
def add (store : Store matcher) (index : Nat) (request : Request matcher)
    (update : Update matcher) :
    Option (Store matcher × Event matcher) :=
  if store.queue.length < wlChanSize then
    some ({ store.setRequest index request with queue := store.queue ++ [update] },
      .enqueued update)
  else none

def enqueue (store : Store matcher) (index : Nat) (now : Int) :
    Option (Store matcher × Event matcher) :=
  match store.requests[index]? with
  | some (.inserted filter id filters) => store.add index (.adding filters) (.add filter id now)
  | some (.clearing (id :: rest)) => store.add index (.pulling id rest) (.clear id now)
  | some (.pulling id rest) => store.add index (.clearing rest) (.pull id)
  | _ => none

/-- A failure ends an addition. -/
def insertOne (store : Store matcher) (index : Nat) (fails : Bool) :
    Option (Store matcher × Event matcher) :=
  match store.requests[index]? with
  | some (.adding (filter :: filters)) =>
    if fails then some (store.setRequest index (.adding []), .silent)
    else
      some ({ store.setRequest index (.inserted filter store.nextID filters) with
        whitelists := store.whitelists ++ [(store.nextID, filter)]
        nextID := store.nextID + 1 }, .silent)
  | _ => none

/-- A failure ends a deletion. -/
def deleteMany (store : Store matcher) (index : Nat) (fails : Bool) :
    Option (Store matcher × Event matcher) :=
  match store.requests[index]? with
  | some (.deleting objList) =>
    if fails then some (store.setRequest index (.clearing []), .silent)
    else
      some ({ store.setRequest index (.clearing objList) with
        whitelists := store.whitelists.filter (fun entry => !objList.contains entry.1) }, .silent)
  | _ => none

def work (store : Store matcher) : Option (Store matcher × Event matcher) :=
  match store.queue with
  | [] => none
  | update :: rest =>
    some ({ store with
      alarms := store.alarms.map (fun alarm => alarm.update update)
      queue := rest }, .applied update)

def runChecker (store : Store matcher) :
    Action matcher → Option (Store matcher × Event matcher)
  | .find =>
    match store.checker with
    | .waiting => some ({ store with checker := .found store.whitelists }, .found)
    | _ => none
  | .stamp now =>
    match store.checker with
    | .found wls => some ({ store with checker := .checking wls now }, .silent)
    | _ => none
  | .check =>
    match store.checker with
    | .checking ((id, filter) :: wls) updateTime =>
      some ({ store with
        alarms := store.alarms.map (fun alarm => alarm.check id filter)
        checker := .checking wls updateTime }, .checked id filter)
    | _ => none
  | .mark now =>
    match store.checker with
    | .checking [] updateTime =>
      some ({ store with
        alarms := store.alarms.map (fun alarm => alarm.mark updateTime now)
        checker := .waiting }, .marked)
    | _ => none
  | _ => none

/-- A deletion names ids that were handed out before. -/
def step (store : Store matcher) (action : Action matcher) :
    Option (Store matcher × Event matcher) :=
  match action with
  | .arrive data updateTime =>
    some ({ store with alarms := store.alarms ++ [newAlarm data updateTime] },
      .arrived store.alarms.length)
  | .addWhiteLists filters =>
    some ({ store with requests := store.requests ++ [.adding filters] }, .silent)
  | .delWhiteLists idList =>
    if (objList idList).all (fun id => id < store.nextID) then
      some ({ store with requests := store.requests ++ [.deleting (objList idList)] }, .silent)
    else none
  | .insertOne index fails => store.insertOne index fails
  | .deleteMany index fails => store.deleteMany index fails
  | .enqueue index now => store.enqueue index now
  | .work => store.work
  | .find | .stamp _ | .check | .mark _ => store.runChecker action

end Store

/-- The update a request enqueues next, and what is left of it then. -/
inductive Request.Enqueues : Request matcher → Update matcher → Request matcher → Prop
  | add (filter id filters time) :
      Enqueues (.inserted filter id filters) (.add filter id time) (.adding filters)
  | clear (id rest time) : Enqueues (.clearing (id :: rest)) (.clear id time) (.pulling id rest)
  | pull (id rest) : Enqueues (.pulling id rest) (.pull id) (.clearing rest)

/-- A request that has nothing to say about whitelists yet, or any more. -/
inductive Request.Plain (nextID : Nat) : Request matcher → Prop
  | adding (filters) : Plain nextID (.adding filters)
  | deleting (ids : List Nat) (known : ∀ id ∈ ids, id < nextID) : Plain nextID (.deleting ids)
  | done : Plain nextID (.clearing [])

namespace Store

inductive Took (store : Store matcher) : Store matcher → Event matcher → Prop
  | arrived (data updateTime) :
      Took store { store with alarms := store.alarms ++ [newAlarm data updateTime] }
        (.arrived store.alarms.length)
  | started (request : Request matcher) (plain : request.Plain store.nextID) :
      Took store { store with requests := store.requests ++ [request] } .silent
  | gaveUp (index old new) (found : store.requests[index]? = some old)
      (wasPlain : (∃ filters, old = .adding filters) ∨ ∃ ids, old = .deleting ids)
      (plain : new.Plain store.nextID) : Took store (store.setRequest index new) .silent
  | inserted (index filter filters)
      (found : store.requests[index]? = some (.adding (filter :: filters))) :
      Took store
        { store.setRequest index (.inserted filter store.nextID filters) with
          whitelists := store.whitelists ++ [(store.nextID, filter)]
          nextID := store.nextID + 1 }
        .silent
  | deleted (index objList) (found : store.requests[index]? = some (.deleting objList)) :
      Took store
        { store.setRequest index (.clearing objList) with
          whitelists := store.whitelists.filter (fun entry => !objList.contains entry.1) }
        .silent
  | enqueued (index old update new) (found : store.requests[index]? = some old)
      (enqueues : old.Enqueues update new) :
      Took store { store.setRequest index new with queue := store.queue ++ [update] }
        (.enqueued update)
  | applied (update rest) (queue : store.queue = update :: rest) :
      Took store
        { store with alarms := store.alarms.map (fun alarm => alarm.update update), queue := rest }
        (.applied update)
  | found (waiting : store.checker = .waiting) :
      Took store { store with checker := .found store.whitelists } .found
  | stamped (wls now) (found : store.checker = .found wls) :
      Took store { store with checker := .checking wls now } .silent
  | checked (id filter wls updateTime)
      (checking : store.checker = .checking ((id, filter) :: wls) updateTime) :
      Took store
        { store with
          alarms := store.alarms.map (fun alarm => alarm.check id filter)
          checker := .checking wls updateTime }
        (.checked id filter)
  | marked (updateTime now) (checking : store.checker = .checking [] updateTime) :
      Took store
        { store with
          alarms := store.alarms.map (fun alarm => alarm.mark updateTime now)
          checker := .waiting }
        .marked

variable {store next : Store matcher} {event : Event matcher} {index : Nat}

theorem took_of_enqueue {now : Int}
    (stepped : store.enqueue index now = some (next, event)) : Took store next event := by
  have ofAdd : ∀ {old new update}, store.requests[index]? = some old →
      Request.Enqueues old update new → store.add index new update = some (next, event) →
      Took store next event := by
    intro old new update found enqueues added
    obtain ⟨_, ⟨⟩⟩ := Option.ite_none_right_eq_some.mp added
    exact .enqueued index old update new found enqueues
  simp only [enqueue] at stepped
  split at stepped
  next filter id filters found => exact ofAdd found (.add filter id filters now) stepped
  next id rest found => exact ofAdd found (.clear id rest now) stepped
  next id rest found => exact ofAdd found (.pull id rest) stepped
  next => cases stepped

theorem took_of_insertOne {fails : Bool}
    (stepped : store.insertOne index fails = some (next, event)) : Took store next event := by
  simp only [insertOne] at stepped
  split at stepped
  next filter filters found =>
    split at stepped <;> cases stepped
    next => exact .gaveUp index _ _ found (.inl ⟨_, rfl⟩) (.adding [])
    next => exact .inserted index filter filters found
  next => cases stepped

theorem took_of_deleteMany {fails : Bool}
    (stepped : store.deleteMany index fails = some (next, event)) : Took store next event := by
  simp only [deleteMany] at stepped
  split at stepped
  next ids found =>
    split at stepped <;> cases stepped
    next => exact .gaveUp index _ _ found (.inr ⟨_, rfl⟩) .done
    next => exact .deleted index ids found
  next => cases stepped

theorem took_of_work (stepped : store.work = some (next, event)) : Took store next event := by
  simp only [work] at stepped
  split at stepped <;> cases stepped
  next update rest queue => exact .applied update rest queue

theorem took_of_runChecker {action : Action matcher}
    (stepped : store.runChecker action = some (next, event)) : Took store next event := by
  cases action with
  | find =>
    simp only [runChecker] at stepped
    split at stepped <;> cases stepped
    next waiting => exact .found waiting
  | stamp now =>
    simp only [runChecker] at stepped
    split at stepped <;> cases stepped
    next wls found => exact .stamped wls now found
  | check =>
    simp only [runChecker] at stepped
    split at stepped <;> cases stepped
    next id filter wls updateTime checking => exact .checked id filter wls updateTime checking
  | mark now =>
    simp only [runChecker] at stepped
    split at stepped <;> cases stepped
    next updateTime checking => exact .marked updateTime now checking
  | _ => cases stepped

theorem took_of_step {action : Action matcher} (stepped : store.step action = some (next, event)) :
    Took store next event := by
  have ofChecker : store.runChecker action = some (next, event) → Took store next event :=
    took_of_runChecker
  cases action with
  | arrive data updateTime =>
    cases stepped
    exact .arrived data updateTime
  | addWhiteLists filters =>
    cases stepped
    exact .started _ (.adding filters)
  | delWhiteLists idList =>
    obtain ⟨known, ⟨⟩⟩ := Option.ite_none_right_eq_some.mp stepped
    refine .started _ (.deleting _ fun id listed => ?_)
    exact of_decide_eq_true (List.all_eq_true.mp known id listed)
  | insertOne => exact took_of_insertOne stepped
  | deleteMany => exact took_of_deleteMany stepped
  | enqueue => exact took_of_enqueue stepped
  | work => exact took_of_work stepped
  | find | stamp | check | mark => exact ofChecker stepped

end Store

end Elkeid.Manager.Whitelist
