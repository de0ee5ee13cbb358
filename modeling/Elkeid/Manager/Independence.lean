import Elkeid.Manager.UpdateConfig

/-!
# Agents that share the default configuration

The edits of one agent are written into the array of the default configuration, where the next
agent without a configuration of its own finds them. Edits that delete nothing of it and name each
configuration once can be repeated there without harm: whatever is written is what the array
ends up with. A deletion moves the elements behind it, and doing it twice deletes too much or
leaves an element twice.
-/

namespace Elkeid.Manager

open Foundations AgentConfigMsg Slice List

def Heartbeat.ownConfig (defaultConfig : List AgentConfigMsg) (hb : Heartbeat) :
    List AgentConfigMsg :=
  if hb.config.isEmpty then defaultConfig else hb.config

/-- The agents of a batch: every document that can be decoded, the first one of each agent. -/
def addAgent (agents : List Heartbeat) : Option Heartbeat → List Heartbeat
  | none => agents
  | some hb =>
    if agents.any (fun other => other.agentID == hb.agentID) then agents else agents ++ [hb]

/-- A deletion finds nothing in the configuration, and no name comes twice. -/
structure Repeatable (items config : List AgentConfigMsg) : Prop where
  idle : ∀ item ∈ items, item.deletes = true → item.position config = none
  distinct : (items.map AgentConfigMsg.name).Nodup

/-- The task can be repeated on the default configuration, or at most one agent has no configuration
of its own. -/
def Harmless (items own : List AgentConfigMsg) (agents : List Heartbeat) : Prop :=
  Repeatable items own ∨ (agents.filter (fun hb => hb.config.isEmpty)).length ≤ 1

/-! ## Edits that can be repeated -/

section Edits

variable {item : AgentConfigMsg} {items config others final : List AgentConfigMsg} {index : Nat}
  {value : AgentConfigMsg}

theorem AgentConfigMsg.name_of_position (found : item.position config = some index) :
    ∃ value, config[index]? = some value ∧ value.name = item.name := by
  obtain ⟨inside, named, _⟩ := findIdx?_eq_some_iff_getElem.mp found
  exact ⟨config[index], getElem?_eq_getElem inside, beq_iff_eq.mp named⟩

theorem AgentConfigMsg.position_eq (item : AgentConfigMsg) (config : List AgentConfigMsg) :
    item.position config =
      (config.map AgentConfigMsg.name).findIdx? (fun name => name == item.name) := by
  rw [findIdx?_map]
  rfl

theorem AgentConfigMsg.position_congr
    (same : others.map AgentConfigMsg.name = config.map AgentConfigMsg.name) :
    item.position others = item.position config := by
  rw [position_eq, position_eq, same]

theorem AgentConfigMsg.position_eq_none :
    item.position config = none ↔ item.name ∉ config.map AgentConfigMsg.name := by
  rw [position_eq, findIdx?_eq_none_iff]
  simp only [beq_eq_false_iff_ne]
  exact ⟨fun differs listed => differs _ listed rfl,
    fun absent _ listed same => absent (same ▸ listed)⟩

@[simp]
theorem AgentConfigMsg.update_name (item value : AgentConfigMsg) :
    (item.update value).name = value.name := rfl

theorem editItem_of_found (keeps : item.deletes = false)
    (atPosition : item.position config = some index) (found : config[index]? = some value) :
    editItem config item = config.set index (item.update value) := by
  simp [editItem, atPosition, keeps, getD, found]

theorem editItem_of_absent (absent : item.position config = none) :
    editItem config item = if item.deletes then config else config ++ [item] := by
  simp [editItem, absent]

@[simp]
theorem editConfig_cons (item : AgentConfigMsg) (items config : List AgentConfigMsg) :
    editConfig (item :: items) config = editConfig items (editItem config item) := rfl

section

variable (repeatable : Repeatable (item :: items) config)
include repeatable

theorem Repeatable.keeps (atPosition : item.position config = some index) :
    item.deletes = false := by
  refine Bool.eq_false_iff.mpr fun deletes => ?_
  cases (repeatable.idle item mem_cons_self deletes).symm.trans atPosition

theorem Repeatable.getElem?_of_ne (found : config[index]? = some value)
    (differs : value.name ≠ item.name) : (editItem config item)[index]? = some value := by
  cases atPosition : item.position config with
  | none =>
    rw [editItem_of_absent atPosition]
    split
    next => exact found
    next =>
      rw [List.getElem?_append_left (List.getElem?_eq_some_iff.mp found).1]
      exact found
  | some position =>
    obtain ⟨other, otherFound, named⟩ := name_of_position atPosition
    have elsewhere : position ≠ index := by
      rintro rfl
      cases found.symm.trans otherFound
      exact differs named
    rw [editItem_of_found (repeatable.keeps atPosition) atPosition otherFound,
      List.getElem?_set_ne elsewhere]
    exact found

/-- An item that edits the configuration leaves its names, or adds its own. -/
theorem Repeatable.names :
    (editItem config item).map AgentConfigMsg.name = config.map AgentConfigMsg.name ∨
      (editItem config item).map AgentConfigMsg.name =
        config.map AgentConfigMsg.name ++ [item.name] := by
  cases atPosition : item.position config with
  | none =>
    rw [editItem_of_absent atPosition]
    split
    next => exact .inl rfl
    next => exact .inr map_append
  | some index =>
    obtain ⟨value, found, _⟩ := name_of_position atPosition
    rw [editItem_of_found (repeatable.keeps atPosition) atPosition found, map_set, update_name]
    have atIndex : (config.map AgentConfigMsg.name)[index]? = some value.name := by
      rw [getElem?_map, found, Option.map_some]
    rw [← (List.getElem?_eq_some_iff.mp atIndex).2, set_getElem_self]
    exact .inl rfl

theorem Repeatable.tail : Repeatable items (editItem config item) := by
  obtain ⟨fresh, distinct⟩ := nodup_cons.mp repeatable.distinct
  refine ⟨fun other listed deletes => ?_, distinct⟩
  have absent := repeatable.idle other (mem_cons_of_mem _ listed) deletes
  have differs : other.name ≠ item.name := fun same => fresh (same ▸ mem_map_of_mem listed)
  rw [position_eq_none] at absent ⊢
  rcases repeatable.names with same | added
  · exact same ▸ absent
  · rw [added, mem_append, mem_singleton]
    exact not_or.mpr ⟨absent, differs⟩

end

theorem getElem?_editConfig_of_not_mem
    (found : config[index]? = some value) (repeatable : Repeatable items config)
    (unnamed : value.name ∉ items.map AgentConfigMsg.name) :
    (editConfig items config)[index]? = some value := by
  induction items generalizing config with
  | nil => exact found
  | cons item rest ih =>
    rw [map_cons, mem_cons, not_or] at unnamed
    exact ih (repeatable.getElem?_of_ne found unnamed.1) repeatable.tail unnamed.2

section

variable (repeatable : Repeatable (item :: items) config)
include repeatable

theorem Repeatable.getElem?_of_edited
    (edited : (editItem config item)[index]? = some value) (named : value.name = item.name) :
    (editConfig (item :: items) config)[index]? = some value := by
  rw [editConfig_cons]
  refine getElem?_editConfig_of_not_mem edited repeatable.tail ?_
  rw [named]
  exact (nodup_cons.mp repeatable.distinct).1

theorem Repeatable.getElem?_found
    (atPosition : item.position config = some index) (found : config[index]? = some value) :
    (editConfig (item :: items) config)[index]? = some (item.update value) := by
  obtain ⟨other, otherFound, named⟩ := name_of_position atPosition
  cases found.symm.trans otherFound
  refine repeatable.getElem?_of_edited ?_ named
  rw [editItem_of_found (repeatable.keeps atPosition) atPosition found]
  exact List.getElem?_set_self (List.getElem?_eq_some_iff.mp found).1

theorem Repeatable.getElem?_absent (absent : item.position config = none)
    (keeps : item.deletes = false) :
    (editConfig (item :: items) config)[config.length]? = some item := by
  refine repeatable.getElem?_of_edited ?_ rfl
  rw [editItem_of_absent absent, keeps]
  exact getElem?_concat_length

end

/-- A configuration in which some elements are already those of the final one. -/
structure Between (final config others : List AgentConfigMsg) : Prop where
  names : others.map AgentConfigMsg.name = config.map AgentConfigMsg.name
  elements : ∀ index : Nat, index < config.length →
    others[index]? = config[index]? ∨ others[index]? = final[index]?

section

variable (between : Between final config others)
include between

theorem Between.length : others.length = config.length := by
  simpa only [length_map] using congrArg List.length between.names

theorem Between.update_eq
    (repeatable : Repeatable (item :: items) config)
    (isFinal : editConfig (item :: items) config = final)
    (atPosition : item.position config = some index)
    (found : others[index]? = some value) : final[index]? = some (item.update value) := by
  obtain ⟨old, oldFound, _⟩ := name_of_position atPosition
  have finalFound := repeatable.getElem?_found atPosition oldFound
  rw [isFinal] at finalFound
  rcases between.elements index (position_lt atPosition) with same | already
  · cases oldFound.symm.trans (same.symm.trans found)
    exact finalFound
  · have shape := finalFound.symm.trans (already.symm.trans found)
    cases shape
    rw [update_update]
    exact finalFound

theorem Between.editItem
    (repeatable : Repeatable (item :: items) config)
    (isFinal : editConfig (item :: items) config = final) :
    Between final (editItem config item) (editItem others item) := by
  have samePosition : item.position others = item.position config :=
    position_congr between.names
  cases atPosition : item.position config with
  | none =>
    rw [editItem_of_absent atPosition, editItem_of_absent (samePosition.trans atPosition)]
    split
    next => exact between
    next =>
      refine ⟨by rw [map_append, map_append, between.names], ?_⟩
      intro index inside
      rw [length_append, length_singleton] at inside
      rcases Nat.lt_succ_iff_lt_or_eq.mp inside with within | rfl
      · rw [List.getElem?_append_left within, List.getElem?_append_left (between.length ▸ within)]
        exact between.elements index within
      · rw [getElem?_concat_length, ← between.length, getElem?_concat_length]
        exact .inl rfl
  | some index =>
    obtain ⟨old, oldFound, oldNamed⟩ := name_of_position atPosition
    obtain ⟨value, found, named⟩ :=
      name_of_position (samePosition.trans atPosition)
    have inside : index < others.length := (List.getElem?_eq_some_iff.mp found).1
    have written := between.update_eq repeatable isFinal atPosition found
    have keeps := repeatable.keeps atPosition
    rw [editItem_of_found keeps atPosition oldFound,
      editItem_of_found keeps (samePosition.trans atPosition) found]
    refine ⟨?_, ?_⟩
    · rw [map_set, map_set, between.names, update_name, update_name, named, oldNamed]
    · intro position within
      rw [length_set] at within
      by_cases same : position = index
      · rw [same, List.getElem?_set_self inside]
        exact .inr written.symm
      · rw [List.getElem?_set_ne (Ne.symm same), List.getElem?_set_ne (Ne.symm same)]
        exact between.elements position within

theorem Between.editConfig_eq
    (repeatable : Repeatable items config) (isFinal : editConfig items config = final) :
    editConfig items others = final := by
  induction items generalizing config others with
  | nil =>
    cases isFinal
    refine ext_getElem? fun index => ?_
    by_cases inside : index < config.length
    · rcases between.elements index inside with same | same <;> exact same
    · have outside := Nat.le_of_not_lt inside
      exact (getElem?_eq_none (between.length ▸ outside)).trans (getElem?_eq_none outside).symm
  | cons item items ih =>
    exact ih (between.editItem repeatable isFinal) repeatable.tail isFinal

end

theorem Repeatable.names_grow (repeatable : Repeatable items config) :
    config.map AgentConfigMsg.name <+: (editConfig items config).map AgentConfigMsg.name := by
  induction items generalizing config with
  | nil => exact prefix_rfl
  | cons item items ih =>
    refine List.IsPrefix.trans ?_ (ih repeatable.tail)
    rcases repeatable.names with same | added
    · exact same ▸ prefix_rfl
    · exact added ▸ prefix_append _ _

/-- Some elements have been replaced by final ones. -/
structure Settles (final before after : List AgentConfigMsg) : Prop where
  length : after.length = before.length
  elements : ∀ index : Nat, index < before.length →
    after[index]? = before[index]? ∨ after[index]? = final[index]?

namespace Settles

variable {before middle after : List AgentConfigMsg}

theorem refl (final before : List AgentConfigMsg) : Settles final before before :=
  ⟨rfl, fun _ _ => .inl rfl⟩

theorem trans (first : Settles final before middle) (second : Settles final middle after) :
    Settles final before after := by
  refine ⟨second.length.trans first.length, fun index inside => ?_⟩
  rcases second.elements index (first.length ▸ inside) with same | already
  · rw [same]
    exact first.elements index inside
  · exact .inr already

theorem set {index : Nat} {value : AgentConfigMsg} (isFinal : final[index]? = some value)
    (before : List AgentConfigMsg) : Settles final before (before.set index value) := by
  refine ⟨length_set, fun position inside => ?_⟩
  by_cases same : position = index
  · rw [same] at inside ⊢
    exact .inr ((getElem?_set_self inside).trans isFinal.symm)
  · exact .inl (getElem?_set_ne (Ne.symm same))

theorem eq_final (settles : Settles final final after) : after = final := by
  refine ext_getElem? fun index => ?_
  by_cases inside : index < final.length
  · rcases settles.elements index inside with same | same <;> exact same
  · have outside := Nat.le_of_not_lt inside
    rw [getElem?_eq_none outside, getElem?_eq_none (settles.length ▸ outside)]

theorem between (settles : Settles final config others) (repeatable : Repeatable items config)
    (isFinal : editConfig items config = final) : Between final config others := by
  refine ⟨?_, settles.elements⟩
  obtain ⟨added, grown⟩ := repeatable.names_grow
  refine ext_getElem? fun index => ?_
  by_cases inside : index < config.length
  · rw [getElem?_map]
    rcases settles.elements index inside with same | already
    · rw [same, getElem?_map]
    · rw [already, ← isFinal, ← getElem?_map, ← grown,
        getElem?_append_left (by rwa [length_map])]
  · have outside := Nat.le_of_not_lt inside
    rw [getElem?_eq_none (by rwa [length_map, settles.length]),
      getElem?_eq_none (by rwa [length_map])]

end Settles

end Edits

/-! ## Repeating edits in one array -/

section Arrays

variable (grow : Nat → Nat → Nat) {arrays : Arrays AgentConfigMsg} {config other : Slice}
  {item : AgentConfigMsg} {items rest own final : List AgentConfigMsg}

theorem updateItem_settles (repeatable : Repeatable (item :: items) own)
    (isFinal : editConfig (item :: items) own = final) (valid : config.Valid arrays)
    (between : Between final own (config.read arrays)) (known : other.array < arrays.length)
    (aliased : config.array = other.array → config.offset = other.offset) :
    Settles final (other.read arrays) (other.read (updateItem grow (arrays, config) item).1) ∧
      ((updateItem grow (arrays, config) item).2.array = other.array →
        (updateItem grow (arrays, config) item).2.offset = other.offset) := by
  have assigned : ∀ {index : Nat} {value : AgentConfigMsg}, final[index]? = some value →
      Settles final (other.read arrays) (other.read (config.set arrays index value)) := by
    intro index value written
    by_cases same : other.array = config.array
    · rw [read_set_alias same (aliased same.symm).symm]
      exact .set written _
    · have unchanged : (config.set arrays index value)[other.array]? = arrays[other.array]? :=
        getElem?_modify_of_ne same _
      rw [read_congr unchanged]
      exact .refl _ _
  have samePosition : item.position (config.read arrays) = item.position own :=
    position_congr between.names
  cases atPosition : item.position (config.read arrays) with
  | some index =>
    have keeps := repeatable.keeps (samePosition.symm.trans atPosition)
    obtain ⟨value, found, _⟩ := name_of_position atPosition
    simp only [updateItem, atPosition, keeps, Bool.false_eq_true, if_false, getD, found,
      Option.getD_some]
    exact ⟨assigned (between.update_eq repeatable isFinal (samePosition.symm.trans atPosition)
      found), aliased⟩
  | none =>
    simp only [updateItem, atPosition]
    split
    next => exact ⟨.refl _ _, aliased⟩
    next keeps =>
      have written := repeatable.getElem?_absent (samePosition.symm.trans atPosition)
        (Bool.eq_false_iff.mpr keeps)
      rw [isFinal, ← between.length, valid.length_read] at written
      rcases append_singleton_cases valid grow item with inPlace | moved
      · simp only [inPlace]
        exact ⟨assigned written, aliased⟩
      · simp only [moved]
        refine ⟨?_, ?_⟩
        · rw [read_congr (getElem?_alloc known _ _)]
          exact .refl _ _
        · intro same
          exact absurd known (Nat.not_lt.mpr (le_of_eq same))

theorem updateConfig_settles (repeatable : Repeatable (items ++ rest) own)
    (isFinal : editConfig (items ++ rest) own = final) (valid : config.Valid arrays)
    (between : Between final own (config.read arrays)) (known : other.array < arrays.length)
    (aliased : config.array = other.array → config.offset = other.offset) :
    Settles final (other.read arrays)
      (other.read (updateConfig grow items (arrays, config)).1) := by
  induction items generalizing arrays config own with
  | nil => exact .refl _ _
  | cons item items ih =>
    have ⟨settles, aliasedNext⟩ :=
      updateItem_settles grow repeatable isFinal valid between known aliased
    have ⟨validNext, readNext, follows⟩ := updateItem_spec grow valid item
    have betweenNext := between.editItem repeatable isFinal
    rw [← readNext] at betweenNext
    exact settles.trans (ih repeatable.tail isFinal validNext betweenNext
      (lt_of_lt_of_le known follows.grows) aliasedNext)

end Arrays

/-! ## The batch -/

namespace Distribution

variable (grow : Nat → Nat → Nat) {items own : List AgentConfigMsg} {defaultConfig : Slice}
  {state : Distribution} {hb : Heartbeat}

/-- Every job shows the edits of its own agent, and the array of the default configuration
holds no more than it may. -/
structure Sound (items own : List AgentConfigMsg) (defaultConfig : Slice) (state : Distribution) :
    Prop where
  defaultValid : defaultConfig.Valid state.arrays
  valid : ∀ hb config, (hb, config) ∈ state.jobs → config.Valid state.arrays
  reads : ∀ hb config, (hb, config) ∈ state.jobs →
    config.read state.arrays = editConfig items (hb.ownConfig own)
  aliased : ∀ hb config, (hb, config) ∈ state.jobs → config.array = defaultConfig.array →
    hb.config.isEmpty ∧ config.offset = defaultConfig.offset
  settles : Repeatable items own →
    Settles (editConfig items own) own (defaultConfig.read state.arrays)
  untouched : (∀ hb config, (hb, config) ∈ state.jobs → hb.config.isEmpty = false) →
    defaultConfig.read state.arrays = own

def Fits (items own : List AgentConfigMsg) (state : Distribution) (hb : Heartbeat) : Prop :=
  hb.config.isEmpty → Repeatable items own ∨
    ∀ other config, (other, config) ∈ state.jobs → other.config.isEmpty = false

theorem configOf_of_empty (empty : hb.config.isEmpty = true) :
    state.configOf defaultConfig hb = (state.arrays, defaultConfig) := by
  rw [configOf, if_pos empty]

theorem configOf_of_own (isOwn : hb.config.isEmpty = false) :
    state.configOf defaultConfig hb = alloc state.arrays hb.config hb.spare := by
  rw [configOf, isOwn, if_neg Bool.false_ne_true]

theorem valid_configOf (valid : defaultConfig.Valid state.arrays) (hb : Heartbeat) :
    (state.configOf defaultConfig hb).2.Valid (state.configOf defaultConfig hb).1 := by
  rw [configOf]
  split
  next => exact valid
  next => exact valid_alloc _ _ _

variable {config : Slice}

theorem valid_during (valid : defaultConfig.Valid state.arrays) (early : List AgentConfigMsg)
    (hb : Heartbeat) (isValid : config.Valid state.arrays) :
    config.Valid (updateConfig grow early (state.configOf defaultConfig hb)).1 := by
  obtain ⟨_, _, follows⟩ := updateConfig_spec grow (valid_configOf valid hb) early
  refine follows.valid config ?_
  rw [configOf]
  split
  next => exact isValid
  next => exact isValid.congr (getElem?_alloc isValid.array_lt _ _)

theorem read_during_of_ne (valid : defaultConfig.Valid state.arrays) (early : List AgentConfigMsg)
    (isValid : config.Valid state.arrays)
    (apart : hb.config.isEmpty = true → config.array ≠ defaultConfig.array) :
    config.read (updateConfig grow early (state.configOf defaultConfig hb)).1 =
      config.read state.arrays := by
  obtain ⟨_, _, follows⟩ := updateConfig_spec grow (valid_configOf valid hb) early
  refine read_congr ?_
  cases isEmpty : hb.config.isEmpty with
  | true =>
    rw [configOf_of_empty isEmpty] at follows ⊢
    exact follows.frame config.array isValid.array_lt (apart isEmpty)
  | false =>
    rw [configOf_of_own isEmpty] at follows ⊢
    have isKnown := getElem?_alloc isValid.array_lt hb.config hb.spare
    refine (follows.frame config.array ?_ (ne_of_lt isValid.array_lt)).trans isKnown
    refine lt_of_lt_of_le isValid.array_lt ?_
    rw [alloc, length_append]
    exact Nat.le_add_right _ _

section

variable (sound : Sound items own defaultConfig state)
include sound

theorem Sound.settles_during
    (repeatable : Repeatable items own) {early late : List AgentConfigMsg}
    (split : items = early ++ late)
    (empty : hb.config.isEmpty = true) (isValid : config.Valid state.arrays)
    (aliased : config.array = defaultConfig.array → config.offset = defaultConfig.offset) :
    Settles (editConfig items own) (config.read state.arrays)
      (config.read (updateConfig grow early (state.configOf defaultConfig hb)).1) := by
  have between := (sound.settles repeatable).between repeatable rfl
  rw [configOf_of_empty empty]
  refine updateConfig_settles grow (split ▸ repeatable) (split ▸ rfl) sound.defaultValid between
    isValid.array_lt ?_
  intro same
  exact (aliased same.symm).symm

theorem Sound.read_during (fits : state.Fits items own hb)
    {early late : List AgentConfigMsg} (split : items = early ++ late) {other : Heartbeat}
    (listed : (other, config) ∈ state.jobs) :
    config.read (updateConfig grow early (state.configOf defaultConfig hb)).1 =
      editConfig items (other.ownConfig own) := by
  have isValid := sound.valid other config listed
  by_cases shared : hb.config.isEmpty = true ∧ config.array = defaultConfig.array
  · obtain ⟨empty, same⟩ := shared
    obtain ⟨otherEmpty, sameOffset⟩ := sound.aliased other config listed same
    have repeatable : Repeatable items own := by
      refine (fits empty).resolve_right fun none => ?_
      rw [none other config listed] at otherEmpty
      cases otherEmpty
    have shown := sound.reads other config listed
    have settles := sound.settles_during grow repeatable split empty isValid (fun _ => sameOffset)
    rw [Heartbeat.ownConfig, if_pos otherEmpty] at shown ⊢
    rw [shown] at settles
    exact settles.eq_final
  · rw [read_during_of_ne grow sound.defaultValid early isValid
      (fun empty same => shared ⟨empty, same⟩)]
    exact sound.reads other config listed

theorem Sound.read_own (fits : state.Fits items own hb) :
    (updateConfig grow items (state.configOf defaultConfig hb)).2.read
        (updateConfig grow items (state.configOf defaultConfig hb)).1 =
      editConfig items (hb.ownConfig own) := by
  obtain ⟨_, read, _⟩ := updateConfig_spec grow (valid_configOf sound.defaultValid hb) items
  refine read.trans ?_
  cases isEmpty : hb.config.isEmpty with
  | false =>
    rw [configOf_of_own isEmpty, read_alloc, Heartbeat.ownConfig, isEmpty,
      if_neg Bool.false_ne_true]
  | true =>
    rw [configOf_of_empty isEmpty, Heartbeat.ownConfig, if_pos isEmpty]
    rcases fits isEmpty with repeatable | none
    · exact ((sound.settles repeatable).between repeatable rfl).editConfig_eq repeatable rfl
    · rw [sound.untouched none]

theorem Sound.add (fits : state.Fits items own hb) (agentIDMap : List Bytes) :
    Sound items own defaultConfig
      { arrays := (updateConfig grow items (state.configOf defaultConfig hb)).1
        agentIDMap
        jobs := state.jobs ++
          [(hb, (updateConfig grow items (state.configOf defaultConfig hb)).2)] } := by
  obtain ⟨validNew, _, follows⟩ :=
      updateConfig_spec grow (valid_configOf sound.defaultValid hb) items
  have whole : items = items ++ [] := (append_nil items).symm
  refine ⟨valid_during grow sound.defaultValid items hb sound.defaultValid, ?_, ?_, ?_, ?_, ?_⟩
  · intro other config listed
    rcases mem_append.mp listed with old | new
    · exact valid_during grow sound.defaultValid items hb (sound.valid other config old)
    · cases mem_singleton.mp new
      exact validNew
  · intro other config listed
    rcases mem_append.mp listed with old | new
    · exact sound.read_during grow fits whole old
    · cases mem_singleton.mp new
      exact sound.read_own grow fits
  · intro other config listed same
    rcases mem_append.mp listed with old | new
    · exact sound.aliased other config old same
    · cases mem_singleton.mp new
      have known := sound.defaultValid.array_lt
      cases isEmpty : hb.config.isEmpty with
      | true =>
        rw [configOf_of_empty isEmpty] at follows same ⊢
        rcases follows.place with ⟨_, sameOffset⟩ | moved
        · exact ⟨rfl, sameOffset⟩
        · exact absurd (same ▸ moved) (Nat.not_le.mpr known)
      | false =>
        -- a configuration of its own never comes to lie in the default one's array
        rw [configOf_of_own isEmpty] at follows same
        rcases follows.place with ⟨stays, _⟩ | moved
        · exact absurd (same.symm.trans stays) (ne_of_lt known)
        · rw [same] at moved
          refine absurd (le_trans ?_ moved) (Nat.not_le.mpr known)
          rw [alloc, length_append]
          exact Nat.le_add_right _ _
  · intro repeatable
    refine (sound.settles repeatable).trans ?_
    cases isEmpty : hb.config.isEmpty with
    | true =>
      exact sound.settles_during grow repeatable whole isEmpty sound.defaultValid (fun _ => rfl)
    | false =>
      rw [read_during_of_ne grow sound.defaultValid items sound.defaultValid
        (fun empty => absurd (isEmpty.symm.trans empty) Bool.false_ne_true)]
      exact .refl _ _
  · intro none
    have isOwn : hb.config.isEmpty = false :=
      none hb _ (mem_append_right _ mem_cons_self)
    rw [read_during_of_ne grow sound.defaultValid items sound.defaultValid
      (fun empty => absurd (isOwn.symm.trans empty) Bool.false_ne_true)]
    exact sound.untouched fun other config listed =>
      none other config (mem_append_left _ listed)

end

/-! ### All documents -/

structure Lists (agents : List Heartbeat) (state : Distribution) : Prop where
  jobs : state.jobs.map Prod.fst = agents
  seen : state.agentIDMap = (agents.map Heartbeat.agentID).reverse

variable {agents : List Heartbeat}

theorem Lists.contains (lists : Lists agents state) (agentID : Bytes) :
    state.agentIDMap.contains agentID = agents.any (fun other => other.agentID == agentID) := by
  rw [lists.seen, Bool.eq_iff_iff, contains_iff_mem, mem_reverse, mem_map, any_eq_true]
  simp

theorem Lists.process (lists : Lists agents state) (document : Option Heartbeat) :
    Lists (addAgent agents document) (state.process grow items defaultConfig document) := by
  cases document with
  | none => exact lists
  | some hb =>
    simp only [Distribution.process, addAgent, lists.contains]
    split
    next => exact lists
    next =>
      refine ⟨?_, ?_⟩
      · rw [map_append, lists.jobs]
        rfl
      · rw [map_append, reverse_append, lists.seen]
        rfl

theorem Lists.fits (lists : Lists agents state)
    (unseen : ¬ state.agentIDMap.contains hb.agentID = true)
    (harmless : Harmless items own (addAgent agents (some hb))) : state.Fits items own hb := by
  rw [addAgent, ← lists.contains, if_neg unseen] at harmless
  intro empty
  refine harmless.imp_right fun few other config listed => ?_
  rw [filter_append, length_append, filter_singleton, empty] at few
  have none : agents.filter (fun hb => hb.config.isEmpty) = [] :=
    length_eq_zero_iff.mp (Nat.le_zero.mp (Nat.le_of_succ_le_succ few))
  have isAgent : other ∈ agents := lists.jobs ▸ mem_map_of_mem listed
  exact Bool.eq_false_iff.mpr (filter_eq_nil_iff.mp none other isAgent)

end Distribution

end Elkeid.Manager
