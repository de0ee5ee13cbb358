import Mathlib

/-!
# Rules of the JVM probe

`detect` of `SmithProbe.java` stops a call of the application by the rules of a block, and `onEvent`
sends a traced call unless the rules of a filter leave it out. Both evaluate rules on the arguments
of the call, of which any may be null.

`find` stands for the search of a regular expression in a text. An argument that is not null is
given by its text.
-/

namespace Elkeid.Rasp.Hooks

structure MatchRule (Regex : Type) where
  index : Nat
  regex : Regex

structure Block (Regex : Type) where
  classID : Int
  methodID : Int
  rules : List (MatchRule Regex)

structure Filter (Regex : Type) where
  classID : Int
  methodID : Int
  includes : List (MatchRule Regex)
  excludes : List (MatchRule Regex)

structure Trace (Text : Type) where
  classID : Int
  methodID : Int
  /-- `none` is null -/
  args : List (Option Text)

inductive Thrown where
  | securityException
  | nullPointerException
deriving DecidableEq

structure SmithProbe (Regex : Type) where
  filters : Int × Int → Option (Filter Regex)
  blocks : Int × Int → Option (Block Regex)

variable {Regex Text : Type}

namespace SmithProbe

def new : SmithProbe Regex := ⟨fun _ => none, fun _ => none⟩

def onFilter (probe : SmithProbe Regex) (config : List (Filter Regex)) : SmithProbe Regex :=
  { probe with
    filters := config.foldl (fun filters filter =>
      Function.update filters (filter.classID, filter.methodID) (some filter)) (fun _ => none) }

def onBlock (probe : SmithProbe Regex) (config : List (Block Regex)) : SmithProbe Regex :=
  { probe with
    blocks := config.foldl (fun blocks block =>
      Function.update blocks (block.classID, block.methodID) (some block)) (fun _ => none) }

end SmithProbe

def anyMatch (pred : MatchRule Regex → Except Thrown Bool) :
    List (MatchRule Regex) → Except Thrown Bool
  | [] => .ok false
  | rule :: rest => do
      if ← pred rule then
        return true
      anyMatch pred rest

def noneMatch (pred : MatchRule Regex → Except Thrown Bool) (rules : List (MatchRule Regex)) :
    Except Thrown Bool := do
  return !(← anyMatch pred rules)

section Definitions

variable (find : Regex → Text → Bool)

/-- The predicate of both functions -/
def pred (args : List (Option Text)) (rule : MatchRule Regex) : Except Thrown Bool :=
  match args[rule.index]? with
  | none => .ok false
  | some none => .error .nullPointerException
  | some (some text) => .ok (find rule.regex text)

def detect (probe : SmithProbe Regex) (classID methodID : Int) (args : List (Option Text)) :
    Except Thrown Unit :=
  match probe.blocks (classID, methodID) with
  | none => .ok ()
  | some block => do
      if ← anyMatch (pred find args) block.rules then
        throw .securityException

/-- The result says if the trace is written to the client. -/
def onEvent (probe : SmithProbe Regex) (trace : Trace Text) : Except Thrown Bool :=
  match probe.filters (trace.classID, trace.methodID) with
  | none => .ok true
  | some filter => do
      if ← (if 0 < filter.includes.length then noneMatch (pred find trace.args) filter.includes
          else pure false) then
        return false
      if ← (if 0 < filter.excludes.length then anyMatch (pred find trace.args) filter.excludes
          else pure false) then
        return false
      return true

/-! ## What the rules say -/

def matched (args : List (Option Text)) (rule : MatchRule Regex) : Bool :=
  match args[rule.index]? with
  | some (some text) => find rule.regex text
  | _ => false

def includedBy (args : List (Option Text)) (rules : List (MatchRule Regex)) : Bool :=
  rules.isEmpty || rules.any (matched find args)

/-- The rules of a block say that a call is stopped when one of them matches. -/
def blockVerdict (args : List (Option Text)) (rules : List (MatchRule Regex)) :
    Except Thrown Unit :=
  if rules.any (matched find args) then .error .securityException else .ok ()

/-- The rules of a filter say which calls are sent. -/
def filterVerdict (args : List (Option Text)) (includes excludes : List (MatchRule Regex)) :
    Except Thrown Bool :=
  .ok (includedBy find args includes && !excludes.any (matched find args))

/-- A rule on a null argument, with no rule before it that matches. -/
def MeetsNull (args : List (Option Text)) (rules : List (MatchRule Regex)) : Prop :=
  ∃ before rule after, rules = before ++ rule :: after ∧ args[rule.index]? = some none ∧
    ∀ earlier ∈ before, matched find args earlier = false

end Definitions

namespace SmithProbe

def rules (probe : SmithProbe Regex) (classID methodID : Int) : List (MatchRule Regex) :=
  ((probe.blocks (classID, methodID)).map Block.rules).getD []

def includes (probe : SmithProbe Regex) (classID methodID : Int) : List (MatchRule Regex) :=
  ((probe.filters (classID, methodID)).map Filter.includes).getD []

def excludes (probe : SmithProbe Regex) (classID methodID : Int) : List (MatchRule Regex) :=
  ((probe.filters (classID, methodID)).map Filter.excludes).getD []

end SmithProbe

/-! ## Rules in order -/

variable {find : Regex → Text → Bool} {args : List (Option Text)}

@[simp]
theorem not_meetsNull_nil : ¬ MeetsNull find args [] := by
  rintro ⟨before, rule, after, same, _⟩
  exact List.append_ne_nil_of_right_ne_nil before (List.cons_ne_nil rule after) same.symm

theorem meetsNull_cons_iff (rule : MatchRule Regex) (rest : List (MatchRule Regex)) :
    MeetsNull find args (rule :: rest) ↔
      args[rule.index]? = some none ∨ matched find args rule = false ∧
        MeetsNull find args rest := by
  constructor
  · rintro ⟨before, met, after, same, isNull, noMatch⟩
    cases before with
    | nil =>
      cases same
      exact .inl isNull
    | cons first before =>
      cases same
      obtain ⟨firstFails, laterFail⟩ := List.forall_mem_cons.mp noMatch
      exact .inr ⟨firstFails, before, met, after, rfl, isNull, laterFail⟩
  · rintro (isNull | ⟨fails, before, met, after, rfl, isNull, noMatch⟩)
    · exact ⟨[], rule, rest, rfl, isNull, List.forall_mem_nil _⟩
    · exact ⟨rule :: before, met, after, rfl, isNull, List.forall_mem_cons.mpr ⟨fails, noMatch⟩⟩

theorem pred_of_null {rule : MatchRule Regex} (isNull : args[rule.index]? = some none) :
    pred find args rule = .error .nullPointerException := by
  rw [pred, isNull]

theorem pred_of_not_null {rule : MatchRule Regex} (notNull : args[rule.index]? ≠ some none) :
    pred find args rule = .ok (matched find args rule) := by
  unfold pred matched
  cases given : args[rule.index]? with
  | none => rfl
  | some argument =>
    cases argument with
    | none => exact absurd given notNull
    | some text => rfl

variable {rules : List (MatchRule Regex)}

theorem anyMatch_of_meetsNull (meets : MeetsNull find args rules) :
    anyMatch (pred find args) rules = .error .nullPointerException := by
  induction rules with
  | nil => exact absurd meets not_meetsNull_nil
  | cons rule rest ih =>
    by_cases isNull : args[rule.index]? = some none
    · rw [anyMatch, pred_of_null isNull]
      rfl
    · obtain ⟨fails, later⟩ := ((meetsNull_cons_iff rule rest).mp meets).resolve_left isNull
      rw [anyMatch, pred_of_not_null isNull, fails]
      exact ih later

theorem anyMatch_of_not_meetsNull (free : ¬ MeetsNull find args rules) :
    anyMatch (pred find args) rules = .ok (rules.any (matched find args)) := by
  induction rules with
  | nil => rfl
  | cons rule rest ih =>
    obtain ⟨notNull, laterFree⟩ := not_or.mp (mt (meetsNull_cons_iff rule rest).mpr free)
    rw [anyMatch, pred_of_not_null notNull, List.any_cons]
    cases fails : matched find args rule with
    | true => rfl
    | false => exact ih (fun meets => laterFree ⟨fails, meets⟩)

/-! ## Calls of the application -/

theorem detect_eq_iff (find : Regex → Text → Bool) (probe : SmithProbe Regex)
    (classID methodID : Int) (args : List (Option Text)) :
    detect find probe classID methodID args =
        blockVerdict find args (probe.rules classID methodID) ↔
      ¬ MeetsNull find args (probe.rules classID methodID) := by
  unfold detect blockVerdict SmithProbe.rules
  cases probe.blocks (classID, methodID) with
  | none => exact iff_of_true rfl not_meetsNull_nil
  | some block =>
    simp only [Option.map_some, Option.getD_some]
    by_cases meets : MeetsNull find args block.rules
    · rw [anyMatch_of_meetsNull meets]
      refine iff_of_false (fun same => ?_) (not_not.mpr meets)
      split at same <;> cases same
    · rw [anyMatch_of_not_meetsNull meets]
      exact iff_of_true rfl meets

/-! ## Traces -/

theorem anyMatch_guarded (pred : MatchRule Regex → Except Thrown Bool)
    (rules : List (MatchRule Regex)) :
    (if 0 < rules.length then anyMatch pred rules else pure false) = anyMatch pred rules := by
  cases rules <;> rfl

theorem noneMatch_guarded (free : ¬ MeetsNull find args rules) :
    (if 0 < rules.length then noneMatch (pred find args) rules else pure false) =
      .ok (!includedBy find args rules) := by
  unfold noneMatch includedBy
  rw [anyMatch_of_not_meetsNull free]
  cases rules <;> rfl

theorem noneMatch_of_meetsNull (meets : MeetsNull find args rules) :
    (if 0 < rules.length then noneMatch (pred find args) rules else pure false) =
      .error .nullPointerException := by
  unfold noneMatch
  rw [anyMatch_of_meetsNull meets]
  cases rules with
  | nil => exact absurd meets not_meetsNull_nil
  | cons rule rest => rfl

theorem onEvent_eq_iff (find : Regex → Text → Bool) (probe : SmithProbe Regex)
    (trace : Trace Text) :
    onEvent find probe trace =
        filterVerdict find trace.args (probe.includes trace.classID trace.methodID)
          (probe.excludes trace.classID trace.methodID) ↔
      ¬ MeetsNull find trace.args (probe.includes trace.classID trace.methodID) ∧
        (includedBy find trace.args (probe.includes trace.classID trace.methodID) = true →
          ¬ MeetsNull find trace.args (probe.excludes trace.classID trace.methodID)) := by
  unfold onEvent filterVerdict SmithProbe.includes SmithProbe.excludes
  cases probe.filters (trace.classID, trace.methodID) with
  | none => exact iff_of_true rfl ⟨not_meetsNull_nil, fun _ => not_meetsNull_nil⟩
  | some filter =>
    simp only [Option.map_some, Option.getD_some]
    by_cases meetsInclude : MeetsNull find trace.args filter.includes
    · rw [noneMatch_of_meetsNull meetsInclude]
      exact iff_of_false nofun (fun free => free.1 meetsInclude)
    rw [noneMatch_guarded meetsInclude, anyMatch_guarded, and_iff_right meetsInclude]
    cases includedBy find trace.args filter.includes with
    | false => exact iff_of_true rfl nofun
    | true =>
      by_cases meetsExclude : MeetsNull find trace.args filter.excludes
      · rw [anyMatch_of_meetsNull meetsExclude]
        exact iff_of_false nofun (fun free => free rfl meetsExclude)
      · rw [anyMatch_of_not_meetsNull meetsExclude]
        refine iff_of_true ?_ (fun _ => meetsExclude)
        cases filter.excludes.any (matched find trace.args) <;> rfl

/-! ## Both hooks -/

theorem hooks_exact_iff (find : Regex → Text → Bool) (probe : SmithProbe Regex)
    (classID methodID : Int) (args : List (Option Text)) (trace : Trace Text) :
    (detect find probe classID methodID args =
        blockVerdict find args (probe.rules classID methodID) ↔
      ¬ MeetsNull find args (probe.rules classID methodID)) ∧
    (onEvent find probe trace =
        filterVerdict find trace.args (probe.includes trace.classID trace.methodID)
          (probe.excludes trace.classID trace.methodID) ↔
      ¬ MeetsNull find trace.args (probe.includes trace.classID trace.methodID) ∧
        (includedBy find trace.args (probe.includes trace.classID trace.methodID) = true →
          ¬ MeetsNull find trace.args (probe.excludes trace.classID trace.methodID))) :=
  ⟨detect_eq_iff find probe classID methodID args, onEvent_eq_iff find probe trace⟩

def literal (regex text : List Char) : Bool := text.tails.any (regex.isPrefixOf ·)

def environmentRule : MatchRule (List Char) := ⟨1, ['L', 'D', '_']⟩

def commandRule : MatchRule (List Char) := ⟨0, ['s', 'h']⟩

/-- The rules look at the environment of a command first. -/
def commandProbe : SmithProbe (List Char) :=
  (SmithProbe.new.onBlock [⟨0, 1, [environmentRule, commandRule]⟩]).onFilter
    [⟨0, 1, [environmentRule, commandRule], []⟩]

/-- A command with the environment of its parent. -/
def commandArgs : List (Option (List Char)) := [some ['/', 'b', 'i', 'n', '/', 's', 'h'], none]

theorem null_environment_throws : matched literal commandArgs commandRule = true ∧
      detect literal commandProbe 0 1 commandArgs = .error .nullPointerException ∧
      onEvent literal commandProbe ⟨0, 1, commandArgs⟩ = .error .nullPointerException :=
  ⟨by decide, rfl, rfl⟩

end Elkeid.Rasp.Hooks
