import Elkeid.Probe.Execve

/-!
# When both kernels report the same

The arguments are joined in the same way. In the environment the newer version looks at all strings
until it has seen both variables. The older one stops at as many strings as there are arguments, and
at a string that is too long; what it does not look at must not change what the other one reports.
-/

namespace Elkeid.Probe

open Foundations List

variable {found : Found} {name : EnvName} {string : CString} {strings : List CString}

/-- The strings up to the one with which both variables are there; the arguments say which ones
were there before. -/
def untilBoth : Bool → Bool → List CString → List CString
  | _, _, [] => []
  | preload, connection, string :: rest =>
    if preload && connection then []
    else string :: untilBoth
      (preload || (variableOf string).any (fun entry => entry.1 = .ldPreload))
      (connection || (variableOf string).any (fun entry => entry.1 = .sshConnection)) rest

def valuesOf (name : EnvName) (strings : List CString) : List Bytes :=
  strings.filterMap (fun string =>
    (variableOf string).bind (fun entry => if entry.1 = name then some entry.2 else none))

/-- The value that is reported of the strings of an environment: the last one before both variables
were seen. -/
def lastValue (name : EnvName) (strings : List CString) : Bytes :=
  ((valuesOf name (untilBoth false false strings)).getLast?).getD minusOne

def lookedAt (argvLen : Nat) (strings : List CString) : List CString :=
  (strings.take argvLen).takeWhile (fun string => strnlenUser string ≤ maxArgStrlen)

theorem valuesOf_cons (name : EnvName) (string : CString) (rest : List CString) :
    valuesOf name (string :: rest) = valuesOf name [string] ++ valuesOf name rest :=
  filterMap_append (l := [string])

theorem found_take (found : Found) (string : CString) (name : EnvName) :
    found.take string name = (valuesOf name [string]).getLast?.or (found name) := by
  unfold Found.take valuesOf
  rw [filterMap_cons]
  cases variableOf string with
  | none => rfl
  | some entry =>
    obtain ⟨other, value⟩ := entry
    by_cases same : other = name
    · subst same
      simp [Function.update_self]
    · simp [Function.update_of_ne (Ne.symm same), same]

theorem isSome_take (found : Found) (string : CString) (name : EnvName) :
    (found.take string name).isSome =
      ((found name).isSome || (variableOf string).any (fun entry => entry.1 = name)) := by
  unfold Found.take
  cases variableOf string with
  | none => simp
  | some entry =>
    obtain ⟨other, value⟩ := entry
    by_cases same : other = name
    · subst same
      simp
    · simp [Function.update_of_ne (Ne.symm same), same]

theorem scanEnv_eq (found : Found) (strings : List CString) (name : EnvName) :
    Modern.scanEnv found strings name =
      (valuesOf name (untilBoth (found .ldPreload).isSome (found .sshConnection).isSome
        strings)).getLast?.or (found name) := by
  induction strings generalizing found with
  | nil => rfl
  | cons string rest ih =>
    unfold Modern.scanEnv untilBoth
    cases isBoth : found.both with
    | true =>
      have isBoth' : ((found .ldPreload).isSome && (found .sshConnection).isSome) = true := isBoth
      rw [if_pos rfl, if_pos isBoth']
      rfl
    | false =>
      have notBoth : ((found .ldPreload).isSome && (found .sshConnection).isSome) = false := isBoth
      rw [notBoth, if_neg Bool.false_ne_true, if_neg Bool.false_ne_true, ih,
        isSome_take, isSome_take, found_take, valuesOf_cons name string (untilBoth _ _ _),
        getLast?_append, Option.or_assoc]

theorem legacy_scanEnv_eq (argvLen : Nat) (found : Found) (strings : List CString) :
    Legacy.scanEnv argvLen found strings = Modern.scanEnv found (lookedAt argvLen strings) := by
  induction argvLen generalizing found strings with
  | zero => rfl
  | succ argvLen ih =>
    cases strings with
    | nil => rfl
    | cons string rest =>
      unfold Legacy.scanEnv lookedAt
      rw [take_succ_cons, takeWhile_cons]
      by_cases tooLong : maxArgStrlen < strnlenUser string
      · have notLooked : decide (strnlenUser string ≤ maxArgStrlen) = false :=
          decide_eq_false (Nat.not_le_of_lt tooLong)
        rw [notLooked, if_neg Bool.false_ne_true, if_pos tooLong, ite_self]
        rfl
      · have looked : decide (strnlenUser string ≤ maxArgStrlen) = true :=
          decide_eq_true (Nat.le_of_not_lt tooLong)
        rw [looked, if_pos rfl, if_neg tooLong, ih]
        rfl

theorem lastValue_eq (name : EnvName) (strings : List CString) :
    (Modern.scanEnv (fun _ => none) strings name).getD minusOne = lastValue name strings := by
  rw [scanEnv_eq, Option.or_none]
  rfl

theorem countFrom_eq {max i : Nat} (below : i < max) (strings : List CString) :
    countFrom max i strings = min (i + strings.length) max := by
  induction strings generalizing i with
  | nil =>
    rw [countFrom, length_nil]
    omega
  | cons string rest ih =>
    rw [countFrom, length_cons]
    split
    next => omega
    next more =>
      rw [ih (Nat.lt_of_not_le more)]
      omega

theorem count_eq {max : Nat} (positive : 0 < max) (vector : Vector) :
    count vector max = min (vector.getD []).length max := by
  cases vector with
  | none => exact (Nat.zero_min max).symm
  | some strings =>
    have counted := countFrom_eq positive strings
    rw [zero_add] at counted
    exact counted

theorem strings_of_not_counted {vector : Vector} (none : ¬ 0 < count vector maxArgStrings) :
    vector.getD [] = [] := by
  have positive : 0 < maxArgStrings := by decide
  rw [count_eq positive] at none
  rw [← length_eq_zero_iff]
  omega

theorem modern_found (env : Vector) : (if 0 < count env maxArgStrings then
      Modern.scanEnv (fun _ => none) ((env.getD []).take (count env maxArgStrings))
      else fun _ => none) = Modern.scanEnv (fun _ => none) ((env.getD []).take maxArgStrings) := by
  split
  next =>
    rw [count_eq (by decide), Nat.min_comm, ← take_take, take_length]
  next notCounted =>
    rw [strings_of_not_counted notCounted, take_nil]
    rfl

theorem modern_getExecveData_eq (memory : Memory) (argv env : Vector) :
    Modern.getExecveData memory argv env =
      execveData memory (argvText memory argv (count argv smithMaxArgStrings))
        (Modern.scanEnv (fun _ => none) ((env.getD []).take maxArgStrings)) := by
  rw [← modern_found]
  rfl

theorem legacy_found (env : Vector) (argvLen : Nat) :
    (if 0 < count env maxArgStrings then Legacy.scanEnv argvLen (fun _ => none) (env.getD [])
      else fun _ => none) = Modern.scanEnv (fun _ => none) (lookedAt argvLen (env.getD [])) := by
  split
  next => exact legacy_scanEnv_eq argvLen _ _
  next notCounted =>
    rw [strings_of_not_counted notCounted, lookedAt, take_nil]
    rfl

def Memory.holds (memory : Memory) : EnvName → Bool
  | .sshConnection => memory.sshConnection
  | .ldPreload => memory.ldPreload

theorem execveData_eq_iff (memory : Memory) (argv : Option Bytes) (first second : Found) :
    execveData memory argv first = execveData memory argv second ↔
      ∀ name, memory.holds name = true →
        (first name).getD minusOne = (second name).getD minusOne := by
  have reported (name : EnvName) (allocated : Bool) :
      report first name allocated = report second name allocated ↔
        (allocated = true → (first name).getD minusOne = (second name).getD minusOne) := by
    cases allocated <;> simp [report]
  simp only [execveData, ExecveData.mk.injEq, reported, true_and, and_true]
  constructor
  · rintro ⟨sameConnection, samePreload⟩ name
    cases name with
    | sshConnection => exact sameConnection
    | ldPreload => exact samePreload
  · intro same
    exact ⟨same .sshConnection, same .ldPreload⟩

/-- Both versions report the same of an exec if and only if, for each variable, the last value among
the strings that the older version looks at is the last value of the environment. -/
theorem reports_agree_iff (memory : Memory) (argv env : Vector) :
    Legacy.getExecveData memory argv env = Modern.getExecveData memory argv env ↔
      ∀ name, memory.holds name = true →
        lastValue name (lookedAt (count argv smithMaxArgStrings) (env.getD [])) =
          lastValue name ((env.getD []).take maxArgStrings) := by
  have legacy : Legacy.getExecveData memory argv env =
      execveData memory (argvText memory argv (count argv smithMaxArgStrings))
        (Modern.scanEnv (fun _ => none)
          (lookedAt (count argv smithMaxArgStrings) (env.getD []))) := by
    rw [← legacy_found]
    rfl
  rw [legacy, modern_getExecveData_eq, execveData_eq_iff]
  simp [lastValue_eq]

/-- One argument "sh", and an environment with "PWD=/" before "LD_PRELOAD=/x.so". -/
def secondVariable : Vector × Vector :=
  (some [⟨Text.ofChars ['s', 'h'], by decide⟩],
    some [⟨Text.ofChars ['P', 'W', 'D', '=', '/'], by decide⟩,
      ⟨ldPreloadIs ++ Text.ofChars ['/', 'x', '.', 's', 'o'], by decide⟩])

theorem secondVariable_not_reported :
    (Modern.getExecveData ⟨true, true, true⟩ secondVariable.1 secondVariable.2).ldPreload =
        Text.ofChars ['/', 'x', '.', 's', 'o'] ∧
      (Legacy.getExecveData ⟨true, true, true⟩ secondVariable.1 secondVariable.2).ldPreload =
        minusOne := by
  decide

end Elkeid.Probe
