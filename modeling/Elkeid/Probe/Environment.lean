import Elkeid.Probe.ExecveAgreement

/-!
# Two variables of an environment

What `get_execve_data` should report of an environment of strings NAME=value: the values of
SSH_CONNECTION and LD_PRELOAD. The loop knows the first of them by eleven characters of its
name only, it skips strings of less than fourteen bytes, and it stops when it has found both.
-/

namespace Elkeid.Probe

open Foundations Text List Option

def EnvName.text : EnvName → Bytes
  | sshConnection => sshConnect ++ ofChars ['I', 'O', 'N']
  | ldPreload => ofChars "LD_PRELOAD".toList

def nameOf (string : CString) : Bytes := string.bytes.takeWhile (· ≠ 0x3d)

def valueOf (name : Bytes) (strings : List CString) : Option Bytes :=
  (strings.find? (fun string => nameOf string = name)).map
    (fun string => string.bytes.drop (name.length + 1))

/-- Strings NAME=value of distinct names, which are not too long. -/
structure WellNamed (strings : List CString) : Prop where
  named : ∀ string ∈ strings, 0x3d ∈ string.bytes
  distinct : (strings.map nameOf).Nodup
  short : ∀ string ∈ strings, string.bytes.length < 255

theorem WellNamed.take {strings : List CString} (wellNamed : WellNamed strings) (count : Nat) :
    WellNamed (strings.take count) where
  named string listed := wellNamed.named string (mem_of_mem_take listed)
  distinct := wellNamed.distinct.sublist ((take_sublist count strings).map nameOf)
  short string listed := wellNamed.short string (mem_of_mem_take listed)

variable {string : CString}

theorem bytes_eq (named : 0x3d ∈ string.bytes) :
    string.bytes = nameOf string ++ 0x3d :: string.bytes.drop ((nameOf string).length + 1) := by
  have whole : string.bytes = nameOf string ++ string.bytes.dropWhile (· ≠ 0x3d) :=
    takeWhile_append_dropWhile.symm
  cases behind : string.bytes.dropWhile (· ≠ 0x3d) with
  | nil =>
    rw [dropWhile_eq_nil_iff] at behind
    exact absurd rfl (of_decide_eq_true (behind 0x3d named))
  | cons mark rest =>
    have isMark : mark = 0x3d := by
      have stopped := head?_dropWhile_not (· ≠ (0x3d : UInt8)) string.bytes
      rw [behind] at stopped
      simpa using stopped
    rw [behind, isMark] at whole
    have isRest : string.bytes.drop ((nameOf string).length + 1) = rest := by
      nth_rewrite 1 [whole]
      rw [drop_append, drop_eq_nil_of_le (Nat.le_succ _), Nat.add_sub_cancel_left]
      rfl
    rw [isRest]
    exact whole

/-- What the loop takes for the variable. -/
def looksLike (name : EnvName) (string : CString) : Bool :=
  decide (14 ≤ string.bytes.length ∧ string.bytes.take 11 =
    match name with
    | .sshConnection => sshConnect
    | .ldPreload => ldPreloadIs)

theorem variableOf_short (short : string.bytes.length < 255) : variableOf string =
      if looksLike .sshConnection string then some (.sshConnection, string.bytes.drop 15)
      else if looksLike .ldPreload string then some (.ldPreload, string.bytes.drop 11)
      else none := by
  have measured : strnlenUser string = string.bytes.length + 1 := if_pos (by
    rw [maxArgStrlen]
    omega)
  rw [variableOf, measured, looksLike, looksLike]
  by_cases long : 14 ≤ string.bytes.length
  · rw [if_pos (by omega)]
    simp [long]
  · rw [if_neg (by omega)]
    simp [long]

theorem not_both_look (string : CString) :
    ¬ (looksLike .sshConnection string = true ∧ looksLike .ldPreload string = true) := by
  rintro ⟨connection, preload⟩
  have differs : sshConnect ≠ ldPreloadIs := by decide
  exact differs ((of_decide_eq_true connection).2.symm.trans (of_decide_eq_true preload).2)

theorem entry_of_looksLike (short : string.bytes.length < 255) (name : EnvName) :
    (variableOf string).bind (fun entry => if entry.1 = name then some entry.2 else none) =
      if looksLike name string then some (string.bytes.drop (name.text.length + 1)) else none := by
  have exclusive := not_both_look string
  rw [variableOf_short short]
  cases name with
  | sshConnection =>
    by_cases connection : looksLike .sshConnection string = true
    · simp only [connection, if_true]
      rfl
    · by_cases preload : looksLike .ldPreload string = true <;> simp [connection, preload]
  | ldPreload =>
    by_cases preload : looksLike .ldPreload string = true
    · have notConnection : ¬ looksLike .sshConnection string = true :=
        fun connection => exclusive ⟨connection, preload⟩
      simp only [notConnection, preload, if_true]
      rfl
    · by_cases connection : looksLike .sshConnection string = true <;> simp [connection, preload]

theorem looksLike_ldPreload (named : 0x3d ∈ string.bytes) : looksLike .ldPreload string = true ↔
      nameOf string = EnvName.ldPreload.text ∧ 3 ≤ (string.bytes.drop 11).length := by
  have begins : string.bytes.take 11 = ldPreloadIs ↔ nameOf string = EnvName.ldPreload.text := by
    constructor
    · intro begins
      rw [nameOf, ← take_append_drop 11 string.bytes, begins]
      rfl
    · intro isName
      rw [bytes_eq named, isName]
      rfl
  rw [looksLike, decide_eq_true_iff, begins, length_drop, and_comm]
  refine and_congr_right' ?_
  omega

section Finding

variable {strings : List CString} {string : CString} {name : Bytes}

theorem valueOf_of_mem (wellNamed : WellNamed strings) (listed : string ∈ strings)
    (isName : nameOf string = name) :
    valueOf name strings = some (string.bytes.drop (name.length + 1)) := by
  have found : strings.find? (fun other => nameOf other = name) = some string := by
    have distinct := wellNamed.distinct
    clear wellNamed
    induction strings with
    | nil => cases listed
    | cons first rest ih =>
      rw [map_cons, nodup_cons] at distinct
      rcases mem_cons.mp listed with rfl | later
      · exact find?_cons_of_pos (decide_eq_true isName)
      · rw [find?_cons_of_neg, ih later distinct.2]
        intro alsoName
        have same := (of_decide_eq_true alsoName).trans isName.symm
        exact distinct.1 (same ▸ mem_map_of_mem later)
  rw [valueOf, found]
  rfl

theorem valueOf_eq_some {value : Bytes} (found : valueOf name strings = some value) :
    ∃ string ∈ strings, nameOf string = name ∧ value = string.bytes.drop (name.length + 1) := by
  obtain ⟨string, isFound, rfl⟩ := map_eq_some_iff.mp found
  exact ⟨string, mem_of_find?_eq_some isFound, by simpa using find?_some isFound, rfl⟩

end Finding

section Scanning

variable {strings : List CString}

theorem untilBoth_initial (preload connection : Bool) (strings : List CString) :
    untilBoth preload connection strings <+: strings := by
  induction strings generalizing preload connection with
  | nil => exact prefix_rfl
  | cons string rest ih =>
    rw [untilBoth]
    split
    next => exact nil_prefix
    next => exact cons_prefix_cons.mpr ⟨rfl, ih _ _⟩

theorem valuesOf_eq (name : EnvName) (short : ∀ string ∈ strings, string.bytes.length < 255) :
    valuesOf name strings = (strings.filter (looksLike name)).map
      (fun string => string.bytes.drop (name.text.length + 1)) := by
  induction strings with
  | nil => rfl
  | cons string rest ih =>
    obtain ⟨isShort, shortRest⟩ := forall_mem_cons.mp short
    rw [valuesOf_cons, ih shortRest, valuesOf, filterMap_cons,
      entry_of_looksLike isShort, filter_cons]
    by_cases like : looksLike name string = true
    · simp [like]
    · simp [like]

/-- The string that the report of a variable is taken from. -/
def speaker (name : EnvName) (strings : List CString) : Option CString :=
  ((untilBoth false false (strings.take maxArgStrings)).filter (looksLike name)).getLast?

theorem mem_of_speaker {name : EnvName} {string : CString}
    (speaks : speaker name strings = some string) :
    string ∈ strings.take maxArgStrings ∧ looksLike name string = true := by
  have listed := mem_of_getLast? speaks
  rw [mem_filter] at listed
  exact ⟨(untilBoth_initial _ _ _).subset listed.1, listed.2⟩

theorem lastValue_eq_speaker (name : EnvName) (wellNamed : WellNamed strings) :
    lastValue name (strings.take maxArgStrings) =
      ((speaker name strings).map (fun string => string.bytes.drop (name.text.length + 1))).getD
        minusOne := by
  rw [lastValue, valuesOf_eq, getLast?_map]
  · rfl
  · intro string listed
    exact (wellNamed.take maxArgStrings).short string ((untilBoth_initial _ _ _).subset listed)

theorem lastValue_of_name {name : EnvName} {string : CString} (wellNamed : WellNamed strings)
    (speaks : speaker name strings = some string) (isName : nameOf string = name.text) :
    lastValue name (strings.take maxArgStrings) = (valueOf name.text strings).getD minusOne := by
  have listed := mem_of_mem_take (mem_of_speaker speaks).1
  rw [lastValue_eq_speaker name wellNamed, speaks, valueOf_of_mem wellNamed listed isName]
  rfl

theorem preload_heard {connection : Bool} {string : CString}
    (short : ∀ string ∈ strings, string.bytes.length < 255) (listed : string ∈ strings)
    (like : looksLike .ldPreload string = true) :
    ∃ heard ∈ untilBoth false connection strings, looksLike .ldPreload heard = true := by
  induction strings generalizing connection with
  | nil => cases listed
  | cons first rest ih =>
    obtain ⟨isShort, shortRest⟩ := forall_mem_cons.mp short
    rw [untilBoth, Bool.false_and, if_neg Bool.false_ne_true]
    by_cases likeFirst : looksLike .ldPreload first = true
    · exact ⟨first, mem_cons_self, likeFirst⟩
    · have notYet : (variableOf first).any (fun entry => entry.1 = .ldPreload) = false := by
        rw [variableOf_short isShort, if_neg likeFirst]
        split <;> rfl
      rcases mem_cons.mp listed with rfl | later
      · exact absurd like likeFirst
      · rw [notYet, Bool.or_self]
        obtain ⟨heard, isHeard, likeHeard⟩ := ih shortRest later
        exact ⟨heard, mem_cons_of_mem _ isHeard, likeHeard⟩

end Scanning

/-- The environments of which both variables are reported as they are. LD_PRELOAD has a value
of three bytes or more, and the last string to begin with SSH_CONNECT, among those before both
are found, is SSH_CONNECTION or has its value by chance. -/
structure Readable (strings : List CString) : Prop where
  preload : (valueOf EnvName.ldPreload.text strings).getD minusOne = minusOne ∨
    ∃ value, valueOf EnvName.ldPreload.text (strings.take maxArgStrings) = some value ∧
      3 ≤ value.length
  connection : ∀ string, speaker .sshConnection strings = some string →
    nameOf string = EnvName.sshConnection.text ∨
      string.bytes.drop 15 = (valueOf EnvName.sshConnection.text strings).getD minusOne
  noConnection : speaker .sshConnection strings = none →
    (valueOf EnvName.sshConnection.text strings).getD minusOne = minusOne

section Reports

variable {strings : List CString} (wellNamed : WellNamed strings)

include wellNamed

theorem preload_reported_iff : lastValue .ldPreload (strings.take maxArgStrings) =
        (valueOf EnvName.ldPreload.text strings).getD minusOne ↔
      (valueOf EnvName.ldPreload.text strings).getD minusOne = minusOne ∨
        ∃ value, valueOf EnvName.ldPreload.text (strings.take maxArgStrings) = some value ∧
          3 ≤ value.length := by
  have keptNamed := wellNamed.take maxArgStrings
  cases speaks : speaker .ldPreload strings with
  | some string =>
    obtain ⟨listed, like⟩ := mem_of_speaker speaks
    obtain ⟨isName, long⟩ := (looksLike_ldPreload (keptNamed.named string listed)).mp like
    exact iff_of_true (lastValue_of_name wellNamed speaks isName)
      (.inr ⟨_, valueOf_of_mem keptNamed listed isName, long⟩)
  | none =>
    rw [lastValue_eq_speaker _ wellNamed, speaks, map_none, getD_none, eq_comm, or_iff_left]
    rintro ⟨value, found, long⟩
    obtain ⟨string, listed, isName, rfl⟩ := valueOf_eq_some found
    have like := (looksLike_ldPreload (keptNamed.named string listed)).mpr ⟨isName, long⟩
    obtain ⟨heard, isHeard, likeHeard⟩ := @preload_heard _ false _ keptNamed.short listed like
    rw [speaker, getLast?_eq_none_iff, filter_eq_nil_iff] at speaks
    exact speaks heard isHeard likeHeard

theorem connection_reported_iff : lastValue .sshConnection (strings.take maxArgStrings) =
        (valueOf EnvName.sshConnection.text strings).getD minusOne ↔
      (∀ string, speaker .sshConnection strings = some string →
        nameOf string = EnvName.sshConnection.text ∨
          string.bytes.drop 15 = (valueOf EnvName.sshConnection.text strings).getD minusOne) ∧
      (speaker .sshConnection strings = none →
        (valueOf EnvName.sshConnection.text strings).getD minusOne = minusOne) := by
  have reported := lastValue_eq_speaker .sshConnection wellNamed
  cases speaks : speaker .sshConnection strings with
  | some string =>
    rw [speaks] at reported
    constructor
    · intro same
      refine ⟨?_, nofun⟩
      rintro _ ⟨⟩
      exact .inr (reported.symm.trans same)
    · rintro ⟨isRight, _⟩
      cases isRight string rfl with
      | inl isName => exact lastValue_of_name wellNamed speaks isName
      | inr same => exact reported.trans same
  | none =>
    rw [speaks, map_none, getD_none] at reported
    rw [reported, eq_comm]
    exact ⟨fun same => ⟨nofun, fun _ => same⟩, fun both => both.2 rfl⟩

end Reports

/-- Both variables are reported as they are exactly for the readable environments. -/
theorem environment_reported_iff (argv env : Vector) (wellNamed : WellNamed (env.getD [])) :
    ((Modern.getExecveData ⟨true, true, true⟩ argv env).sshConnection =
        (valueOf EnvName.sshConnection.text (env.getD [])).getD minusOne ∧
      (Modern.getExecveData ⟨true, true, true⟩ argv env).ldPreload =
        (valueOf EnvName.ldPreload.text (env.getD [])).getD minusOne) ↔
      Readable (env.getD []) := by
  have reports (name : EnvName) (found : Found) :
      report found name true = (found name).getD minusOne := if_pos rfl
  rw [modern_getExecveData_eq, execveData, reports, reports, lastValue_eq, lastValue_eq,
    preload_reported_iff wellNamed, connection_reported_iff wellNamed]
  constructor
  · rintro ⟨⟨connection, noConnection⟩, preload⟩
    exact ⟨preload, connection, noConnection⟩
  · rintro ⟨preload, connection, noConnection⟩
    exact ⟨⟨connection, noConnection⟩, preload⟩

/-- "SSH_CONNECTION=1.2" and "LD_PRELOAD=/y.so" -/
def bothSet : List CString :=
  [⟨EnvName.sshConnection.text ++ ofChars "=1.2".toList, by decide⟩,
    ⟨ldPreloadIs ++ ofChars "/y.so".toList, by decide⟩]

theorem environment_reported_bothSet :
    (Modern.getExecveData ⟨true, true, true⟩ none (some bothSet)).sshConnection =
        (valueOf EnvName.sshConnection.text bothSet).getD minusOne ∧
      (Modern.getExecveData ⟨true, true, true⟩ none (some bothSet)).ldPreload =
        (valueOf EnvName.ldPreload.text bothSet).getD minusOne := by
  apply (environment_reported_iff none (some bothSet) ⟨by decide, by decide, by decide⟩).mpr
  refine ⟨.inr ⟨ofChars "/y.so".toList, by decide, by decide⟩, ?_, ?_⟩
  · intro string speaks
    have isFirst : speaker .sshConnection bothSet = bothSet.head? := by decide
    rw [getD_some, isFirst] at speaks
    cases speaks
    exact .inl (by decide)
  · intro silent
    exact absurd silent (by decide)

/-- "LD_PRELOAD=/a" -/
def shortPreload : List CString := [⟨ldPreloadIs ++ ofChars ['/', 'a'], by decide⟩]

/-- "SSH_CONNECTION=1.2" and "SSH_CONNECTIONS=3" -/
def otherConnection : List CString :=
  [⟨EnvName.sshConnection.text ++ ofChars "=1.2".toList, by decide⟩,
    ⟨EnvName.sshConnection.text ++ ofChars ['S', '=', '3'], by decide⟩]

/-- A short LD_PRELOAD is not seen, and another variable is taken for SSH_CONNECTION. -/
theorem variables_misread : WellNamed shortPreload ∧
      valueOf EnvName.ldPreload.text shortPreload = some (ofChars ['/', 'a']) ∧
      (Modern.getExecveData ⟨true, true, true⟩ none (some shortPreload)).ldPreload = minusOne ∧
    WellNamed otherConnection ∧
      valueOf EnvName.sshConnection.text otherConnection = some (ofChars ['1', '.', '2']) ∧
      (Modern.getExecveData ⟨true, true, true⟩ none (some otherConnection)).sshConnection =
        ofChars ['=', '3'] := by
  refine ⟨⟨?_, ?_, ?_⟩, ?_, ?_, ⟨?_, ?_, ?_⟩, ?_, ?_⟩ <;> decide

end Elkeid.Probe
