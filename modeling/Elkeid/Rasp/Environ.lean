import Elkeid.Foundations.Positions
import Elkeid.Foundations.Text

/-!
# The variables of a process

`update_env` of `rasp/librasp/src/process.rs`. Variables that were read before are taken from a
cache, the others from the process. The names that were found in the cache are removed from the
list by their positions in it, one after the other, while each removal moves the names behind it.
-/

namespace Elkeid.Rasp

open Foundations List Option Function

/-- The string of an operating system: a text in UTF-8, or other bytes. -/
inductive OsString
  | utf8 (text : String)
  | other (bytes : Bytes)
  deriving DecidableEq

def OsString.intoString : OsString → Option String
  | .utf8 text => some text
  | .other _ => none

abbrev Environ := OsString → Option OsString

def Environ.empty : Environ := fun _ => none

def Environ.text (environ : Environ) (key : String) : Option String :=
  (environ (.utf8 key)).bind OsString.intoString

/-- The result so far, and the positions of the names it has. -/
structure Collected where
  result : String → Option String
  remove : List Nat

def scanCache (environ : Environ) : Nat → List String → Collected → Collected
  | _, [], collected => collected
  | index, key :: rest, collected =>
    match environ.text key with
    | some value =>
      scanCache environ (index + 1) rest
        ⟨update collected.result key (some value), collected.remove ++ [index]⟩
    | none => scanCache environ (index + 1) rest collected

/-- The loop over the variables of the process. What is found is added to the cache. -/
def readProcess (envs : Environ) :
    List String → (String → Option String) → Environ → (String → Option String) × Environ
  | [], result, environ => (result, environ)
  | key :: rest, result, environ =>
    match envs (.utf8 key) with
    | some value =>
      readProcess envs rest (update result key (some (value.intoString.getD "")))
        (update environ (.utf8 key) (some value))
    | none => readProcess envs rest (update result key (some "")) environ

inductive UpdateEnv
  | panicked
  | failed
  | returned (result : String → Option String) (environ : Environ)

/-- What is left to do with the names that remain. -/
def finishUpdate (process : Option Environ) (keys : List String) (result : String → Option String)
    (environ : Environ) : UpdateEnv :=
  match process with
  | none => .failed
  | some envs =>
    .returned (readProcess envs keys result environ).1 (readProcess envs keys result environ).2

/-- The variables of a process may be unreadable. -/
def updateEnv (environ process : Option Environ) (collect : List String) : UpdateEnv :=
  match environ with
  | none => finishUpdate process collect (fun _ => none) .empty
  | some environ =>
    let collected := scanCache environ 0 collect ⟨fun _ => none, []⟩
    match removeEach collected.remove collect with
    | none => .panicked
    | some keys => finishUpdate process keys collected.result environ

/-! ## What the loops do -/

variable {environ envs : Environ} {collect keys : List String}

theorem scanCache_result (environ : Environ) (index : Nat) (keys : List String)
    (collected : Collected)
    (key : String) :
    (scanCache environ index keys collected).result key =
      if key ∈ keys then (environ.text key).or (collected.result key)
      else collected.result key := by
  induction keys generalizing index collected with
  | nil => rfl
  | cons head rest ih =>
    rw [scanCache]
    split
    next value found =>
      rw [ih]
      by_cases same : key = head
      · subst same
        simp [found]
      · simp [same]
    next absent =>
      rw [ih]
      by_cases same : key = head
      · subst same
        simp [absent]
      · simp [same]

theorem scanCache_remove (environ : Environ) (index : Nat) (keys : List String)
    (collected : Collected) :
    ∃ positions, (scanCache environ index keys collected).remove = collected.remove ++ positions ∧
      positions.length = (keys.filter (fun key => (environ.text key).isSome)).length ∧
      positions.Pairwise (· < ·) ∧
      ∀ position, position ∈ positions ↔
        ∃ offset key, position = index + offset ∧ keys[offset]? = some key ∧
          (environ.text key).isSome = true := by
  induction keys generalizing index collected with
  | nil => exact ⟨[], by simp [scanCache]⟩
  | cons head rest ih =>
    rw [scanCache]
    cases found : environ.text head with
    | some value =>
      obtain ⟨positions, remove, length, ordered, listed⟩ := ih (index + 1)
        ⟨update collected.result head (some value), collected.remove ++ [index]⟩
      refine ⟨index :: positions, ?_, ?_, ?_, ?_⟩
      · simpa using remove
      · simp [found, length]
      · refine pairwise_cons.mpr ⟨?_, ordered⟩
        intro position membership
        obtain ⟨offset, _, rfl, _⟩ := (listed position).mp membership
        omega
      · intro position
        rw [mem_cons, listed]
        constructor
        · rintro (rfl | ⟨offset, key, rfl, atOffset, cached⟩)
          · exact ⟨0, head, rfl, rfl, by rw [found]; rfl⟩
          · exact ⟨offset + 1, key, by omega, atOffset, cached⟩
        · rintro ⟨offset, key, rfl, atOffset, cached⟩
          cases offset with
          | zero => exact .inl rfl
          | succ offset => exact .inr ⟨offset, key, by omega, atOffset, cached⟩
    | none =>
      obtain ⟨positions, remove, length, ordered, listed⟩ := ih (index + 1) collected
      refine ⟨positions, remove, by simp [found, length], ordered, ?_⟩
      intro position
      rw [listed]
      constructor
      · rintro ⟨offset, key, rfl, atOffset, cached⟩
        exact ⟨offset + 1, key, by omega, atOffset, cached⟩
      · rintro ⟨offset, key, rfl, atOffset, cached⟩
        cases offset with
        | zero =>
          cases atOffset
          rw [found] at cached
          cases cached
        | succ offset => exact ⟨offset, key, by omega, atOffset, cached⟩

theorem readProcess_result (envs : Environ) (keys : List String) (result : String → Option String)
    (environ : Environ) (key : String) :
    (readProcess envs keys result environ).1 key =
      if key ∈ keys then some ((envs.text key).getD "") else result key := by
  induction keys generalizing result environ with
  | nil => rfl
  | cons head rest ih =>
    have value : update result head (some ((envs.text head).getD "")) key =
        if key = head then some ((envs.text key).getD "") else result key := by
      by_cases same : key = head
      · subst same
        simp
      · simp [same]
    rw [readProcess]
    cases found : envs (.utf8 head) with
    | some raw =>
      have text : envs.text head = raw.intoString := by
        rw [Environ.text, found, bind_some]
      rw [ih, ← text, value]
      by_cases listed : key ∈ rest <;> by_cases same : key = head <;> simp [listed, same]
    | none =>
      have text : envs.text head = none := by
        rw [Environ.text, found, bind_none]
      rw [text] at value
      rw [ih]
      change (if key ∈ rest then _ else update result head (some (Option.getD none "")) key) = _
      rw [value]
      by_cases listed : key ∈ rest <;> by_cases same : key = head <;> simp [listed, same]

theorem updateEnv_eq_returned
    (removed : removeEach (scanCache environ 0 collect ⟨fun _ => none, []⟩).remove collect =
      some keys) :
    ∃ result updated, updateEnv (some environ) (some envs) collect = .returned result updated ∧
      ∀ key, result key = if key ∈ keys then some ((envs.text key).getD "")
        else if key ∈ collect then environ.text key
        else none := by
  let collected := scanCache environ 0 collect ⟨fun _ => none, []⟩
  refine ⟨(readProcess envs keys collected.result environ).1,
    (readProcess envs keys collected.result environ).2, ?_, ?_⟩
  · rw [updateEnv, removed]
    rfl
  · intro key
    rw [readProcess_result, scanCache_result, or_none]

theorem updateEnv_none (process : Option Environ) (collect : List String) :
    updateEnv none process collect = updateEnv (some .empty) process collect := by
  have unchanged (index : Nat) (keys : List String) (collected : Collected) :
      scanCache .empty index keys collected = collected := by
    induction keys generalizing index with
    | nil => rfl
    | cons key rest ih => exact ih (index + 1)
  rw [updateEnv, updateEnv, unchanged]
  rfl

/-! ## When the result is right -/

def wanted (environ envs : Environ) (key : String) : String :=
  ((environ.text key).or (envs.text key)).getD ""

theorem mem_keys_of_one {positions : List Nat} (single : positions.length ≤ 1)
    (listed : ∀ position, position ∈ positions ↔
      ∃ offset key, position = 0 + offset ∧ collect[offset]? = some key ∧
        (environ.text key).isSome = true) :
    ∃ keys, removeEach positions collect = some keys ∧
      ∀ key, key ∈ keys ↔ key ∈ collect ∧ environ.text key = none := by
  match positions, single with
  | [], _ =>
    refine ⟨collect, rfl, ?_⟩
    intro key
    refine ⟨fun membership => ⟨membership, ?_⟩, And.left⟩
    obtain ⟨offset, atOffset⟩ := mem_iff_getElem?.mp membership
    by_contra cached
    have inside := (listed (0 + offset)).mpr
      ⟨offset, key, rfl, atOffset, isSome_iff_ne_none.mpr cached⟩
    cases inside
  | [position], _ =>
    obtain ⟨offset, found, rfl, atOffset, cached⟩ := (listed position).mp mem_cons_self
    rw [Nat.zero_add] at listed ⊢
    have inside := (List.getElem?_eq_some_iff.mp atOffset).1
    refine ⟨collect.eraseIdx offset, by rw [removeEach, if_pos inside]; rfl, ?_⟩
    intro key
    constructor
    · intro membership
      obtain ⟨other, differs, atOther⟩ := mem_eraseIdx_iff_getElem?.mp membership
      refine ⟨mem_of_getElem? atOther, ?_⟩
      by_contra isCached
      have isListed := (listed other).mpr
        ⟨other, key, (Nat.zero_add _).symm, atOther, isSome_iff_ne_none.mpr isCached⟩
      exact differs (mem_singleton.mp isListed)
    · rintro ⟨membership, absent⟩
      apply mem_eraseIdx_of_ne membership atOffset
      rintro rfl
      rw [absent] at cached
      cases cached

theorem not_mem_of_more {front : List Nat} {last : Nat} (distinct : collect.Nodup)
    (some : front ≠ [])
    (ordered : (front ++ [last]).Pairwise (· < ·))
    (removed : removeEach (front ++ [last]) collect = Option.some keys) :
    ∃ position key, last < position ∧ collect[position]? = Option.some key ∧ key ∉ keys := by
  have before : ∀ index ∈ front, index ≤ last := by
    intro index membership
    exact le_of_lt ((pairwise_append.mp ordered).2.2 index membership last mem_cons_self)
  rw [removeEach_append] at removed
  obtain ⟨middle, removedFront, removedLast⟩ := bind_eq_some_iff.mp removed
  rw [removeEach] at removedLast
  split at removedLast <;> cases removedLast
  next inside =>
    have moved := drop_removeEach removedFront before
    have atLast : middle[last]? = collect[last + front.length]? := by
      have heads := congrArg head? moved
      rw [head?_drop, head?_drop] at heads
      exact heads
    have isThere := getElem?_eq_getElem inside
    refine ⟨last + front.length, middle[last], ?_, atLast.symm.trans isThere, ?_⟩
    · have := length_pos_iff.mpr some
      omega
    · exact not_mem_eraseIdx (distinct.sublist (removeEach_sublist removedFront)) isThere

/-- `update_env` returns exactly the wanted names with the values they should have if and only if
at most one of them is in the cache with a text. -/
theorem updateEnv_exact_iff (cached : Option Environ) (envs : Environ) {collect : List String}
    (distinct : collect.Nodup) :
    (∃ result updated, updateEnv cached (some envs) collect = .returned result updated ∧
        ∀ key, result key =
          if key ∈ collect then some (wanted (cached.getD .empty) envs key) else none) ↔
      (collect.filter (fun key => ((cached.getD .empty).text key).isSome)).length ≤ 1 := by
  have isCache : updateEnv cached (some envs) collect =
      updateEnv (some (cached.getD .empty)) (some envs) collect := by
    cases cached with
    | none => exact updateEnv_none _ _
    | some environ => rfl
  rw [isCache]
  generalize cached.getD .empty = environ
  obtain ⟨positions, remove, length, ordered, listed⟩ :=
    scanCache_remove environ 0 collect ⟨fun _ => none, []⟩
  rw [nil_append] at remove
  rw [← length]
  constructor
  · rintro ⟨result, updated, returned, isWanted⟩
    by_contra more
    have someLast : positions ≠ [] := by
      rintro rfl
      exact more (Nat.zero_le 1)
    obtain ⟨front, last, rfl⟩ := eq_nil_or_concat' positions |>.resolve_left someLast
    rw [length_append, length_singleton] at more
    have someFront : front ≠ [] := length_pos_iff.mp (by omega)
    cases removed : removeEach (front ++ [last]) collect with
    | none =>
      have panics : updateEnv (some environ) (some envs) collect = .panicked := by
        rw [updateEnv, remove, removed]
      cases panics.symm.trans returned
    | some keys =>
      obtain ⟨position, key, later, atPosition, notLeft⟩ :=
        not_mem_of_more distinct someFront ordered removed
      -- The last of the positions is the last name in the cache.
      have notCached : environ.text key = none := by
        by_contra isCached
        have isListed := (listed position).mpr
          ⟨position, key, (Nat.zero_add _).symm, atPosition, isSome_iff_ne_none.mpr isCached⟩
        rcases mem_append.mp isListed with inFront | isLast
        · have earlier := (pairwise_append.mp ordered).2.2 position inFront last mem_cons_self
          omega
        · rw [mem_singleton.mp isLast] at later
          omega
      rw [← remove] at removed
      obtain ⟨result', updated', returned', values⟩ :=
          @updateEnv_eq_returned environ envs collect keys removed
      cases returned.symm.trans returned'
      have value := isWanted key
      have membership := mem_of_getElem? atPosition
      rw [values key, if_neg notLeft, if_pos membership, if_pos membership, notCached] at value
      cases value
  · intro single
    obtain ⟨keys, removed, left⟩ := mem_keys_of_one single listed
    rw [← remove] at removed
    obtain ⟨result, updated, returned, values⟩ :=
        @updateEnv_eq_returned environ envs collect keys removed
    refine ⟨result, updated, returned, ?_⟩
    intro key
    rw [values key, wanted]
    by_cases membership : key ∈ collect
    · cases cached : environ.text key with
      | none => rw [if_pos ((left key).mpr ⟨membership, cached⟩), if_pos membership, none_or]
      | some value =>
        have notLeft : key ∉ keys := by
          intro isLeft
          cases ((left key).mp isLeft).2.symm.trans cached
        rw [if_neg notLeft, if_pos membership, if_pos membership]
        rfl
    · rw [if_neg (fun isLeft => membership ((left key).mp isLeft).1), if_neg membership,
        if_neg membership]

def homeCache : Environ := update Environ.empty (.utf8 "HOME") (some (.utf8 "/root"))

/-- HOME is taken from the cache and PATH from the process. -/
theorem updateEnv_home :
    (["PATH", "HOME"].filter (fun key => (homeCache.text key).isSome)).length ≤ 1 ∧
      ∃ result updated,
        updateEnv (some homeCache) (some (fun _ => some (.utf8 "/bin"))) ["PATH", "HOME"] =
          .returned result updated ∧
        ∀ key, result key =
          if key ∈ ["PATH", "HOME"] then some (wanted homeCache (fun _ => some (.utf8 "/bin")) key)
          else none :=
  ⟨by decide, (updateEnv_exact_iff (some homeCache) (fun _ => some (.utf8 "/bin"))
    (by decide : ["PATH", "HOME"].Nodup)).mpr (by decide)⟩

/-- With two names in the cache the second removal is beyond the end. With a third name behind
them it takes that name, which then is not in the result. -/
theorem updateEnv_two_cached :
    let cache := update homeCache (.utf8 "USER") (some (.utf8 "root"))
    updateEnv (some cache) (some .empty) ["HOME", "USER"] = .panicked ∧ ∃ result updated,
        updateEnv (some cache) (some .empty) ["HOME", "USER", "PATH"] = .returned result updated ∧
        result "PATH" = none :=
  ⟨rfl, _, _, rfl, by decide⟩

end Elkeid.Rasp
