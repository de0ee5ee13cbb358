import Elkeid.Foundations.Buffer
import Elkeid.Foundations.Text

/-!
# Trimming a command's text

Two routines strip blanks from a NUL-terminated string in place: `smith_strim`
of `driver/LKM/include/util.h`, which moves the text to the front of its buffer,
and the kernel's `strim`, which returns a pointer into the buffer. Both leave the
same text. Every access is checked against the buffer.
-/

namespace Elkeid.Allowlist

open Foundations Buffer List Option

/-- The kernel's `isspace`, which counts the no-break space of Latin-1. -/
def isspace (byte : UInt8) : Bool := (9 ≤ byte && byte ≤ 13) || byte == 32 || byte == 160

def strlen (s : Bytes) : Option Nat := s.findIdx? (· = 0)

/-- The text at a pointer, up to its NUL. -/
def cText (s : Bytes) : Option Bytes := (strlen s).map s.take

/-- `while (end >= s && isspace(*end)) end--`, on the address after `end`. -/
def skipBack (s : Bytes) : Nat → Option Nat
  | 0 => some 0
  | stop + 1 => do
      let byte ← s[stop]?
      if isspace byte then skipBack s stop else return stop + 1

def skipSpaces : Bytes → Option Nat
  | [] => none
  | byte :: rest => if isspace byte then (skipSpaces rest).map (· + 1) else some 0

def smithStrim (s : Bytes) : Option Bytes := do
  let size ← strlen s
  if size = 0 then return s
  let stop ← skipBack s size
  let s ← write s stop [0]
  let first ← skipSpaces s
  if 0 < first then move s 0 first (stop + 1 - first) else return s

/-- The offset that the kernel's `strim` returns, and the buffer it leaves. -/
def strim (s : Bytes) : Option (Nat × Bytes) := do
  let size ← strlen s
  if size = 0 then return (0, s)
  let stop ← skipBack s size
  let s ← write s stop [0]
  return (← skipSpaces s, s)

def trim (text : Bytes) : Bytes := (text.rdropWhile isspace).dropWhile isspace

variable {text : Bytes}

theorem strlen_text (nulFree : 0 ∉ text) (rest : Bytes) :
    strlen (text ++ 0 :: rest) = some text.length := by
  have noNul : text.findIdx? (· = 0) = none := by
    apply findIdx?_eq_none_iff.mpr
    intro byte listed
    exact decide_eq_false (fun isNul => nulFree (isNul ▸ listed))
  rw [strlen, findIdx?_append, noNul, findIdx?_cons]
  simp

theorem cText_text (nulFree : 0 ∉ text) (rest : Bytes) : cText (text ++ 0 :: rest) = some text := by
  rw [cText, strlen_text nulFree, map_some, take_left]

theorem skipBack_text (text rest : Bytes) :
    skipBack (text ++ rest) text.length = some (text.rdropWhile isspace).length := by
  induction text using reverseRecOn generalizing rest with
  | nil => rfl
  | append_singleton text byte ih =>
    have current : (text ++ [byte] ++ rest)[text.length]? = some byte := by simp
    rw [length_append, length_singleton, skipBack, current, rdropWhile_concat, append_assoc]
    by_cases blank : isspace byte
    · simp only [bind_eq_bind, bind_some, if_pos blank]
      exact ih _
    · simp [blank]

theorem skipSpaces_text (text rest : Bytes) :
    skipSpaces (text ++ 0 :: rest) = some (text.takeWhile isspace).length := by
  induction text with
  | nil => rfl
  | cons byte text ih =>
    rw [cons_append, skipSpaces, ih, takeWhile_cons]
    split <;> rfl

theorem nulFree_trim (nulFree : 0 ∉ text) : 0 ∉ trim text := by
  intro listed
  have inKept := (dropWhile_sublist _).subset listed
  have starts := rdropWhile_prefix isspace text
  exact nulFree (starts.subset inKept)

theorem cut_text (text rest : Bytes) :
    ∃ more, write (text ++ 0 :: rest) (text.rdropWhile isspace).length [0] =
      some (text.rdropWhile isspace ++ 0 :: more) := by
  obtain ⟨blanks, split⟩ := rdropWhile_prefix isspace text
  obtain ⟨old, more, after⟩ : ∃ old more, blanks ++ 0 :: rest = old :: more := by
    cases blanks with
    | nil => exact ⟨0, rest, rfl⟩
    | cons head tail => exact ⟨head, tail ++ 0 :: rest, rfl⟩
  have layout : text ++ 0 :: rest = text.rdropWhile isspace ++ [old] ++ more := by
    calc text ++ 0 :: rest = text.rdropWhile isspace ++ (blanks ++ 0 :: rest) := by
          rw [← append_assoc, split]
      _ = text.rdropWhile isspace ++ [old] ++ more := by rw [after, append_assoc]; rfl
  refine ⟨more, ?_⟩
  have extent : ([0] : Bytes).length = [old].length := rfl
  rw [layout, write_block rfl extent, append_assoc]
  rfl

theorem lead_trim (text : Bytes) :
    (text.rdropWhile isspace).takeWhile isspace ++ trim text = text.rdropWhile isspace :=
  takeWhile_append_dropWhile

section Routines

variable {text : Bytes}

theorem strim_spec (nulFree : 0 ∉ text) (rest : Bytes) :
    ∃ offset s, strim (text ++ 0 :: rest) = some (offset, s) ∧
      cText (s.drop offset) = some (trim text) := by
  by_cases empty : text = []
  · subst empty
    refine ⟨0, 0 :: rest, ?_, cText_text nulFree rest⟩
    rw [strim, strlen_text nulFree]
    rfl
  · obtain ⟨more, cut⟩ := cut_text text rest
    have nonempty : text.length ≠ 0 := fun zero => empty (length_eq_zero_iff.mp zero)
    refine ⟨((text.rdropWhile isspace).takeWhile isspace).length,
      text.rdropWhile isspace ++ 0 :: more, ?_, ?_⟩
    · rw [strim, strlen_text nulFree]
      simp only [bind_eq_bind, bind_some, if_neg nonempty, skipBack_text, cut, skipSpaces_text]
      rfl
    · nth_rewrite 2 [← lead_trim text]
      rw [append_assoc, drop_left]
      exact cText_text (nulFree_trim nulFree) more

theorem smithStrim_spec (nulFree : 0 ∉ text) (rest : Bytes) :
    ∃ s, smithStrim (text ++ 0 :: rest) = some s ∧ cText s = some (trim text) := by
  by_cases empty : text = []
  · subst empty
    refine ⟨0 :: rest, ?_, cText_text nulFree rest⟩
    rw [smithStrim, strlen_text nulFree]
    rfl
  · obtain ⟨more, cut⟩ := cut_text text rest
    have nonempty : text.length ≠ 0 := fun zero => empty (length_eq_zero_iff.mp zero)
    rw [smithStrim, strlen_text nulFree]
    simp only [bind_eq_bind, bind_some, if_neg nonempty, skipBack_text, cut, skipSpaces_text]
    have keptLead := lead_trim text
    generalize text.rdropWhile isspace = kept at keptLead
    generalize kept.takeWhile isspace = lead at keptLead
    subst keptLead
    split
    next moved =>
      have layout : lead ++ trim text ++ 0 :: more = [] ++ lead ++ (trim text ++ [0]) ++ more := by
        simp
      have extent : (lead ++ trim text).length + 1 - lead.length = (trim text ++ [0]).length := by
        simp only [length_append, length_singleton]
        omega
      have front : 0 = ([] : Bytes).length := rfl
      rw [layout, move_down front (zero_add lead.length).symm extent, nil_append,
        append_assoc, append_assoc]
      exact ⟨_, rfl, cText_text (nulFree_trim nulFree) _⟩
    next unmoved =>
      have noLead : lead = [] := length_eq_zero_iff.mp (Nat.eq_zero_of_not_pos unmoved)
      subst noLead
      exact ⟨_, rfl, cText_text (nulFree_trim nulFree) more⟩

end Routines

end Elkeid.Allowlist
