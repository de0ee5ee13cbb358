import Mathlib

/-!
# Parsing expressions

Parsing expressions with ordered choice and greedy repetition of a class of characters. A rule
yields a pair with the text it has covered; an atomic rule yields no pairs of the rules inside. An
expression that has succeeded is not tried again when what follows it fails.
-/

namespace Elkeid.Foundations.Peg

variable {Rule : Type}

inductive Expr (Rule : Type) where
  | text (letters : List Char)
  | one (holds : Char → Bool)
  | many (holds : Char → Bool)
  | seq (first second : Expr Rule)
  | choice (first second : Expr Rule)
  | optional (body : Expr Rule)
  | rule (name : Rule) (body : Expr Rule)
  | atomic (name : Rule) (body : Expr Rule)

inductive Pair (Rule : Type) where
  | mk (rule : Rule) (text : List Char) (inner : List (Pair Rule))

def Pair.text : Pair Rule → List Char
  | .mk _ text _ => text

def covered (input rest : List Char) : List Char := input.take (input.length - rest.length)

def parse : Expr Rule → List Char → Option (List (Pair Rule) × List Char)
  | .text letters, input =>
    if letters.isPrefixOf input then some ([], input.drop letters.length) else none
  | .one _, [] => none
  | .one holds, head :: rest => if holds head then some ([], rest) else none
  | .many holds, input => some ([], input.dropWhile holds)
  | .seq first second, input =>
    match parse first input with
    | none => none
    | some (pairs, rest) => (parse second rest).map (fun (more, last) => (pairs ++ more, last))
  | .choice first second, input => (parse first input).or (parse second input)
  | .optional body, input => (parse body input).or (some ([], input))
  | .rule name body, input =>
    (parse body input).map (fun (pairs, rest) => ([.mk name (covered input rest) pairs], rest))
  | .atomic name body, input =>
    (parse body input).map (fun (_, rest) => ([.mk name (covered input rest) []], rest))

namespace Expr

def sequence : List (Expr Rule) → Expr Rule
  | [] => .text []
  | first :: more => .seq first (sequence more)

def many1 (holds : Char → Bool) : Expr Rule := .seq (.one holds) (.many holds)

/-- How many pairs an expression yields when it succeeds. -/
def yields : Expr Rule → Nat
  | .text _ | .one _ | .many _ => 0
  | .seq first second => first.yields + second.yields
  | .choice first _ => first.yields
  | .optional _ => 0
  | .rule _ _ | .atomic _ _ => 1

/-- The number of pairs does not depend on the input. -/
def steady : Expr Rule → Bool
  | .text _ | .one _ | .many _ | .rule _ _ | .atomic _ _ => true
  | .seq first second => first.steady && second.steady
  | .choice first second => first.steady && second.steady && first.yields == second.yields
  | .optional body => body.steady && body.yields == 0

end Expr

open Peg.Expr List Option Bool

section Equations

variable (first second body : Expr Rule) (name : Rule) (holds : Char → Bool) (input : List Char)

@[simp]
theorem parse_text (letters : List Char) : parse (.text letters : Expr Rule) input =
      if letters.isPrefixOf input then some ([], input.drop letters.length) else none := rfl

@[simp]
theorem parse_one_cons (head : Char) : parse (.one holds : Expr Rule) (head :: input) =
      if holds head then some ([], input) else none := rfl

@[simp]
theorem parse_many : parse (.many holds : Expr Rule) input = some ([], input.dropWhile holds) := rfl

@[simp]
theorem parse_seq : parse (.seq first second) input = match parse first input with
      | none => none
      | some (pairs, rest) =>
        (parse second rest).map (fun (more, last) => (pairs ++ more, last)) := rfl

@[simp]
theorem parse_choice :
    parse (.choice first second) input = (parse first input).or (parse second input) := rfl

@[simp]
theorem parse_optional :
    parse (.optional body) input = (parse body input).or (some ([], input)) := rfl

@[simp]
theorem parse_rule : parse (.rule name body) input = (parse body input).map (fun (pairs, rest) =>
        ([.mk name (covered input rest) pairs], rest)) := rfl

@[simp]
theorem parse_atomic : parse (.atomic name body) input =
      (parse body input).map (fun (_, rest) => ([.mk name (covered input rest) []], rest)) := rfl

end Equations

@[simp]
theorem covered_append (word rest : List Char) : covered (word ++ rest) rest = word := by
  rw [covered, length_append, Nat.add_sub_cancel, take_left]

variable {input rest : List Char} {pairs inner : List (Pair Rule)} {name : Rule}
  {body first : Expr Rule}

theorem length_of_parse {expr : Expr Rule} (isSteady : expr.steady = true)
    (parsed : parse expr input = some (pairs, rest)) :
    pairs.length = expr.yields := by
  induction expr generalizing input pairs rest with
  | text letters =>
    rw [parse_text] at parsed
    split at parsed <;> cases parsed
    rfl
  | one holds =>
    cases input with
    | nil => cases parsed
    | cons head tail =>
      rw [parse_one_cons] at parsed
      split at parsed <;> cases parsed
      rfl
  | many holds =>
    cases parsed
    rfl
  | seq first second firstHypothesis secondHypothesis =>
    rw [steady, and_eq_true] at isSteady
    rw [parse_seq] at parsed
    split at parsed
    next => cases parsed
    next early middle parsedFirst =>
      obtain ⟨⟨later, last⟩, parsedSecond, ⟨⟩⟩ := map_eq_some_iff.mp parsed
      rw [length_append, firstHypothesis isSteady.1 parsedFirst,
        secondHypothesis isSteady.2 parsedSecond, yields]
  | choice first second firstHypothesis secondHypothesis =>
    simp only [steady, and_eq_true, beq_iff_eq] at isSteady
    obtain ⟨⟨steadyFirst, steadySecond⟩, equal⟩ := isSteady
    rw [parse_choice, or_eq_some_iff] at parsed
    rcases parsed with parsedFirst | ⟨_, parsedSecond⟩
    · exact firstHypothesis steadyFirst parsedFirst
    · exact (secondHypothesis steadySecond parsedSecond).trans equal.symm
  | optional body ih =>
    simp only [steady, and_eq_true, beq_iff_eq] at isSteady
    rw [parse_optional, or_eq_some_iff] at parsed
    rcases parsed with parsedBody | ⟨_, skipped⟩
    · exact (ih isSteady.1 parsedBody).trans isSteady.2
    · cases skipped
      rfl
  | rule | atomic =>
    obtain ⟨_, _, ⟨⟩⟩ := map_eq_some_iff.mp parsed
    rfl

theorem parse_rule_eq_some (parsed : parse (.rule name body) input = some (pairs, rest)) :
    ∃ inner, parse body input = some (inner, rest) ∧
      pairs = [.mk name (covered input rest) inner] := by
  obtain ⟨⟨inner, last⟩, parsedBody, ⟨⟩⟩ := map_eq_some_iff.mp parsed
  exact ⟨inner, parsedBody, rfl⟩

@[simp]
theorem parse_text_append (letters rest : List Char) :
    parse (.text letters : Expr Rule) (letters ++ rest) = some ([], rest) := by
  rw [parse_text, if_pos, drop_left]
  exact isPrefixOf_iff_prefix.mpr (prefix_append letters rest)

theorem parse_text_eq_none {letters : List Char} (differs : ¬ letters <+: input) :
    parse (.text letters : Expr Rule) input = none := by
  rw [parse_text, if_neg (mt isPrefixOf_iff_prefix.mp differs)]

@[simp]
theorem parse_sequence_cons (first : Expr Rule) (more : List (Expr Rule)) (input : List Char) :
    parse (sequence (first :: more)) input = match parse first input with
      | none => none
      | some (pairs, rest) =>
        (parse (sequence more) rest).map (fun (later, last) => (pairs ++ later, last)) := rfl

theorem parse_sequence_of_some {more : List (Expr Rule)}
    (parsed : parse first input = some (pairs, rest)) :
    parse (sequence (first :: more)) input =
      (parse (sequence more) rest).map (fun (later, last) => (pairs ++ later, last)) := by
  rw [parse_sequence_cons, parsed]

theorem parse_sequence_of_none {more : List (Expr Rule)}
    (failed : parse first input = none) : parse (sequence (first :: more)) input = none := by
  rw [parse_sequence_cons, failed]

theorem parse_sequence_text (letters : List Char) (more : List (Expr Rule)) (rest : List Char) :
    parse (sequence (.text letters :: more)) (letters ++ rest) = parse (sequence more) rest := by
  rw [parse_sequence_of_some (parse_text_append letters rest)]
  exact map_id'

theorem parse_atomic_append {word : List Char}
    (parsed : parse body (word ++ rest) = some (inner, rest)) :
    parse (.atomic name body) (word ++ rest) = some ([.mk name word []], rest) := by
  simp [parsed]

theorem parse_rule_append {word : List Char}
    (parsed : parse body (word ++ rest) = some (inner, rest)) :
    parse (.rule name body) (word ++ rest) = some ([.mk name word inner], rest) := by
  simp [parsed]

theorem parse_rule_whole (parsed : parse body input = some (inner, [])) :
    parse (.rule name body) input = some ([.mk name input inner], []) := by
  rw [← append_nil input] at parsed ⊢
  rw [parse_rule_append parsed, append_nil]

theorem parse_rule_none (failed : parse body input = none) :
    parse (.rule name body) input = none := by
  rw [parse_rule, failed, map_none]

theorem parse_choice_some {second : Expr Rule}
    {result : List (Pair Rule) × List Char} (parsed : parse first input = some result) :
    parse (.choice first second) input = some result := by
  rw [parse_choice, parsed, some_or]

theorem parse_choice_none {second : Expr Rule} (failed : parse first input = none) :
    parse (.choice first second) input = parse second input := by
  rw [parse_choice, failed, none_or]

theorem parse_optional_some
    {result : List (Pair Rule) × List Char} (parsed : parse body input = some result) :
    parse (.optional body) input = some result := by
  rw [parse_optional, parsed, some_or]

theorem parse_optional_none
    (failed : parse body input = none) : parse (.optional body) input = some ([], input) := by
  rw [parse_optional, failed, none_or]

section Words

variable {holds : Char → Bool} {mark : Char} {word : List Char}

theorem dropWhile_word (marked : holds mark = false) (inClass : word.all holds = true)
    (rest : List Char) : (word ++ mark :: rest).dropWhile holds = mark :: rest := by
  rw [dropWhile_append_of_pos (fun letter listed => all_eq_true.mp inClass letter listed),
    dropWhile_cons_of_neg (by rw [marked]; decide)]

theorem not_mark_dropWhile (noMark : mark ∉ word) (leaves : word.all holds = false)
    (rest : List Char) : ¬ [mark] <+: (word ++ mark :: rest).dropWhile holds := by
  induction word with
  | nil => cases leaves
  | cons letter word ih =>
    obtain ⟨differs, later⟩ := not_or.mp (mt mem_cons.mpr noMark)
    cases inClass : holds letter with
    | true =>
      rw [all_cons, inClass, Bool.true_and] at leaves
      rw [cons_append, dropWhile_cons_of_pos inClass]
      exact ih later leaves
    | false =>
      rw [cons_append, dropWhile_cons_of_neg (by rw [inClass]; decide)]
      intro starts
      exact differs (cons_prefix_cons.mp starts).1

theorem parse_sequence_many (name : Rule) (marked : holds mark = false) (noMark : mark ∉ word)
    (more : List (Expr Rule)) (rest : List Char) :
    parse (sequence (.atomic name (.many holds) :: .text [mark] :: more)) (word ++ mark :: rest) =
      if word.all holds then
        (parse (sequence more) rest).map (fun (later, last) => (.mk name word [] :: later, last))
      else none := by
  cases inClass : word.all holds with
  | true =>
    have parsed : parse (.many holds : Expr Rule) (word ++ mark :: rest) =
        some ([], mark :: rest) := by
      rw [parse_many, dropWhile_word marked inClass rest]
    rw [parse_sequence_of_some (parse_atomic_append parsed), if_pos rfl]
    exact congrArg _ (parse_sequence_text [mark] more rest)
  | false =>
    rw [parse_sequence_cons]
    simp only [parse_atomic, parse_many, map_some, false_eq_true, if_false]
    rw [parse_sequence_of_none (parse_text_eq_none (not_mark_dropWhile noMark inClass rest)),
      map_none]

theorem parse_sequence_many1 (name : Rule) (marked : holds mark = false) (noMark : mark ∉ word)
    (more : List (Expr Rule)) (rest : List Char) :
    parse (sequence (.atomic name (many1 holds) :: .text [mark] :: more)) (word ++ mark :: rest) =
      if word ≠ [] ∧ word.all holds then
        (parse (sequence more) rest).map (fun (later, last) => (.mk name word [] :: later, last))
      else none := by
  cases word with
  | nil =>
    rw [if_neg (fun isWord => isWord.1 rfl), parse_sequence_cons]
    simp [many1, marked]
  | cons letter word =>
    obtain ⟨_, later⟩ := not_or.mp (mt mem_cons.mpr noMark)
    cases inClass : holds letter with
    | false =>
      rw [if_neg (by simp [inClass]), parse_sequence_cons]
      simp [many1, inClass]
    | true =>
      cases wordInClass : word.all holds with
      | true =>
        have parsed : parse (many1 holds : Expr Rule) (letter :: word ++ mark :: rest) =
            some ([], mark :: rest) := by
          simp [many1, inClass, dropWhile_word marked wordInClass rest]
        rw [parse_sequence_of_some (parse_atomic_append parsed),
          if_pos (by simp [inClass, wordInClass])]
        exact congrArg _ (parse_sequence_text [mark] more rest)
      | false =>
        have failed : parse (sequence (.text [mark] :: more) : Expr Rule)
            ((word ++ mark :: rest).dropWhile holds) = none :=
          parse_sequence_of_none (parse_text_eq_none (not_mark_dropWhile later wordInClass rest))
        rw [if_neg (by simp [inClass, wordInClass]), parse_sequence_cons]
        simp [many1, inClass, failed]

end Words

end Elkeid.Foundations.Peg
