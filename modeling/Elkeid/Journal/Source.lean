import Elkeid.Journal.Login

/-!
# The two sources of the log

The loop of `journal_watcher/src/main.rs` reads entries of journald, or lines of a text log of which
it takes the fields by position. A line of the text log is compared with the entry of journald for
the same message. The JSON of journald is taken as read.
-/

namespace Elkeid.Journal

open Foundations Peg List

def isWhitespace (letter : Char) : Bool :=
  let code := letter.toNat
  (9 ≤ code ∧ code ≤ 13) ∨ code = 0x20 ∨ code = 0x85 ∨ code = 0xa0 ∨ code = 0x1680 ∨
    (0x2000 ≤ code ∧ code ≤ 0x200a) ∨ code = 0x2028 ∨ code = 0x2029 ∨ code = 0x202f ∨
      code = 0x205f ∨ code = 0x3000

def splitn (separates : Char → Bool) : Nat → List Char → List (List Char)
  | 0, _ => []
  | 1, text => [text]
  | count + 2, text =>
    match text.dropWhile (fun letter => !separates letter) with
    | [] => [text]
    | _ :: rest =>
      text.takeWhile (fun letter => !separates letter) :: splitn separates (count + 1) rest

/-- `text[bytes..]`; `none` is a panic, past the end or inside a character. -/
def sliceFrom : Nat → List Char → Option (List Char)
  | 0, text => some text
  | _ + 1, [] => none
  | bytes + 1, letter :: rest =>
    if letter.utf8Size ≤ bytes + 1 then sliceFrom (bytes + 1 - letter.utf8Size) rest else none

def sshd : List Char := ['s', 's', 'h', 'd', '[']

def readJournal (pid : Nat) (message : List Char) : Outcome := handle ⟨message, Nat.toDigits 10 pid⟩

def readLog (line : List Char) : Outcome :=
  match splitn isWhitespace 7 line with
  | [_, _, _, _, fourth, fifth, _] =>
    if sshd.isPrefixOf fifth then
      match sliceFrom 5 fourth with
      | none => .panic
      | some rest => handle ⟨fifth, rest.rdropWhile (· = ']')⟩
    else .nothing
  | _ => .nothing

/-! ## The reader of a message -/

theorem loginRecord_sends (entry : Entry) {pairs : List (Pair Rule)} (length : pairs.length = 7) :
    ∃ record, loginRecord entry pairs = .sent record := by
  match pairs, length with
  | [_, _, _, _, _, _, _], _ => exact ⟨_, rfl⟩

theorem certifyRecord_sends (entry : Entry) {pairs : List (Pair Rule)} (length : pairs.length = 2) :
    ∃ record, certifyRecord entry pairs = .sent record := by
  match pairs, length with
  | [_, _], _ => exact ⟨_, rfl⟩

theorem handle_sends {entry : Entry} (isEvent : parse Grammar.event entry.message ≠ none) :
    ∃ record, handle entry = .sent record := by
  unfold handle
  cases parsed : parse Grammar.event entry.message with
  | none => exact absurd parsed isEvent
  | some result =>
    obtain ⟨pairs, rest⟩ := result
    obtain ⟨inner, parsedEvent, rfl⟩ := parse_rule_eq_some parsed
    rw [parse_choice, Option.or_eq_some_iff] at parsedEvent
    rcases parsedEvent with parsedLogin | ⟨_, parsedCertify⟩
    · obtain ⟨fields, parsedFields, rfl⟩ := parse_rule_eq_some parsedLogin
      exact loginRecord_sends entry (length_of_parse rfl parsedFields)
    · obtain ⟨fields, parsedFields, rfl⟩ := parse_rule_eq_some parsedCertify
      exact certifyRecord_sends entry (length_of_parse rfl parsedFields)

theorem handle_eq_nothing_iff (entry : Entry) :
    handle entry = .nothing ↔ parse Grammar.event entry.message = none := by
  constructor
  · intro nothing
    by_contra isEvent
    obtain ⟨record, sent⟩ := handle_sends isEvent
    rw [sent] at nothing
    cases nothing
  · intro failed
    rw [handle, failed]

theorem handle_ne_panic (entry : Entry) : handle entry ≠ .panic := by
  intro panics
  by_cases failed : parse Grammar.event entry.message = none
  · rw [(handle_eq_nothing_iff entry).mpr failed] at panics
    cases panics
  · obtain ⟨record, sent⟩ := handle_sends failed
    rw [sent] at panics
    cases panics

theorem handle_of_sshd {message : List Char} (starts : sshd <+: message) (pid : List Char) :
    handle ⟨message, pid⟩ = .nothing := by
  obtain ⟨rest, rfl⟩ := starts
  rfl

/-! ## Fields of a line -/

theorem splitn_word {separates : Char → Bool} {word : List Char} {mark : Char}
    (isWord : word.all (fun letter => !separates letter) = true) (marked : separates mark = true)
    (count : Nat) (rest : List Char) :
    splitn separates (count + 2) (word ++ mark :: rest) =
      word :: splitn separates (count + 1) rest := by
  have stops : (!separates mark) = false := by rw [marked]; rfl
  rw [splitn, dropWhile_word stops isWord]
  simp only
  rw [takeWhile_append_of_pos (fun letter listed => all_eq_true.mp isWord letter listed),
    takeWhile_cons_of_neg (by rw [stops]; decide), append_nil]

def isWord (text : List Char) : Bool := text.all (fun letter => !isWhitespace letter)

structure Header where
  month : List Char
  day : Nat
  time : List Char
  host : List Char
  monthIsWord : isWord month = true
  timeIsWord : isWord time = true
  hostIsWord : isWord host = true

namespace Header

/-- Two columns for the day, with a blank before one digit. -/
def dayText (header : Header) : List Char :=
  if header.day < 10 then ' ' :: Nat.toDigits 10 header.day else Nat.toDigits 10 header.day

def tag (pid : Nat) : List Char := sshd ++ (Nat.toDigits 10 pid ++ [']', ':'])

/-- "Mon dd hh:mm:ss host sshd[pid]: message" -/
def line (header : Header) (pid : Nat) (message : List Char) : List Char :=
  header.month ++ ' ' :: (header.dayText ++ ' ' :: (header.time ++ ' ' :: (header.host ++ ' ' ::
    (tag pid ++ ' ' :: message))))

theorem isWord_toDigits (number : Nat) : isWord (Nat.toDigits 10 number) = true := by
  apply all_eq_true.mpr
  intro letter listed
  have isDigit := Nat.isDigit_of_mem_toDigits (by decide) (by decide) listed
  simp only [Char.isDigit, Bool.and_eq_true, decide_eq_true_eq] at isDigit
  have lower : 48 ≤ letter.toNat := UInt32.le_iff_toNat_le.mp isDigit.1
  have upper : letter.toNat ≤ 57 := UInt32.le_iff_toNat_le.mp isDigit.2
  simp only [isWhitespace, Bool.not_eq_true', decide_eq_false_iff_not]
  omega

theorem isWord_tag (pid : Nat) : isWord (tag pid) = true := by
  have digits := isWord_toDigits pid
  unfold isWord at digits ⊢
  rw [tag, all_append, all_append, digits]
  decide

theorem blank_separates : isWhitespace ' ' = true := by decide

theorem splitn_line_of_lt {header : Header} (oneDigit : header.day < 10) (pid : Nat)
    (message : List Char) :
    splitn isWhitespace 7 (header.line pid message) =
      [header.month, [], Nat.toDigits 10 header.day, header.time, header.host, tag pid,
        message] := by
  have noWord : splitn isWhitespace 6 ([] ++ ' ' :: (Nat.toDigits 10 header.day ++ ' ' ::
      (header.time ++ ' ' :: (header.host ++ ' ' :: (tag pid ++ ' ' :: message))))) = _ :=
    splitn_word rfl blank_separates 4 _
  rw [nil_append] at noWord
  rw [line, splitn_word header.monthIsWord blank_separates, dayText, if_pos oneDigit,
    cons_append, noWord, splitn_word (isWord_toDigits _) blank_separates,
    splitn_word header.timeIsWord blank_separates, splitn_word header.hostIsWord blank_separates,
    splitn_word (isWord_tag pid) blank_separates]
  rfl

theorem splitn_line_of_le {header : Header} (twoDigits : ¬ header.day < 10) (pid : Nat)
    (message : List Char) :
    splitn isWhitespace 7 (header.line pid message) =
      header.month :: Nat.toDigits 10 header.day :: header.time :: header.host :: tag pid ::
        splitn isWhitespace 2 message := by
  rw [line, splitn_word header.monthIsWord blank_separates, dayText, if_neg twoDigits,
    splitn_word (isWord_toDigits _) blank_separates, splitn_word header.timeIsWord blank_separates,
    splitn_word header.hostIsWord blank_separates, splitn_word (isWord_tag pid) blank_separates]

theorem sliceFrom_tag (pid : Nat) :
    sliceFrom 5 (tag pid) = some (Nat.toDigits 10 pid ++ [']', ':']) := by
  simp [tag, sshd, sliceFrom, Char.utf8Size]

theorem readLog_line (header : Header) (pid : Nat) (message : List Char) :
    readLog (header.line pid message) =
      if header.day < 10 ∧ sliceFrom 5 header.host = none then .panic else .nothing := by
  unfold readLog
  by_cases oneDigit : header.day < 10
  · rw [splitn_line_of_lt oneDigit]
    have starts : sshd <+: tag pid := prefix_append _ _
    simp only [if_true, isPrefixOf_iff_prefix.mpr starts, oneDigit, true_and]
    cases sliceFrom 5 header.host with
    | none => rfl
    | some rest => exact handle_of_sshd starts _
  · rw [splitn_line_of_le oneDigit, if_neg (fun both => oneDigit both.1)]
    cases splitn isWhitespace 2 message with
    | nil => rfl
    | cons first more =>
      cases more with
      | nil => rfl
      | cons second others =>
        cases others with
        | cons third others => rfl
        | nil =>
          simp only [sliceFrom_tag]
          split
          next same =>
            have starts := isPrefixOf_iff_prefix.mp same
            exact handle_of_sshd starts _
          next => rfl

end Header

/-- Seven fields, of which the sixth begins like a tag and the fifth cannot be cut at five bytes. -/
def PanicFields : List (List Char) → Prop
  | [_, _, _, _, fourth, fifth, _] => sshd <+: fifth ∧ sliceFrom 5 fourth = none
  | _ => False

theorem readLog_eq_panic_iff (line : List Char) :
    readLog line = .panic ↔ PanicFields (splitn isWhitespace 7 line) := by
  unfold readLog PanicFields
  split
  next fourth fifth _ _ =>
    split
    next same =>
      have starts := isPrefixOf_iff_prefix.mp same
      rw [and_iff_right starts]
      cases sliceFrom 5 fourth with
      | none => exact iff_of_true rfl rfl
      | some rest => exact iff_of_false (handle_ne_panic _) nofun
    next other =>
      exact iff_of_false nofun fun both => other <| isPrefixOf_iff_prefix.mpr both.1
  next => exact iff_of_false nofun not_false

theorem sources_agree_iff (header : Header) (pid : Nat) (message line : List Char) :
    (readLog (header.line pid message) = readJournal pid message ↔
      parse Grammar.event message = none ∧ (10 ≤ header.day ∨ sliceFrom 5 header.host ≠ none)) ∧
      (readLog line ≠ .panic ↔ ¬ PanicFields (splitn isWhitespace 7 line)) := by
  refine ⟨?_, not_congr (readLog_eq_panic_iff line)⟩
  rw [header.readLog_line]
  by_cases short : header.day < 10 ∧ sliceFrom 5 header.host = none
  · rw [if_pos short]
    refine iff_of_false (fun same => handle_ne_panic _ same.symm) ?_
    rintro ⟨_, twoDigits | sliced⟩
    · omega
    · exact sliced short.2
  · rw [if_neg short]
    have survives : 10 ≤ header.day ∨ sliceFrom 5 header.host ≠ none := by
      by_cases oneDigit : header.day < 10
      · exact Or.inr (fun cut => short ⟨oneDigit, cut⟩)
      · exact Or.inl (Nat.not_lt.mp oneDigit)
    rw [and_iff_left survives]
    exact eq_comm.trans (handle_eq_nothing_iff _)

/-! ## A login in both logs -/

def webHeader (day : Nat) : Header where
  month := ['J', 'u', 'n']
  day := day
  time := ['1', '0', ':', '0', '0', ':', '0', '0']
  host := ['w', 'e', 'b']
  monthIsWord := by decide
  timeIsWord := by decide
  hostIsWord := by decide

theorem webHeader_differs : readJournal 1 unknownUser.text ≠ .nothing ∧
      readLog ((webHeader 17).line 1 unknownUser.text) = .nothing ∧
      readLog ((webHeader 7).line 1 unknownUser.text) = .panic := by
  decide

end Elkeid.Journal
