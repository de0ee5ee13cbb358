import Elkeid.Foundations.Peg

/-!
# Login records

The grammar `journal_watcher/src/sshd.pest` and what `main.rs` makes of an entry of the log: the
record of a login or of a Kerberos authorization, or nothing. The time stamp is left out. A login
record is compared with the line that OpenSSH writes.
-/

namespace Elkeid.Journal

open Foundations Peg Expr List

inductive Rule where
  | authenticated
  | method
  | valid
  | user
  | sip
  | sport
  | principal
  | extra
  | login
  | certify
  | event
  deriving DecidableEq

def isChar (letter : Char) : Bool :=
  letter.isAlphanum || letter = '-' || letter = '_' || letter = '.' || letter = '@'

def accepted : List Char := "Accepted".toList
def failed : List Char := "Failed".toList
def invalidUser : List Char := "invalid user".toList
def authorizedTo : List Char := "Authorized to".toList
def krb5Principal : List Char :=
  ", krb5 principal".toList
def krb5Kuserok : List Char :=
  "(krb5_kuserok)".toList

namespace Grammar

def ws : Expr Rule := .text [' ']

def authenticated : Expr Rule := .rule .authenticated (.choice (.text accepted) (.text failed))

def valid : Expr Rule := .atomic .valid (.optional (.text (invalidUser ++ [' '])))

def user : Expr Rule := .atomic .user (.many isChar)

def extra : Expr Rule := .atomic .extra (.many (fun _ => true))

def word (name : Rule) : Expr Rule := .atomic name (many1 isChar)

/-- The part of `login` after the user. -/
def origin : List (Expr Rule) :=
  [.text "from".toList, ws, word .sip, ws, .text "port".toList, ws, word .sport, ws,
    .text "ssh2".toList, .optional (.text [':']), .optional ws, extra]

def login : Expr Rule :=
  .rule .login (sequence
    ([authenticated, ws, word .method, ws, .text ['f', 'o', 'r'], ws, valid, user, ws] ++ origin))

def certify : Expr Rule :=
  .rule .certify (sequence
    [.text authorizedTo, ws, user, .text krb5Principal, ws, word .principal, ws, .text krb5Kuserok])

def event : Expr Rule := .rule .event (.choice login certify)

end Grammar

/-! ## Records -/

structure Entry where
  message : List Char
  pid : List Char
  deriving DecidableEq

/-- The fields of a record of type 4000 before the two that every record has. -/
structure LoginFields where
  status : List Char
  types : List Char
  invalid : List Char
  user : List Char
  sip : List Char
  sport : List Char
  extra : List Char
  deriving DecidableEq

/-- Records of the types 4000 and 4001. -/
inductive Record where
  | login (fields : LoginFields) (pid rawlog : List Char)
  | certify (authorized principal pid rawlog : List Char)
  deriving DecidableEq

inductive Outcome where
  | nothing
  | sent (record : Record)
  | panic
  deriving DecidableEq

def boolText : Bool → List Char
  | true => "true".toList
  | false => "false".toList

/-- The pairs of a login are taken by their positions; one that is missing is a panic. -/
def loginRecord (entry : Entry) : List (Pair Rule) → Outcome
  | status :: types :: invalid :: user :: sip :: sport :: extra :: _ =>
    .sent (.login ⟨boolText (status.text = accepted), types.text,
      boolText (invalid.text = invalidUser), user.text, sip.text, sport.text, extra.text⟩
      entry.pid entry.message)
  | _ => .panic

def certifyRecord (entry : Entry) : List (Pair Rule) → Outcome
  | authorized :: principal :: _ =>
    .sent (.certify authorized.text principal.text entry.pid entry.message)
  | _ => .panic

/-- What the loop does with an entry. -/
def handle (entry : Entry) : Outcome :=
  match parse Grammar.event entry.message with
  | none => .nothing
  | some (.mk _ _ (.mk .login _ inner :: _) :: _, _) => loginRecord entry inner
  | some (.mk _ _ (.mk .certify _ inner :: _) :: _, _) => certifyRecord entry inner
  | some (.mk _ _ (_ :: _) :: _, _) => .nothing
  | some _ => .panic

/-! ## Lines of OpenSSH -/

inductive Address where
  | v4 (first second third fourth : Fin 256)
  /-- a text with colons -/
  | v6 (text : List Char) (colon : ':' ∈ text) (noBlank : ' ' ∉ text)

def Address.text : Address → List Char
  | .v4 first second third fourth =>
    Nat.toDigits 10 first ++ '.' :: (Nat.toDigits 10 second ++ '.' ::
      (Nat.toDigits 10 third ++ '.' :: Nat.toDigits 10 fourth))
  | .v6 text _ _ => text

structure Line where
  isAccepted : Bool
  method : List Char
  submethod : Option (List Char)
  isInvalid : Bool
  user : List Char
  address : Address
  port : Nat
  extra : Option (List Char)
  methodNoBlank : ' ' ∉ method
  submethodNoBlank : ∀ text ∈ submethod, ' ' ∉ text
  userNoBlank : ' ' ∉ user

namespace Line

def methodText (line : Line) : List Char :=
  match line.submethod with
  | none => line.method
  | some submethod => line.method ++ '/' :: submethod

def statusText (line : Line) : List Char := if line.isAccepted then accepted else failed

def invalidText (line : Line) : List Char := if line.isInvalid then invalidUser ++ [' '] else []

def extraText (line : Line) : List Char :=
  match line.extra with
  | none => []
  | some extra => ':' :: ' ' :: extra

def originText (line : Line) : List Char :=
  "from".toList ++ ' ' :: (line.address.text ++ ' ' :: ("port".toList ++
    ' ' :: (Nat.toDigits 10 line.port ++ ' ' :: ("ssh2".toList ++ line.extraText))))

def text (line : Line) : List Char :=
  line.statusText ++ ' ' :: (line.methodText ++ ' ' :: (['f', 'o', 'r'] ++ ' ' ::
    (line.invalidText ++ (line.user ++ ' ' :: line.originText))))

def fields (line : Line) : LoginFields :=
  ⟨boolText line.isAccepted, line.methodText, boolText line.isInvalid, line.user, line.address.text,
    Nat.toDigits 10 line.port, line.extra.getD []⟩

/-- Method, user and address are made of the characters of the grammar. -/
def Readable (line : Line) : Prop :=
  (line.methodText ≠ [] ∧ line.methodText.all isChar = true) ∧ line.user.all isChar = true ∧
    line.address.text.all isChar = true

instance (line : Line) : Decidable line.Readable := inferInstanceAs (Decidable (_ ∧ _ ∧ _))

end Line

/-! ## Parsing a line -/

theorem first_word_eq {first second rest later : List Char} (noBlank : ' ' ∉ first)
    (noBlank' : ' ' ∉ second) (starts : first ++ ' ' :: rest <+: second ++ ' ' :: later) :
    first = second ∧ rest <+: later := by
  induction first generalizing second with
  | nil =>
    cases second with
    | nil => exact ⟨rfl, (cons_prefix_cons.mp starts).2⟩
    | cons letter second =>
      obtain ⟨isBlank, _⟩ := cons_prefix_cons.mp starts
      exact absurd (isBlank ▸ mem_cons_self) noBlank'
  | cons letter first ih =>
    obtain ⟨_, noBlankRest⟩ := not_or.mp (mt mem_cons.mpr noBlank)
    cases second with
    | nil =>
      obtain ⟨isBlank, _⟩ := cons_prefix_cons.mp starts
      exact absurd (isBlank ▸ mem_cons_self) noBlank
    | cons letter' second =>
      obtain ⟨_, noBlankRest'⟩ := not_or.mp (mt mem_cons.mpr noBlank')
      obtain ⟨rfl, startsRest⟩ := cons_prefix_cons.mp starts
      obtain ⟨rfl, later⟩ := ih noBlankRest noBlankRest' startsRest
      exact ⟨rfl, later⟩

theorem isChar_blank : isChar ' ' = false := by decide

theorem isChar_digit {letter : Char} (isDigit : letter.isDigit = true) : isChar letter = true := by
  simp [isChar, Char.isAlphanum, isDigit]

theorem all_isChar_toDigits (number : Nat) : (Nat.toDigits 10 number).all isChar = true :=
  all_eq_true.mpr fun _ listed =>
    isChar_digit (Nat.isDigit_of_mem_toDigits (by decide) (by decide) listed)

theorem blank_not_mem_of_all {text : List Char} (inClass : text.all isChar = true) :
    ' ' ∉ text := by
  intro listed
  have isChar_blank' := all_eq_true.mp inClass ' ' listed
  rw [isChar_blank] at isChar_blank'
  cases isChar_blank'

namespace Address

theorem all_isChar_iff (address : Address) :
    address.text.all isChar = true ↔ ∃ first second third fourth,
      address = .v4 first second third fourth := by
  cases address with
  | v4 first second third fourth =>
    refine iff_of_true ?_ ⟨first, second, third, fourth, rfl⟩
    simp [text, all_isChar_toDigits, show isChar '.' = true by decide]
  | v6 text colon noBlank =>
    refine iff_of_false (fun inClass => ?_) nofun
    exact absurd (all_eq_true.mp inClass ':' colon) (by decide)

theorem noBlank_text (address : Address) : ' ' ∉ address.text := by
  cases isText : address with
  | v4 first second third fourth =>
    exact blank_not_mem_of_all ((all_isChar_iff _).mpr ⟨first, second, third, fourth, rfl⟩)
  | v6 text colon noBlank => exact noBlank

theorem text_ne_nil (address : Address) : address.text ≠ [] := by
  cases address with
  | v4 first second third fourth => simp [text]
  | v6 text colon noBlank =>
    rintro rfl
    cases colon

end Address

namespace Grammar

theorem parse_ws (more : List (Expr Rule)) (rest : List Char) :
    parse (sequence (ws :: more)) (' ' :: rest) = parse (sequence more) rest :=
  parse_sequence_text [' '] more rest

theorem parse_word (name : Rule) {text : List Char} (noBlank : ' ' ∉ text)
    (more : List (Expr Rule)) (rest : List Char) :
    parse (sequence (word name :: ws :: more)) (text ++ ' ' :: rest) =
      if text ≠ [] ∧ text.all isChar then
        (parse (sequence more) rest).map (fun (later, last) => (.mk name text [] :: later, last))
      else none :=
  parse_sequence_many1 name isChar_blank noBlank more rest

theorem parse_user {text : List Char} (noBlank : ' ' ∉ text) (more : List (Expr Rule))
    (rest : List Char) :
    parse (sequence (user :: ws :: more)) (text ++ ' ' :: rest) = if text.all isChar then
        (parse (sequence more) rest).map (fun (later, last) => (.mk .user text [] :: later, last))
      else none :=
  parse_sequence_many Rule.user isChar_blank noBlank more rest

end Grammar

namespace Line

variable (line : Line)

theorem noBlank_methodText : ' ' ∉ line.methodText := by
  unfold methodText
  cases isSubmethod : line.submethod with
  | none => exact line.methodNoBlank
  | some submethod =>
    intro listed
    rcases mem_append.mp listed with inMethod | inRest
    · exact line.methodNoBlank inMethod
    · rcases mem_cons.mp inRest with isSlash | inSubmethod
      · cases isSlash
      · exact line.submethodNoBlank submethod isSubmethod inSubmethod

theorem parse_authenticated (rest : List Char) :
    parse Grammar.authenticated (line.statusText ++ rest) =
      some ([.mk .authenticated line.statusText []], rest) := by
  apply parse_rule_append
  unfold statusText
  cases line.isAccepted with
  | true => exact parse_choice_some (parse_text_append accepted rest)
  | false =>
    have differs : ¬ accepted <+: failed ++ rest := fun starts =>
      absurd (cons_prefix_cons.mp starts).1 (by decide)
    exact (parse_choice_none (parse_text_eq_none differs)).trans (parse_text_append failed rest)

theorem parse_valid :
    parse Grammar.valid (line.invalidText ++ (line.user ++ ' ' :: line.originText)) =
      some ([.mk .valid line.invalidText []], line.user ++ ' ' :: line.originText) := by
  apply parse_atomic_append
  unfold invalidText
  cases line.isInvalid with
  | true => exact parse_optional_some (parse_text_append _ _)
  | false =>
    apply parse_optional_none
    apply parse_text_eq_none
    intro starts
    have noBlank : ' ' ∉ "invalid".toList := by decide
    obtain ⟨_, startsUser⟩ := first_word_eq noBlank line.userNoBlank starts
    exact absurd (cons_prefix_cons.mp startsUser).1 (by decide)

theorem parse_sequence_extra (text : List Char) :
    parse (sequence [Grammar.extra]) text = some ([.mk .extra text []], []) := by
  have parsed : parse (.many (fun _ => true) : Expr Rule) (text ++ []) = some ([], []) := by
    rw [parse_many, dropWhile_append_of_pos (fun _ _ => rfl)]
    rfl
  have whole : parse (sequence [Grammar.extra]) (text ++ []) = _ :=
    parse_sequence_of_some (parse_atomic_append parsed)
  rw [append_nil] at whole
  exact whole

theorem parse_extra :
    parse (sequence [.optional (.text [':']), .optional Grammar.ws, Grammar.extra]) line.extraText =
      some ([.mk .extra (line.extra.getD []) []], []) := by
  unfold extraText
  cases line.extra with
  | none => rfl
  | some text =>
    have colon : parse (.optional (.text [':']) : Expr Rule) (':' :: ' ' :: text) = _ :=
      parse_optional_some (parse_text_append [':'] (' ' :: text))
    have blank : parse (.optional Grammar.ws : Expr Rule) (' ' :: text) = _ :=
      parse_optional_some (parse_text_append [' '] text)
    rw [parse_sequence_of_some colon, parse_sequence_of_some blank, parse_sequence_extra]
    rfl

theorem parse_origin : parse (sequence Grammar.origin) line.originText =
      if line.address.text.all isChar then
        some ([.mk .sip line.address.text [], .mk .sport (Nat.toDigits 10 line.port) [],
          .mk .extra (line.extra.getD []) []], [])
      else none := by
  have port : Nat.toDigits 10 line.port ≠ [] ∧ (Nat.toDigits 10 line.port).all isChar = true :=
    ⟨Nat.toDigits_ne_nil, all_isChar_toDigits line.port⟩
  unfold Grammar.origin originText
  rw [parse_sequence_text, Grammar.parse_ws, Grammar.parse_word _ line.address.noBlank_text,
    parse_sequence_text, Grammar.parse_ws, Grammar.parse_word _ (blank_not_mem_of_all port.2),
    if_pos port, parse_sequence_text, parse_extra]
  simp [line.address.text_ne_nil]

def pairs : List (Pair Rule) :=
  [.mk .authenticated line.statusText [], .mk .method line.methodText [],
    .mk .valid line.invalidText [], .mk .user line.user [], .mk .sip line.address.text [],
    .mk .sport (Nat.toDigits 10 line.port) [], .mk .extra (line.extra.getD []) []]

theorem parse_login : parse Grammar.login line.text =
      if line.Readable then some ([.mk .login line.text line.pairs], []) else none := by
  have inner : parse (sequence (Grammar.authenticated :: Grammar.ws :: Grammar.word .method ::
      Grammar.ws :: .text ['f', 'o', 'r'] :: Grammar.ws :: Grammar.valid :: Grammar.user ::
        Grammar.ws :: Grammar.origin)) line.text =
      if line.Readable then some (line.pairs, []) else none := by
    unfold text
    rw [parse_sequence_of_some (line.parse_authenticated _), Grammar.parse_ws,
      Grammar.parse_word _ line.noBlank_methodText, parse_sequence_text, Grammar.parse_ws,
      parse_sequence_of_some line.parse_valid, Grammar.parse_user line.userNoBlank, parse_origin]
    by_cases methodRead : line.methodText ≠ [] ∧ line.methodText.all isChar = true
    · by_cases userRead : line.user.all isChar = true
      · by_cases addressRead : line.address.text.all isChar = true
        · rw [if_pos methodRead, if_pos userRead, if_pos addressRead,
            if_pos ⟨methodRead, userRead, addressRead⟩]
          rfl
        · rw [if_pos methodRead, if_pos userRead, if_neg addressRead,
            if_neg (fun readable => addressRead readable.2.2)]
          rfl
      · rw [if_pos methodRead, if_neg userRead, if_neg (fun readable => userRead readable.2.1)]
        rfl
    · rw [if_neg methodRead, if_neg (fun readable => methodRead readable.1)]
      rfl
  by_cases readable : line.Readable
  · rw [if_pos readable] at inner ⊢
    exact parse_rule_whole inner
  · rw [if_neg readable] at inner ⊢
    exact parse_rule_none inner

theorem parse_certify : parse Grammar.certify line.text = none := by
  apply parse_rule_none
  apply parse_sequence_of_none
  apply parse_text_eq_none
  unfold text statusText
  cases line.isAccepted with
  | true =>
    intro starts
    exact absurd (cons_prefix_cons.mp (cons_prefix_cons.mp starts).2).1 (by decide)
  | false =>
    intro starts
    exact absurd (cons_prefix_cons.mp starts).1 (by decide)

theorem parse_event : parse Grammar.event line.text = if line.Readable then
        some ([.mk .event line.text [.mk .login line.text line.pairs]], [])
      else none := by
  have parsed := line.parse_login
  by_cases readable : line.Readable
  · rw [if_pos readable] at parsed ⊢
    exact parse_rule_whole (parse_choice_some parsed)
  · rw [if_neg readable] at parsed ⊢
    exact parse_rule_none ((parse_choice_none parsed).trans line.parse_certify)

theorem handle_text (pid : List Char) : handle ⟨line.text, pid⟩ = if line.Readable then
        .sent (.login { line.fields with invalid := boolText false } pid line.text)
      else .nothing := by
  unfold handle
  rw [parse_event]
  by_cases readable : line.Readable
  · have status : decide (line.statusText = accepted) = line.isAccepted := by
      unfold statusText
      cases line.isAccepted <;> decide
    have invalid : decide (line.invalidText = invalidUser) = false := by
      unfold invalidText
      cases line.isInvalid <;> decide
    have record : loginRecord ⟨line.text, pid⟩ line.pairs = .sent (.login { line.fields with
          status := boolText (line.statusText = accepted)
          invalid := boolText (line.invalidText = invalidUser) } pid line.text) := rfl
    rw [status, invalid] at record
    rw [if_pos readable, if_pos readable]
    exact record
  · rw [if_neg readable, if_neg readable]

theorem readable_iff : line.Readable ↔ (line.methodText ≠ [] ∧ line.methodText.all isChar = true) ∧
      line.user.all isChar = true ∧
        ∃ first second third fourth, line.address = .v4 first second third fourth := by
  unfold Readable
  rw [Address.all_isChar_iff]

end Line

theorem login_reported_iff (line : Line) (pid : List Char) :
    handle ⟨line.text, pid⟩ = .sent (.login line.fields pid line.text) ↔
      line.isInvalid = false ∧ (line.methodText ≠ [] ∧ line.methodText.all isChar = true) ∧
        line.user.all isChar = true ∧
          ∃ first second third fourth, line.address = .v4 first second third fourth := by
  rw [← line.readable_iff, line.handle_text]
  by_cases readable : line.Readable
  · rw [if_pos readable, and_iff_left readable]
    have texts : boolText false = boolText line.isInvalid ↔ line.isInvalid = false := by
      cases line.isInvalid <;> decide
    simp [Line.fields, texts]
  · rw [if_neg readable]
    exact iff_of_false nofun (fun both => readable both.2)

def unknownUser : Line where
  isAccepted := false
  method := "password".toList
  submethod := none
  isInvalid := true
  user := ['b', 'o', 'b']
  address := .v4 10 0 0 1
  port := 22
  extra := none
  methodNoBlank := by decide
  submethodNoBlank := nofun
  userNoBlank := by decide

theorem unknownUser_not_invalid : unknownUser.fields.invalid = boolText true ∧
      handle ⟨unknownUser.text, ['1']⟩ =
        .sent (.login { unknownUser.fields with invalid := boolText false } ['1']
          unknownUser.text) ∧
      handle ⟨unknownUser.text, ['1']⟩ ≠
        .sent (.login unknownUser.fields ['1'] unknownUser.text) := by
  decide

end Elkeid.Journal
