import Elkeid.Foundations.Separator
import Elkeid.Foundations.Text
import Elkeid.Foundations.Trim

/-!
# Request signatures

The `AKSKAuth` middlewares of the service discovery, the manager and the agent center. They
sign the fields of a request joined by a backslash and an `n`: the format is a raw string,
in which `\n` is not a line feed. The path, the query and the access key may hold these
two characters, and then a request with other fields has the same signature.
-/

namespace Elkeid.Auth

open Foundations Foundations.Separator Foundations.Text Foundations.Trim List

/-- SHA-256 and HMAC-SHA256, without collisions. -/
structure Hashes where
  sha256 : Bytes → Bytes
  hmac : Bytes → Bytes → Bytes
  sha256_injective : Function.Injective sha256
  sha256_ne_nil : ∀ data, sha256 data ≠ []
  hmac_injective : ∀ secret data secret' data', hmac secret data = hmac secret' data' →
    secret = secret' ∧ data = data'

/-- `hex.EncodeToString`. -/
def encodeToString (data : Bytes) : Bytes :=
  data.flatMap (fun byte => [hexDigit (byte.toNat / 16), hexDigit (byte.toNat % 16)])

def sha256byteArr (hashes : Hashes) (input : Bytes) : Bytes :=
  if input = [] then [] else encodeToString (hashes.sha256 input)

def hmacSha256 (hashes : Hashes) (data secret : Bytes) : Bytes :=
  encodeToString (hashes.hmac secret data)

/-- The fields of a request with a backslash and an `n` between them. -/
def joinFields : Bytes → Bytes → Bytes := joined 0x5c 0x6e

def Marked : Bytes → Prop := Occurs 0x5c 0x6e

def generateSign (hashes : Hashes) (method url query ak timestamp sk requestBody : Bytes) : Bytes :=
  hmacSha256 hashes
    (joinFields method (joinFields url (joinFields query (joinFields ak
      (joinFields timestamp (sha256byteArr hashes requestBody)))))) sk

/-- The encodings of the characters of `unicode.IsSpace`. -/
def spaces : List Bytes :=
  [[0x09], [0x0a], [0x0b], [0x0c], [0x0d], [0x20], [0xc2, 0x85], [0xc2, 0xa0],
    [0xe1, 0x9a, 0x80], [0xe2, 0x80, 0x80], [0xe2, 0x80, 0x81], [0xe2, 0x80, 0x82],
    [0xe2, 0x80, 0x83], [0xe2, 0x80, 0x84], [0xe2, 0x80, 0x85], [0xe2, 0x80, 0x86],
    [0xe2, 0x80, 0x87], [0xe2, 0x80, 0x88], [0xe2, 0x80, 0x89], [0xe2, 0x80, 0x8a],
    [0xe2, 0x80, 0xa8], [0xe2, 0x80, 0xa9], [0xe2, 0x80, 0xaf], [0xe2, 0x81, 0x9f],
    [0xe3, 0x80, 0x80]]

def trimSpace (text : Bytes) : Bytes := trim spaces text

def formatURLPath (path : Bytes) : Bytes :=
  let path := trimSpace path
  if path.getLast? = some 0x2f then path.dropLast else path

def parseDigits (text : Bytes) : Option Nat :=
  if text ≠ [] ∧ text.all (fun byte => 0x30 ≤ byte && byte ≤ 0x39) then
    some (text.foldl (fun value byte => value * 10 + (byte.toNat - 0x30)) 0)
  else none

/-- `strconv.ParseInt(text, 10, 64)`. -/
def parseInt (text : Bytes) : Option Int :=
  match text with
  | 0x2d :: digits =>
    (parseDigits digits).bind (fun value => if value ≤ 2 ^ 63 then some (-value) else none)
  | 0x2b :: digits =>
    (parseDigits digits).bind (fun value => if value < 2 ^ 63 then some value else none)
  | digits =>
    (parseDigits digits).bind (fun value => if value < 2 ^ 63 then some value else none)

/-- The characters of the method of a request, which the server has checked. -/
def isToken (byte : UInt8) : Bool :=
  (0x30 ≤ byte && byte ≤ 0x39) || (0x41 ≤ byte && byte ≤ 0x5a) || (0x61 ≤ byte && byte ≤ 0x7a) ||
    byte ∈ ([0x21, 0x23, 0x24, 0x25, 0x26, 0x27, 0x2a, 0x2b, 0x2d, 0x2e, 0x5e, 0x5f, 0x60, 0x7c,
      0x7e] : Bytes)

structure Request where
  method : Bytes
  path : Bytes
  rawQuery : Bytes
  accessKey : Bytes
  signature : Bytes
  timeStamp : Bytes
  /-- The body, or the error of reading it. -/
  body : Except Bytes Bytes
  validMethod : method.all isToken

/-- `unicode.ToLower` -/
structure CaseTable where
  toLower : Char → Char
  toLower_toLower : ∀ rune, toLower (toLower rune) = toLower rune
  ascii : ∀ rune, rune.val < 0x80 → toLower rune = rune.toLower

/-- The runes of a text behind its first `skip` bytes; a byte that begins none is read as U+FFFD. -/
def runes : Nat → Bytes → List Char
  | _, [] => []
  | skip + 1, _ :: rest => runes skip rest
  | 0, byte :: rest =>
    match (byte :: rest).toByteArray.utf8DecodeChar? 0 with
    | some rune => rune :: runes (rune.utf8Size - 1) rest
    | none => Char.ofNat 0xfffd :: runes 0 rest

/-- `strings.ToLower` -/
def toLower (table : CaseTable) (text : Bytes) : Bytes :=
  (runes 0 text).flatMap (fun rune => String.utf8EncodeChar (table.toLower rune))

inductive Midware
  | serviceDiscovery (table : CaseTable)
  | manager
  | agentCenter

/-- Only the service discovery lowers the access key. -/
def Midware.accessKey : Midware → Bytes → Bytes
  | .serviceDiscovery table, header => toLower table header
  | .manager, header | .agentCenter, header => header

inductive Reason
  | headerMissed
  | timeStampUnread
  | timeStampFar
  | userNotExist
  | bodyUnread (error : Bytes)
  | signatureError
  deriving DecidableEq

def getSecKec (keys : Bytes → Option Bytes) (ak : Bytes) : Bytes := (keys ak).getD []

/-- `AKSKAuth` up to the signature it computes, given with the secret key. -/
def Midware.serverSign (midware : Midware) (hashes : Hashes) (keys : Bytes → Option Bytes)
    (now : Int) (request : Request) : Except Reason (Bytes × Bytes) :=
  let ak := midware.accessKey request.accessKey
  if ak = [] ∨ request.signature = [] ∨ request.timeStamp = [] then .error .headerMissed
  else
    match parseInt request.timeStamp with
    | none => .error .timeStampUnread
    | some iTime =>
      let timeDiff := (now - iTime).bmod (2 ^ 64)
      if timeDiff ≥ 60 ∨ timeDiff ≤ -60 then .error .timeStampFar
      else
        let sk := getSecKec keys ak
        if sk = [] then .error .userNotExist
        else
          match request.body with
          | .error error => .error (.bodyUnread error)
          | .ok requestBody =>
            .ok (sk, generateSign hashes request.method (formatURLPath request.path)
              request.rawQuery ak request.timeStamp sk requestBody)

def Midware.akskAuth (midware : Midware) (hashes : Hashes) (keys : Bytes → Option Bytes)
    (now : Int) (request : Request) : Except Reason Unit :=
  match midware.serverSign hashes keys now request with
  | .error reason => .error reason
  | .ok (_, serverSign) =>
    if serverSign ≠ request.signature then .error .signatureError else .ok ()

/-! ## Fields without a backslash -/

theorem backslash_ne_n : (0x5c : UInt8) ≠ 0x6e := by decide

variable {text : Bytes}

theorem not_marked_of_free (free : 0x5c ∉ text) : ¬ Marked text := by
  rintro ⟨left, right, rfl⟩
  exact free (mem_joined_left left right)

theorem encodeToString_free (data : Bytes) : 0x5c ∉ encodeToString data := by
  intro listed
  obtain ⟨byte, _, digit⟩ := mem_flatMap.mp listed
  have enumerated : ∀ value : Fin 16, 0x5c ≠ hexDigit value := by decide
  have small := byte.toNat_lt
  rcases mem_cons.mp digit with high | low
  · exact enumerated ⟨byte.toNat / 16, by omega⟩ high
  · exact enumerated ⟨byte.toNat % 16, by omega⟩ (mem_singleton.mp low)

theorem hexDigits_inj {byte other : UInt8}
    (high : hexDigit (byte.toNat / 16) = hexDigit (other.toNat / 16))
    (low : hexDigit (byte.toNat % 16) = hexDigit (other.toNat % 16)) : byte = other := by
  have enumerated : ∀ value value' : Fin 16, hexDigit value = hexDigit value' → value = value' := by
    decide
  have small := byte.toNat_lt
  have small' := other.toNat_lt
  have sameHigh := Fin.mk.inj (enumerated ⟨_, by omega⟩ ⟨_, by omega⟩ high)
  have sameLow := Fin.mk.inj (enumerated ⟨_, by omega⟩ ⟨_, by omega⟩ low)
  exact UInt8.toNat_inj.mp (by omega)

theorem encodeToString_injective : Function.Injective encodeToString := by
  intro data
  induction data with
  | nil =>
    intro other same
    cases other with
    | nil => rfl
    | cons head tail => cases same
  | cons head tail ih =>
    intro other same
    cases other with
    | nil => cases same
    | cons head' tail' =>
      simp only [encodeToString, flatMap_cons, cons_append, nil_append, List.cons.injEq] at same
      rw [hexDigits_inj same.1 same.2.1, ih same.2.2]

section Hashed

variable (hashes : Hashes)

theorem sha256byteArr_free (input : Bytes) : 0x5c ∉ sha256byteArr hashes input := by
  rw [sha256byteArr]
  split
  next => exact not_mem_nil
  next => exact encodeToString_free _

theorem encodeToString_ne_nil {data : Bytes} (nonempty : data ≠ []) : encodeToString data ≠ [] :=
  fun empty => nonempty (encodeToString_injective empty)

theorem sha256byteArr_injective : Function.Injective (sha256byteArr hashes) := by
  intro input other same
  rw [sha256byteArr, sha256byteArr] at same
  split at same
  next empty =>
    split at same
    next alsoEmpty => rw [empty, alsoEmpty]
    next => exact absurd same.symm (encodeToString_ne_nil (hashes.sha256_ne_nil other))
  next =>
    split at same
    next => exact absurd same (encodeToString_ne_nil (hashes.sha256_ne_nil input))
    next => exact hashes.sha256_injective (encodeToString_injective same)

end Hashed

theorem parseDigits_free {value : Nat} (parsed : parseDigits text = some value) : 0x5c ∉ text := by
  intro listed
  rw [parseDigits] at parsed
  split at parsed
  next digits => exact absurd (all_eq_true.mp digits.2 0x5c listed) (by decide)
  next => cases parsed

theorem parseInt_free {value : Int} (parsed : parseInt text = some value) : 0x5c ∉ text := by
  unfold parseInt at parsed
  split at parsed
  next digits =>
    obtain ⟨magnitude, isParsed, _⟩ := Option.bind_eq_some_iff.mp parsed
    exact not_mem_cons_of_ne_of_not_mem (by decide) (parseDigits_free isParsed)
  next digits =>
    obtain ⟨magnitude, isParsed, _⟩ := Option.bind_eq_some_iff.mp parsed
    exact not_mem_cons_of_ne_of_not_mem (by decide) (parseDigits_free isParsed)
  next =>
    obtain ⟨magnitude, isParsed, _⟩ := Option.bind_eq_some_iff.mp parsed
    exact parseDigits_free isParsed

theorem Request.method_free (request : Request) : 0x5c ∉ request.method := by
  intro listed
  exact absurd (all_eq_true.mp request.validMethod 0x5c listed) (by decide)

/-! ## Paths -/

theorem spaces_free : ∀ space ∈ spaces, space ≠ [] ∧ 0x2f ∉ space ∧ 0x5c ∉ space := by decide

theorem leading_formatURLPath (path : Bytes) : leading spaces (formatURLPath path) = none := by
  have trimmed : leading spaces (trimSpace path) = none := leading_trim (by decide) path
  rw [formatURLPath]
  split
  next => exact leading_of_start trimmed <| dropLast_prefix _
  next => exact trimmed

theorem formatURLPath_slash (noSpace : leading spaces text = none) :
    formatURLPath (text ++ [0x2f]) = text := by
  have atStart : leading spaces (text ++ [0x2f]) = none := by
    rw [leading_eq_none_iff] at noSpace ⊢
    intro space listed found
    rcases prefix_concat_iff.mp found with whole | inText
    · exact (spaces_free space listed).2.1 (whole ▸ mem_concat_self)
    · exact noSpace space listed inText
  have atEnd : leading (spaces.map reverse) (text ++ [0x2f]).reverse = none := by
    rw [leading_eq_none_iff, reverse_append]
    intro space listed found
    obtain ⟨forward, isSpace, rfl⟩ := mem_map.mp listed
    obtain ⟨nonempty, noSlash, _⟩ := spaces_free forward isSpace
    cases shape : forward.reverse with
    | nil => exact nonempty (reverse_eq_nil_iff.mp shape)
    | cons head tail =>
      rw [shape] at found
      have isSlash : head = 0x2f := (cons_prefix_cons.mp found).1
      exact noSlash (mem_reverse.mp (shape ▸ isSlash ▸ mem_cons_self))
  rw [formatURLPath, trimSpace, trim_of_leading atStart atEnd]
  simp

theorem leading_of_joinFields {left right : Bytes}
    (noSpace : leading spaces (joinFields left right) = none) : leading spaces left = none :=
  leading_of_start noSpace (prefix_append _ _)

theorem leading_joinFields {left : Bytes} (noSpace : leading spaces left = none) (right : Bytes) :
    leading spaces (joinFields left right) = none := by
  rw [leading_eq_none_iff] at noSpace ⊢
  rintro space listed ⟨rest, same⟩
  rcases append_eq_append_iff.mp same with ⟨extra, longer, _⟩ | ⟨extra, longer, beyond⟩
  · exact noSpace space listed ⟨extra, longer.symm⟩
  · cases extra with
    | nil => exact noSpace space listed ⟨[], by simpa using longer⟩
    | cons head tail =>
      -- the space would reach into the separator
      have isMark : 0x5c = head := head_eq_of_cons_eq beyond
      rw [longer, ← isMark] at listed
      exact (spaces_free _ listed).2.2 (mem_append_right _ mem_cons_self)

/-! ## Access keys -/

theorem encodes_ascii {rune : Char} {byte : UInt8} (listed : byte ∈ String.utf8EncodeChar rune)
    (ascii : byte < 0x80) : String.utf8EncodeChar rune = [byte] := by
  unfold String.utf8EncodeChar at *
  dsimp only at *
  rw [UInt8.lt_iff_toNat_lt] at ascii
  change byte.toNat < 128 at ascii
  split_ifs at * with one two three
  · rw [mem_singleton.mp listed]
  all_goals
    simp only [mem_cons, not_mem_nil, or_false] at listed
    exfalso
    rcases listed with rfl | rfl | rfl | rfl <;> simp at ascii <;> omega

theorem runes_append (front : Bytes) :
    ∀ back, runes front.length (front ++ back) = runes 0 back := by
  induction front with
  | nil => exact fun _ => rfl
  | cons _ front ih => exact ih

theorem runes_encoded (text : List Char) : runes 0 (text.flatMap String.utf8EncodeChar) = text := by
  induction text with
  | nil => rfl
  | cons rune text ih =>
    have decoded := @ByteArray.utf8DecodeChar?_utf8EncodeChar_append
      (text.flatMap String.utf8EncodeChar).toByteArray rune
    have size := String.length_utf8EncodeChar rune
    rw [← toByteArray_append] at decoded
    rw [flatMap_cons]
    cases encoded : String.utf8EncodeChar rune with
    | nil =>
      rw [encoded] at size
      exact absurd size rune.utf8Size_pos.ne
    | cons byte more =>
      rw [encoded, cons_append] at decoded
      rw [encoded] at size
      rw [cons_append, runes, decoded]
      dsimp only
      rw [← size, length_cons, Nat.add_sub_cancel, runes_append, ih]

/-- A character of one byte stands between runes. -/
theorem encoded_behind {text : List Char} {front back : Bytes} {byte : UInt8} (ascii : byte < 0x80)
    (split : text.flatMap String.utf8EncodeChar = front ++ byte :: back) :
    ∃ rest, rest <:+ text ∧ back = rest.flatMap String.utf8EncodeChar := by
  induction text generalizing front with
  | nil => cases (append_eq_nil_iff.mp split.symm).2
  | cons rune text ih =>
    rw [flatMap_cons] at split
    obtain ⟨more, rfl, inText⟩ | ⟨more, inRune, behind⟩ := append_eq_append_iff.mp split
    · obtain ⟨rest, isSuffix, isBack⟩ := ih inText
      exact ⟨rest, isSuffix.trans (suffix_cons rune text), isBack⟩
    · cases more with
      | nil =>
        obtain ⟨rest, isSuffix, isBack⟩ := @ih [] behind.symm
        exact ⟨rest, isSuffix.trans (suffix_cons rune text), isBack⟩
      | cons first more =>
        obtain ⟨rfl, isBack⟩ := cons.inj behind
        have alone := encodes_ascii (inRune ▸ mem_append_right _ mem_cons_self) ascii
        have noMore : more = [] := by
          have length := congrArg length (inRune.symm.trans alone)
          simp only [length_append, length_cons, length_nil] at length
          exact length_eq_zero_iff.mp (by omega)
        exact ⟨text, suffix_cons rune text, by rw [isBack, noMore]; rfl⟩

theorem Midware.accessKey_of_joinFields (midware : Midware) {header front back : Bytes}
    (split : midware.accessKey header = joinFields front back) : midware.accessKey back = back := by
  cases midware with
  | serviceDiscovery table =>
    have runewise : ((runes 0 header).map table.toLower).flatMap String.utf8EncodeChar =
        front ++ 0x5c :: 0x6e :: back := by
      rw [flatMap_map]
      exact split
    obtain ⟨letters, isSuffix, behind⟩ := encoded_behind (by decide) runewise
    obtain ⟨rest, isRest, rfl⟩ := encoded_behind (by decide) (behind.symm.trans (nil_append _).symm)
    have lowered : ∀ rune ∈ rest, table.toLower rune = rune := by
      intro rune listed
      obtain ⟨original, _, rfl⟩ := mem_map.mp ((isRest.trans isSuffix).subset listed)
      exact table.toLower_toLower original
    rw [Midware.accessKey, toLower, runes_encoded]
    exact flatMap_congr fun rune listed => congrArg _ (lowered rune listed)
  | manager => rfl
  | agentCenter => rfl

/-! ## Requests with the same signature -/

/-- What `AKSKAuth` has checked when it computes a signature. -/
structure Midware.Checked (midware : Midware) (keys : Bytes → Option Bytes) (now : Int)
    (request : Request) (secret requestBody : Bytes) : Prop where
  accessKey_ne : midware.accessKey request.accessKey ≠ []
  signature_ne : request.signature ≠ []
  inTime : ∃ iTime, parseInt request.timeStamp = some iTime ∧
    (now - iTime).bmod (2 ^ 64) < 60 ∧ -60 < (now - iTime).bmod (2 ^ 64)
  secret_eq : getSecKec keys (midware.accessKey request.accessKey) = secret
  secret_ne : secret ≠ []
  body_eq : request.body = .ok requestBody

def Midware.sign (midware : Midware) (hashes : Hashes) (request : Request)
    (secret requestBody : Bytes) : Bytes :=
  generateSign hashes request.method (formatURLPath request.path) request.rawQuery
    (midware.accessKey request.accessKey) request.timeStamp secret requestBody

section Signatures

variable {midware : Midware} {hashes : Hashes} {keys : Bytes → Option Bytes} {now now' : Int}
  {request other : Request} {secret sign requestBody otherBody : Bytes}

theorem checked_of_serverSign
    (signed : midware.serverSign hashes keys now request = .ok (secret, sign)) :
    ∃ requestBody, midware.Checked keys now request secret requestBody ∧
      midware.sign hashes request secret requestBody = sign := by
  simp only [Midware.serverSign] at signed
  split at signed
  next => cases signed
  next present =>
    obtain ⟨hasKey, hasSignature, _⟩ := by simpa only [not_or] using present
    split at signed
    next => cases signed
    next iTime parsed =>
      split at signed
      next => cases signed
      next near =>
        split at signed
        next => cases signed
        next isUser =>
          split at signed <;> cases signed
          next requestBody hasBody =>
            obtain ⟨notLate, notEarly⟩ := by simpa only [not_or] using near
            exact ⟨requestBody, ⟨hasKey, hasSignature,
              ⟨iTime, parsed, Int.not_le.mp notLate, Int.not_le.mp notEarly⟩, rfl, isUser, hasBody⟩,
              rfl⟩

theorem Midware.Checked.serverSign_eq
    (checked : midware.Checked keys now request secret requestBody) :
    midware.serverSign hashes keys now request =
      .ok (secret, midware.sign hashes request secret requestBody) := by
  obtain ⟨iTime, parsed, notLate, notEarly⟩ := checked.inTime
  have hasTime : request.timeStamp ≠ [] := by
    intro empty
    rw [empty] at parsed
    cases parsed
  have present : ¬ (midware.accessKey request.accessKey = [] ∨ request.signature = [] ∨
      request.timeStamp = []) :=
    not_or.mpr ⟨checked.accessKey_ne, not_or.mpr ⟨checked.signature_ne, hasTime⟩⟩
  have near : ¬ ((now - iTime).bmod (2 ^ 64) ≥ 60 ∨ (now - iTime).bmod (2 ^ 64) ≤ -60) :=
    not_or.mpr ⟨Int.not_le.mpr notLate, Int.not_le.mpr notEarly⟩
  simp only [Midware.serverSign, present, if_false, parsed, near, checked.secret_eq,
    checked.secret_ne, checked.body_eq]
  rfl

/-- The fields that the signature is to bind. -/
structure Midware.SameFields (midware : Midware) (request other : Request) : Prop where
  method : request.method = other.method
  path : formatURLPath request.path = formatURLPath other.path
  rawQuery : request.rawQuery = other.rawQuery
  accessKey : midware.accessKey request.accessKey = midware.accessKey other.accessKey
  timeStamp : request.timeStamp = other.timeStamp
  body : request.body = other.body

/-- No separator in the path or the query, and none in the access key behind which another
access key with the same secret key stands. -/
structure Midware.Unambiguous (midware : Midware) (keys : Bytes → Option Bytes) (secret : Bytes)
    (request : Request) : Prop where
  path : ¬ Marked (formatURLPath request.path)
  rawQuery : ¬ Marked request.rawQuery
  accessKey : ∀ front back, midware.accessKey request.accessKey = joinFields front back →
    back ≠ [] → getSecKec keys back ≠ secret

/-- The fields whose joints the signature does not fix. -/
def Midware.middle (midware : Midware) (request : Request) : Bytes :=
  joinFields (joinFields (formatURLPath request.path) request.rawQuery)
    (midware.accessKey request.accessKey)

theorem Midware.sign_eq (midware : Midware) (hashes : Hashes) (request : Request)
    (secret requestBody : Bytes) :
    midware.sign hashes request secret requestBody =
      hmacSha256 hashes (joinFields request.method (joinFields (joinFields (midware.middle request)
        request.timeStamp) (sha256byteArr hashes requestBody))) secret := by
  simp [Midware.sign, generateSign, Midware.middle, joinFields, joined_assoc]

theorem middle_eq_of_sign_eq (checked : midware.Checked keys now request secret requestBody)
    (otherChecked : midware.Checked keys now' other secret otherBody)
    (same : midware.sign hashes request secret requestBody =
      midware.sign hashes other secret otherBody) :
    request.method = other.method ∧ midware.middle request = midware.middle other ∧
      request.timeStamp = other.timeStamp ∧ request.body = other.body := by
  rw [Midware.sign_eq, Midware.sign_eq] at same
  obtain ⟨_, sameData⟩ := hashes.hmac_injective _ _ _ _ (encodeToString_injective same)
  obtain ⟨iTime, parsed, _⟩ := checked.inTime
  obtain ⟨otherTime, otherParsed, _⟩ := otherChecked.inTime
  obtain ⟨sameMethod, afterMethod⟩ := joined_inj_of_left backslash_ne_n sameData
    request.method_free other.method_free
  obtain ⟨beforeBody, sameHash⟩ := joined_inj_of_right backslash_ne_n afterMethod
    (sha256byteArr_free hashes _) (sha256byteArr_free hashes _)
  obtain ⟨sameMiddle, sameTime⟩ := joined_inj_of_right backslash_ne_n beforeBody
    (parseInt_free parsed) (parseInt_free otherParsed)
  refine ⟨sameMethod, sameMiddle, sameTime, ?_⟩
  rw [checked.body_eq, otherChecked.body_eq, sha256byteArr_injective hashes sameHash]

theorem sameFields_of_unambiguous (unambiguous : midware.Unambiguous keys secret request)
    (signed : midware.serverSign hashes keys now request = .ok (secret, sign))
    (otherSigned : midware.serverSign hashes keys now' other = .ok (secret, sign)) :
    midware.SameFields request other := by
  obtain ⟨requestBody, checked, isSign⟩ := checked_of_serverSign signed
  obtain ⟨otherBody, otherChecked, isOtherSign⟩ := checked_of_serverSign otherSigned
  obtain ⟨sameMethod, sameMiddle, sameTime, sameBody⟩ :=
    middle_eq_of_sign_eq checked otherChecked (isSign.trans isOtherSign.symm)
  have notBehind : ∀ between, midware.accessKey request.accessKey ≠
      joinFields between (midware.accessKey other.accessKey) := by
    intro between behind
    exact unambiguous.accessKey between _ behind otherChecked.accessKey_ne otherChecked.secret_eq
  obtain ⟨samePath, sameQuery, sameKey⟩ := three_fields_inj backslash_ne_n sameMiddle
    unambiguous.path unambiguous.rawQuery notBehind
  exact ⟨sameMethod, samePath, sameQuery, sameKey, sameTime, sameBody⟩

theorem secret_eq_of_serverSign {otherSecret : Bytes}
    (signed : midware.serverSign hashes keys now request = .ok (secret, sign))
    (otherSigned : midware.serverSign hashes keys now' other = .ok (otherSecret, sign)) :
    otherSecret = secret := by
  obtain ⟨_, _, isSign⟩ := checked_of_serverSign signed
  obtain ⟨_, _, isOtherSign⟩ := checked_of_serverSign otherSigned
  exact (hashes.hmac_injective _ _ _ _ (encodeToString_injective (isOtherSign.trans isSign.symm))).1

theorem serverSign_of_akskAuth (passed : midware.akskAuth hashes keys now request = .ok ()) :
    ∃ secret, midware.serverSign hashes keys now request = .ok (secret, request.signature) := by
  rw [Midware.akskAuth] at passed
  split at passed
  next => cases passed
  next secret sign signed =>
    split at passed
    next => cases passed
    next same => exact ⟨secret, not_not.mp same ▸ signed⟩

def Request.recut (request : Request) (path rawQuery accessKey : Bytes) : Request :=
  { request with path, rawQuery, accessKey }

theorem serverSign_recut (checked : midware.Checked keys now request secret requestBody)
    {path rawQuery accessKey : Bytes} (hasKey : midware.accessKey accessKey ≠ [])
    (sameSecret : getSecKec keys (midware.accessKey accessKey) = secret)
    (same : midware.middle (request.recut path rawQuery accessKey) = midware.middle request) :
    midware.serverSign hashes keys now (request.recut path rawQuery accessKey) =
      .ok (secret, midware.sign hashes request secret requestBody) := by
  have otherChecked :
      midware.Checked keys now (request.recut path rawQuery accessKey) secret requestBody :=
    ⟨hasKey, checked.signature_ne, checked.inTime, sameSecret, checked.secret_ne, checked.body_eq⟩
  rw [otherChecked.serverSign_eq, midware.sign_eq hashes request, Midware.sign_eq, same]
  rfl

section Recut

variable (checked : midware.Checked keys now request secret requestBody)
  (binds : ∀ other, midware.serverSign hashes keys now other =
    .ok (secret, midware.sign hashes request secret requestBody) → midware.SameFields request other)
include checked binds

theorem path_not_marked : ¬ Marked (formatURLPath request.path) := by
  rintro ⟨left, right, split⟩
  have noSpace : leading spaces left = none :=
    leading_of_joinFields (split ▸ leading_formatURLPath request.path)
  have same : midware.middle (request.recut (left ++ [0x2f]) (joinFields right request.rawQuery)
      request.accessKey) = midware.middle request := by
    simp [Midware.middle, Request.recut, formatURLPath_slash noSpace, split, joinFields,
      joined_assoc]
  have fields := binds _ (serverSign_recut checked checked.accessKey_ne checked.secret_eq same)
  have samePath := fields.path
  rw [Request.recut, formatURLPath_slash noSpace, split] at samePath
  exact left_ne_joined left right samePath.symm

theorem rawQuery_not_marked : ¬ Marked request.rawQuery := by
  rintro ⟨left, right, split⟩
  have noSpace := leading_joinFields (leading_formatURLPath request.path) left
  have same : midware.middle (request.recut
      (joinFields (formatURLPath request.path) left ++ [0x2f]) right request.accessKey) =
        midware.middle request := by
    rw [Midware.middle, Request.recut, formatURLPath_slash noSpace]
    simp [Midware.middle, split, joinFields, joined_assoc]
  have fields := binds _ (serverSign_recut checked checked.accessKey_ne checked.secret_eq same)
  have sameQuery := fields.rawQuery
  rw [Request.recut, split] at sameQuery
  exact right_ne_joined left right sameQuery.symm

theorem accessKey_not_marked {front back : Bytes}
    (split : midware.accessKey request.accessKey = joinFields front back) (hasKey : back ≠ []) :
    getSecKec keys back ≠ secret := by
  intro sameSecret
  have isRead := midware.accessKey_of_joinFields split
  have same : midware.middle (request.recut request.path (joinFields request.rawQuery front) back) =
      midware.middle request := by
    simp [Midware.middle, Request.recut, split, isRead, joinFields, joined_assoc]
  have fields := binds _ (serverSign_recut checked (isRead.symm ▸ hasKey)
    (isRead.symm ▸ sameSecret) same)
  have sameKey := fields.accessKey
  rw [Request.recut, isRead, split] at sameKey
  exact right_ne_joined front back sameKey.symm

end Recut

end Signatures

/-- A request's signature belongs to this request alone exactly when its fields are
unambiguous, and then `AKSKAuth` passes it with no other request. -/
theorem signature_binds_iff (midware : Midware) (hashes : Hashes) (keys : Bytes → Option Bytes)
    {now : Int} {request : Request} {secret sign : Bytes}
    (signed : midware.serverSign hashes keys now request = .ok (secret, sign)) :
    ((∀ now' other, midware.serverSign hashes keys now' other = .ok (secret, sign) →
      midware.SameFields request other) ↔ midware.Unambiguous keys secret request) ∧
    (midware.Unambiguous keys secret request → ∀ now' other,
      midware.akskAuth hashes keys now' other = .ok () → other.signature = sign →
        midware.SameFields request other) := by
  refine ⟨⟨?_, ?_⟩, ?_⟩
  · intro binds
    obtain ⟨requestBody, checked, rfl⟩ := checked_of_serverSign signed
    exact ⟨path_not_marked checked (binds now), rawQuery_not_marked checked (binds now),
      fun front back => accessKey_not_marked checked (binds now)⟩
  · intro unambiguous now' other otherSigned
    exact sameFields_of_unambiguous unambiguous signed otherSigned
  · intro unambiguous now' other passed sameSign
    obtain ⟨otherSecret, otherSigned⟩ := serverSign_of_akskAuth passed
    rw [sameSign] at otherSigned
    rw [secret_eq_of_serverSign signed otherSigned] at otherSigned
    exact sameFields_of_unambiguous unambiguous signed otherSigned

def sampleHashes : Hashes where
  sha256 := cons 0
  hmac := fun secret data => joined 0 2 (replicate secret.length 1) (secret ++ data)
  sha256_injective := cons_injective
  sha256_ne_nil := fun data => cons_ne_nil 0 data
  hmac_injective := by
    intro secret data secret' data' same
    have noZero : ∀ size, (0 : UInt8) ∉ replicate size 1 := by
      intro size listed
      exact absurd (eq_of_mem_replicate listed) (by decide)
    obtain ⟨sizes, rest⟩ := joined_inj_of_left (by decide) same (noZero _) (noZero _)
    have sameSize := congrArg length sizes
    rw [length_replicate, length_replicate] at sameSize
    exact append_inj rest sameSize

def sampleKeys (ak : Bytes) : Option Bytes := if ak = [0x6b] then some [0x73] else none

def sampleRequest (path rawQuery : Bytes) : Request where
  method := [0x47, 0x45, 0x54]
  path := path
  rawQuery := rawQuery
  accessKey := [0x6b]
  signature := [0x30]
  timeStamp := [0x30]
  body := .ok []
  validMethod := rfl

theorem Midware.accessKey_k (midware : Midware) : midware.accessKey [0x6b] = [0x6b] := by
  cases midware with
  | serviceDiscovery table =>
    rw [accessKey, toLower, show runes 0 [0x6b] = ['k'] from runes_encoded ['k'], flatMap_singleton,
      table.ascii 'k' (by decide)]
    rfl
  | manager | agentCenter => rfl

/-- A request for `/a?x`. -/
theorem signature_binds_iff_plain : ∃ sign, Midware.manager.serverSign sampleHashes sampleKeys 0
        (sampleRequest [0x2f, 0x61] [0x78]) = .ok ([0x73], sign) ∧
      ∀ now other, Midware.manager.serverSign sampleHashes sampleKeys now other =
          .ok ([0x73], sign) →
        Midware.manager.SameFields (sampleRequest [0x2f, 0x61] [0x78]) other := by
  have unambiguous :
      Midware.manager.Unambiguous sampleKeys [0x73] (sampleRequest [0x2f, 0x61] [0x78]) := by
    refine ⟨not_marked_of_free (by decide), not_marked_of_free (by decide), ?_⟩
    intro front back split
    exact absurd ⟨front, back, split⟩ (not_marked_of_free (by decide))
  have signed : ∃ sign, Midware.manager.serverSign sampleHashes sampleKeys 0
      (sampleRequest [0x2f, 0x61] [0x78]) = .ok ([0x73], sign) := ⟨_, rfl⟩
  obtain ⟨sign, signed⟩ := signed
  have ⟨binds, _⟩ := signature_binds_iff .manager sampleHashes sampleKeys signed
  exact ⟨sign, signed, binds.mpr unambiguous⟩

/-- The path `/a` with the query `x\ny`, and the path `/a\nx` with the query `y`. -/
theorem movedJoint_same_signature : ∃ path rawQuery otherPath otherQuery,
      formatURLPath path ≠ formatURLPath otherPath ∧ rawQuery ≠ otherQuery ∧
      ∀ midware hashes, ∃ sign,
        Midware.serverSign midware hashes sampleKeys 0 (sampleRequest path rawQuery) =
          .ok ([0x73], sign) ∧
        Midware.serverSign midware hashes sampleKeys 0 (sampleRequest otherPath otherQuery) =
          .ok ([0x73], sign) := by
  refine ⟨[0x2f, 0x61], [0x78, 0x5c, 0x6e, 0x79], [0x2f, 0x61, 0x5c, 0x6e, 0x78], [0x79],
    by decide, by decide, ?_⟩
  intro midware hashes
  simp only [Midware.serverSign, sampleRequest, Midware.accessKey_k]
  exact ⟨_, rfl, rfl⟩

end Elkeid.Auth
