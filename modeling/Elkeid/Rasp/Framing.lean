import Elkeid.Foundations.LittleEndian
import Elkeid.Foundations.Replay

/-!
# Messages to the JVM probe

`looping` of `rasp_server/src/comm.rs` puts every message on the socket behind its length, and
`MessageDecoder` of the JVM probe reads them. Its superclass makes a call again when bytes are
missing; what throws is caught by the handler, which closes the channel.

`readValue` stands for the JSON library and `MessageDeserializer`.
-/

namespace Elkeid.Rasp.Framing

open Foundations LittleEndian Replay List Nat

def maxPayloadSize : Nat := 10240

/-- The default `max_frame_length` of `LengthDelimitedCodec` -/
def maxFrameLength : Nat := 8 * 1024 * 1024

/-! ## The writer -/

/-- `LengthDelimitedCodec`; `none` is an error. -/
def encode (payload : Bytes) : Option Bytes :=
  if maxFrameLength < payload.length then none
  else some ((word payload.length).reverse ++ payload)

def looping : List Bytes → Bytes
  | [] => []
  | payload :: rest =>
    match encode payload with
    | none => []
    | some frame => frame ++ looping rest

/-! ## The reader -/

def readUnsignedInt (first second third fourth : UInt8) : Nat :=
  value [fourth, third, second, first]

inductive Parsed (Message : Type) where
  | value (message : Message)
  | null
  | thrown

variable {Message : Type}

/-- A message that is not null is added to the output. -/
def Parsed.add : Parsed Message → Bytes → Call UInt8 Message
  | .value message, rest => .decoded (some message) rest
  | .null, rest => .decoded none rest
  | .thrown, _ => .thrown

section Definitions

variable (readValue : Bytes → Parsed Message)

def decode : Bytes → Call UInt8 Message
  | first :: second :: third :: fourth :: input =>
    let payloadSize := readUnsignedInt first second third fourth
    if maxPayloadSize < payloadSize then .decoded none input
    else if input.length < payloadSize then .replay
    else (readValue (input.take payloadSize)).add (input.drop payloadSize)
  | _ => .replay

structure Sent where
  payload : Bytes
  message : Message
  fits : payload.length ≤ maxFrameLength
  parses : readValue payload = .value message

/-- The messages that are not too long for the reader. -/
def expected (messages : List (Sent readValue)) : List Message :=
  (messages.filter (·.payload.length ≤ maxPayloadSize)).map Sent.message

/-- However the bytes are cut into reads, the messages come out and a header is waited for. -/
def Exact (messages : List (Sent readValue)) : Prop :=
  ∀ reads : List Bytes, reads.flatten = looping (messages.map Sent.payload) →
    readAll (decode readValue) .start reads = ⟨[], expected readValue messages, true⟩

/-- Bytes that are passed over when they are read as headers: words above the limit, and frames of
which no message is made. -/
inductive Skips : Bytes → Prop where
  | nil : Skips []
  | word {first second third fourth : UInt8} {rest : Bytes} :
      maxPayloadSize < readUnsignedInt first second third fourth → Skips rest →
      Skips (first :: second :: third :: fourth :: rest)
  | null {first second third fourth : UInt8} {frame rest : Bytes} :
      frame.length = readUnsignedInt first second third fourth →
      frame.length ≤ maxPayloadSize → readValue frame = .null → Skips rest →
      Skips (first :: second :: third :: fourth :: (frame ++ rest))

end Definitions

/-! ## One call -/

/-- The bytes begin with a header above the limit, or with a whole frame, and the call reads it. -/
inductive Complete (readValue : Bytes → Parsed Message) (call : Call UInt8 Message) :
    Bytes → Prop where
  | oversize {first second third fourth : UInt8} {rest : Bytes} :
      maxPayloadSize < readUnsignedInt first second third fourth → .decoded none rest = call →
      Complete readValue call (first :: second :: third :: fourth :: rest)
  | framed {first second third fourth : UInt8} {frame rest : Bytes} :
      frame.length = readUnsignedInt first second third fourth →
      frame.length ≤ maxPayloadSize → (readValue frame).add rest = call →
      Complete readValue call (first :: second :: third :: fourth :: (frame ++ rest))

section Calls

variable (readValue : Bytes → Parsed Message) {first second third fourth : UInt8} {frame : Bytes}

theorem decode_oversize (oversize : maxPayloadSize < readUnsignedInt first second third fourth)
    (rest : Bytes) :
    decode readValue (first :: second :: third :: fourth :: rest) = .decoded none rest := by
  rw [decode, if_pos oversize]

theorem decode_framed (size : frame.length = readUnsignedInt first second third fourth)
    (inSize : frame.length ≤ maxPayloadSize) (rest : Bytes) :
    decode readValue (first :: second :: third :: fourth :: (frame ++ rest)) =
      (readValue frame).add rest := by
  have isWhole : ¬ (frame ++ rest).length < frame.length := by
    rw [length_append]
    omega
  simp only [decode, ← size]
  rw [if_neg (not_lt.mpr inSize), if_neg isWhole, take_left, drop_left]

end Calls

variable {readValue : Bytes → Parsed Message}

theorem complete_of_decode {bytes : Bytes} {call : Call UInt8 Message}
    (called : decode readValue bytes = call) (goesOn : call ≠ .replay) :
    Complete readValue call bytes := by
  unfold decode at called
  split at called
  next first second third fourth input =>
    simp only at called
    split at called
    next oversize => exact .oversize oversize called
    next inSize =>
      split at called
      next => exact absurd called.symm goesOn
      next isWhole =>
        have size := length_take_of_le (not_lt.mp isWhole)
        rw [← take_append_drop (readUnsignedInt first second third fourth) input]
        exact .framed size (size.le.trans (not_lt.mp inSize)) called
  next => exact absurd called.symm goesOn

variable {parsed : Parsed Message} {rest : Bytes} {sent : Sent readValue}

theorem add_eq_decoded {left : Bytes} {made : Option Message}
    (added : parsed.add rest = .decoded made left) :
    left = rest ∧ ∀ other, parsed.add other = .decoded made other := by
  cases parsed with
  | value | null =>
    cases added
    exact ⟨rfl, fun _ => rfl⟩
  | thrown => cases added

theorem null_of_add {left : Bytes} (added : parsed.add rest = .decoded none left) :
    parsed = .null := by
  cases parsed with
  | value message => cases added
  | null => rfl
  | thrown => cases added

theorem add_eq_thrown (added : parsed.add rest = .thrown)
    (other : Bytes) : parsed.add other = .thrown := by
  cases parsed with
  | value message => cases added
  | null => cases added
  | thrown => rfl

theorem decode_lawful : Lawful (decode readValue) where
  starved := rfl
  shorter {bytes made rest} called := by
    cases complete_of_decode called nofun with
    | oversize _ isCall =>
      cases isCall
      simp only [length_cons]
      omega
    | framed _ _ isCall =>
      rw [(add_eq_decoded isCall).1]
      simp only [length_cons, length_append]
      omega
  decoded_append {bytes made rest} called more := by
    cases complete_of_decode called nofun with
    | oversize oversize isCall =>
      cases isCall
      exact decode_oversize readValue oversize _
    | framed size inSize isCall =>
      obtain ⟨rfl, added⟩ := add_eq_decoded isCall
      simp only [cons_append, append_assoc]
      rw [decode_framed readValue size inSize, added]
  thrown_append {bytes} called more := by
    cases complete_of_decode called nofun with
    | oversize _ isCall => cases isCall
    | framed size inSize isCall =>
      simp only [cons_append, append_assoc]
      rw [decode_framed readValue size inSize, add_eq_thrown isCall]

theorem silent_iff_skips (bytes : Bytes) :
    Silent (decode readValue) bytes ↔ Skips readValue bytes := by
  constructor
  · intro silent
    induction silent with
    | nil => exact .nil
    | step called _ ih =>
      cases complete_of_decode called nofun with
      | oversize oversize isCall =>
        cases isCall
        exact .word oversize ih
      | framed size inSize isCall =>
        obtain ⟨rfl, _⟩ := add_eq_decoded isCall
        exact .null size inSize (null_of_add isCall) ih
  · intro skips
    induction skips with
    | nil => exact .nil
    | word oversize _ ih =>
      exact .step (decode_oversize readValue oversize _) ih
    | null size inSize parsed _ ih =>
      apply Silent.step _ ih
      rw [decode_framed readValue size inSize, parsed]
      rfl

/-! ## One message -/

namespace Sent

variable (sent : Sent readValue)

/-- The length, highest byte first, and the payload. -/
def frame : Bytes := (word sent.payload.length).reverse ++ sent.payload

theorem encode_payload : encode sent.payload = some sent.frame :=
  if_neg (not_lt.mpr sent.fits)

theorem looping_payloads (messages : List (Sent readValue)) :
    looping (messages.map Sent.payload) = messages.flatMap frame := by
  induction messages with
  | nil => rfl
  | cons sent messages ih =>
    rw [map_cons, looping, sent.encode_payload, flatMap_cons, ← ih]

theorem size_header : readUnsignedInt (UInt8.ofNat (sent.payload.length / 2 ^ 24))
      (UInt8.ofNat (sent.payload.length / 2 ^ 16)) (UInt8.ofNat (sent.payload.length / 2 ^ 8))
      (UInt8.ofNat sent.payload.length) = sent.payload.length := by
  apply value_word
  exact sent.fits.trans_lt (by decide)

theorem drain_frame_of_le (inSize : sent.payload.length ≤ maxPayloadSize) (out : List Message) :
    drain (decode readValue) sent.frame out = ⟨[], out ++ [sent.message], true⟩ := by
  have called := decode_framed readValue sent.size_header.symm inSize []
  rw [append_nil, sent.parses] at called
  exact (decode_lawful.drain_of_decoded out called).trans (decode_lawful.drain_nil _)

theorem drain_frame_of_lt (oversize : maxPayloadSize < sent.payload.length) (out : List Message) :
    drain (decode readValue) sent.frame out = drain (decode readValue) sent.payload out := by
  have called := decode_oversize readValue (sent.size_header.symm ▸ oversize) sent.payload
  have taken := decode_lawful.drain_of_decoded out called
  rw [Option.toList_none, append_nil] at taken
  exact taken

end Sent

/-! ## All messages -/

theorem exact_iff_drain (messages : List (Sent readValue)) : Exact readValue messages ↔
      drain (decode readValue) (messages.flatMap Sent.frame) [] =
        ⟨[], expected readValue messages, true⟩ := by
  rw [← Sent.looping_payloads]
  constructor
  · intro exact
    have whole := exact [looping (messages.map Sent.payload)] flatten_singleton
    rwa [decode_lawful.readAll_start, flatten_singleton] at whole
  · intro drained reads cut
    rw [decode_lawful.readAll_start, cut, drained]

theorem expected_cons_of_le (inSize : sent.payload.length ≤ maxPayloadSize)
    (messages : List (Sent readValue)) :
    expected readValue (sent :: messages) = sent.message :: expected readValue messages := by
  simp [expected, inSize]

theorem expected_cons_of_lt
    (oversize : maxPayloadSize < sent.payload.length) (messages : List (Sent readValue)) :
    expected readValue (sent :: messages) = expected readValue messages := by
  simp [expected, oversize]

theorem drain_frames {messages : List (Sent readValue)}
    (skips : ∀ sent ∈ messages, maxPayloadSize < sent.payload.length → Skips readValue sent.payload)
    (out : List Message) :
    drain (decode readValue) (messages.flatMap Sent.frame) out =
      ⟨[], out ++ expected readValue messages, true⟩ := by
  induction messages generalizing out with
  | nil =>
    rw [flatMap_nil, decode_lawful.drain_nil, expected, filter_nil, map_nil, append_nil]
  | cons sent messages ih =>
    obtain ⟨skipsFirst, skipsLater⟩ := forall_mem_cons.mp skips
    rw [flatMap_cons, decode_lawful.drain_append]
    rcases lt_or_ge maxPayloadSize sent.payload.length with oversize | inSize
    · have silent := (silent_iff_skips _).mpr (skipsFirst oversize)
      rw [sent.drain_frame_of_lt oversize, decode_lawful.drain_of_silent out silent, read_waiting,
        ih skipsLater, expected_cons_of_lt oversize]
    · rw [sent.drain_frame_of_le inSize, read_waiting, ih skipsLater,
        expected_cons_of_le inSize, append_assoc, singleton_append]

theorem skips_of_exact {before : List (Sent readValue)}
    (exactBefore : Exact readValue before) (exactAfter : Exact readValue (before ++ [sent]))
    (oversize : maxPayloadSize < sent.payload.length) : Skips readValue sent.payload := by
  have drained := (exact_iff_drain _).mp exactAfter
  have unchanged : expected readValue (before ++ [sent]) = expected readValue before := by
    rw [expected, filter_append, map_append]
    change expected readValue before ++ expected readValue [sent] = expected readValue before
    rw [expected_cons_of_lt oversize]
    exact append_nil _
  rw [flatMap_append, decode_lawful.drain_append, (exact_iff_drain _).mp exactBefore,
    read_waiting, flatMap_singleton, sent.drain_frame_of_lt oversize, unchanged] at drained
  exact (silent_iff_skips _).mp (decode_lawful.silent_of_drain _ _ drained)

theorem messages_read_iff (readValue : Bytes → Parsed Message) (messages : List (Sent readValue)) :
    (∀ sent, sent <+: messages → Exact readValue sent) ↔
      ∀ sent ∈ messages, maxPayloadSize < sent.payload.length → Skips readValue sent.payload := by
  constructor
  · intro exact sent listed oversize
    obtain ⟨before, after, rfl⟩ := append_of_mem listed
    apply skips_of_exact (exact before (prefix_append _ _)) (exact _ _) oversize
    exact ⟨after, append_assoc _ _ _⟩
  · intro skips sent starts
    rw [exact_iff_drain]
    exact drain_frames (fun each listed => skips each (starts.subset listed)) []

/-! ## Texts -/

theorem maxPayloadSize_lt_readUnsignedInt {first : UInt8} (noNul : first ≠ 0)
    (second third fourth : UInt8) :
    maxPayloadSize < readUnsignedInt first second third fourth := by
  have positive : first.toNat ≠ 0 := fun isNul => noNul (UInt8.toNat_inj.mp isNul)
  simp only [readUnsignedInt, value, maxPayloadSize]
  omega

theorem skips_of_dvd : ∀ {text : Bytes}, (∀ byte ∈ text, byte ≠ 0) → 4 ∣ text.length →
    Skips readValue text
  | [], _, _ => .nil
  | [_], _, divides | [_, _], _, divides | [_, _, _], _, divides => by
      simp only [length_cons, length_nil] at divides
      omega
  | first :: second :: third :: fourth :: rest, noNul, divides => by
      apply Skips.word
      · exact maxPayloadSize_lt_readUnsignedInt (noNul first mem_cons_self) second third fourth
      · apply skips_of_dvd
        · intro byte listed
          exact noNul byte (by simp only [mem_cons, listed, or_true])
        · simp only [length_cons] at divides
          omega

theorem skips_iff_of_text {text : Bytes} (noNul : ∀ byte ∈ text, byte ≠ 0) :
    Skips readValue text ↔ 4 ∣ text.length := by
  refine ⟨fun skips => ?_, skips_of_dvd noNul⟩
  induction skips with
  | nil => exact dvd_zero 4
  | word _ _ ih =>
    simp only [forall_mem_cons] at noNul
    have divides := ih noNul.2.2.2.2
    simp only [length_cons]
    omega
  | @null first second third fourth frame rest size inSize _ _ _ =>
    have oversize := maxPayloadSize_lt_readUnsignedInt (noNul first mem_cons_self) second
      third fourth
    omega

/-- A message to the probe as JSON, with a text of `size` letters as its data. -/
def detectText (size : Nat) : Bytes :=
  Text.ofChars "\x7b\"message_type\":5,\"data\":\"".toList ++ replicate size 97 ++ [34, 125]

@[simp]
theorem length_detectText (size : Nat) : (detectText size).length = size + 28 := by
  simp only [detectText, length_append, length_replicate]
  exact add_comm 26 (size + 2)

theorem detectText_noNul (size : Nat) : ∀ byte ∈ detectText size, byte ≠ 0 := by
  simp only [detectText, forall_mem_append]
  refine ⟨⟨by decide +kernel, fun byte listed => ?_⟩, by simp⟩
  rw [eq_of_mem_replicate listed]
  decide

def longText : Sent Parsed.value where
  payload := detectText (maxPayloadSize + 1)
  message := detectText (maxPayloadSize + 1)
  fits := by rw [length_detectText]; decide
  parses := rfl

def nextText : Sent Parsed.value where
  payload := detectText 0
  message := detectText 0
  fits := by decide
  parses := rfl

theorem longText_hides_next :
    expected Parsed.value [longText, nextText] = [nextText.message] ∧
      readAll (decode Parsed.value) .start
        [looping ([longText, nextText].map Sent.payload)] = ⟨[125], [], true⟩ := by
  have length : longText.payload.length = maxPayloadSize + 29 := length_detectText _
  have oversize : maxPayloadSize < longText.payload.length := by omega
  constructor
  · rw [expected_cons_of_lt oversize]
    rfl
  · -- All but the last byte is dropped as words; that byte shifts the header of the next message.
    have cut : longText.payload = longText.payload.dropLast ++ [125] := by
      simp [longText, detectText]
    have words : Skips Parsed.value longText.payload.dropLast := by
      apply (skips_iff_of_text fun byte listed => ?_).mpr
      · rw [length_dropLast, length]
        decide
      · exact detectText_noNul _ byte (mem_of_mem_dropLast listed)
    rw [decode_lawful.readAll_start, flatten_singleton, Sent.looping_payloads,
      flatMap_cons, decode_lawful.drain_append, longText.drain_frame_of_lt oversize, cut,
      decode_lawful.drain_append, decode_lawful.drain_of_silent [] ((silent_iff_skips _).mpr words)]
    rfl

end Elkeid.Rasp.Framing
