import SmsRelay.Message.Basic

/-!
# Events

An event says what became of one accepted request. It travels through the log as JSON and becomes a
message when it is read. All fields may be left out or be `null`, which means empty or zero; a
message then requires a phone number, a text, a status and a time within the range of instants.

## Main results

* `toMessage_ok_iff`: exactly which events become messages.
-/

namespace SmsRelay

/-- The outcome of one request. -/
structure Event where
  correlationId : String
  phone : String
  text : String
  status : String
  /-- Milliseconds from 1970-01-01T00:00:00Z. -/
  timestamp : Int
  deriving DecidableEq, Repr

/-- Why a record is no message. -/
inductive DecodeError where
  | malformed
  | missingField (name : String)
  | timestamp (millis : Int)
  deriving DecidableEq, Repr

/-- The wording of an error; what is wrong with a malformed record is not part of it. -/
def DecodeError.message : DecodeError → String
  | malformed => "malformed payload"
  | missingField name => "missing required field '" ++ name ++ "'"
  | timestamp millis => "timestamp " ++ intText millis ++ " out of range"

namespace Event

/-- The event whose fields are all empty. -/
def blank : Event := ⟨"", "", "", "", 0⟩

/-- The JSON form of an event. -/
def toJson (e : Event) : Json.Value :=
  .record [("correlationId", .text e.correlationId), ("phoneNumber", .text e.phone),
    ("text", .text e.text), ("status", .text e.status), ("timestamp", .int e.timestamp)]

/-- The bytes of an event in the log. -/
def encode (e : Event) : Bytes := utf8 e.toJson.render

/-- The fields of an event. -/
def fields : List (Json.Field Event) :=
  [.of "correlationId" (Json.orNull "" Json.text) fun v e => { e with correlationId := v },
   .of "phoneNumber" (Json.orNull "" Json.text) fun v e => { e with phone := v },
   .of "text" (Json.orNull "" Json.text) fun v e => { e with text := v },
   .of "status" (Json.orNull "" Json.text) fun v e => { e with status := v },
   .of "timestamp" (Json.orNull 0 Json.int64) fun v e => { e with timestamp := v }]

/-- Reads an event from JSON. -/
def reader : Json.Reader Event := Json.record fields blank

/-- The message that an event describes. -/
def toMessage (e : Event) : Except DecodeError Message :=
  if e.phone.isEmpty then .error (.missingField "phoneNumber")
  else if e.text.isEmpty then .error (.missingField "text")
  else if e.status.isEmpty then .error (.missingField "status")
  else match Instant.ofMillis? e.timestamp with
    | none => .error (.timestamp e.timestamp)
    | some t => .ok ⟨messageId t, e.correlationId, e.phone, e.text, e.status, t⟩

/-- The message that the bytes of a record describe. -/
def decode (bs : Bytes) : Except DecodeError Message :=
  match Json.whole reader (glyphs bs) with
  | .ok e => e.toMessage
  | .error _ => .error .malformed

theorem toMessage_ok_iff {e : Event} {m : Message} :
    e.toMessage = .ok m ↔
      e.phone ≠ "" ∧ e.text ≠ "" ∧ e.status ≠ "" ∧ ∃ t, Instant.ofMillis? e.timestamp = some t ∧
        m = ⟨messageId t, e.correlationId, e.phone, e.text, e.status, t⟩ := by
  unfold toMessage
  by_cases hp : e.phone = "" <;> by_cases ht : e.text = "" <;> by_cases hs : e.status = "" <;>
    simp [hp, ht, hs]
  cases Instant.ofMillis? e.timestamp <;> simp [eq_comm]

end Event

end SmsRelay
