import SmsRelay.Message.Basic

/-!
# Requests

A request asks to send a text to a phone number. It is accepted when the number is made of ten
decimal digits and the text is not blank; all violations are reported at once. The reply to an
accepted request names the correlation id under which its outcome will be published.

## Main results

* `violations_eq_nil_iff`: exactly which requests are accepted.
-/

namespace SmsRelay

/-- A request to send a text. -/
structure SendRequest where
  phone : String
  message : String
  deriving DecidableEq, Repr

/-- The answer to an accepted request. -/
structure SendReply where
  correlationId : String
  status : DeliveryStatus
  /-- Milliseconds from 1970-01-01T00:00:00Z. -/
  timestamp : Int
  deriving DecidableEq, Repr

/-- A field of a request and what is wrong with it. -/
abbrev Violation := String × String

namespace SendRequest

/-- A phone number made of ten decimal digits. -/
def isPhone (s : String) : Bool := s.toList.length == 10 && s.toList.all Char.isDigit

/-- What is wrong with the phone number. -/
def phoneViolations (phone : String) : List Violation :=
  if isBlank phone then [("phoneNumber", "phoneNumber must not be blank")]
  else if !isPhone phone then [("phoneNumber", "phoneNumber must be exactly 10 digits")]
  else []

/-- What is wrong with the text. -/
def messageViolations (message : String) : List Violation :=
  if isBlank message then [("message", "message must not be blank")] else []

/-- Everything that is wrong with a request, by field in alphabetical order. -/
def violations (r : SendRequest) : List Violation :=
  messageViolations r.message ++ phoneViolations r.phone

/-- The JSON form of a request. -/
def toJson (r : SendRequest) : Json.Value :=
  .record [("phoneNumber", .text r.phone), ("message", .text r.message)]

/-- Reads a request from JSON; a field left out is empty. -/
def reader : Json.Reader SendRequest :=
  Json.record
    [.of "phoneNumber" Json.text fun v r => { r with phone := v },
     .of "message" Json.text fun v r => { r with message := v }] ⟨"", ""⟩

theorem violations_eq_nil_iff {r : SendRequest} :
    r.violations = [] ↔
      isBlank r.message = false ∧ isBlank r.phone = false ∧ isPhone r.phone = true := by
  unfold violations messageViolations phoneViolations
  cases isBlank r.message <;> cases isBlank r.phone <;> cases isPhone r.phone <;> simp

end SendRequest

namespace SendReply

/-- The JSON form of a reply. -/
def toJson (r : SendReply) : Json.Value :=
  .record [("correlationId", .text r.correlationId), ("status", .text r.status.name),
    ("timestamp", .int r.timestamp)]

/-- Reads a reply from JSON; all fields must be there. -/
def reader : Json.Reader SendReply :=
  Json.record
    [(Json.Field.of "correlationId" Json.text fun v r => { r with correlationId := v }).mandatory,
     (Json.Field.of "status" DeliveryStatus.reader fun v r => { r with status := v }).mandatory,
     (Json.Field.of "timestamp" Json.int64 fun v r => { r with timestamp := v }).mandatory]
    ⟨"", .pending, 0⟩

end SendReply

end SmsRelay
