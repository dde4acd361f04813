import SmsRelay.Json.Record
import SmsRelay.Json.Writer
import SmsRelay.Message.Id

/-!
# Messages

The message as the store keeps it, the statuses of its delivery, and their JSON forms. A message
lists all six fields in a fixed order and is read back only if none of them is missing.
-/

namespace SmsRelay

/-- How far the delivery of a message has come. -/
inductive DeliveryStatus where
  | pending
  | success
  | fail
  deriving DecidableEq, Repr

namespace DeliveryStatus

/-- The name of a status. -/
def name : DeliveryStatus → String
  | pending => "PENDING"
  | success => "SUCCESS"
  | fail => "FAIL"

/-- A status that no later one follows. -/
def isTerminal : DeliveryStatus → Bool
  | pending => false
  | _ => true

/-- The statuses by their names. -/
def options : List (String × DeliveryStatus) :=
  [("PENDING", pending), ("SUCCESS", success), ("FAIL", fail)]

/-- Reads a status from JSON. -/
def reader : Json.Reader DeliveryStatus := Json.choice options

theorem lookup_name (s : DeliveryStatus) : options.lookup s.name = some s := by
  cases s <;> decide

end DeliveryStatus

/-- A stored message. -/
structure Message where
  id : String
  correlationId : String
  phone : String
  text : String
  status : String
  createdAt : Instant
  deriving DecidableEq, Repr

namespace Message

/-- The message whose fields are all empty. -/
def blank : Message := ⟨"", "", "", "", "", ⟨0, 0⟩⟩

/-- The JSON form of a message. -/
def toJson (m : Message) : Json.Value :=
  .record [("id", .text m.id), ("correlationId", .text m.correlationId),
    ("phoneNumber", .text m.phone), ("text", .text m.text), ("status", .text m.status),
    ("createdAt", .text (Rfc3339.render m.createdAt))]

/-- Reads an instant from its JSON form, a string. -/
def instantReader : Json.Reader Instant := fun gs => do
  let (s, rest) ← Json.text gs
  match Rfc3339.read? s with
  | some t => .ok (t, rest)
  | none => .error .mismatch

/-- The fields of a message. -/
def fields : List (Json.Field Message) :=
  [(Json.Field.of "id" Json.text fun v m => { m with id := v }).mandatory,
   (Json.Field.of "correlationId" Json.text fun v m => { m with correlationId := v }).mandatory,
   (Json.Field.of "phoneNumber" Json.text fun v m => { m with phone := v }).mandatory,
   (Json.Field.of "text" Json.text fun v m => { m with text := v }).mandatory,
   (Json.Field.of "status" Json.text fun v m => { m with status := v }).mandatory,
   (Json.Field.of "createdAt" instantReader fun v m => { m with createdAt := v }).mandatory]

/-- Reads a message from JSON. -/
def reader : Json.Reader Message := Json.record fields blank

end Message

end SmsRelay
