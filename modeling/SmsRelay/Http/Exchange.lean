import SmsRelay.Http.ErrorReply
import SmsRelay.Http.MediaType
import SmsRelay.Json.Reader
import SmsRelay.Time.Rfc3339

/-!
# Requests and responses

What clients send and what they get. A response has a body of JSON or of plain text, or none.
-/

namespace SmsRelay.Http

/-- A request. -/
structure Request where
  method : String
  /-- The path, with what may follow it. -/
  target : String
  contentType? : Option String := none
  body : Bytes := []
  deriving Repr

/-- The body of a response. -/
inductive Content where
  | empty
  | text (s : String)
  | json (v : Json.Value)

/-- A response. -/
structure Response where
  status : Nat
  content : Content := .empty
  /-- The methods that would be answered, where the one asked for is not. -/
  allow : List String := []

/-- A response with a value. -/
def Response.ok (v : Json.Value) : Response := { status := 200, content := .json v }

/-- A response that tells of an error, with the time at which it was made. -/
def Response.ofError (at_ : Instant) (e : ErrorReply) : Response :=
  { status := e.status
    content := .json (.record
      [("code", .text e.code), ("message", .text e.message),
       ("details", .record (e.details.map fun (k, v) => (k, .text v))),
       ("timestamp", .text (Rfc3339.render at_))]) }

/-- A response without its body. -/
def Response.headless (r : Response) : Response := { r with content := .empty }

/-- Why a body is not read. -/
inductive BodyFault where
  | notJson
  | tooLong
  | malformed (detail : String)
  | mistyped (detail : String)
  deriving DecidableEq, Repr

/-- The wording of a fault. -/
def BodyFault.message : BodyFault → String
  | notJson => "Expected request with \x60Content-Type: application/json\x60"
  | tooLong => "Failed to buffer the request body: length limit exceeded"
  | malformed detail => "Failed to parse the request body as JSON: " ++ detail
  | mistyped detail => "Failed to deserialize the JSON body into the target type: " ++ detail

/-- The fault of a body that the reader of its value refuses. -/
def BodyFault.ofReader (e : Json.Fault) : BodyFault :=
  match e with
  | .malformed => malformed e.message
  | .mismatch => mistyped e.message

/-- The length that a body may have. -/
def maxBody : Nat := 2 * 1024 * 1024

/-- Reads the body of a request. -/
def readBody {α : Type} (reader : Json.Reader α) (r : Request) : Except BodyFault α :=
  if !r.contentType?.any MediaType.namesJson then .error .notJson
  else if maxBody < r.body.length then .error .tooLong
  else (Json.whole reader (glyphs r.body)).mapError .ofReader

end SmsRelay.Http
