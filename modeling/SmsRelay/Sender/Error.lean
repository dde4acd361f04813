import SmsRelay.Failure
import SmsRelay.Message.Request

/-!
# Refused requests

Why the sender does not accept a request. What happens after a request has been accepted is told by
the outcome of its dispatch instead.
-/

namespace SmsRelay

/-- Why the sender refuses a request. -/
inductive SendError where
  | blocked (phone : String)
  | invalid (violations : List Violation)
  /-- The block list could not be asked. -/
  | guardFailed (cause : Failure)
  | config (detail : String)
  | shuttingDown
  deriving DecidableEq, Repr

/-- The wording of an error. -/
def SendError.message : SendError → String
  | blocked phone => "User is blocked: " ++ phone
  | invalid _ => "Request validation failed"
  | guardFailed cause => "block list: " ++ cause.message
  | config detail => "sender config: " ++ detail
  | shuttingDown => "sender is shutting down"

end SmsRelay
