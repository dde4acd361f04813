import SmsRelay.Sender.Error

/-!
# Error replies

What a client is told when a request fails: a status, a code for programs, a message for people, and
details by field. The reply carries the time at which it was made, which is added when it is
written.
-/

namespace SmsRelay

/-- An error as a client sees it. -/
structure ErrorReply where
  status : Nat
  code : String
  message : String
  details : List (String × String) := []
  deriving DecidableEq, Repr

namespace ErrorReply

/-- A request that cannot be understood. -/
def badRequest (message : String) : ErrorReply := ⟨400, "BAD_REQUEST", message, []⟩

/-- A request whose fields break the rules. -/
def invalid (details : List (String × String)) : ErrorReply :=
  ⟨400, "VALIDATION_ERROR", "Request validation failed", details⟩

/-- A request that failed within. -/
def failed (message : String) : ErrorReply := ⟨500, "INTERNAL", message, []⟩

/-- The reply to a request that the sender refuses. -/
def ofSendError (e : SendError) : ErrorReply :=
  match e with
  | .blocked _ => ⟨403, "USER_BLOCKED", e.message, []⟩
  | .invalid violations => invalid violations
  | .shuttingDown => ⟨503, "UNAVAILABLE", e.message, []⟩
  | .guardFailed _ | .config _ =>
    ⟨500, "INTERNAL_ERROR", "Something went wrong", [("reason", e.message)]⟩

end ErrorReply

end SmsRelay
