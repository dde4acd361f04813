import SmsRelay.Failure

/-!
# Errors of a consumer

Why a consumer cannot be started or cannot go on with a session.
-/

namespace SmsRelay

/-- Why a consumer refuses or gives up a session. -/
inductive ConsumerError where
  | config (detail : String)
  | join (group topic : String) (cause : Failure)
  | session (cause : Failure)
  | alreadyStarted
  | stopped
  deriving DecidableEq, Repr

/-- The wording of an error. -/
def ConsumerError.message : ConsumerError → String
  | config detail => "consumer config: " ++ detail
  | join group topic cause =>
    "join group '" ++ group ++ "' on '" ++ topic ++ "': " ++ cause.message
  | session cause => "session: " ++ cause.message
  | alreadyStarted => "consumer already started"
  | stopped => "consumer stopped"

end SmsRelay
