import SmsRelay.Failure

/-!
# Errors of the log

Why the log refuses a topic, a record or a member.
-/

namespace SmsRelay

/-- Why the log refuses. -/
inductive LogError where
  | notFound (topic : String)
  | alreadyExists (topic : String)
  | noPartitions (topic : String)
  | closed
  deriving DecidableEq, Repr

namespace LogError

/-- The wording of an error. -/
def message : LogError → String
  | notFound topic => "topic '" ++ topic ++ "' not found"
  | alreadyExists topic => "topic '" ++ topic ++ "' already exists"
  | noPartitions topic => "topic '" ++ topic ++ "': partition count must be > 0"
  | closed => "log is closed"

/-- The kind under which an error is reported to callers of the log. -/
def kind : LogError → FailureKind
  | closed => .io
  | noPartitions _ => .config
  | _ => .logic

/-- The error as a failure. -/
def toFailure (e : LogError) : Failure := ⟨e.kind, e.message⟩

end LogError

end SmsRelay
