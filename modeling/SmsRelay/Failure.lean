/-!
# Failures

What the parts of the relay report to each other when an operation fails: a kind, for those who act
on it, and a message, for those who read it.
-/

namespace SmsRelay

/-- What a failure is about. -/
inductive FailureKind where
  | config
  | io
  | format
  | logic
  deriving DecidableEq, Repr

/-- The name of a kind. -/
def FailureKind.name : FailureKind → String
  | config => "config"
  | io => "io"
  | format => "format"
  | logic => "logic"

/-- A failed operation. -/
structure Failure where
  kind : FailureKind
  message : String
  deriving DecidableEq, Repr

namespace Failure

/-- The same failure, with what was being done named in front. -/
def inContext (f : Failure) (context : String) : Failure :=
  { f with message := context ++ ": " ++ f.message }

/-- The failure with its kind, for diagnosis. -/
def describe (f : Failure) : String := "[" ++ f.kind.name ++ "] " ++ f.message

end Failure

end SmsRelay
