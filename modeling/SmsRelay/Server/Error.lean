import SmsRelay.Consumer.Error
import SmsRelay.Log.Error
import SmsRelay.Sender.Error
import SmsRelay.Store.Error

/-!
# Errors of the server

Why the server does not start or does not end well: its settings, one of its parts, or its address.
-/

namespace SmsRelay

/-- The stage at which settings are refused. -/
inductive SettingsStage where
  | read
  | parse
  | env
  | validate
  deriving DecidableEq, Repr

/-- The name of a stage. -/
def SettingsStage.name : SettingsStage → String
  | read => "read"
  | parse => "parse"
  | env => "env"
  | validate => "validate"

/-- Why the interface for clients fails. -/
inductive ListenError where
  | bind (port : Nat) (cause : String)
  | serve (cause : String)
  deriving DecidableEq, Repr

/-- The wording of an error. -/
def ListenError.message : ListenError → String
  | bind port cause => "bind api :" ++ natText port ++ ": " ++ cause
  | serve cause => "axum serve: " ++ cause

/-- Why the server fails. -/
inductive ServerError where
  | settings (stage : SettingsStage) (detail : String)
  | log (e : LogError)
  | store (e : StoreError)
  | consumer (e : ConsumerError)
  | sender (e : SendError)
  | listen (e : ListenError)
  | signal (cause : String)
  deriving DecidableEq, Repr

/-- The wording of an error. -/
def ServerError.message : ServerError → String
  | settings stage detail => "config (" ++ stage.name ++ "): " ++ detail
  | log e => "log: " ++ e.message
  | store e => "store: " ++ e.message
  | consumer e => e.message
  | sender e => e.message
  | listen e => e.message
  | signal cause => "signal: " ++ cause

end SmsRelay
