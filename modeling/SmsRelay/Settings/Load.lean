import SmsRelay.Settings.Document
import SmsRelay.Settings.Environment

/-!
# Loading settings

Settings come from a document, then from the environment, then from the command line, the later over
the earlier. A document that does not exist sets nothing.
-/

namespace SmsRelay.Settings

/-- What is found at the path of a document. -/
inductive Found where
  | nothing
  | unreadable (cause : String)
  | content (bytes : Bytes)
  deriving DecidableEq, Repr

/-- What a disk has at a path. -/
def Found.onDisk (d : Disk) (path : String) : Found :=
  if !d.isPresent path then .nothing
  else match d.read path with
    | .error e => .unreadable e.message
    | .ok bytes => .content bytes

/-- Why a document is refused: its path, and what is wrong. -/
def refusal (stage : SettingsStage) (path detail : String) : ServerError :=
  .settings stage ("'" ++ path ++ "': " ++ detail)

/-- Reads the document found at a path. -/
def load (path : String) : Found → Except ServerError Settings
  | .nothing => .ok {}
  | .unreadable cause => .error (refusal .read path cause)
  | .content bytes =>
    match bytes.text? with
    | none => .error (refusal .read path "stream did not contain valid UTF-8")
    | some text =>
      match ofToml? text with
      | none => .error (refusal .parse path "not a valid document")
      | some s => .ok s

/-- The settings of a server: its document, with the environment and a port over it. -/
def gather (path : String) (found : Found) (lookup? : String → Option String)
    (port : Option Nat) : Except ServerError Settings := do
  let s ← load path found
  match s.withEnvironment lookup? with
  | (_, some e) => .error e
  | (s, none) =>
    let s := { s with port := port.getD s.port }
    match s.violation? with
    | some e => .error e
    | none => .ok s

end SmsRelay.Settings
