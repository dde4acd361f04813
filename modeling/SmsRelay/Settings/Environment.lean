import SmsRelay.Decimal.Reading
import SmsRelay.Settings.Basic

/-!
# Settings from the environment

Variables that set something over what a document says. They are looked at in a fixed order, and the
first that cannot be read ends it, with what the earlier ones set kept.
-/

namespace SmsRelay

/-- One variable: its name, and what its text makes of the settings. -/
structure Variable where
  name : String
  apply : String → Settings → Except NumberFault Settings

namespace Settings

/-- A variable that sets a text. -/
def textVariable (name : String) (set : String → Settings → Settings) : Variable :=
  ⟨name, fun v s => .ok (set v s)⟩

/-- A variable that sets a number, around which white space may stand. -/
def numberVariable {α : Type} (name : String) (read : String → Except NumberFault α)
    (set : α → Settings → Settings) : Variable :=
  ⟨name, fun v s => (read (trim v)).map (set · s)⟩

/-- The variables, in the order in which they are looked at. -/
def knownVariables : List Variable :=
  [textVariable "KAFKA_BROKERS" fun v s => { s with log.brokers := v },
   textVariable "KAFKA_GROUP_ID" fun v s => { s with consumer.group := v },
   textVariable "KAFKA_TOPIC" fun v s => { s with consumer.topic := v, sender.topic := v },
   numberVariable "SMS_SUCCESS_RATE" readFloat fun v s => { s with sender.successRate := v },
   numberVariable "SMS_DELAY_MS" (readNat maxWord64) fun v s => { s with sender.delay := v },
   textVariable "SMS_STORE_DATA_DIR" fun v s => { s with store.directory := v }]

/-- Looks at variables in turn; ends with the settings reached and what is wrong, if anything is. -/
def withVariables (value? : String → Option String) :
    List Variable → Settings → Settings × Option ServerError
  | [], s => (s, none)
  | x :: xs, s =>
    match value? x.name with
    | none => withVariables value? xs s
    | some v =>
      match x.apply v s with
      | .ok s => withVariables value? xs s
      | .error e => (s, some (.settings .env (x.name ++ "='" ++ v ++ "': " ++ e.message)))

/-- Settings with the environment over them. -/
def withEnvironment (s : Settings) (value? : String → Option String) :
    Settings × Option ServerError :=
  withVariables value? knownVariables s

end Settings

end SmsRelay
