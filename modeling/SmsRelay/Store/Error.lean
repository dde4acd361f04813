import SmsRelay.Text.Digits

/-!
# Errors of a store

Why a store did not do, or did only in part, what it was asked for.
-/

namespace SmsRelay

/-- Why a store refuses. -/
inductive StoreError where
  /-- Of `attempted` messages `written` were stored; `duplicates` of the others had been stored
  before. The reason belongs to the first message refused. -/
  | partly (written attempted duplicates : Nat) (reason : String)
  | unavailable (reason : String)
  | io (reason : String)
  | format (reason : String)
  deriving DecidableEq, Repr

namespace StoreError

/-- The wording of an error. -/
def message : StoreError → String
  | partly written attempted duplicates reason =>
    "partial batch insert: " ++ natText written ++ "/" ++ natText attempted ++ " written, "
      ++ natText duplicates ++ " duplicates: " ++ reason
  | unavailable reason => "store unavailable: " ++ reason
  | io reason => "store io: " ++ reason
  | format reason => "store format: " ++ reason

/-- How many messages were stored nevertheless. -/
def written : StoreError → Nat
  | partly written _ _ _ => written
  | _ => 0

/-- How many of the messages refused had been stored before. -/
def duplicates : StoreError → Nat
  | partly _ _ duplicates _ => duplicates
  | _ => 0

/-- Whether the store answered for each message. -/
def isPartial : StoreError → Bool
  | partly .. => true
  | _ => false

/-- The same error about a single message, which is refused for its form. -/
def ofSingle : StoreError → StoreError
  | partly _ _ _ reason => format reason
  | e => e

end StoreError

end SmsRelay
