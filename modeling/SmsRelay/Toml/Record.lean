import SmsRelay.Toml.Document

/-!
# Records in TOML

Reading a record out of a value. A table gives fields by their names, in any order and among others;
a list gives them by their places. Fields left out keep what they have, and a moment leaves out all.
-/

namespace SmsRelay.Toml

/-- A field of a record: its name, and what a value makes of the record. -/
structure Field (σ : Type) where
  name : String
  read? : Value → σ → Option σ

/-- A field whose values are read on their own. -/
def Field.of {σ α : Type} (name : String) (value? : Value → Option α) (set : α → σ → σ) : Field σ :=
  ⟨name, fun v s => (value? v).map (set · s)⟩

/-- Reads a record. -/
def record? {σ : Type} (fields : List (Field σ)) (start : σ) : Value → Option σ
  | .table _ ms =>
    fields.foldlM (fun s f => match Members.get? ms f.name with
      | some v => f.read? v s
      | none => some s) start
  | .list _ vs => (fields.zip vs).foldlM (fun s (f, v) => f.read? v s) start
  | .moment => some start
  | _ => none

/-- A string. -/
def Value.text? : Value → Option String
  | .text s => some s
  | _ => none

/-- A whole number between zero and a bound. -/
def Value.natUpTo? (bound : Nat) : Value → Option Nat
  | .int (.ofNat n) => if n ≤ bound then some n else none
  | _ => none

/-- A number of any kind as a floating point number. -/
def Value.float? : Value → Option Binary64
  | .float x => some x
  | .int (.ofNat n) => some (.ofNat n)
  | .int (.negSucc n) => some (Binary64.ofNat (n + 1)).neg
  | _ => none

/-- A truth value. -/
def Value.bool? : Value → Option Bool
  | .bool b => some b
  | _ => none

/-- A value that holds nothing. -/
def Value.isEmpty : Value → Bool
  | .table _ ms => ms.isEmpty
  | .list _ vs => vs.isEmpty
  | _ => false

/-- One of several names: a string, or a table with the name alone, of an empty value. -/
def Value.name? : Value → Option String
  | .text s => some s
  | .table _ [(s, v)] => if v.isEmpty then some s else none
  | _ => none

end SmsRelay.Toml
