import SmsRelay.Json.Reader

/-!
# Reading records

A record is read from an object, whose members stand in any order, or from an array, whose items
are the fields in their order. A field is `Field σ`: its name, how its value changes the record
under construction, and whether it must be there.

In an object a field may stand once; members with other names are skipped. An array may end early
if no field that must be there is left, and holds no further items.
-/

namespace SmsRelay.Json

/-- A field of a record of type `σ`. -/
structure Field (σ : Type) where
  name : String
  /-- Reads the value and gives the change that it makes. -/
  read : Reader (σ → σ)
  /-- The record cannot do without it. -/
  required : Bool := false

/-- The field with a name. -/
def Field.find? {σ : Type} (fields : List (Field σ)) (name : String) : Option (Field σ) :=
  fields.find? (·.name = name)

/-- A field that is read by `r` and stored by `set`. -/
def Field.of {σ α : Type} (name : String) (r : Reader α) (set : α → σ → σ) : Field σ :=
  { name := name, read := fun gs => (r gs).map fun (v, rest) => (set v, rest) }

/-- The same field, and it must be there. -/
def Field.mandatory {σ : Type} (f : Field σ) : Field σ := { f with required := true }

/-- The colon after a member's name. -/
def colon (gs : Input) : Except Fault Input :=
  match skipGap gs with
  | .char ':' :: r => .ok r
  | _ => .error .malformed

/-- The members of an object after its brace, with the names of the fields seen so far. -/
def members {σ : Type} (fields : List (Field σ)) : Nat → List String → Bool → σ → Reader σ
  | 0, _, _, _, _ => .error .malformed
  | n + 1, seen, isFirst, s, gs =>
    let done := fun (rest : Input) =>
      if fields.all fun f => !f.required || seen.contains f.name then .ok (s, rest)
      else .error .mismatch
    let key := fun (rest : Input) => do
      let (cs, rest) ← stringBody none rest
      match Field.find? fields (String.ofList cs) with
      | some f =>
        if seen.contains f.name then .error .mismatch
        else do
          let (change, rest) ← f.read (← colon rest)
          members fields n (f.name :: seen) false (change s) rest
      | none => do
        let rest ← skip (← colon rest)
        members fields n seen false s rest
    match skipGap gs with
    | .char '}' :: rest => done rest
    | .char ',' :: rest =>
      if isFirst then .error .malformed
      else match skipGap rest with
        | .char '"' :: rest => key rest
        | _ => .error .malformed
    | .char '"' :: rest => if isFirst then key rest else .error .malformed
    | _ => .error .malformed

/-- The items of an array after its bracket, one for each field in turn. -/
def items {σ : Type} : List (Field σ) → Bool → σ → Reader σ
  | [], _, s, gs =>
    match skipGap gs with
    | .char ']' :: rest => .ok (s, rest)
    | _ => .error .malformed
  | f :: fields, isFirst, s, gs =>
    let item := fun (rest : Input) => do
      let (change, rest) ← f.read rest
      items fields false (change s) rest
    match skipGap gs with
    | [] => .error .malformed
    | .char ']' :: rest =>
      if (f :: fields).any (·.required) then .error .mismatch else .ok (s, rest)
    | g :: rest =>
      if isFirst then item (g :: rest)
      else if g = .char ',' then
        match skipGap rest with
        | [] => .error .malformed
        | .char ']' :: _ => .error .malformed
        | rest => item rest
      else .error .malformed

/-- A record with the given fields, starting from the record that has all defaults. -/
def record {σ : Type} (fields : List (Field σ)) (start : σ) : Reader σ := fun gs =>
  match skipGap gs with
  | .char '{' :: rest => members fields (rest.length + 1) [] true start rest
  | .char '[' :: rest => items fields true start rest
  | r => .error (refuse r)

/-- A choice among names, written as a string or as an object of one member that is `null`. -/
def choice {α : Type} (options : List (String × α)) : Reader α := fun gs =>
  let pick := fun (s : String) => match options.lookup s with
    | some v => Except.ok v
    | none => .error Fault.mismatch
  match skipGap gs with
  | .char '"' :: rest => do
    let (cs, r) ← stringBody none rest
    .ok (← pick (String.ofList cs), r)
  | .char '{' :: rest => do
    let (s, rest) ← text rest
    let v ← pick s
    let rest ← colon rest
    match skipGap rest with
    | .char 'n' :: r => do
      match skipGap (← word "ull".toList r) with
      | .char '}' :: r => .ok (v, r)
      | _ => .error .malformed
    | r => .error (refuse r)
  | _ => .error .malformed

end SmsRelay.Json
