/-!
# Media types

The content type that a client names: a kind and a subtype of token characters, of which the last
plus sign sets off a suffix, and then parameters. A body is taken for JSON if its type says so.
-/

namespace SmsRelay.Http

/-- A media type without its parameters, in small letters. -/
structure MediaType where
  kind : String
  subtype : String
  suffix? : Option String := none
  deriving DecidableEq, Repr

namespace MediaType

/-- The marks that may stand in a token. -/
def tokenMarks : List Char :=
  ['!', '#', '$', '%', '&', '\x27', '*', '+', '-', '.', '^', '_', '\x60', '|', '~']

/-- A character of a token. -/
def isTokenChar (c : Char) : Bool := c.isAlphanum || tokenMarks.contains c

/-- A character of a quoted value. -/
def isQuotedChar (c : Char) : Bool := 0x1F < c.toNat && c.toNat != 0x7F

/-- Where the reading of parameters stands. -/
inductive Spot where
  | beforeName
  | inName
  | beforeValue
  | inValue
  | afterQuote
  | inQuotes
  | afterQuotes
  deriving DecidableEq, Repr

/-- Where the reading stands after one more character. -/
def Spot.after? (c : Char) : Spot → Option Spot
  | beforeName =>
    if c = ' ' then some beforeName else if isTokenChar c then some inName else none
  | inName => if c = '=' then some beforeValue else if isTokenChar c then some inName else none
  | beforeValue => if c = '"' then some afterQuote else if isTokenChar c then some inValue else none
  | inValue => if c = ';' then some beforeName else if isTokenChar c then some inValue else none
  | afterQuote => if isQuotedChar c then some inQuotes else none
  | inQuotes => if c = '"' then some afterQuotes else if isQuotedChar c then some inQuotes else none
  | afterQuotes => if c = ';' then some beforeName else if c = ' ' then some afterQuotes else none

/-- Where parameters may end. -/
def Spot.isFinal : Spot → Bool
  | beforeName | beforeValue | inValue | afterQuotes => true
  | _ => false

/-- Whether parameters keep their form. -/
def hasParameterForm (cs : List Char) : Bool :=
  (cs.foldlM (fun spot c => Spot.after? c spot) Spot.beforeName).any Spot.isFinal

/-- A subtype and its suffix: what follows the last plus sign that does not come first. -/
def splitSuffix (cs : List Char) : List Char × Option (List Char) :=
  let suffix := (cs.reverse.takeWhile (· ≠ '+')).reverse
  let front := cs.take (cs.length - suffix.length - 1)
  if suffix.length = cs.length ∨ front = [] then (cs, none) else (front, some suffix)

/-- The letters of a name made small. -/
def lower (cs : List Char) : String := String.ofList (cs.map Char.toLower)

/-- Reads a media type. -/
def ofString? (s : String) : Option MediaType :=
  let cs := s.toList
  let kind := cs.takeWhile isTokenChar
  match cs.dropWhile isTokenChar with
  | '/' :: rest =>
    let name := rest.takeWhile isTokenChar
    let (subtype, suffix) := splitSuffix name
    let result : MediaType := ⟨lower kind, lower subtype, suffix.map lower⟩
    if kind = [] then none
    else match rest.dropWhile isTokenChar with
      | [] => some result
      | ';' :: parameters =>
        if name ≠ [] ∧ hasParameterForm parameters then some result else none
      | _ => none
  | _ => none

/-- Whether a body of this type is JSON. -/
def isJson (t : MediaType) : Bool :=
  t.kind = "application" && (t.subtype = "json" || t.suffix? = some "json")

/-- Whether a text that names a content type names JSON. -/
def namesJson (s : String) : Bool := (ofString? s).any isJson

example : namesJson "application/problem+json; charset=utf-8" = true := by decide +kernel
example : namesJson "application/json;a=\"\"" = false := by decide +kernel

end MediaType

end SmsRelay.Http
