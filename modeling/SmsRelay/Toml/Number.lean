import SmsRelay.Decimal.Reading
import SmsRelay.Power
import SmsRelay.Time.Civil
import SmsRelay.Toml.Text

/-!
# TOML numbers and moments

Whole numbers in base ten, sixteen, eight and two, floating point numbers, and dates and times.
Underscores may stand between digits. A whole number has 64 bits with a sign; a floating point
number may be infinite by its name, but not by its size above zero.
-/

namespace SmsRelay.Toml

/-- The digits that follow a first one, without the underscores between them. -/
def moreDigits? (isDigit : Char → Bool) : List Char → Option (List Char × List Char)
  | [] => some ([], [])
  | '_' :: c :: rest =>
    if isDigit c then prepend (some c) (moreDigits? isDigit rest) else none
  | c :: rest =>
    if isDigit c then prepend (some c) (moreDigits? isDigit rest)
    else if c = '_' then none
    else some ([], c :: rest)

/-- A run of digits with underscores between them. -/
def digitRun? (isDigit : Char → Bool) : List Char → Option (List Char × List Char)
  | [] => none
  | c :: rest => if isDigit c then prepend (some c) (moreDigits? isDigit rest) else none

/-- The whole part of a number in base ten: a zero stands alone. -/
def wholeDigits? : List Char → Option (List Char × List Char)
  | '0' :: rest => some (['0'], rest)
  | cs => digitRun? Char.isDigit cs

/-- A sign, of which a minus makes the number negative. -/
def sign : List Char → Bool × List Char
  | '-' :: rest => (true, rest)
  | '+' :: rest => (false, rest)
  | cs => (false, cs)

/-- The digits after a point, if there is one. -/
def fraction? : List Char → Option (Option (List Char) × List Char)
  | '.' :: rest => (digitRun? Char.isDigit rest).map fun (ds, rest) => (some ds, rest)
  | cs => some (none, cs)

/-- The exponent, if there is one. -/
def scale? : List Char → Option (Option Int × List Char)
  | c :: rest =>
    if c = 'e' ∨ c = 'E' then
      let (negative, rest) := sign rest
      (digitRun? Char.isDigit rest).map fun (ds, rest) =>
        (some (if negative then -(digitsValue ds : Int) else digitsValue ds), rest)
    else some (none, c :: rest)
  | [] => some (none, [])

/-- A whole number, if 64 bits with a sign hold it. -/
def wholeNumber? (i : Int) : Option Value :=
  if -(pow2 63) ≤ i ∧ i < pow2 63 then some (.int i) else none

/-- A number in base ten after its sign. -/
def decimal? (negative : Bool) (cs : List Char) : Option (Value × List Char) := do
  let (whole, rest) ← wholeDigits? cs
  let (part, rest) ← fraction? rest
  let (exponent, rest) ← scale? rest
  if part.isNone && exponent.isNone then
    let n : Int := digitsValue whole
    let v ← wholeNumber? (if negative then -n else n)
    some (v, rest)
  else
    let parts : DecimalParts := ⟨whole, part.getD [], exponent.getD 0⟩
    let x := parts.toBinary64 negative
    if x = .infinity false then none else some (.float x, rest)

/-- A number without sign in a base of its own. -/
def based? (digit? : Char → Option Nat) (base : Nat) (cs : List Char) :
    Option (Value × List Char) := do
  let (ds, rest) ← digitRun? (fun c => (digit? c).isSome) cs
  let n ← baseValue? digit? base ds
  let v ← wholeNumber? n
  some (v, rest)

/-- The value of a digit of a base up to ten. -/
def lowDigit? (base : Nat) (c : Char) : Option Nat :=
  if c.isDigit ∧ c.toNat < 48 + base then some (c.toNat - 48) else none

/-- A number of any kind. -/
def number? : List Char → Option (Value × List Char)
  | '0' :: 'x' :: rest => based? hexDigit? 16 rest
  | '0' :: 'o' :: rest => based? (lowDigit? 8) 8 rest
  | '0' :: 'b' :: rest => based? (lowDigit? 2) 2 rest
  | cs =>
    let (negative, body) := sign cs
    match body with
    | 'i' :: 'n' :: 'f' :: rest => some (.float (.infinity negative), rest)
    | 'n' :: 'a' :: 'n' :: rest => some (.float .nan, rest)
    | body => decimal? negative body

/-- A number of exactly so many digits. -/
def fixedDigits? (width : Nat) (cs : List Char) : Option (Nat × List Char) :=
  let ds := cs.take width
  if ds.length = width ∧ ds.all Char.isDigit then some (digitsValue ds, cs.drop width) else none

/-- Skips a character that has to stand here. -/
def expect? (c : Char) : List Char → Option (List Char)
  | d :: rest => if c = d then some rest else none
  | [] => none

/-- Skips hours and minutes. -/
def skipHourMinute? (cs : List Char) : Option (List Char) := do
  let (hour, rest) ← fixedDigits? 2 cs
  let (minute, rest) ← fixedDigits? 2 (← expect? ':' rest)
  if hour < 24 ∧ minute < 60 then some rest else none

/-- Skips the fraction of a second, if there is one. -/
def skipFraction : List Char → List Char
  | '.' :: c :: rest => if c.isDigit then rest.dropWhile Char.isDigit else '.' :: c :: rest
  | cs => cs

/-- Skips a time of day; a second may be a leap second. -/
def skipTime? (cs : List Char) : Option (List Char) := do
  let (second, rest) ← fixedDigits? 2 (← expect? ':' (← skipHourMinute? cs))
  if second ≤ 60 then some (skipFraction rest) else none

/-- Skips the distance from universal time, if it is given. -/
def skipOffset? : List Char → Option (List Char)
  | [] => some []
  | c :: rest =>
    if c = 'Z' ∨ c = 'z' then some rest
    else if c = '+' ∨ c = '-' then skipHourMinute? rest
    else some (c :: rest)

/-- Skips a date of the calendar. -/
def skipDate? (cs : List Char) : Option (List Char) := do
  let (year, rest) ← fixedDigits? 4 cs
  let (month, rest) ← fixedDigits? 2 (← expect? '-' rest)
  let (day, rest) ← fixedDigits? 2 (← expect? '-' rest)
  if CivilDate.isValid ⟨year, month, day⟩ then some rest else none

/-- Skips the time that may follow a date. -/
def skipTimeOfDate? : List Char → Option (List Char)
  | [] => some []
  | c :: rest =>
    if c = 'T' ∨ c = 't' ∨ c = ' ' then
      match skipTime? rest with
      | some rest => skipOffset? rest
      | none => some (c :: rest)
    else some (c :: rest)

/-- A date, a time, or both. -/
def moment? (cs : List Char) : Option (Value × List Char) :=
  match skipDate? cs with
  | some rest => (skipTimeOfDate? rest).map (.moment, ·)
  | none => (skipTime? cs).map (.moment, ·)

end SmsRelay.Toml
