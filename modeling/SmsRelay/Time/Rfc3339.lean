import SmsRelay.Power
import SmsRelay.Text.Digits
import SmsRelay.Time.Instant

/-!
# RFC 3339 times

The text of an instant and its reading. Writing has one form: UTC, the letter `T`, as few groups of
three fraction digits as are exact, the letter `Z`; years outside 0 to 9999 carry a sign. Reading is
lenient: white space around the parts, a blank or a small letter for `T`, any offset, and years of
any length that carry a sign.

## Implementation notes

The reader goes from left to right over the characters. Each part of it takes what it reads off the
front and gives the rest back.
-/

namespace SmsRelay.Rfc3339

/-- A year: four digits, with a sign outside 0 to 9999. -/
def yearText (year : Int) : List Char :=
  if 0 ≤ year ∧ year ≤ 9999 then padded 4 year.toNat
  else (if year < 0 then '-' else '+') :: padded 4 year.natAbs

/-- The fraction of a second with as few groups of three digits as are exact. -/
def fractionText (nanos : Nat) : List Char :=
  if nanos = 0 then []
  else if nanos % 1000000 = 0 then '.' :: padded 3 (nanos / 1000000)
  else if nanos % 1000 = 0 then '.' :: padded 6 (nanos / 1000)
  else '.' :: padded 9 nanos

/-- The characters of an instant. -/
def chars (t : Instant) : List Char :=
  yearText t.date.year ++ '-' :: padded 2 t.date.month ++ '-' :: padded 2 t.date.day
    ++ 'T' :: padded 2 t.hour ++ ':' :: padded 2 t.minute ++ ':' :: padded 2 t.second
    ++ fractionText t.fraction ++ ['Z']

/-- The text of an instant. -/
def render (t : Instant) : String := String.ofList (chars t)

/-! ## Reading -/

/-- At most `width` digits from the front, at least one. -/
def number? (width : Nat) (cs : List Char) : Option (Nat × List Char) :=
  let ds := (cs.take width).takeWhile Char.isDigit
  if ds.isEmpty then none else some (digitsValue ds, cs.drop ds.length)

/-- A number of at most `width` digits after optional white space. -/
def field? (width : Nat) (cs : List Char) : Option (Nat × List Char) :=
  number? width (trimStart cs)

/-- A year after optional white space: any number of digits after a sign, else at most four. -/
def year? (cs : List Char) : Option (Int × List Char) :=
  match trimStart cs with
  | '-' :: rest => (number? rest.length rest).map fun (n, r) => (-(n : Int), r)
  | '+' :: rest => (number? rest.length rest).map fun (n, r) => ((n : Int), r)
  | rest => (number? 4 rest).map fun (n, r) => ((n : Int), r)

/-- The character `c` after optional white space. -/
def mark? (c : Char) (cs : List Char) : Option (List Char) :=
  match trimStart cs with
  | d :: rest => if d = c then some rest else none
  | [] => none

/-- A fraction, if one follows: digits beyond the ninth are dropped. -/
def fraction? : List Char → Option (Nat × List Char)
  | '.' :: rest =>
    let ds := rest.takeWhile Char.isDigit
    if ds.isEmpty then none
    else
      let kept := ds.take 9
      some (digitsValue kept * pow10 (9 - kept.length), rest.drop ds.length)
  | rest => some (0, rest)

/-- The letter between date and time. -/
def divider? : List Char → Option (List Char)
  | 't' :: rest | 'T' :: rest | ' ' :: rest => some rest
  | _ => none

/-- Two digits, the first at most `top`. -/
def twoDigits? (top : Char) : List Char → Option (Nat × List Char)
  | a :: b :: rest =>
    if a.isDigit && b.isDigit && decide (a ≤ top) then some (digitsValue [a, b], rest) else none
  | _ => none

/-- The offset from UTC in seconds: `Z`, `UTC`, or a sign, hours, an optional separator, minutes. -/
def offset? : List Char → Option (Int × List Char)
  | 'Z' :: rest | 'z' :: rest => some (0, rest)
  | u :: t :: c :: rest =>
    if u.toUpper = 'U' ∧ t.toUpper = 'T' ∧ c.toUpper = 'C' then some (0, rest)
    else do
      let sign ← if u = '+' then some (1 : Int)
        else if u = '-' ∨ u = Char.ofNat 0x2212 then some (-1) else none
      let (hours, r) ← twoDigits? '9' (t :: c :: rest)
      let (minutes, r) ← twoDigits? '5' (r.dropWhile fun d => d = ':' || isSpace d)
      some (sign * (hours * 3600 + minutes * 60 : Nat), r)
  | _ => none

/-- What a text says before it is checked against calendar and clock. -/
structure Stamp where
  date : CivilDate
  hour : Nat
  minute : Nat
  second : Nat
  fraction : Nat
  /-- Offset from UTC in seconds. -/
  offset : Int

/-- The instant of a stamp, if calendar, clock and range admit it. Second `60` is a leap second. -/
def Stamp.instant? (s : Stamp) : Option Instant :=
  if s.date.isValid && decide (Instant.firstDay ≤ s.date.toDays)
      && decide (s.date.toDays ≤ Instant.lastDay)
      && s.hour ≤ 23 && s.minute ≤ 59 && s.second ≤ 60 && decide (s.offset.natAbs < 86400) then
    let leap := s.second = 60
    let wall : Int := s.date.toDays * 86400 + (s.hour * 3600 + s.minute * 60
      + (if leap then 59 else s.second) : Nat)
    let t : Instant := ⟨wall - s.offset, s.fraction + if leap then 1000000000 else 0⟩
    if Instant.firstDay ≤ t.day ∧ t.day ≤ Instant.lastDay then some t else none
  else none

/-- Reads an instant from the characters of a lenient RFC 3339 time. -/
def ofChars? (cs : List Char) : Option Instant := do
  let (year, cs) ← year? cs
  let cs ← mark? '-' cs
  let (month, cs) ← field? 2 cs
  let cs ← mark? '-' cs
  let (day, cs) ← field? 2 cs
  let cs ← divider? cs
  let (hour, cs) ← field? 2 cs
  let cs ← mark? ':' cs
  let (minute, cs) ← field? 2 cs
  let cs ← mark? ':' cs
  let (second, cs) ← field? 2 cs
  let (fraction, cs) ← fraction? cs
  let (offset, cs) ← offset? (trimStart cs)
  if cs.all isSpace then
    Stamp.instant? ⟨⟨year, month, day⟩, hour, minute, second, fraction, offset⟩
  else none

/-- Reads an instant from the text of a lenient RFC 3339 time. -/
def read? (s : String) : Option Instant := ofChars? s.toList

end SmsRelay.Rfc3339
