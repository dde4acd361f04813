import SmsRelay.Decimal.Binary64
import SmsRelay.Power
import SmsRelay.Text.Digits

/-!
# Reading decimal numbers

The binary64 number nearest to a decimal, and the text form in which settings spell such numbers:
an optional sign, digits with an optional point among them, an optional exponent, or one of the
words `inf`, `infinity` and `nan` in any mixture of case. Whole numbers are read with a bound.
-/

namespace SmsRelay

namespace Binary64

/-- The number nearest to `n * 10 ^ e`. Decimals far outside the range skip the powers of ten. -/
def ofDecimal (negative : Bool) (n : Nat) (e : Int) : Binary64 :=
  let size : Int := (digits n).length + e
  if n = 0 then ofMagnitude negative 0
  else if size > 400 then infinity negative
  else if size < -400 then ofMagnitude negative 0
  else if e < 0 then ofRatio negative n (pow10 (-e).toNat)
  else ofRatio negative (n * pow10 e.toNat) 1

end Binary64

/-- Why a text spells no number. -/
inductive NumberFault where
  | emptyFloat
  | invalidFloat
  | emptyInteger
  | invalidDigit
  | tooLarge
  deriving DecidableEq, Repr

/-- The wording of a fault. -/
def NumberFault.message : NumberFault → String
  | emptyFloat => "cannot parse float from empty string"
  | invalidFloat => "invalid float literal"
  | emptyInteger => "cannot parse integer from empty string"
  | invalidDigit => "invalid digit found in string"
  | tooLarge => "number too large to fit in target type"

/-- A decimal number split at its point and exponent. -/
structure DecimalParts where
  whole : List Char
  part : List Char
  exponent : Int

/-- The number that the parts stand for. -/
def DecimalParts.toBinary64 (p : DecimalParts) (negative : Bool) : Binary64 :=
  Binary64.ofDecimal negative (digitsValue (p.whole ++ p.part)) (p.exponent - p.part.length)

/-- An exponent after its letter: an optional sign and digits to the end. -/
def exponent? (cs : List Char) : Option Int :=
  let (sign, ds) := match cs with
    | '-' :: r => ((-1 : Int), r)
    | '+' :: r => (1, r)
    | r => (1, r)
  if ds.isEmpty || !ds.all Char.isDigit then none else some (sign * digitsValue ds)

/-- Digits with an optional point among them and an optional exponent, to the end. -/
def decimalParts? (cs : List Char) : Option DecimalParts :=
  let whole := cs.takeWhile Char.isDigit
  let r := cs.drop whole.length
  let (part, r) := match r with
    | '.' :: r => (r.takeWhile Char.isDigit, r.dropWhile Char.isDigit)
    | r => ([], r)
  if whole.isEmpty && part.isEmpty then none
  else match r with
    | [] => some ⟨whole, part, 0⟩
    | c :: r => if c = 'e' ∨ c = 'E' then (exponent? r).map (⟨whole, part, ·⟩) else none

/-- Reads a floating point number from the whole of a text. -/
def readFloat (s : String) : Except NumberFault Binary64 :=
  match s.toList with
  | [] => .error .emptyFloat
  | c :: r =>
    let negative := c = '-'
    let body := if c = '-' ∨ c = '+' then r else c :: r
    let word := body.map Char.toLower
    if word = "inf".toList ∨ word = "infinity".toList then .ok (.infinity negative)
    else if word = "nan".toList then .ok .nan
    else match decimalParts? body with
      | some p => .ok (p.toBinary64 negative)
      | none => .error .invalidFloat

/-- Reads a natural number of at most `bound` from the whole of a text; a leading `+` may stand. -/
def readNat (bound : Nat) (s : String) : Except NumberFault Nat :=
  match s.toList with
  | [] => .error .emptyInteger
  | c :: r =>
    let body := if c = '+' ∧ !r.isEmpty then r else c :: r
    if !body.all Char.isDigit then
      -- a number that overflows before its first bad digit is too large
      if bound < digitsValue (body.takeWhile Char.isDigit) then .error .tooLarge
      else .error .invalidDigit
    else if bound < digitsValue body then .error .tooLarge
    else .ok (digitsValue body)

/-- The greatest natural number of 64 bits. -/
def maxWord64 : Nat := pow2 64 - 1

end SmsRelay
