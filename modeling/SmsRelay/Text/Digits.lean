import SmsRelay.Text.Blank

/-!
# Decimal digits

Whole numbers as decimal text: `digits` writes one with no leading zero, `padded` with at least a
given number of digits, `digitsValue` reads any run of digits back.

## Main results

* `digitsValue_digits`: reading what `digits` writes gives the number back.
-/

namespace SmsRelay

/-- The decimal digits of a number, without leading zeros. -/
def digits (n : Nat) : List Char := Nat.toDigits 10 n

/-- The number that a run of decimal digits spells. -/
def digitsValue (cs : List Char) : Nat := Nat.ofDigitChars 10 cs 0

/-- The decimal digits of a number with zeros in front up to a width. -/
def padded (width n : Nat) : List Char :=
  List.replicate (width - (digits n).length) '0' ++ digits n

/-- The text of a whole number. -/
def natText (n : Nat) : String := String.ofList (digits n)

/-- The text of an integer, with a sign only when it is negative. -/
def intText : Int → String
  | .ofNat n => natText n
  | .negSucc n => "-" ++ natText (n + 1)

@[simp] theorem digitsValue_digits (n : Nat) : digitsValue (digits n) = n :=
  Nat.ofDigitChars_toDigits (by decide) (by decide)

end SmsRelay
