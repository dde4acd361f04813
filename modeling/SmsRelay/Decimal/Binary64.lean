import SmsRelay.Power

/-!
# Binary64 numbers

Floating point numbers of 64 bits as their bit patterns, with exact arithmetic on the values they
stand for. Rounding takes a quotient of naturals to the nearest number, ties to the even one, and is
the only way in which a value becomes a pattern.

## Implementation notes

A finite pattern with sign bit cleared is `exponent * 2 ^ 52 + fraction`. Its order as a natural
number is the order of the values, which is what `key` uses. `ofRatio` scales a quotient to an
integer of at most 53 bits at an exponent of at least `-1074`; adding that integer to the shifted
exponent gives the pattern of normal and subnormal numbers alike, and a carry out of the rounding
moves to the next exponent by itself.

## Main results

* `clamp_eq_self`: clamping changes no number between the bounds.
-/

namespace SmsRelay

/-- A floating point number of 64 bits. -/
structure Binary64 where
  bits : UInt64
  deriving DecidableEq, Repr

namespace Binary64

/-- The pattern of positive infinity. -/
def infinityBits : Nat := 2047 * pow2 52

/-- The pattern without its sign bit. -/
def magnitude (x : Binary64) : Nat := x.bits.toNat % pow2 63

/-- The sign bit. -/
def isNegative (x : Binary64) : Bool := pow2 63 ≤ x.bits.toNat

/-- Not a number. -/
def isNaN (x : Binary64) : Bool := infinityBits < x.magnitude

/-- Either infinity. -/
def isInfinite (x : Binary64) : Bool := x.magnitude == infinityBits

/-- The number with a given sign and a given pattern of the other bits. -/
def ofMagnitude (negative : Bool) (magnitude : Nat) : Binary64 :=
  ⟨UInt64.ofNat (magnitude + if negative then pow2 63 else 0)⟩

/-- Positive zero. -/
def zero : Binary64 := ofMagnitude false 0

/-- The number one. -/
def one : Binary64 := ofMagnitude false (1023 * pow2 52)

/-- A quiet NaN. -/
def nan : Binary64 := ofMagnitude false (infinityBits + pow2 51)

/-- Infinity with a sign. -/
def infinity (negative : Bool) : Binary64 := ofMagnitude negative infinityBits

/-- The same number with the opposite sign bit. -/
def neg (x : Binary64) : Binary64 := ofMagnitude (!x.isNegative) x.magnitude

/-- A position in the order of values; both zeros have the same. -/
def key (x : Binary64) : Int := if x.isNegative then -(x.magnitude : Int) else x.magnitude

/-- At most, as numbers; false when either side is a NaN. -/
def le (x y : Binary64) : Bool := !x.isNaN && !y.isNaN && x.key ≤ y.key

/-- Less, as numbers; false when either side is a NaN. -/
def lt (x y : Binary64) : Bool := !x.isNaN && !y.isNaN && x.key < y.key

/-- The nearest number between two bounds. A NaN stays one. -/
def clamp (x low high : Binary64) : Binary64 :=
  if x.lt low then low else if high.lt x then high else x

/-- The finite number as `significand * 2 ^ exponent`. -/
def significand (x : Binary64) : Nat :=
  let e : Nat := x.magnitude / pow2 52
  if e = 0 then x.magnitude else x.magnitude % pow2 52 + pow2 52

/-- The exponent that goes with `significand`. -/
def exponent (x : Binary64) : Int :=
  let e : Nat := x.magnitude / pow2 52
  if e = 0 then -1074 else (e : Int) - 1075

/-- The quotient of two naturals rounded to the nearest natural, a half to the even one. -/
def roundDiv (num den : Nat) : Nat :=
  let q := num / den
  let r := num % den
  if 2 * r < den then q else if 2 * r > den then q + 1 else if q % 2 = 0 then q else q + 1

/-- The quotient of two naturals rounded to the nearest number. -/
def ofRatio (negative : Bool) (num den : Nat) : Binary64 :=
  if num = 0 then ofMagnitude negative 0
  else
    let guess : Int := (num.log2 : Int) - den.log2 - 52
    let scaled := fun (e : Int) =>
      if e < 0 then (num * pow2 (-e).toNat, den) else (num, den * pow2 e.toNat)
    let fits := fun (e : Int) => let (n, d) := scaled e; decide (n < d * pow2 53)
    let e := max (-1074) (if fits (guess - 1) then guess - 1 else if fits guess then guess
      else guess + 1)
    let (n, d) := scaled e
    let pattern := (e + 1074).toNat * pow2 52 + roundDiv n d
    ofMagnitude negative (min pattern infinityBits)

/-- The natural number rounded to the nearest number. -/
def ofNat (n : Nat) : Binary64 := ofRatio false n 1

/-- `num * 2 ^ e / den` rounded. -/
def ofScaledRatio (negative : Bool) (num den : Nat) (e : Int) : Binary64 :=
  if e < 0 then ofRatio negative num (den * pow2 (-e).toNat)
  else ofRatio negative (num * pow2 e.toNat) den

/-- The product of two finite numbers, rounded. -/
def mul (x y : Binary64) : Binary64 :=
  ofScaledRatio (x.isNegative != y.isNegative) (x.significand * y.significand) 1
    (x.exponent + y.exponent)

/-- The quotient of two finite numbers, the second not zero, rounded. -/
def div (x y : Binary64) : Binary64 :=
  ofScaledRatio (x.isNegative != y.isNegative) x.significand y.significand
    (x.exponent - y.exponent)

/-- Clamping changes no number that lies between the bounds. -/
theorem clamp_eq_self {x low high : Binary64} (hl : low.le x = true) (hh : x.le high = true) :
    x.clamp low high = x := by
  simp only [le, Bool.and_eq_true, Bool.not_eq_eq_eq_not, Bool.not_true,
    decide_eq_true_eq] at hl hh
  have h1 : x.lt low = false := by simp [lt, hl.2]
  have h2 : high.lt x = false := by simp [lt, hh.2]
  simp [clamp, h1, h2]

example : ofRatio false 1 1 = one := by decide +kernel
example : (ofRatio false 1 10).bits = 0x3FB999999999999A := by decide +kernel
example : (ofRatio false 1 (pow2 1074)).bits = 1 := by decide +kernel
example : (ofRatio false 1 (pow2 1075)).bits = 0 := by decide +kernel
example : (ofRatio true (pow2 1024) 1).bits = 0xFFF0000000000000 := by decide +kernel

end Binary64

end SmsRelay
