import SmsRelay.Decimal.Reading
import SmsRelay.Power

/-!
# Shortest decimal text

The text of a binary64 number: the fewest decimal digits that read back as the same number, the
nearest of those to its value, written out in positional notation without an exponent.

## Implementation notes

The reals that round to a number form an interval around its value, whose ends belong to it exactly
when the significand is even. For each count of digits from 1 on, the two neighbours of the value on
the decimal grid of that many digits are tested; the first grid with a neighbour in the interval
wins. All quantities are kept as naturals over a common denominator.
-/

namespace SmsRelay.Binary64

/-- A positive value between the bounds of what rounds to it, over one denominator. -/
structure Interval where
  low : Nat
  value : Nat
  high : Nat
  den : Nat
  closed : Bool

/-- The interval of reals that round to a finite number other than zero. -/
def interval (x : Binary64) : Interval :=
  let m := x.significand
  let e := x.exponent - 2
  let narrow := m == pow2 52 && decide (-1074 < x.exponent)
  let scale := if e < 0 then 1 else pow2 e.toNat
  { low := (if narrow then 4 * m - 1 else 4 * m - 2) * scale
    value := 4 * m * scale
    high := (4 * m + 2) * scale
    den := if e < 0 then pow2 (-e).toNat else 1
    closed := m % 2 == 0 }

/-- Whether `n * 10 ^ p` lies in the interval. -/
def Interval.holds (i : Interval) (n : Nat) (p : Int) : Bool :=
  let point := if p < 0 then n * i.den else n * pow10 p.toNat * i.den
  let scale := if p < 0 then pow10 (-p).toNat else 1
  if i.closed then i.low * scale ≤ point && point ≤ i.high * scale
  else i.low * scale < point && point < i.high * scale

/-- The place of the leading digit: the least `k` with a value below `10 ^ k`, sought downwards. -/
def Interval.places (i : Interval) : Nat → Int → Int
  | 0, k => k
  | n + 1, k =>
    let below := if k - 1 < 0 then i.value * pow10 (1 - k).toNat < i.den
      else i.value < pow10 (k - 1).toNat * i.den
    if below then i.places n (k - 1) else k

/-- The shortest digits from `count` digits on, with the power of ten of the last one. -/
def Interval.shortest (i : Interval) (places : Int) : Nat → Nat → Nat × Int
  | 0, count => (0, places - count)
  | n + 1, count =>
    let p := places - count
    let num := if p < 0 then i.value * pow10 (-p).toNat else i.value
    let den := if p < 0 then i.den else i.den * pow10 p.toNat
    let f := num / den
    let lowIn := i.holds f p
    let highIn := i.holds (f + 1) p
    if lowIn && highIn then
      (if 2 * (num % den) < den then f
        else if 2 * (num % den) > den then f + 1
        else if f % 2 = 0 then f else f + 1, p)
    else if lowIn then (f, p)
    else if highIn then (f + 1, p)
    else i.shortest places n (count + 1)

/-- `n * 10 ^ p` in positional notation, without a point when it is whole. -/
def positional (n : Nat) (p : Int) : List Char :=
  if 0 ≤ p then digits (n * pow10 p.toNat)
  else
    let places := (-p).toNat
    let ds := padded (places + 1) n
    let whole := ds.take (ds.length - places)
    let part := (ds.drop (ds.length - places)).reverse.dropWhile (· = '0') |>.reverse
    if part.isEmpty then whole else whole ++ '.' :: part

/-- The text of a number. -/
def text (x : Binary64) : String :=
  if x.isNaN then "NaN"
  else
    let sign := if x.isNegative then ['-'] else []
    let body :=
      if x.isInfinite then "inf".toList
      else if x.magnitude = 0 then ['0']
      else
        let i := x.interval
        let places := i.places 660 330
        let (n, p) := i.shortest places 17 1
        positional n p
    String.ofList (sign ++ body)

end SmsRelay.Binary64
