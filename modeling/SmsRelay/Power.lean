/-!
# Powers of two and ten

The bounds of machine words and the places of decimal digits, as natural numbers.
-/

namespace SmsRelay

/-- A power of two. -/
def pow2 (n : Nat) : Nat := Nat.pow 2 n

/-- A power of ten. -/
def pow10 (n : Nat) : Nat := Nat.pow 10 n

end SmsRelay
