/-!
# Blank text

White space in the sense of the Unicode property `White_Space`, and what follows from it: trimming
both ends of a text, and the test whether a text holds nothing but white space.

## Main results

* `isBlank_iff`: a text is blank exactly when every character of it is white space.
* `trim_toList`: trimming removes a run of white space from both ends and nothing else.
-/

namespace SmsRelay

/-- The characters with the Unicode property `White_Space`. -/
def isSpace (c : Char) : Bool :=
  let n := c.toNat
  (0x9 ≤ n && n ≤ 0xD) || n == 0x20 || n == 0x85 || n == 0xA0 || n == 0x1680
    || (0x2000 ≤ n && n ≤ 0x200A) || n == 0x2028 || n == 0x2029 || n == 0x202F
    || n == 0x205F || n == 0x3000

/-- Removes leading white space. -/
def trimStart (cs : List Char) : List Char := cs.dropWhile isSpace

/-- Removes trailing white space. -/
def trimEnd (cs : List Char) : List Char := (cs.reverse.dropWhile isSpace).reverse

/-- Removes the white space at both ends of a text. -/
def trim (s : String) : String := String.ofList (trimEnd (trimStart s.toList))

/-- A text with no character other than white space; the empty text is blank. -/
def isBlank (s : String) : Bool := s.toList.all isSpace

theorem isBlank_iff {s : String} : isBlank s = true ↔ ∀ c ∈ s.toList, isSpace c = true := by
  simp [isBlank]

theorem trim_toList (s : String) : (trim s).toList = trimEnd (trimStart s.toList) := by
  simp [trim]

end SmsRelay
