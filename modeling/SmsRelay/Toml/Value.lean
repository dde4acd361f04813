import SmsRelay.Decimal.Binary64

/-!
# TOML values

The values of a TOML document. Tables remember how they came about, because that decides how they
may be extended; dates and times are recognised but carry no content, as no setting is one.
-/

namespace SmsRelay.Toml

/-- How a table came about. -/
inductive TableForm where
  /-- Written between braces; it is complete. -/
  | braces
  /-- Named by a header of its own. -/
  | header
  /-- Named on the way to another header. -/
  | passing
  /-- Named on the way to a dotted key. -/
  | dotted
  deriving DecidableEq, Repr

/-- A value of a document. -/
inductive Value where
  | text (s : String)
  | int (i : Int)
  | float (x : Binary64)
  | bool (b : Bool)
  | moment
  /-- A list; `isOpen` if it is made of headers, which may add to it. -/
  | list (isOpen : Bool) (items : List Value)
  | table (form : TableForm) (members : List (String × Value))

/-- The members of a table. -/
abbrev Members := List (String × Value)

/-- The value of a key. -/
def Members.get? (ms : Members) (key : String) : Option Value := ms.lookup key

/-- Puts a value under a key, in the place of the one that is there. -/
def Members.put (ms : Members) (key : String) (v : Value) : Members :=
  if ms.any (·.1 = key) then ms.map fun m => if m.1 = key then (key, v) else m
  else ms ++ [(key, v)]

/-- A blank within a line. -/
def isBlankChar (c : Char) : Bool := c == ' ' || c == '\t'

/-- A character that may stand in a line. -/
def isLineChar (c : Char) : Bool :=
  c == '\t' || (0x20 ≤ c.toNat && c.toNat ≤ 0x7E) || 0x80 ≤ c.toNat

/-- Skips blanks. -/
def skipBlanks (cs : List Char) : List Char := cs.dropWhile isBlankChar

/-- Skips the end of a line, if one stands here. -/
def lineEnd? : List Char → Option (List Char)
  | '\n' :: rest => some rest
  | '\r' :: '\n' :: rest => some rest
  | _ => none

/-- Skips a comment, if one stands here. -/
def skipComment : List Char → List Char
  | '#' :: rest => rest.dropWhile isLineChar
  | cs => cs

/-- Skips what may follow a complete expression: blanks, a comment and the end of the line. -/
def finishLine? (cs : List Char) : Option (List Char) :=
  match skipComment (skipBlanks cs) with
  | [] => some []
  | cs => lineEnd? cs

end SmsRelay.Toml
