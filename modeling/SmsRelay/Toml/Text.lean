import SmsRelay.Text.Digits
import SmsRelay.Toml.Value

/-!
# TOML strings

Strings stand between quotes, in which a backslash begins an escape, or between apostrophes, in
which nothing does. Three marks in place of one let a string run over several lines: a line break
right after the opening is not part of it, line breaks are line feeds, and a backslash at the end of
a line takes away the white space up to the next character.
-/

namespace SmsRelay.Toml

/-- The value of a hexadecimal digit. -/
def hexDigit? (c : Char) : Option Nat :=
  if c.isDigit then some (c.toNat - 48)
  else if 'a' ≤ c && c ≤ 'f' then some (c.toNat - 87)
  else if 'A' ≤ c && c ≤ 'F' then some (c.toNat - 55)
  else none

/-- The number that digits of a base spell. -/
def baseValue? (digit? : Char → Option Nat) (base : Nat) (cs : List Char) : Option Nat :=
  cs.foldlM (fun n c => (digit? c).map (n * base + ·)) 0

/-- The character whose code is spelled by hexadecimal digits. -/
def codeChar? (cs : List Char) : Option Char := do
  let n ← baseValue? hexDigit? 16 cs
  if n < 0xD800 ∨ (0xDFFF < n ∧ n < 0x110000) then some (Char.ofNat n) else none

/-- The character of an escape of one letter. -/
def shortEscape? : Char → Option Char
  | 'b' => some '\x08'
  | 't' => some '\t'
  | 'n' => some '\n'
  | 'f' => some '\x0c'
  | 'r' => some '\r'
  | '"' => some '"'
  | '\\' => some '\\'
  | _ => none

/-- Puts a character before what is read next. -/
def prepend : Option Char → Option (List Char × List Char) → Option (List Char × List Char)
  | some c, some (cs, rest) => some (c :: cs, rest)
  | _, _ => none

/-- A string up to its quote. -/
def quotedBody : List Char → Option (List Char × List Char)
  | [] => none
  | '"' :: rest => some ([], rest)
  | '\\' :: 'u' :: a :: b :: c :: d :: rest => prepend (codeChar? [a, b, c, d]) (quotedBody rest)
  | '\\' :: 'U' :: a :: b :: c :: d :: e :: f :: g :: h :: rest =>
    prepend (codeChar? [a, b, c, d, e, f, g, h]) (quotedBody rest)
  | '\\' :: c :: rest => prepend (shortEscape? c) (quotedBody rest)
  | c :: rest => if c ≠ '\\' ∧ isLineChar c then prepend (some c) (quotedBody rest) else none

/-- A string up to its apostrophe. -/
def literalBody : List Char → Option (List Char × List Char)
  | [] => none
  | '\'' :: rest => some ([], rest)
  | c :: rest => if isLineChar c then prepend (some c) (literalBody rest) else none

/-- Whether only blanks stand before the end of the line. -/
def endsLine (cs : List Char) : Bool := (lineEnd? (skipBlanks cs)).isSome

/-- A string of several lines up to its quotes; `skipping` while white space is taken away. -/
def quotedLines (skipping : Bool) : List Char → Option (List Char × List Char)
  | [] => none
  | '"' :: '"' :: '"' :: '"' :: '"' :: rest => some (['"', '"'], rest)
  | '"' :: '"' :: '"' :: '"' :: rest => some (['"'], rest)
  | '"' :: '"' :: '"' :: rest => some ([], rest)
  | '\\' :: 'u' :: a :: b :: c :: d :: rest =>
    prepend (codeChar? [a, b, c, d]) (quotedLines false rest)
  | '\\' :: 'U' :: a :: b :: c :: d :: e :: f :: g :: h :: rest =>
    prepend (codeChar? [a, b, c, d, e, f, g, h]) (quotedLines false rest)
  | '\\' :: c :: rest =>
    if endsLine (c :: rest) then
      if c = '\r' ∨ c = '\n' ∨ isBlankChar c then quotedLines true rest else none
    else prepend (shortEscape? c) (quotedLines false rest)
  | '\r' :: '\n' :: rest =>
    if skipping then quotedLines true rest else prepend (some '\n') (quotedLines false rest)
  | c :: rest =>
    if skipping ∧ (isBlankChar c ∨ c = '\n') then quotedLines true rest
    else if c = '\n' ∨ (c ≠ '\\' ∧ isLineChar c) then prepend (some c) (quotedLines false rest)
    else none

/-- A string of several lines up to its apostrophes. -/
def literalLines : List Char → Option (List Char × List Char)
  | [] => none
  | '\'' :: '\'' :: '\'' :: '\'' :: '\'' :: rest => some (['\'', '\''], rest)
  | '\'' :: '\'' :: '\'' :: '\'' :: rest => some (['\''], rest)
  | '\'' :: '\'' :: '\'' :: rest => some ([], rest)
  | '\r' :: '\n' :: rest => prepend (some '\n') (literalLines rest)
  | c :: rest =>
    if c = '\n' ∨ isLineChar c then prepend (some c) (literalLines rest) else none

/-- The text without a line break at its front. -/
def afterOpening (cs : List Char) : List Char := (lineEnd? cs).getD cs

/-- A string of one line. -/
def lineText? : List Char → Option (String × List Char)
  | '"' :: rest => (quotedBody rest).map fun (cs, rest) => (String.ofList cs, rest)
  | '\'' :: rest => (literalBody rest).map fun (cs, rest) => (String.ofList cs, rest)
  | _ => none

/-- A string of any kind. -/
def text? : List Char → Option (String × List Char)
  | '"' :: '"' :: '"' :: rest =>
    (quotedLines false (afterOpening rest)).map fun (cs, rest) => (String.ofList cs, rest)
  | '\'' :: '\'' :: '\'' :: rest =>
    (literalLines (afterOpening rest)).map fun (cs, rest) => (String.ofList cs, rest)
  | cs => lineText? cs

end SmsRelay.Toml
