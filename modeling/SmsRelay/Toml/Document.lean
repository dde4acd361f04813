import SmsRelay.Toml.Number
import SmsRelay.Toml.Table

/-!
# TOML documents

A document is a sequence of lines: each is empty, or a header in brackets that opens a table, or a
header in double brackets that opens one more table of a list, or a key with a value. Lists may run
over several lines, tables between braces may not.

## Implementation notes

Lists and tables lie in each other, and keys have parts, up to a depth that `depthLimit` bounds, so
that values are read by recursion on what is left of it.
-/

namespace SmsRelay.Toml

/-- How deep values lie in each other and how many parts keys have, at most. -/
def depthLimit : Nat := 79

/-- A character of a key that stands without quotes. -/
def isKeyChar (c : Char) : Bool := c.isAlphanum || c == '-' || c == '_'

/-- One part of a key. -/
def keyPart? : List Char → Option (String × List Char)
  | '"' :: rest => lineText? ('"' :: rest)
  | '\'' :: rest => lineText? ('\'' :: rest)
  | cs =>
    let name := cs.takeWhile isKeyChar
    if name.isEmpty then none else some (String.ofList name, cs.dropWhile isKeyChar)

/-- A key of a bounded number of parts, with the blanks around it. -/
def keyUpTo? : Nat → List Char → Option (List String × List Char)
  | 0, _ => none
  | limit + 1, cs => do
    let (part, rest) ← keyPart? (skipBlanks cs)
    match skipBlanks rest with
    | '.' :: rest =>
      let (parts, rest) ← keyUpTo? limit rest
      some (part :: parts, rest)
    | rest => some ([part], rest)

/-- A key, with the blanks around it. -/
def key? (cs : List Char) : Option (List String × List Char) := keyUpTo? depthLimit cs

/-- Skips blanks, line breaks and comments. -/
def skipLines (inComment : Bool) : List Char → List Char
  | [] => []
  | '\n' :: rest => skipLines false rest
  | '\r' :: '\n' :: rest => skipLines false rest
  | c :: rest =>
    if inComment ∧ isLineChar c then skipLines true rest
    else if isBlankChar c then skipLines false rest
    else if c = '#' then skipLines true rest
    else c :: rest

/-- The items of a list up to its bracket; a comma may follow the last one. -/
def items? (item : List Char → Option (Value × List Char)) :
    Nat → List Char → Option (List Value × List Char)
  | 0, _ => none
  | fuel + 1, cs =>
    match skipLines false cs with
    | ']' :: rest => some ([], rest)
    | cs => do
      let (v, rest) ← item cs
      match skipLines false rest with
      | ']' :: rest => some ([v], rest)
      | ',' :: rest =>
        let (vs, rest) ← items? item fuel rest
        some (v :: vs, rest)
      | _ => none

/-- A key, its equals sign and what a reader makes of the rest. -/
def pair? (item : List Char → Option (Value × List Char)) (cs : List Char) :
    Option ((List String × Value) × List Char) := do
  let (key, rest) ← key? cs
  let rest ← expect? '=' rest
  let (v, rest) ← item (skipBlanks rest)
  some ((key, v), rest)

/-- The pairs of a table up to its brace, put into the table one by one. -/
def pairs? (item : List Char → Option (Value × List Char)) (ms : Members) :
    Nat → List Char → Option (Members × List Char)
  | 0, _ => none
  | fuel + 1, cs => do
    let ((key, v), rest) ← pair? item cs
    let ms ← ms.putDotted? v key
    match skipBlanks rest with
    | '}' :: rest => some (ms, rest)
    | ',' :: rest => pairs? item ms fuel rest
    | _ => none

/-- A value that holds no others. -/
def scalar? : List Char → Option (Value × List Char)
  | 't' :: 'r' :: 'u' :: 'e' :: rest => some (.bool true, rest)
  | 'f' :: 'a' :: 'l' :: 's' :: 'e' :: rest => some (.bool false, rest)
  | cs =>
    match text? cs with
    | some (s, rest) => some (.text s, rest)
    | none =>
      match moment? cs with
      | some r => some r
      | none => number? cs

/-- A value with others in it up to a depth. -/
def value? : Nat → List Char → Option (Value × List Char)
  | depth + 1, '[' :: rest =>
    (items? (value? depth) (rest.length + 1) rest).map fun (vs, rest) => (.list false vs, rest)
  | depth + 1, '{' :: rest =>
    match skipBlanks rest with
    | '}' :: rest => some (.table .braces [], rest)
    | rest =>
      (pairs? (value? depth) [] (rest.length + 1) rest).map fun (ms, rest) =>
        (.table .braces ms, rest)
  | _, cs => scalar? cs

/-- A document of which some lines are read: the tables so far and the header that is open. -/
structure Draft where
  root : Members := []
  header : List String := []

/-- Opens a table by a key. -/
def Draft.openTable? (d : Draft) (key : List String) : Option Draft := do
  let last ← key.getLast?
  let root ← d.root.within? (Members.openTable? last) key.dropLast
  some { root, header := key }

/-- Opens one more table in a list by a key. -/
def Draft.openItem? (d : Draft) (key : List String) : Option Draft := do
  let last ← key.getLast?
  let root ← d.root.within? (Members.openItem? last) key.dropLast
  some { root, header := key }

/-- Puts a value under a key of the open table. -/
def Draft.put? (d : Draft) (key : List String) (v : Value) : Option Draft := do
  let root ← d.root.within? (Members.putDotted? v key) d.header
  some { d with root }

/-- Reads what the front of a line says. -/
def Draft.line? (d : Draft) : List Char → Option (Draft × List Char)
  | '[' :: '[' :: rest => do
    let (key, rest) ← key? rest
    let rest ← expect? ']' (← expect? ']' rest)
    let d ← d.openItem? key
    some (d, rest)
  | '[' :: rest => do
    let (key, rest) ← key? rest
    let rest ← expect? ']' rest
    let d ← d.openTable? key
    some (d, rest)
  | cs => do
    let ((key, v), rest) ← pair? (value? depthLimit) cs
    let d ← d.put? key v
    some (d, rest)

/-- Whether nothing but a comment stands in the rest of a line. -/
def isIdleLine : List Char → Bool
  | [] => true
  | c :: _ => c == '#' || c == '\n' || c == '\r'

/-- Reads lines to the end of the text. -/
def Draft.lines? : Nat → Draft → List Char → Option Members
  | _, d, [] => some d.root
  | 0, _, _ => none
  | fuel + 1, d, cs => do
    let cs := skipBlanks cs
    let (d, rest) ← if isIdleLine cs then some (d, cs) else d.line? cs
    Draft.lines? fuel d (← finishLine? rest)

/-- Skips the mark that may open a text. -/
def skipMark : List Char → List Char
  | '\uFEFF' :: rest => rest
  | cs => cs

/-- Reads a document. -/
def document? (s : String) : Option Members :=
  let cs := skipMark s.toList
  Draft.lines? cs.length {} cs

end SmsRelay.Toml
