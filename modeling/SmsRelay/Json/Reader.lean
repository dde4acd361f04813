import SmsRelay.Decimal.Binary64
import SmsRelay.Power
import SmsRelay.Text.Digits
import SmsRelay.Text.Utf8

/-!
# Reading JSON

Readers take a typed value off the front of the input and give the rest back. The first fault from
the left decides: a text that breaks the grammar is `malformed`, a value of another kind than the
one asked for is a `mismatch`.

Values that nobody asked for are skipped. Skipping checks the grammar, and within strings only
that escapes are complete: strays, unpaired surrogates and numbers of any size pass.

## Implementation notes

The input is a list of glyphs, so that bytes that are no UTF-8 can be skipped inside a string and
refused everywhere else. `skipValue` recurses into arrays and objects with a bound on the steps;
the length of the input suffices, as each step takes at least one glyph.
-/

namespace SmsRelay.Json

/-- Why a value could not be read. -/
inductive Fault where
  /-- The text breaks the grammar. -/
  | malformed
  /-- The value is of another kind or size than the one asked for. -/
  | mismatch
  deriving DecidableEq, Repr

/-- The wording of a fault. -/
def Fault.message : Fault → String
  | malformed => "malformed text"
  | mismatch => "unexpected value"

/-- What is left to read. -/
abbrev Input := List Glyph

/-- Takes a value off the front of the input. -/
abbrev Reader (α : Type) := Input → Except Fault (α × Input)

/-- The four characters of white space. -/
def isGap : Glyph → Bool
  | .char c => c = ' ' || c = '\n' || c = '\t' || c = '\r'
  | .stray => false

/-- The input after white space. -/
def skipGap (gs : Input) : Input := gs.dropWhile isGap

/-- The rest of a word whose first letter has been taken. -/
def word : List Char → Input → Except Fault Input
  | [], gs => .ok gs
  | c :: cs, .char d :: gs => if c = d then word cs gs else .error .malformed
  | _ :: _, _ => .error .malformed

/-- The value of a hexadecimal digit. -/
def hexValue? : Glyph → Option Nat
  | .char c =>
    if c.isDigit then some (c.toNat - 48)
    else if 'a' ≤ c ∧ c ≤ 'f' then some (c.toNat - 87)
    else if 'A' ≤ c ∧ c ≤ 'F' then some (c.toNat - 55)
    else none
  | .stray => none

/-- The code that four hexadecimal digits spell. -/
def hexCode? (a b c d : Glyph) : Option Nat := do
  let a ← hexValue? a
  let b ← hexValue? b
  let c ← hexValue? c
  let d ← hexValue? d
  some (((a * 16 + b) * 16 + c) * 16 + d)

/-- The character that an escape of two characters stands for. -/
def shortEscape? (c : Char) : Option Char :=
  if c = '"' then some '"'
  else if c = '\\' then some '\\'
  else if c = '/' then some '/'
  else if c = 'b' then some (Char.ofNat 8)
  else if c = 'f' then some (Char.ofNat 12)
  else if c = 'n' then some '\n'
  else if c = 'r' then some '\r'
  else if c = 't' then some '\t'
  else none

/-- Adds a character in front of what a reader of characters gives. -/
def prepend (c : Char) (r : Except Fault (List Char × Input)) : Except Fault (List Char × Input) :=
  match r with
  | .ok (cs, rest) => .ok (c :: cs, rest)
  | .error e => .error e

/-- The characters of a string up to its closing quote. `high` is the first half of a pair of
surrogates whose second half must follow. -/
def stringBody (high : Option Nat) : Input → Except Fault (List Char × Input)
  | .char c :: rest =>
    if c = '\\' then
      match rest with
      | .char 'u' :: g :: h :: i :: j :: rest =>
        match hexCode? g h i j with
        | none => .error .malformed
        | some n =>
          match high with
          | some m =>
            if 0xDC00 ≤ n ∧ n ≤ 0xDFFF then
              prepend (Char.ofNat ((m - 0xD800) * 0x400 + (n - 0xDC00) + 0x10000))
                (stringBody none rest)
            else .error .malformed
          | none =>
            if 0xD800 ≤ n ∧ n ≤ 0xDBFF then stringBody (some n) rest
            else if 0xDC00 ≤ n ∧ n ≤ 0xDFFF then .error .malformed
            else prepend (Char.ofNat n) (stringBody none rest)
      | .char e :: rest =>
        match high, shortEscape? e with
        | none, some d => prepend d (stringBody none rest)
        | _, _ => .error .malformed
      | _ => .error .malformed
    else if high.isSome then .error .malformed
    else if c = '"' then .ok ([], rest)
    else if c.toNat < 0x20 then .error .malformed
    else prepend c (stringBody none rest)
  | _ => .error .malformed

/-- The input after the closing quote of a string that is skipped. -/
def skipString : Input → Except Fault Input
  | .stray :: rest => skipString rest
  | .char c :: rest =>
    if c = '\\' then
      match rest with
      | .char 'u' :: g :: h :: i :: j :: rest =>
        if (hexCode? g h i j).isSome then skipString rest else .error .malformed
      | .char e :: rest => if (shortEscape? e).isSome then skipString rest else .error .malformed
      | _ => .error .malformed
    else if c = '"' then .ok rest
    else if c.toNat < 0x20 then .error .malformed
    else skipString rest
  | [] => .error .malformed

/-! ## Numbers -/

/-- A decimal digit. -/
def digit? : Glyph → Option Nat
  | .char c => if c.isDigit then some (c.toNat - 48) else none
  | .stray => none

/-- The digits at the front and what follows them. -/
def digitRun : Input → List Nat × Input
  | [] => ([], [])
  | g :: rest =>
    match digit? g with
    | some d => let (ds, r) := digitRun rest; (d :: ds, r)
    | none => ([], g :: rest)

/-- A number as written: whole digits, the digits after a point, an exponent with its sign. -/
structure Numeral where
  whole : List Nat
  part : Option (List Nat)
  /-- Whether the exponent is positive, and its digits. -/
  exponent : Option (Bool × List Nat)

/-- A run of digits that must not be empty. -/
def someDigits (gs : Input) : Except Fault (List Nat × Input) :=
  match digitRun gs with
  | ([], _) => .error .malformed
  | r => .ok r

/-- The digits before a point: a zero alone, or digits that do not begin with zero. -/
def wholeDigits (gs : Input) : Except Fault (List Nat × Input) := do
  match ← someDigits gs with
  | (0 :: _ :: _, _) => .error .malformed
  | r => .ok r

/-- The digits after a point, if there is one. -/
def partDigits : Input → Except Fault (Option (List Nat) × Input)
  | .char '.' :: rest => do
    let (ds, r) ← someDigits rest
    .ok (some ds, r)
  | rest => .ok (none, rest)

/-- The exponent, if there is one. -/
def exponentDigits : Input → Except Fault (Option (Bool × List Nat) × Input)
  | .char c :: rest =>
    if c = 'e' ∨ c = 'E' then do
      let (up, rest) := match rest with
        | .char '-' :: r => (false, r)
        | .char '+' :: r => (true, r)
        | r => (true, r)
      let (ds, r) ← someDigits rest
      .ok (some (up, ds), r)
    else .ok (none, .char c :: rest)
  | rest => .ok (none, rest)

/-- The grammar of a number after its sign. -/
def numeral : Reader Numeral := fun gs => do
  let (whole, gs) ← wholeDigits gs
  let (part, gs) ← partDigits gs
  let (exponent, gs) ← exponentDigits gs
  .ok (⟨whole, part, exponent⟩, gs)

/-- What a number means to the reader that asked for one. -/
inductive Number where
  /-- A natural number of 64 bits. -/
  | nat (n : Nat)
  /-- A negative integer of 64 bits, by its absolute value. -/
  | negative (n : Nat)
  /-- A number with a point or an exponent, a negative zero, or an integer beyond 64 bits. -/
  | float (x : Binary64)
  deriving DecidableEq, Repr

/-- Takes digits into a significand as long as it stays below `2 ^ 64`; gives the digits left. -/
def takeDigits (n : Nat) : List Nat → Nat × List Nat
  | [] => (n, [])
  | d :: ds => if n * 10 + d < pow2 64 then takeDigits (n * 10 + d) ds else (n, d :: ds)

/-- `f` times or divided by a power of ten, in steps of at most 308 places. -/
def scale : Nat → Binary64 → Int → Except Fault Binary64
  | 0, f, _ => .ok f
  | steps + 1, f, e =>
    if e.natAbs ≤ 308 then
      if 0 ≤ e then
        let r := f.mul (.ofNat (pow10 e.natAbs))
        if r.isInfinite then .error .malformed else .ok r
      else .ok (f.div (.ofNat (pow10 e.natAbs)))
    else if f.magnitude = 0 then .ok f
    else if 0 ≤ e then .error .malformed
    else scale steps (f.div (.ofNat (pow10 308))) (e + 308)

/-- The floating point number of a numeral. Digits of the significand beyond 64 bits are dropped;
the significand and the power of ten are rounded apart and then combined. A number beyond the range
is malformed, one that is too small is zero. -/
def Numeral.toBinary64 (m : Numeral) (isNegative : Bool) : Except Fault Binary64 := do
  let part := m.part.getD []
  let (n, left) := takeDigits 0 m.whole
  let (n, rest) := takeDigits n part
  let start : Int := (left.length : Int) - (part.length - rest.length : Nat)
  let exponent ← match m.exponent with
    | none => .ok start
    | some (up, ds) =>
      let e : Nat := ds.foldl (fun a d => a * 10 + d) 0
      if e < pow2 31 then .ok (if up then start + e else start - e)
      else if up && n != 0 then .error .malformed
      else .ok (-4000)
  let f ← scale 16 (.ofNat n) exponent
  .ok (if isNegative then f.neg else f)

/-- The number that a numeral stands for. -/
def Numeral.toNumber (m : Numeral) (isNegative : Bool) : Except Fault Number :=
  match m.part, m.exponent, takeDigits 0 m.whole with
  | none, none, (n, []) =>
    if !isNegative then .ok (.nat n)
    else if n = 0 ∨ pow2 63 < n then .ok (.float (.neg (.ofNat n)))
    else .ok (.negative n)
  | _, _, _ => (m.toBinary64 isNegative).map .float

/-- A number, from its sign or first digit on. -/
def number : Reader Number := fun gs => do
  let (isNegative, gs) := match gs with
    | .char '-' :: r => (true, r)
    | r => (false, r)
  let (m, gs) ← numeral gs
  let n ← m.toNumber isNegative
  .ok (n, gs)

/-- Whether a number begins here. -/
def startsNumber : Input → Bool
  | .char c :: _ => c = '-' || c.isDigit
  | _ => false

/-! ## Skipping -/

mutual

/-- The input after a value of any kind. -/
def skipValue : Nat → Input → Except Fault Input
  | 0, _ => .error .malformed
  | n + 1, gs =>
    match skipGap gs with
    | .char c :: rest =>
      if c = 'n' then word "ull".toList rest
      else if c = 't' then word "rue".toList rest
      else if c = 'f' then word "alse".toList rest
      else if c = '"' then skipString rest
      else if c = '[' then
        match skipGap rest with
        | .char ']' :: r => .ok r
        | r => skipItems n r
      else if c = '{' then
        match skipGap rest with
        | .char '}' :: r => .ok r
        | r => skipMembers n r
      else if c = '-' then (numeral rest).map (·.2)
      else if c.isDigit then (numeral (.char c :: rest)).map (·.2)
      else .error .malformed
    | _ => .error .malformed

/-- The input after the items of an array, of which there is at least one, and its bracket. -/
def skipItems : Nat → Input → Except Fault Input
  | 0, _ => .error .malformed
  | n + 1, gs => do
    match skipGap (← skipValue n gs) with
    | .char ']' :: r => .ok r
    | .char ',' :: r => skipItems n r
    | _ => .error .malformed

/-- The input after the members of an object, of which there is at least one, and its brace. -/
def skipMembers : Nat → Input → Except Fault Input
  | 0, _ => .error .malformed
  | n + 1, gs =>
    match skipGap gs with
    | .char '"' :: r => do
      match skipGap (← skipString r) with
      | .char ':' :: r =>
        match skipGap (← skipValue n r) with
        | .char '}' :: r => .ok r
        | .char ',' :: r => skipMembers n r
        | _ => .error .malformed
      | _ => .error .malformed
    | _ => .error .malformed

end

/-- The input after a value of any kind. -/
def skip (gs : Input) : Except Fault Input := skipValue (2 * gs.length + 1) gs

/-! ## Readers of single values -/

/-- The fault of a value that is not of the kind asked for: reading it at all may fail first. -/
def refuse (gs : Input) : Fault :=
  let check := fun (r : Except Fault Unit) => match r with
    | .ok _ => Fault.mismatch
    | .error e => e
  match gs with
  | .char c :: rest =>
    if c = 'n' then check ((word "ull".toList rest).map fun _ => ())
    else if c = 't' then check ((word "rue".toList rest).map fun _ => ())
    else if c = 'f' then check ((word "alse".toList rest).map fun _ => ())
    else if c = '"' then check ((stringBody none rest).map fun _ => ())
    else if c = '[' ∨ c = '{' then .mismatch
    else if startsNumber gs then check ((number gs).map fun _ => ())
    else .malformed
  | _ => .malformed

/-- A string. -/
def text : Reader String := fun gs =>
  match skipGap gs with
  | .char '"' :: rest => (stringBody none rest).map fun (cs, r) => (String.ofList cs, r)
  | r => .error (refuse r)

/-- A truth value. -/
def truth : Reader Bool := fun gs =>
  match skipGap gs with
  | .char 't' :: rest => (word "rue".toList rest).map (true, ·)
  | .char 'f' :: rest => (word "alse".toList rest).map (false, ·)
  | r => .error (refuse r)

/-- A number that `accept` takes. -/
def numberWith {α : Type} (accept : Number → Option α) : Reader α := fun gs =>
  let gs := skipGap gs
  if startsNumber gs then do
    let (n, r) ← number gs
    match accept n with
    | some v => .ok (v, r)
    | none => .error .mismatch
  else .error (refuse gs)

/-- A natural number of at most `bound`. -/
def natUpTo (bound : Nat) : Reader Nat := numberWith fun
  | .nat n => if n ≤ bound then some n else none
  | _ => none

/-- An integer of 64 bits. -/
def int64 : Reader Int := numberWith fun
  | .nat n => if n < pow2 63 then some n else none
  | .negative n => some (-(n : Int))
  | .float _ => none

/-- A floating point number; integers are rounded. -/
def float : Reader Binary64 := numberWith fun
  | .nat n => some (.ofNat n)
  | .negative n => some (Binary64.ofNat n).neg
  | .float x => some x

/-- `null` as a default, and all else by the reader. -/
def orNull {α : Type} (default : α) (r : Reader α) : Reader α := fun gs =>
  match skipGap gs with
  | .char 'n' :: rest => (word "ull".toList rest).map (default, ·)
  | g => r g

/-- A value whose text is the whole input. -/
def whole {α : Type} (r : Reader α) (gs : Input) : Except Fault α := do
  let (v, rest) ← r gs
  if (skipGap rest).isEmpty then .ok v else .error .malformed

end SmsRelay.Json
