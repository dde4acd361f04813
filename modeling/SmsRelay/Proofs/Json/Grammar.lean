import Mathlib.Data.Nat.Notation
import SmsRelay.Json.Reader

/-!
# The grammar of JSON texts

What a text says, apart from how it is written: a `Tree`, with the literals of its numbers and the
units of its strings. `Spells` relates a tree to each of its texts, whatever the white space between
the tokens and the escapes within the strings.

## Implementation notes

A string is made of units of 16 bits, as its escapes are. A character beyond the first plane is two
units, whether it is written as it is or with two escapes. The grammar also admits units that form
no character, which are halves of such pairs; `Units.chars?` gives the characters if there is no
such half.

`Spells` is one relation for values, for the items of an array and for the members of an object, so
that an induction over it goes through all of them.
-/

namespace SmsRelay.Json

/-! ### Strings -/

/-- The units of 16 bits that a string is made of. -/
abbrev Units := List ℕ

/-- The units of a character. -/
def charUnits (c : Char) : Units :=
  if c.toNat < 0x10000 then [c.toNat]
  else [0xD800 + (c.toNat - 0x10000) / 0x400, 0xDC00 + (c.toNat - 0x10000) % 0x400]

/-- The units of a text. -/
def Units.ofString (s : String) : Units := s.toList.flatMap charUnits

/-- The first half of a pair of units. -/
def IsHigh (n : ℕ) : Prop := 0xD800 ≤ n ∧ n ≤ 0xDBFF

/-- The second half of a pair of units. -/
def IsLow (n : ℕ) : Prop := 0xDC00 ≤ n ∧ n ≤ 0xDFFF

instance (n : ℕ) : Decidable (IsHigh n) := inferInstanceAs (Decidable (_ ∧ _))

instance (n : ℕ) : Decidable (IsLow n) := inferInstanceAs (Decidable (_ ∧ _))

/-- The characters that units form, if no half of a pair stands alone. -/
def Units.chars? : Units → Option (List Char)
  | [] => some []
  | n :: us =>
    if IsHigh n then
      match us with
      | [] => none
      | m :: us =>
        if IsLow m then
          (Units.chars? us).map (Char.ofNat ((n - 0xD800) * 0x400 + (m - 0xDC00) + 0x10000) :: ·)
        else none
    else if IsLow n then none
    else (Units.chars? us).map (Char.ofNat n :: ·)

/-- The text that units form. -/
def Units.text? (us : Units) : Option String := us.chars?.map String.ofList

/-- The escapes of two characters, by the second one, with what they stand for. -/
def escapes : List (Char × Char) :=
  [('"', '"'), ('\\', '\\'), ('/', '/'), ('b', Char.ofNat 8), ('f', Char.ofNat 12), ('n', '\n'),
    ('r', '\r'), ('t', '\t')]

/-- A hexadecimal digit in small or in capital letters, and its value. -/
def IsHex (c : Char) (n : ℕ) : Prop :=
  "0123456789abcdef".toList[n]? = some c ∨ "0123456789ABCDEF".toList[n]? = some c

instance (c : Char) (n : ℕ) : Decidable (IsHex c n) := inferInstanceAs (Decidable (_ ∨ _))

/-- What a string is written as between its quotes. -/
inductive SpellsString : Units → List Char → Prop
  | nil : SpellsString [] []
  | plain {us cs} (c : Char) (hquote : c ≠ '"') (hslash : c ≠ '\\') (hcontrol : 0x20 ≤ c.toNat)
      (hrest : SpellsString us cs) : SpellsString (charUnits c ++ us) (c :: cs)
  | short {us cs} {e c : Char} (hescape : (e, c) ∈ escapes) (hrest : SpellsString us cs) :
      SpellsString (c.toNat :: us) ('\\' :: e :: cs)
  | code {us cs} {c₁ c₂ c₃ c₄ : Char} {n₁ n₂ n₃ n₄ : ℕ} (h₁ : IsHex c₁ n₁) (h₂ : IsHex c₂ n₂)
      (h₃ : IsHex c₃ n₃) (h₄ : IsHex c₄ n₄) (hrest : SpellsString us cs) :
      SpellsString ((((n₁ * 16 + n₂) * 16 + n₃) * 16 + n₄) :: us)
        ('\\' :: 'u' :: c₁ :: c₂ :: c₃ :: c₄ :: cs)

/-! ### Numbers -/

/-- Decimal digits, at least one. -/
def IsDigits (cs : List Char) : Prop := cs ≠ [] ∧ ∀ c ∈ cs, c.isDigit

instance (cs : List Char) : Decidable (IsDigits cs) :=
  haveI : Decidable (∀ c ∈ cs, c.isDigit) := List.decidableBAll _ cs
  inferInstanceAs (Decidable (_ ∧ _))

/-- A point and the digits behind it, or nothing. -/
inductive IsPart : List Char → Prop
  | nil : IsPart []
  | point {ds} (h : IsDigits ds) : IsPart ('.' :: ds)

/-- An exponent, or nothing. -/
inductive IsExponent : List Char → Prop
  | nil : IsExponent []
  | mk {e : Char} {sign ds : List Char} (he : e = 'e' ∨ e = 'E')
      (hsign : sign = [] ∨ sign = ['+'] ∨ sign = ['-']) (h : IsDigits ds) :
      IsExponent (e :: (sign ++ ds))

/-- A number without its sign. Only zero begins with a zero. -/
inductive IsMagnitude : List Char → Prop
  | mk {ds part exponent : List Char} (h : IsDigits ds) (hzero : ds.head? = some '0' → ds = ['0'])
      (hpart : IsPart part) (hexponent : IsExponent exponent) :
      IsMagnitude (ds ++ (part ++ exponent))

/-- The literal of a number. -/
inductive IsNumber : List Char → Prop
  | positive {cs} (h : IsMagnitude cs) : IsNumber cs
  | negative {cs} (h : IsMagnitude cs) : IsNumber ('-' :: cs)

/-! ### Values -/

/-- What a text says. -/
inductive Tree where
  | null
  | bool (b : Bool)
  | number (literal : List Char)
  | text (units : Units)
  | list (items : List Tree)
  | record (members : List (Units × Tree))

/-- The members of an object. -/
abbrev Members := List (Units × Tree)

/-- White space. -/
def IsSpacing (cs : List Char) : Prop := ∀ c ∈ cs, c = ' ' ∨ c = '\n' ∨ c = '\t' ∨ c = '\r'

instance (cs : List Char) : Decidable (IsSpacing cs) := List.decidableBAll _ cs

/-- A part of a text: a value, or what stands between brackets or between braces. -/
inductive Phrase where
  | value (t : Tree)
  | items (ts : List Tree)
  | members (ms : Members)

/-- The text of a member, with the white space around its name and its value. -/
def memberText (g₁ name g₂ g₃ value g₄ : List Char) : List Char :=
  g₁ ++ '"' :: (name ++ '"' :: (g₂ ++ ':' :: (g₃ ++ (value ++ g₄))))

/-- What is written for a part of a text. White space around items and members belongs to them. -/
inductive Spells : Phrase → List Char → Prop
  | null : Spells (.value .null) "null".toList
  | yes : Spells (.value (.bool true)) "true".toList
  | no : Spells (.value (.bool false)) "false".toList
  | number {cs} (h : IsNumber cs) : Spells (.value (.number cs)) cs
  | text {us cs} (h : SpellsString us cs) : Spells (.value (.text us)) ('"' :: (cs ++ ['"']))
  | emptyList {g} (h : IsSpacing g) : Spells (.value (.list [])) ('[' :: (g ++ [']']))
  | list {ts cs} (h : Spells (.items ts) cs) : Spells (.value (.list ts)) ('[' :: (cs ++ [']']))
  | emptyRecord {g} (h : IsSpacing g) : Spells (.value (.record [])) ('{' :: (g ++ ['}']))
  | record {ms cs} (h : Spells (.members ms) cs) :
      Spells (.value (.record ms)) ('{' :: (cs ++ ['}']))
  | lastItem {t g cs g'} (hg : IsSpacing g) (h : Spells (.value t) cs) (hg' : IsSpacing g') :
      Spells (.items [t]) (g ++ (cs ++ g'))
  | item {t g cs g' ts ds} (hg : IsSpacing g) (h : Spells (.value t) cs) (hg' : IsSpacing g')
      (hrest : Spells (.items ts) ds) :
      Spells (.items (t :: ts)) (g ++ (cs ++ (g' ++ ',' :: ds)))
  | lastMember {us t g₁ name g₂ g₃ cs g₄} (hg₁ : IsSpacing g₁) (hname : SpellsString us name)
      (hg₂ : IsSpacing g₂) (hg₃ : IsSpacing g₃) (h : Spells (.value t) cs) (hg₄ : IsSpacing g₄) :
      Spells (.members [(us, t)]) (memberText g₁ name g₂ g₃ cs g₄)
  | member {us t g₁ name g₂ g₃ cs g₄ ms ds} (hg₁ : IsSpacing g₁) (hname : SpellsString us name)
      (hg₂ : IsSpacing g₂) (hg₃ : IsSpacing g₃) (h : Spells (.value t) cs) (hg₄ : IsSpacing g₄)
      (hrest : Spells (.members ms) ds) :
      Spells (.members ((us, t) :: ms)) (memberText g₁ name g₂ g₃ cs g₄ ++ ',' :: ds)

/-- A text that holds one object and nothing else. -/
def SpellsObject (ms : Members) (cs : List Char) : Prop :=
  ∃ g body g', IsSpacing g ∧ Spells (.value (.record ms)) body ∧ IsSpacing g' ∧
    cs = g ++ (body ++ g')

end SmsRelay.Json
