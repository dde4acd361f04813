/-!
# Bytes and UTF-8

Texts arrive as bytes that need not be well formed. `glyphs` reads any list of bytes as a list of
characters and strays, one stray for each maximal run of bytes that begins a character and does not
complete it. Two readings follow: the strict one, which accepts only well-formed bytes, and the
lenient one, which puts U+FFFD for each stray.

## Implementation notes

The reader is an automaton that takes one byte at a time, so that it is structurally recursive. Its
state `Opening` is a character that has begun: how many bytes it still needs, the code read so far
and the bounds of the next byte. The bounds exclude overlong forms, surrogates and codes beyond
U+10FFFF.
-/

namespace SmsRelay

/-- Raw contents of a record, a request body or a file. -/
abbrev Bytes := List UInt8

/-- The UTF-8 form of a text. -/
def utf8 (s : String) : Bytes := s.toList.flatMap String.utf8EncodeChar

/-- One unit of a text read from bytes: a character, or bytes that form none. -/
inductive Glyph where
  | char (c : Char)
  | stray
  deriving DecidableEq, Repr

namespace Utf8

/-- A character of which the first bytes have been read. -/
structure Opening where
  /-- Bytes still missing, at least one. -/
  missing : Nat
  /-- The bits read so far. -/
  code : Nat
  /-- Least value of the next byte. -/
  low : UInt8 := 0x80
  /-- Greatest value of the next byte. -/
  high : UInt8 := 0xBF
  deriving Repr

/-- What a byte means where a character begins. -/
def first (b : UInt8) : Glyph ⊕ Opening :=
  if b < 0x80 then .inl (.char (Char.ofNat b.toNat))
  else if b < 0xC2 then .inl .stray
  else if b < 0xE0 then .inr ⟨1, b.toNat - 0xC0, 0x80, 0xBF⟩
  else if b == 0xE0 then .inr ⟨2, 0, 0xA0, 0xBF⟩
  else if b == 0xED then .inr ⟨2, 0xD, 0x80, 0x9F⟩
  else if b < 0xF0 then .inr ⟨2, b.toNat - 0xE0, 0x80, 0xBF⟩
  else if b == 0xF0 then .inr ⟨3, 0, 0x90, 0xBF⟩
  else if b < 0xF4 then .inr ⟨3, b.toNat - 0xF0, 0x80, 0xBF⟩
  else if b == 0xF4 then .inr ⟨3, 4, 0x80, 0x8F⟩
  else .inl .stray

/-- The glyphs of the bytes that follow `o`. -/
def glyphsFrom (o : Option Opening) : Bytes → List Glyph
  | [] => if o.isSome then [.stray] else []
  | b :: rest =>
    let fresh := fun (done : List Glyph) =>
      match first b with
      | .inl g => done ++ g :: glyphsFrom none rest
      | .inr p => done ++ glyphsFrom (some p) rest
    match o with
    | none => fresh []
    | some p =>
      if p.low ≤ b && b ≤ p.high then
        let code := p.code * 64 + (b.toNat - 0x80)
        if p.missing ≤ 1 then .char (Char.ofNat code) :: glyphsFrom none rest
        else glyphsFrom (some { missing := p.missing - 1, code := code }) rest
      else fresh [.stray]

end Utf8

/-- Reads any bytes as characters and strays. -/
def glyphs (bs : Bytes) : List Glyph := Utf8.glyphsFrom none bs

/-- The characters of a list of glyphs without strays. -/
def Glyph.chars? : List Glyph → Option (List Char)
  | [] => some []
  | .char c :: rest => (Glyph.chars? rest).map (c :: ·)
  | .stray :: _ => none

/-- The text that the bytes spell, if they are well formed. -/
def Bytes.text? (bs : Bytes) : Option String := (Glyph.chars? (glyphs bs)).map String.ofList

/-- The text that the bytes spell, with U+FFFD for each stray. -/
def Bytes.lenientText (bs : Bytes) : String :=
  String.ofList ((glyphs bs).map fun
    | .char c => c
    | .stray => Char.ofNat 0xFFFD)

/-- A text as glyphs. -/
def Glyph.ofString (s : String) : List Glyph := s.toList.map .char

@[simp] theorem Glyph.chars?_map_char (cs : List Char) :
    Glyph.chars? (cs.map .char) = some cs := by
  induction cs with
  | nil => rfl
  | cons c cs ih => simp [Glyph.chars?, ih]

end SmsRelay
