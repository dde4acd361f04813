import Mathlib.Tactic.IntervalCases
import SmsRelay.Text.Utf8

/-!
# Reading UTF-8 back

The automaton that reads glyphs takes the bytes of a character to that character, whatever follows.
So a text written as UTF-8 is read back as it was.

## Implementation notes

The bytes of a character are given by divisions of its code, and so is what the automaton has read
after each of them. The code of a character is no surrogate and at most `0x10FFFF`, which puts the
second byte between the bounds that the first one sets.

## Main results

* `glyphs_utf8`: the glyphs of a text are its characters.
* `text?_append`: a text that follows another one is read as it is.
* `mem_utf8EncodeChar`: a byte below `0x80` in a character's UTF-8 form is the character itself.
-/

namespace SmsRelay

namespace Utf8

/-! ### First bytes -/

theorem first_one {n : ℕ} (h : n < 0x80) : first (.ofNat n) = .inl (.char (Char.ofNat n)) := by
  have hn : (UInt8.ofNat n).toNat = n := UInt8.toNat_ofNat_of_lt' (Nat.lt_trans h (by decide))
  have hlt : UInt8.ofNat n < 0x80 := by
    rw [UInt8.lt_iff_toNat_lt, hn]
    exact h
  rw [first, if_pos hlt, hn]

theorem first_two {n : ℕ} (h : 0xC2 ≤ n) (h' : n < 0xE0) :
    first (.ofNat n) = .inr ⟨1, n - 0xC0, 0x80, 0xBF⟩ := by
  interval_cases n <;> rfl

theorem first_three {n : ℕ} (h : 0xE0 ≤ n) (h' : n < 0xF0) : first (.ofNat n) =
    .inr ⟨2, n - 0xE0, if n = 0xE0 then 0xA0 else 0x80, if n = 0xED then 0x9F else 0xBF⟩ := by
  interval_cases n <;> rfl

theorem first_four {n : ℕ} (h : 0xF0 ≤ n) (h' : n < 0xF5) : first (.ofNat n) =
    .inr ⟨3, n - 0xF0, if n = 0xF0 then 0x90 else 0x80, if n = 0xF4 then 0x8F else 0xBF⟩ := by
  interval_cases n <;> rfl

/-! ### Reading a character -/

theorem glyphsFrom_first {b : UInt8} {p : Opening} (h : first b = .inr p) (rest : Bytes) :
    glyphsFrom none (b :: rest) = glyphsFrom (some p) rest := by
  simp only [glyphsFrom, h, List.nil_append]

/-- A byte between the bounds brings six bits. -/
theorem glyphsFrom_next {p : Opening} {k : ℕ} (hk : k < 64) (hlow : p.low.toNat ≤ k + 0x80)
    (hhigh : k + 0x80 ≤ p.high.toNat) (rest : Bytes) :
    glyphsFrom (some p) (.ofNat (k + 0x80) :: rest) =
      if p.missing ≤ 1 then .char (Char.ofNat (p.code * 64 + k)) :: glyphsFrom none rest
      else glyphsFrom (some { missing := p.missing - 1, code := p.code * 64 + k }) rest := by
  have hn : (UInt8.ofNat (k + 0x80)).toNat = k + 0x80 :=
    UInt8.toNat_ofNat_of_lt' (show k + 0x80 < 256 by omega)
  have hbounds : (decide (p.low ≤ .ofNat (k + 0x80)) && decide (.ofNat (k + 0x80) ≤ p.high))
      = true := by
    rw [Bool.and_eq_true, decide_eq_true_iff, decide_eq_true_iff, UInt8.le_iff_toNat_le,
      UInt8.le_iff_toNat_le, hn]
    exact ⟨hlow, hhigh⟩
  simp only [glyphsFrom, hbounds, if_true, hn, Nat.add_sub_cancel]

/-- **The bytes of a character** are read as that character. -/
theorem glyphsFrom_utf8EncodeChar (c : Char) (rest : Bytes) :
    glyphsFrom none (String.utf8EncodeChar c ++ rest) = .char c :: glyphsFrom none rest := by
  have hc : Char.ofNat c.val.toNat = c := Char.ofNat_toNat c
  have hvalid : c.val.toNat < 0xD800 ∨ 0xDFFF < c.val.toNat ∧ c.val.toNat < 0x110000 := c.valid
  unfold String.utf8EncodeChar
  generalize c.val.toNat = v at hc hvalid
  dsimp only
  split
  · simp only [List.singleton_append, glyphsFrom, first_one (Nat.lt_succ_of_le ‹v ≤ 0x7f›), hc,
      List.nil_append]
  split
  · have hcode : (v / 64 % 0x20 + 0xC0 - 0xC0) * 64 + v % 0x40 = v := by omega
    rw [List.cons_append, List.cons_append, List.nil_append,
      glyphsFrom_first (first_two (by omega) (by omega)),
      glyphsFrom_next (by omega) (by simp) (by simp; omega), if_pos (Nat.le_refl 1), hcode, hc]
  split
  · have hcode : ((v / 4096 % 0x10 + 0xE0 - 0xE0) * 64 + v / 64 % 0x40) * 64 + v % 0x40 = v := by
      omega
    rw [List.cons_append, List.cons_append, List.cons_append, List.nil_append,
      glyphsFrom_first (first_three (by omega) (by omega)), glyphsFrom_next (by omega) ?_ ?_,
      if_neg (by simp), glyphsFrom_next (by omega) (by simp) (by simp; omega), if_pos (by simp),
      hcode, hc]
    · dsimp only
      split
      · simp
        omega
      · simp
    · dsimp only
      split
      · simp
        omega
      · simp
        omega
  · have hcode : (((v / 262144 % 0x08 + 0xF0 - 0xF0) * 64 + v / 4096 % 0x40) * 64
        + v / 64 % 0x40) * 64 + v % 0x40 = v := by
      omega
    rw [List.cons_append, List.cons_append, List.cons_append, List.cons_append, List.nil_append,
      glyphsFrom_first (first_four (by omega) (by omega)), glyphsFrom_next (by omega) ?_ ?_,
      if_neg (by simp), glyphsFrom_next (by omega) (by simp) (by simp; omega), if_neg (by simp),
      glyphsFrom_next (by omega) (by simp) (by simp; omega), if_pos (by simp), hcode, hc]
    · dsimp only
      split
      · simp
        omega
      · simp
    · dsimp only
      split
      · simp
        omega
      · simp
        omega

end Utf8

/-! ### Reading a text -/

theorem glyphsFrom_utf8 (cs : List Char) (rest : Bytes) :
    Utf8.glyphsFrom none (cs.flatMap String.utf8EncodeChar ++ rest)
      = cs.map .char ++ Utf8.glyphsFrom none rest := by
  induction cs with
  | nil => rfl
  | cons c cs ih =>
    rw [List.flatMap_cons, List.append_assoc, Utf8.glyphsFrom_utf8EncodeChar, ih]
    rfl

/-- **The glyphs of a text** are its characters. -/
theorem glyphs_utf8 (s : String) : glyphs (utf8 s) = Glyph.ofString s := by
  have h := glyphsFrom_utf8 s.toList []
  rwa [List.append_nil, Utf8.glyphsFrom, if_neg (by simp), List.append_nil] at h

theorem text?_utf8 (s : String) : Bytes.text? (utf8 s) = some s := by
  rw [Bytes.text?, glyphs_utf8, Glyph.ofString, Glyph.chars?_map_char, Option.map_some,
    String.ofList_toList]

/-- Bytes that form characters are read as they are, whatever follows. -/
theorem glyphsFrom_append {o : Option Utf8.Opening} {bs : Bytes}
    (h : .stray ∉ Utf8.glyphsFrom o bs) (more : Bytes) :
    Utf8.glyphsFrom o (bs ++ more) = Utf8.glyphsFrom o bs ++ glyphs more := by
  induction bs generalizing o with
  | nil =>
    cases o with
    | none => rfl
    | some p => exact absurd List.mem_cons_self h
  | cons b bs ih =>
    cases o with
    | none =>
      simp only [List.cons_append, Utf8.glyphsFrom, List.nil_append] at h ⊢
      cases hfirst : Utf8.first b with
      | inl g =>
        simp only [hfirst] at h ⊢
        rw [ih (List.not_mem_of_not_mem_cons h)]
        rfl
      | inr p =>
        simp only [hfirst] at h ⊢
        exact ih h
    | some p =>
      simp only [List.cons_append, Utf8.glyphsFrom] at h ⊢
      split at h
      · rename_i hbounds
        rw [if_pos hbounds, if_pos hbounds]
        split at h
        · rename_i hlast
          rw [if_pos hlast, if_pos hlast, ih (List.not_mem_of_not_mem_cons h)]
          rfl
        · rename_i hmore
          rw [if_neg hmore, if_neg hmore]
          exact ih h
      · -- a byte out of bounds leaves a stray behind
        cases hfirst : Utf8.first b <;> simp [hfirst] at h

theorem chars?_eq_some_iff {gs : List Glyph} {cs : List Char} :
    Glyph.chars? gs = some cs ↔ gs = cs.map .char := by
  constructor
  · intro h
    induction gs generalizing cs with
    | nil =>
      cases h
      rfl
    | cons g gs ih =>
      cases g with
      | stray => cases h
      | char c =>
        obtain ⟨ds, hds, rfl⟩ := Option.map_eq_some_iff.mp h
        rw [ih hds]
        rfl
  · rintro rfl
    exact Glyph.chars?_map_char cs

theorem text?_eq_some_iff {bs : Bytes} {t : String} :
    bs.text? = some t ↔ glyphs bs = Glyph.ofString t := by
  rw [Bytes.text?, Option.map_eq_some_iff, Glyph.ofString, ← chars?_eq_some_iff]
  constructor
  · rintro ⟨cs, hcs, rfl⟩
    rw [hcs, String.toList_ofList]
  · intro h
    exact ⟨_, h, String.ofList_toList⟩

/-- **A text that follows another one** is read as it is. -/
theorem text?_append {bs : Bytes} {t : String} (h : bs.text? = some t) (s : String) :
    Bytes.text? (bs ++ utf8 s) = some (t ++ s) := by
  rw [text?_eq_some_iff] at h ⊢
  have hwell : .stray ∉ Utf8.glyphsFrom none bs := by
    have hglyphs : Utf8.glyphsFrom none bs = Glyph.ofString t := h
    rw [hglyphs, Glyph.ofString]
    simp
  rw [glyphs, glyphsFrom_append hwell, glyphs_utf8, ← glyphs, h, Glyph.ofString, Glyph.ofString,
    Glyph.ofString, String.toList_append, List.map_append]

/-- **Small bytes** stand for themselves. -/
theorem mem_utf8EncodeChar {c : Char} {b : UInt8} (h : b ∈ String.utf8EncodeChar c)
    (hb : b < 0x80) : b.toNat = c.toNat := by
  have hvalid : c.val.toNat < 0x110000 := by
    rcases c.valid with h | h <;> omega
  rw [UInt8.lt_iff_toNat_lt] at hb
  change b.toNat = c.val.toNat
  unfold String.utf8EncodeChar at h
  generalize c.val.toNat = v at hvalid h ⊢
  dsimp only at h
  have hhigh : ∀ n, 0x80 ≤ n → n < 256 → b ≠ .ofNat n := by
    rintro n hn hn' rfl
    rw [UInt8.toNat_ofNat_of_lt' hn'] at hb
    exact absurd hb (Nat.not_lt.mpr hn)
  split at h
  · rw [List.mem_singleton.mp h]
    exact UInt8.toNat_ofNat_of_lt' (show v < 256 by omega)
  split at h
  · simp only [List.mem_cons, List.not_mem_nil, or_false] at h
    rcases h with h | h <;> exact (hhigh _ (by omega) (by omega) h).elim
  split at h
  · simp only [List.mem_cons, List.not_mem_nil, or_false] at h
    rcases h with h | h | h <;> exact (hhigh _ (by omega) (by omega) h).elim
  · simp only [List.mem_cons, List.not_mem_nil, or_false] at h
    rcases h with h | h | h | h <;> exact (hhigh _ (by omega) (by omega) h).elim

end SmsRelay
