import SmsRelay.Proofs.Text.Digits
import SmsRelay.Text.Utf8

/-!
# The order of texts

Texts are compared character by character from the left, bytes likewise. Numbers that are written
with the same number of digits stand in this order as they do by value, and so do texts that are
made of such numbers, the first of them counting most. The bytes of plain text stand in the order of
its characters.

## Main results

* `padded_append_lt_iff`: the order of texts that begin with numbers of one width.
* `utf8_lt_iff`: the order of the bytes of plain text.
-/

namespace SmsRelay

variable {α : Type} {cs ds : List Char}

/-- Texts are compared from the left. -/
theorem append_lt_append_iff [LT α] {as bs as' bs' : List α} (hlength : as.length = bs.length) :
    as ++ as' < bs ++ bs' ↔ as < bs ∨ as = bs ∧ as' < bs' := by
  induction as generalizing bs with
  | nil =>
    rw [List.length_nil, eq_comm, List.length_eq_zero_iff] at hlength
    subst hlength
    simp
  | cons a as ih =>
    cases bs with
    | nil => cases hlength
    | cons b bs =>
      rw [List.cons_append, List.cons_append, List.cons_lt_cons_iff, List.cons_lt_cons_iff,
        ih (Nat.succ.inj hlength), List.cons.injEq]
      grind

/-! ### Numbers -/

/-- A number that is smaller before digits are put behind it is smaller afterwards. -/
theorem ofDigitChars_lt (hcs : ∀ c ∈ cs, c.isDigit) (hlength : cs.length = ds.length) {m n : ℕ}
    (h : m < n) : Nat.ofDigitChars 10 cs m < Nat.ofDigitChars 10 ds n := by
  induction cs generalizing ds m n with
  | nil =>
    rw [List.length_nil, eq_comm, List.length_eq_zero_iff] at hlength
    subst hlength
    exact h
  | cons c cs ih =>
    cases ds with
    | nil => cases hlength
    | cons d ds =>
      obtain ⟨hc, hcs⟩ := List.forall_mem_cons.mp hcs
      have hbounds : 48 ≤ c.toNat ∧ c.toNat ≤ 57 := Char.isDigit_iff_toNat.mp hc
      have hzero : '0'.toNat = 48 := rfl
      rw [Nat.ofDigitChars_cons, Nat.ofDigitChars_cons]
      exact ih hcs (Nat.succ.inj hlength) (by omega)

/-- The digits of the smaller number come first. -/
theorem ofDigitChars_lt_of_lt (hcs : ∀ c ∈ cs, c.isDigit) (hds : ∀ d ∈ ds, d.isDigit)
    (hlength : cs.length = ds.length) (h : cs < ds) (n : ℕ) :
    Nat.ofDigitChars 10 cs n < Nat.ofDigitChars 10 ds n := by
  induction cs generalizing ds n with
  | nil =>
    rw [List.length_nil, eq_comm, List.length_eq_zero_iff] at hlength
    subst hlength
    cases h
  | cons c cs ih =>
    cases ds with
    | nil => cases hlength
    | cons d ds =>
      obtain ⟨hc, hcs⟩ := List.forall_mem_cons.mp hcs
      obtain ⟨hd, hds⟩ := List.forall_mem_cons.mp hds
      have hbounds : 48 ≤ c.toNat ∧ c.toNat ≤ 57 := Char.isDigit_iff_toNat.mp hc
      have hzero : '0'.toNat = 48 := rfl
      rw [Nat.ofDigitChars_cons, Nat.ofDigitChars_cons]
      have htail : cs.length = ds.length := Nat.succ.inj hlength
      rcases List.cons_lt_cons_iff.mp h with hlt | ⟨heq, hrest⟩
      · have hlt : c.toNat < d.toNat := hlt
        exact ofDigitChars_lt hcs htail (by omega)
      · rw [heq]
        exact ih hcs hds htail hrest _

theorem padded_inj {w a b : ℕ} : padded w a = padded w b ↔ a = b := by
  refine ⟨fun h => ?_, fun h => h ▸ rfl⟩
  rw [← digitsValue_padded w a, h, digitsValue_padded]

/-- **Numbers of one width** stand in the order of their values. -/
theorem padded_lt_padded_iff {w a b : ℕ} (hw : 0 < w) (ha : a < pow10 w) (hb : b < pow10 w) :
    padded w a < padded w b ↔ a < b := by
  have hdigits := fun n c => isDigit_of_mem_padded (w := w) (n := n) (c := c)
  have hforth : ∀ {a b}, a < pow10 w → b < pow10 w → padded w a < padded w b → a < b := by
    intro a b ha hb h
    have hlength := (length_padded hw ha).trans (length_padded hw hb).symm
    have hvalue := ofDigitChars_lt_of_lt (hdigits a) (hdigits b) hlength h 0
    rwa [← digitsValue, ← digitsValue, digitsValue_padded, digitsValue_padded] at hvalue
  refine ⟨hforth ha hb, fun h => Decidable.byContradiction fun hnot => ?_⟩
  rcases List.le_iff_lt_or_eq.mp (List.not_lt.mp hnot) with hlt | heq
  · exact Nat.lt_asymm h (hforth hb ha hlt)
  · exact Nat.ne_of_lt h (padded_inj.mp heq.symm)

/-- **Texts that begin with numbers** of one width. -/
theorem padded_append_lt_iff {w a b : ℕ} (hw : 0 < w) (ha : a < pow10 w) (hb : b < pow10 w) :
    padded w a ++ cs < padded w b ++ ds ↔ a < b ∨ a = b ∧ cs < ds := by
  rw [append_lt_append_iff ((length_padded hw ha).trans (length_padded hw hb).symm),
    padded_lt_padded_iff hw ha hb, padded_inj]

/-! ### Bytes -/

/-- The byte of a plain character. -/
theorem utf8EncodeChar_ascii {c : Char} (h : c.toNat < 0x80) :
    String.utf8EncodeChar c = [.ofNat c.toNat] := by
  rw [String.utf8EncodeChar]
  exact if_pos (Nat.le_of_lt_succ h)

theorem flatMap_ascii (h : ∀ c ∈ cs, c.toNat < 0x80) :
    cs.flatMap String.utf8EncodeChar = cs.map fun c => .ofNat c.toNat := by
  induction cs with
  | nil => rfl
  | cons c cs ih =>
    obtain ⟨hc, hcs⟩ := List.forall_mem_cons.mp h
    rw [List.flatMap_cons, utf8EncodeChar_ascii hc, ih hcs]
    rfl

/-- Plain text has as many bytes as characters. -/
theorem length_utf8_ascii {s : String} (h : ∀ c ∈ s.toList, c.toNat < 0x80) :
    (utf8 s).length = s.toList.length := by
  rw [utf8, flatMap_ascii h, List.length_map]

theorem map_byte_lt_iff (hcs : ∀ c ∈ cs, c.toNat < 0x80) (hds : ∀ d ∈ ds, d.toNat < 0x80) :
    cs.map (fun c => UInt8.ofNat c.toNat) < ds.map (fun d => UInt8.ofNat d.toNat) ↔ cs < ds := by
  induction cs generalizing ds with
  | nil => cases ds <;> simp
  | cons c cs ih =>
    cases ds with
    | nil => simp
    | cons d ds =>
      obtain ⟨hc, hcs⟩ := List.forall_mem_cons.mp hcs
      obtain ⟨hd, hds⟩ := List.forall_mem_cons.mp hds
      have hbyte : ∀ {n}, n < 0x80 → (UInt8.ofNat n).toNat = n :=
        fun hn => UInt8.toNat_ofNat_of_lt' (Nat.lt_trans hn (by decide))
      have hlt : UInt8.ofNat c.toNat < UInt8.ofNat d.toNat ↔ c < d := by
        rw [UInt8.lt_iff_toNat_lt, hbyte hc, hbyte hd]
        exact Iff.rfl
      have heq : UInt8.ofNat c.toNat = UInt8.ofNat d.toNat ↔ c = d := by
        rw [← UInt8.toNat_inj, hbyte hc, hbyte hd, Char.toNat_inj]
      rw [List.map_cons, List.map_cons, List.cons_lt_cons_iff, List.cons_lt_cons_iff, hlt, heq,
        ih hcs hds]

/-- **Plain text** has its bytes in the order of its characters. -/
theorem utf8_lt_iff {s t : String} (hs : ∀ c ∈ s.toList, c.toNat < 0x80)
    (ht : ∀ c ∈ t.toList, c.toNat < 0x80) : utf8 s < utf8 t ↔ s.toList < t.toList := by
  rw [utf8, utf8, flatMap_ascii hs, flatMap_ascii ht, map_byte_lt_iff hs ht]

end SmsRelay
