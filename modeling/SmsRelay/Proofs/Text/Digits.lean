import Mathlib.Data.Nat.Notation
import SmsRelay.Power
import SmsRelay.Text.Digits

/-!
# What decimal digits look like

## Main results

* `isDigit_of_mem_digits`: a number is written in digits.
* `head?_digits_ne`: a positive number does not begin with a zero.
* `digitsValue_padded`: zeros in front do not change a number.
* `length_padded`: a number that is small enough takes the digits that it is given.
-/

namespace SmsRelay

theorem isDigit_of_mem_digits {n : ℕ} {c : Char} (h : c ∈ digits n) : c.isDigit :=
  Nat.isDigit_of_mem_toDigits (by decide) (by decide) h

theorem digits_ne_nil (n : ℕ) : digits n ≠ [] := Nat.toDigits_ne_nil

/-- **No leading zeros.** -/
theorem head?_digits_ne {n : ℕ} (h : 0 < n) : (digits n).head? ≠ some '0' := by
  induction n using Nat.strongRecOn with
  | ind n ih =>
    rcases Nat.lt_or_ge n 10 with hlt | hge
    · have hsmall : ∀ k : Fin 10, 0 < k.val → some k.val.digitChar ≠ some '0' := by decide
      rw [digits, Nat.toDigits_of_lt_base hlt]
      exact hsmall ⟨n, hlt⟩ h
    · rw [digits, Nat.toDigits_of_base_le (by decide) hge, List.head?_append]
      obtain ⟨c, cs, hcs⟩ := List.exists_cons_of_ne_nil (digits_ne_nil (n / 10))
      have hhead := ih (n / 10) (by omega) (by omega)
      rw [digits] at hcs hhead
      rw [hcs] at hhead ⊢
      exact hhead

/-! ### Zeros in front -/

theorem isDigit_of_mem_padded {w n : ℕ} {c : Char} (h : c ∈ padded w n) : c.isDigit := by
  rcases List.mem_append.mp h with h | h
  · rw [List.eq_of_mem_replicate h]
    rfl
  · exact isDigit_of_mem_digits h

theorem padded_ne_nil (width n : ℕ) : padded width n ≠ [] := by
  rw [padded, Ne, List.append_eq_nil_iff]
  exact fun h => digits_ne_nil n h.2

/-- **Zeros in front count for nothing.** -/
theorem digitsValue_padded (width n : ℕ) : digitsValue (padded width n) = n := by
  rw [digitsValue, padded, Nat.ofDigitChars_append, Nat.ofDigitChars_replicate_zero, Nat.mul_zero]
  exact digitsValue_digits n

/-- **The width of a small number.** -/
theorem length_padded {w n : ℕ} (hw : 0 < w) (hn : n < pow10 w) :
    (padded w n).length = w := by
  have hle : (digits n).length ≤ w := (Nat.length_toDigits_le_iff (by decide) hw).mpr hn
  rw [padded, List.length_append, List.length_replicate]
  omega

/-- Digits in front make a number no smaller. -/
theorem le_ofDigitChars (cs : List Char) (n : ℕ) : n ≤ Nat.ofDigitChars 10 cs n := by
  induction cs generalizing n with
  | nil => exact Nat.le_refl n
  | cons c cs ih =>
    rw [Nat.ofDigitChars_cons]
    have := ih (10 * n + (c.toNat - '0'.toNat))
    omega

end SmsRelay
