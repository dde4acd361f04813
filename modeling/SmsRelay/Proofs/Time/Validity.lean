import SmsRelay.Proofs.Text.Order
import SmsRelay.Proofs.Time.Rfc3339

/-!
# What is read is an instant

A text gives an instant only if there is one: the reading keeps to the range of days, and to leap
seconds at the end of a minute. So an instant is read back from its text if and only if it lies
within the range, and whatever text an instant has been read from, it is read back from its own.

## Main results

* `Rfc3339.isValid_of_read?`: what is read is an instant.
* `Rfc3339.read?_render_iff`: which instants are read back.
-/

namespace SmsRelay

/-- **Digits** make a number of their width. -/
theorem digitsValue_lt {cs : List Char} (h : ∀ c ∈ cs, c.isDigit) :
    digitsValue cs < pow10 cs.length := by
  have hlength : cs.length = (List.replicate cs.length '0').length := List.length_replicate.symm
  calc digitsValue cs
      < Nat.ofDigitChars 10 (List.replicate cs.length '0') 1 :=
        ofDigitChars_lt h hlength Nat.zero_lt_one
    _ = 10 ^ cs.length := by rw [Nat.ofDigitChars_replicate_zero, Nat.mul_one]

namespace Rfc3339

/-- A fraction is less than a second. -/
theorem fraction?_lt {cs rest : List Char} {n : ℕ} (h : fraction? cs = some (n, rest)) :
    n < 1000000000 := by
  rw [fraction?.eq_def] at h
  split at h
  · rename_i after
    dsimp only at h
    split at h
    · cases h
    · cases h
      generalize hkept : (after.takeWhile Char.isDigit).take 9 = kept
      have hdigits : ∀ c ∈ kept, c.isDigit := fun c hc =>
        List.all_eq_true.mp List.all_takeWhile c (List.mem_of_mem_take (hkept ▸ hc))
      have hlength : kept.length ≤ 9 := hkept ▸ List.length_take_le _ _
      calc digitsValue kept * pow10 (9 - kept.length)
          < pow10 kept.length * pow10 (9 - kept.length) :=
            Nat.mul_lt_mul_of_pos_right (digitsValue_lt hdigits) (Nat.pow_pos (by decide))
        _ = 10 ^ (kept.length + (9 - kept.length)) := (Nat.pow_add ..).symm
        _ = 10 ^ 9 := by rw [Nat.add_sub_cancel' hlength]
  · cases h
    decide

/-- An offset is a number of minutes. -/
theorem dvd_of_offset? {cs rest : List Char} {n : ℤ} (h : offset? cs = some (n, rest)) :
    60 ∣ n := by
  rw [offset?.eq_def] at h
  split at h
  · cases h
    exact Int.dvd_zero 60
  · cases h
    exact Int.dvd_zero 60
  · rename_i u t c after _ _
    split at h
    · cases h
      exact Int.dvd_zero 60
    · obtain ⟨sign, h⟩ : ∃ sign : ℤ, ((twoDigits? '9' (t :: c :: after)).bind fun hours =>
          (twoDigits? '5' (hours.2.dropWhile fun d => d = ':' || isSpace d)).bind fun minutes =>
            some (sign * (hours.1 * 3600 + minutes.1 * 60 : ℕ), minutes.2)) = some (n, rest) := by
        dsimp only at h
        split at h
        · exact ⟨1, h⟩
        · split at h
          · exact ⟨-1, h⟩
          · cases h
      obtain ⟨hours, -, h⟩ := Option.bind_eq_some_iff.mp h
      obtain ⟨minutes, -, h⟩ := Option.bind_eq_some_iff.mp h
      cases h
      exact Int.dvd_mul_of_dvd_right (by omega)
  · cases h

/-- **Calendar and clock** admit instants only. -/
theorem Stamp.isValid_of_instant? {s : Stamp} {t : Instant} (hfraction : s.fraction < 1000000000)
    (hoffset : 60 ∣ s.offset) (h : s.instant? = some t) : t.isValid := by
  obtain ⟨-, h⟩ := Option.ite_none_right_eq_some.mp h
  obtain ⟨hrange, h⟩ := Option.ite_none_right_eq_some.mp h
  obtain rfl := Option.some.inj h
  obtain ⟨minutes, hminutes⟩ := hoffset
  simp only [Instant.isValid, Bool.and_eq_true, Bool.or_eq_true, decide_eq_true_eq, beq_iff_eq]
  refine ⟨hrange, ?_⟩
  by_cases hleap : s.second = 60
  · -- The offset is a number of minutes, so that second 59 remains second 59 in UTC.
    refine .inr ⟨?_, ?_⟩
    · rw [if_pos hleap]
      omega
    · dsimp only [Instant.secondOfDay]
      rw [if_pos hleap]
      omega
  · rw [if_neg hleap]
    exact .inl hfraction

/-- **What is read** is an instant. -/
theorem isValid_of_read? {s : String} {t : Instant} (h : read? s = some t) : t.isValid := by
  rw [read?, ofChars?] at h
  obtain ⟨⟨year, _⟩, -, h⟩ := Option.bind_eq_some_iff.mp h
  obtain ⟨_, -, h⟩ := Option.bind_eq_some_iff.mp h
  obtain ⟨⟨month, _⟩, -, h⟩ := Option.bind_eq_some_iff.mp h
  obtain ⟨_, -, h⟩ := Option.bind_eq_some_iff.mp h
  obtain ⟨⟨day, _⟩, -, h⟩ := Option.bind_eq_some_iff.mp h
  obtain ⟨_, -, h⟩ := Option.bind_eq_some_iff.mp h
  obtain ⟨⟨hour, _⟩, -, h⟩ := Option.bind_eq_some_iff.mp h
  obtain ⟨_, -, h⟩ := Option.bind_eq_some_iff.mp h
  obtain ⟨⟨minute, _⟩, -, h⟩ := Option.bind_eq_some_iff.mp h
  obtain ⟨_, -, h⟩ := Option.bind_eq_some_iff.mp h
  obtain ⟨⟨second, _⟩, -, h⟩ := Option.bind_eq_some_iff.mp h
  obtain ⟨⟨fraction, _⟩, hfraction, h⟩ := Option.bind_eq_some_iff.mp h
  obtain ⟨⟨offset, _⟩, hoffset, h⟩ := Option.bind_eq_some_iff.mp h
  dsimp only at h
  split at h
  · exact Stamp.isValid_of_instant? (fraction?_lt hfraction) (dvd_of_offset? hoffset) h
  · cases h

/-- **An instant is read back** from its text if and only if it lies within the range. -/
theorem read?_render_iff {t : Instant} : read? (render t) = some t ↔ t.isValid :=
  ⟨isValid_of_read?, read?_render⟩

/-- The text of a leap second in the middle of a minute is read as the next second. -/
example : read? (render ⟨0, 1000000000⟩) = some ⟨1, 0⟩ := by decide +kernel

end Rfc3339

end SmsRelay
