import SmsRelay.Proofs.Text.Digits
import SmsRelay.Proofs.Time.Civil
import SmsRelay.Time.Rfc3339

/-!
# Reading instants back

The text of an instant is read back as the same instant, for every year, every fraction of a second
and leap seconds too.

## Main results

* `Rfc3339.read?_render`: the round trip.
-/

namespace SmsRelay

namespace Rfc3339

/-! ### Reading what stands in front -/

theorem takeWhile_isDigit {ds rest : List Char} (hds : ∀ c ∈ ds, c.isDigit)
    (hrest : ∀ c ∈ rest.head?, ¬ c.isDigit) : (ds ++ rest).takeWhile Char.isDigit = ds := by
  have hnone : rest.takeWhile Char.isDigit = [] := by
    cases rest with
    | nil => rfl
    | cons c cs => exact List.takeWhile_cons_of_neg (hrest c rfl)
  rw [List.takeWhile_append_of_pos hds, hnone, List.append_nil]

/-- Digits are read as far as they go, or as many as are asked for. -/
theorem number?_append {width : ℕ} {ds r : List Char} (hds : ∀ c ∈ ds, c.isDigit)
    (hne : ds ≠ []) (hle : ds.length ≤ width)
    (hend : ds.length = width ∨ ∀ c ∈ r.head?, ¬ c.isDigit) :
    number? width (ds ++ r) = some (digitsValue ds, r) := by
  have htake : ((ds ++ r).take width).takeWhile Char.isDigit = ds := by
    rw [List.take_append, List.take_of_length_le hle]
    refine takeWhile_isDigit hds fun c hc => ?_
    rcases hend with hend | hend
    · rw [hend, Nat.sub_self, List.take_zero] at hc
      cases hc
    · cases r with
      | nil => simp at hc
      | cons d cs =>
        cases hwidth : width - ds.length with
        | zero => simp [hwidth] at hc
        | succ n =>
          rw [hwidth, List.take_succ_cons] at hc
          exact hend c hc
  rw [number?, htake, if_neg (by simpa using hne), List.drop_left]

theorem digit_bounds {c : Char} (h : c.isDigit) : 48 ≤ c.toNat ∧ c.toNat ≤ 57 := by
  simp only [Char.isDigit, Bool.and_eq_true, decide_eq_true_eq, ge_iff_le,
    UInt32.le_iff_toNat_le] at h
  exact h

theorem isSpace_of_isDigit {c : Char} (h : c.isDigit) : isSpace c = false := by
  have := digit_bounds h
  simp only [isSpace, Bool.or_eq_false_iff, Bool.and_eq_false_iff, decide_eq_false_iff_not,
    beq_eq_false_iff_ne]
  omega

theorem trimStart_cons {c : Char} (h : isSpace c = false) (cs : List Char) :
    trimStart (c :: cs) = c :: cs := by
  rw [trimStart, List.dropWhile_cons_of_neg (by simp [h])]

/-- Digits begin with a digit. -/
theorem exists_digit {ds : List Char} (hds : ∀ c ∈ ds, c.isDigit) (hne : ds ≠ []) :
    ∃ c cs, ds = c :: cs ∧ c.isDigit := by
  obtain ⟨c, cs, rfl⟩ := List.exists_cons_of_ne_nil hne
  exact ⟨c, cs, rfl, hds c List.mem_cons_self⟩

/-- A field of two digits. -/
theorem field?_padded {n : ℕ} (hn : n < 100) (rest : List Char) :
    field? 2 (padded 2 n ++ rest) = some (n, rest) := by
  have hds := fun c => isDigit_of_mem_padded (w := 2) (n := n) (c := c)
  have hlen := length_padded (w := 2) (by decide) hn
  obtain ⟨c, cs, hcs, hc⟩ := exists_digit hds (padded_ne_nil 2 n)
  have htrim : trimStart (padded 2 n ++ rest) = padded 2 n ++ rest := by
    rw [hcs, List.cons_append, trimStart_cons (isSpace_of_isDigit hc)]
  rw [field?, htrim, number?_append hds (padded_ne_nil 2 n) hlen.le (.inl hlen),
    digitsValue_padded]

theorem mark?_cons {c : Char} (h : isSpace c = false) (rest : List Char) :
    mark? c (c :: rest) = some rest := by
  rw [mark?, trimStart_cons h]
  exact if_pos rfl

/-! ### The parts of an instant -/

/-- A year without a sign. -/
theorem year?_of_isDigit {c : Char} (h : c.isDigit) (cs : List Char) :
    year? (c :: cs) = (number? 4 (c :: cs)).map fun (n, r) => ((n : ℤ), r) := by
  rw [year?, trimStart_cons (isSpace_of_isDigit h)]
  split
  · rename_i heq
    cases heq
    cases h
  · rename_i heq
    cases heq
    cases h
  · rfl

/-- **Years** of any size are read back. -/
theorem year?_yearText (year : ℤ) {rest : List Char} (hrest : ∀ c ∈ rest.head?, ¬ c.isDigit) :
    year? (yearText year ++ rest) = some (year, rest) := by
  have hds := fun n c => isDigit_of_mem_padded (w := 4) (n := n) (c := c)
  have hsigned : ∀ n,
      number? (padded 4 n ++ rest).length (padded 4 n ++ rest) = some (n, rest) := by
    intro n
    rw [number?_append (hds n) (padded_ne_nil 4 n) (by simp) (.inr hrest), digitsValue_padded]
  rw [yearText]
  split
  · rename_i hyear
    have hfour : year.toNat < 10000 := by omega
    have hlen := length_padded (w := 4) (by decide) hfour
    obtain ⟨c, cs, hcs, hc⟩ := exists_digit (hds year.toNat) (padded_ne_nil 4 year.toNat)
    have hread := number?_append (r := rest) (hds year.toNat) (padded_ne_nil 4 year.toNat)
      hlen.le (.inl hlen)
    rw [digitsValue_padded] at hread
    rw [hcs, List.cons_append] at hread ⊢
    rw [year?_of_isDigit hc, hread]
    exact congrArg (fun y => some (y, rest)) (Int.toNat_of_nonneg hyear.1)
  · by_cases hneg : year < 0
    · have hback : -(year.natAbs : ℤ) = year := by omega
      rw [if_pos hneg, List.cons_append, year?, trimStart_cons (by decide)]
      show (number? _ (padded 4 year.natAbs ++ rest)).map _ = _
      rw [hsigned]
      exact congrArg (fun y => some (y, rest)) hback
    · have hback : (year.natAbs : ℤ) = year := by omega
      rw [if_neg hneg, List.cons_append, year?, trimStart_cons (by decide)]
      show (number? _ (padded 4 year.natAbs ++ rest)).map _ = _
      rw [hsigned]
      exact congrArg (fun y => some (y, rest)) hback

/-- Digits of a fraction, with zeros for those that are left out. -/
theorem fraction?_padded {width n : ℕ} (hw : 0 < width) (hle : width ≤ 9) (hn : n < pow10 width)
    (rest : List Char) (hrest : ∀ c ∈ rest.head?, ¬ c.isDigit) :
    fraction? ('.' :: (padded width n ++ rest)) = some (n * pow10 (9 - width), rest) := by
  have hds := fun c => isDigit_of_mem_padded (w := width) (n := n) (c := c)
  have hlen := length_padded hw hn
  have htake : (padded width n).take 9 = padded width n := List.take_of_length_le (by omega)
  simp only [fraction?, takeWhile_isDigit hds hrest, htake, digitsValue_padded, hlen,
    List.drop_left' hlen]
  exact if_neg (by simpa using padded_ne_nil width n)

/-- **Fractions** are read back to the nanosecond. -/
theorem fraction?_fractionText {nanos : ℕ} (h : nanos < 1000000000) :
    fraction? (fractionText nanos ++ ['Z']) = some (nanos, ['Z']) := by
  have hZ : ∀ c ∈ ['Z'].head?, ¬ c.isDigit := by simp
  rw [fractionText]
  split
  · rename_i hzero
    rw [hzero]
    rfl
  · split
    · have hback : nanos / 1000000 * pow10 (9 - 3) = nanos := by
        show nanos / 1000000 * 1000000 = nanos
        omega
      have hthree : nanos / 1000000 < 1000 := by omega
      rw [List.cons_append, fraction?_padded (by decide) (by decide) hthree _ hZ, hback]
    · split
      · have hback : nanos / 1000 * pow10 (9 - 6) = nanos := by
          show nanos / 1000 * 1000 = nanos
          omega
        have hsix : nanos / 1000 < 1000000 := by omega
        rw [List.cons_append, fraction?_padded (by decide) (by decide) hsix _ hZ, hback]
      · rw [List.cons_append, fraction?_padded (by decide) (by decide) h _ hZ]
        simp [pow10]

/-! ### The whole -/

/-- What a text says of an instant. -/
def stampOf (t : Instant) : Stamp := ⟨t.date, t.hour, t.minute, t.second, t.fraction, 0⟩

theorem instant_bounds {t : Instant} (h : t.isValid) :
    (Instant.firstDay ≤ t.day ∧ t.day ≤ Instant.lastDay) ∧ t.secondOfDay < 86400 ∧
      (t.nanos < 1000000000 ∨ (t.nanos < 2000000000 ∧ t.secondOfDay % 60 = 59)) := by
  simp only [Instant.isValid, Bool.and_eq_true, Bool.or_eq_true, decide_eq_true_eq,
    beq_iff_eq] at h
  refine ⟨h.1, ?_, h.2⟩
  rw [Instant.secondOfDay]
  omega

/-- The clock of an instant. -/
theorem clock {t : Instant} (h : t.secondOfDay < 86400) : t.hour ≤ 23 ∧ t.minute ≤ 59 ∧
    t.hour * 3600 + t.minute * 60 + t.secondOfDay % 60 = t.secondOfDay ∧
      (t.second = t.secondOfDay % 60 ∧ t.nanos < 1000000000 ∨
        t.second = t.secondOfDay % 60 + 1 ∧ 1000000000 ≤ t.nanos) := by
  refine ⟨?_, ?_, ?_, ?_⟩
  · rw [Instant.hour]
    omega
  · rw [Instant.minute]
    omega
  · rw [Instant.hour, Instant.minute]
    omega
  · rw [Instant.second]
    split <;> omega

/-- **Calendar and clock** admit the stamp of an instant. -/
theorem instant?_stampOf {t : Instant} (h : t.isValid) : (stampOf t).instant? = some t := by
  obtain ⟨hday, hday', hnanos⟩ := instant_bounds h
  obtain ⟨hhour, hminute, hsum, hsecond⟩ := clock hday'
  have htoDays : t.date.toDays = t.day := CivilDate.toDays_ofDays t.day
  have hvalid : t.date.isValid := CivilDate.isValid_ofDays t.day
  have hseconds : t.day * 86400 + (t.secondOfDay : ℤ) = t.seconds := by
    rw [Instant.day, Instant.secondOfDay]
    omega
  have hsecond' : t.second ≤ 60 := by omega
  have hleap : (if t.second = 60 then 59 else t.second) = t.secondOfDay % 60 ∧
      t.nanos % 1000000000 + (if t.second = 60 then 1000000000 else 0) = t.nanos := by
    split <;> omega
  have hback : (⟨t.date.toDays * 86400 + ((t.hour * 3600 + t.minute * 60
      + (if t.second = 60 then 59 else t.second) : ℕ) : ℤ) - 0,
      t.fraction + if t.second = 60 then 1000000000 else 0⟩ : Instant) = t := by
    rw [htoDays, hleap.1, hsum, Int.sub_zero, hseconds, Instant.fraction, hleap.2]
  have hadmitted : (t.date.isValid && decide (Instant.firstDay ≤ t.date.toDays)
      && decide (t.date.toDays ≤ Instant.lastDay)
      && t.hour ≤ 23 && t.minute ≤ 59 && t.second ≤ 60 && decide ((0 : ℤ).natAbs < 86400)) := by
    simp [htoDays, hvalid, hhour, hminute, hsecond', hday]
  have hwithin : ∀ u : Instant, u = t →
      (if Instant.firstDay ≤ u.day ∧ u.day ≤ Instant.lastDay then some u else none) = some t := by
    rintro _ rfl
    exact if_pos hday
  exact (if_pos hadmitted).trans (hwithin _ hback)

theorem chars_eq (t : Instant) : chars t = yearText t.date.year ++ '-' :: (padded 2 t.date.month ++
    '-' :: (padded 2 t.date.day ++ 'T' :: (padded 2 t.hour ++ ':' :: (padded 2 t.minute ++
      ':' :: (padded 2 t.second ++ (fractionText t.fraction ++ ['Z'])))))) := by
  simp only [chars, List.append_assoc, List.cons_append]

/-- **The round trip.** -/
theorem read?_render {t : Instant} (h : t.isValid) : read? (render t) = some t := by
  obtain ⟨-, hday, -⟩ := instant_bounds h
  obtain ⟨hhour, hminute, -, hsecond⟩ := clock hday
  obtain ⟨-, hmonth, -, hlast⟩ := CivilDate.isValid_iff.mp (CivilDate.isValid_ofDays t.day)
  have hmonth' : t.date.month < 100 := Nat.lt_of_le_of_lt hmonth (by decide)
  have hdate : t.date.day < 100 :=
    Nat.lt_of_le_of_lt (hlast.trans (CivilDate.daysInMonth_le _ _)) (by decide)
  have hfraction : t.fraction < 1000000000 := Nat.mod_lt _ (by decide)
  have hdash : ∀ rest : List Char, ∀ c ∈ ('-' :: rest).head?, ¬ c.isDigit := by simp
  have hmark : isSpace '-' = false ∧ isSpace ':' = false := by decide
  rw [read?, render, String.toList_ofList, chars_eq]
  refine Option.bind_eq_some_iff.mpr ⟨_, year?_yearText _ (hdash _), ?_⟩
  refine Option.bind_eq_some_iff.mpr ⟨_, mark?_cons hmark.1 _, ?_⟩
  refine Option.bind_eq_some_iff.mpr ⟨_, field?_padded hmonth' _, ?_⟩
  refine Option.bind_eq_some_iff.mpr ⟨_, mark?_cons hmark.1 _, ?_⟩
  refine Option.bind_eq_some_iff.mpr ⟨_, field?_padded hdate _, ?_⟩
  refine Option.bind_eq_some_iff.mpr ⟨_, rfl, ?_⟩
  refine Option.bind_eq_some_iff.mpr ⟨_, field?_padded (by omega) _, ?_⟩
  refine Option.bind_eq_some_iff.mpr ⟨_, mark?_cons hmark.2 _, ?_⟩
  refine Option.bind_eq_some_iff.mpr ⟨_, field?_padded (by omega) _, ?_⟩
  refine Option.bind_eq_some_iff.mpr ⟨_, mark?_cons hmark.2 _, ?_⟩
  refine Option.bind_eq_some_iff.mpr ⟨_, field?_padded (by omega) _, ?_⟩
  refine Option.bind_eq_some_iff.mpr ⟨_, fraction?_fractionText hfraction, ?_⟩
  refine Option.bind_eq_some_iff.mpr ⟨_, rfl, ?_⟩
  exact instant?_stampOf h

end Rfc3339

end SmsRelay
