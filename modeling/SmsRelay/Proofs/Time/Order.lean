import SmsRelay.Proofs.Time.Rfc3339

/-!
# Calendar and clock in the order of time

Of two days, the later one has the later date: the year decides, then the month, then the day of the
month. Of two instants outside leap seconds, the later one has the later year or, within one year,
the later month, day, hour, minute, second and fraction, the first that differs deciding.

## Main results

* `CivilDate.before_ofDays`: dates follow each other as days do.
* `Instant.year_bounds`: the years that instants lie in.
* `Instant.year_or_withinYear_lt`: the readings of calendar and clock follow each other as instants
  do.
-/

namespace SmsRelay

namespace CivilDate

/-- The first date comes before the second one. -/
def Before (d d' : CivilDate) : Prop :=
  d.year < d'.year ∨ d.year = d'.year ∧ (d.month < d'.month ∨ d.month = d'.month ∧ d.day < d'.day)

theorem before_trichotomy (d d' : CivilDate) : d.Before d' ∨ d = d' ∨ d'.Before d := by
  obtain ⟨year, month, day⟩ := d
  obtain ⟨year', month', day'⟩ := d'
  rw [Before, Before, CivilDate.mk.injEq]
  dsimp only
  omega

/-! ### First days -/

/-- The first of March of a year. -/
def marchFirst (year : ℤ) : ℤ := 365 * year + year / 4 - year / 100 + year / 400 - 719468

/-- The day of a date, with the year beginning in March. -/
theorem toDays_eq (d : CivilDate) : d.toDays =
    if d.month ≤ 2 then marchFirst (d.year - 1) + (153 * ((d.month : ℤ) + 9) + 2) / 5 + d.day - 1
    else marchFirst d.year + (153 * ((d.month : ℤ) - 3) + 2) / 5 + d.day - 1 := by
  have hyears : ∀ year : ℤ, year / 400 * 146097 + ((year - year / 400 * 400) * 365
      + (year - year / 400 * 400) / 4 - (year - year / 400 * 400) / 100) - 719468
      = marchFirst year := by
    intro year
    rw [marchFirst]
    omega
  rw [toDays]
  split
  · rw [← hyears]
    omega
  · rw [← hyears]
    omega

/-- Days of a month are counted from its first one. -/
theorem toDays_eq_first (d : CivilDate) :
    d.toDays = toDays ⟨d.year, d.month, 1⟩ + (d.day : ℤ) - 1 := by
  rw [toDays_eq, toDays_eq]
  dsimp only
  split <;> omega

/-- A year is a day longer when a leap day comes before the next March. -/
theorem marchFirst_succ (year : ℤ) :
    marchFirst year = marchFirst (year - 1) + if isLeapYear year then 366 else 365 := by
  rw [marchFirst, marchFirst]
  split
  · rename_i hleap
    rw [isLeapYear_iff] at hleap
    omega
  · rename_i hcommon
    rw [isLeapYear_iff] at hcommon
    omega

/-- A month begins where the one before it ends. -/
theorem toDays_next_month (year : ℤ) {month : ℕ} (h : 1 ≤ month) (h' : month ≤ 11) :
    toDays ⟨year, month + 1, 1⟩ = toDays ⟨year, month, 1⟩ + (daysInMonth year month : ℤ) := by
  rw [toDays_eq, toDays_eq]
  by_cases hfebruary : month = 2
  · subst hfebruary
    have hmarch := marchFirst_succ year
    simp only [daysInMonth, Nat.le_refl, if_true]
    split at hmarch
    · rename_i hleap
      simp [hleap]
      omega
    · rename_i hcommon
      simp [hcommon]
      omega
  · interval_cases month <;> simp [daysInMonth] at hfebruary ⊢ <;> omega

/-- A year begins where the last month of the one before it ends. -/
theorem toDays_next_year (year : ℤ) :
    toDays ⟨year + 1, 1, 1⟩ = toDays ⟨year, 12, 1⟩ + 31 := by
  rw [toDays_eq, toDays_eq]
  simp
  omega

/-- Later months begin after earlier ones have ended. -/
theorem toDays_later_month (year : ℤ) {month month' : ℕ} (h : 1 ≤ month) (hlt : month < month')
    (h' : month' ≤ 12) :
    toDays ⟨year, month, 1⟩ + (daysInMonth year month : ℤ) ≤ toDays ⟨year, month', 1⟩ := by
  induction month', hlt using Nat.le_induction with
  | base => rw [toDays_next_month year h (by omega)]
  | succ next hnext ih =>
    rw [toDays_next_month year (by omega) (by omega)]
    have := ih (by omega)
    omega

/-- Later years begin after earlier ones. -/
theorem toDays_later_year {year year' : ℤ} (h : year < year') :
    toDays ⟨year + 1, 1, 1⟩ ≤ toDays ⟨year', 1, 1⟩ := by
  simp only [toDays_eq, marchFirst]
  omega

variable {d d' : CivilDate}

/-- A date lies within its month. -/
theorem toDays_in_month (h : d.isValid) : toDays ⟨d.year, d.month, 1⟩ ≤ d.toDays ∧
    d.toDays < toDays ⟨d.year, d.month, 1⟩ + (daysInMonth d.year d.month : ℤ) := by
  obtain ⟨-, -, hday, hday'⟩ := isValid_iff.mp h
  have hfirst := toDays_eq_first d
  omega

/-- A date lies within its year. -/
theorem toDays_in_year (h : d.isValid) : toDays ⟨d.year, 1, 1⟩ ≤ d.toDays ∧
    d.toDays < toDays ⟨d.year + 1, 1, 1⟩ := by
  obtain ⟨hmonth, hmonth', -, -⟩ := isValid_iff.mp h
  obtain ⟨hlow, hhigh⟩ := toDays_in_month h
  have hnext := toDays_next_year d.year
  have hdecember : daysInMonth d.year 12 = 31 := rfl
  constructor
  · rcases Nat.eq_or_lt_of_le hmonth with heq | hlt
    · rwa [← heq] at hlow
    · have := toDays_later_month d.year (Nat.le_refl 1) hlt hmonth'
      omega
  · rcases Nat.eq_or_lt_of_le hmonth' with heq | hlt
    · rw [heq, hdecember] at hhigh
      omega
    · have := toDays_later_month d.year hmonth hlt (Nat.le_refl 12)
      omega

/-- The earlier date has the earlier day. -/
theorem toDays_lt_of_before (hd : d.isValid) (hd' : d'.isValid) (h : d.Before d') :
    d.toDays < d'.toDays := by
  rcases h with hyear | ⟨hyear, hmonth | ⟨hmonth, hday⟩⟩
  · have hin := toDays_in_year hd
    have hin' := toDays_in_year hd'
    have hlater := toDays_later_year hyear
    omega
  · have hin := toDays_in_month hd
    have hin' := toDays_in_month hd'
    have hlater := toDays_later_month d.year (isValid_iff.mp hd).1 hmonth (isValid_iff.mp hd').2.1
    rw [← hyear] at hin'
    omega
  · rw [toDays_eq_first, toDays_eq_first d', hyear, hmonth]
    omega

/-- The later year has the later day. -/
theorem year_le_of_toDays_le (hd : d.isValid) (hd' : d'.isValid) (h : d.toDays ≤ d'.toDays) :
    d.year ≤ d'.year := by
  by_contra hlater
  have := toDays_lt_of_before hd' hd (.inl (by omega))
  omega

/-- **Dates follow each other** as days do. -/
theorem before_ofDays {days days' : ℤ} (h : days < days') :
    (ofDays days).Before (ofDays days') := by
  rcases before_trichotomy (ofDays days) (ofDays days') with hbefore | heq | hafter
  · exact hbefore
  · have hback := congrArg toDays heq
    rw [toDays_ofDays, toDays_ofDays] at hback
    omega
  · have hback := toDays_lt_of_before (isValid_ofDays _) (isValid_ofDays _) hafter
    rw [toDays_ofDays, toDays_ofDays] at hback
    omega

end CivilDate

namespace Instant

/-- The years of instants. -/
theorem year_bounds {t : Instant} (h : t.isValid) :
    -262143 ≤ t.date.year ∧ t.date.year ≤ 262142 := by
  obtain ⟨⟨hfirst, hlast⟩, -⟩ := Rfc3339.instant_bounds h
  have hday : t.date.toDays = t.day := CivilDate.toDays_ofDays t.day
  have hdate : t.date.isValid := CivilDate.isValid_ofDays t.day
  rw [← hday] at hfirst hlast
  exact ⟨CivilDate.year_le_of_toDays_le (by decide) hdate hfirst,
    CivilDate.year_le_of_toDays_le hdate (by decide) hlast⟩

/-- What calendar and clock show of an instant besides the year. -/
def withinYear (t : Instant) : List ℕ :=
  [t.date.month, t.date.day, t.hour, t.minute, t.second, t.fraction]

/-- The clock of a later second of the day shows more. -/
theorem clock_lt {second second' : ℕ} (h : second < second') :
    second / 3600 < second' / 3600 ∨ second / 3600 = second' / 3600 ∧
      (second / 60 % 60 < second' / 60 % 60 ∨ second / 60 % 60 = second' / 60 % 60 ∧
        second % 60 < second' % 60) := by
  omega

/-- **Calendar and clock** go on as time does. -/
theorem year_or_withinYear_lt {t t' : Instant} (ht : t.nanos < 1000000000)
    (ht' : t'.nanos < 1000000000)
    (h : t.seconds * 1000000000 + t.nanos < t'.seconds * 1000000000 + t'.nanos) :
    t.date.year < t'.date.year ∨
      t.date.year = t'.date.year ∧ t.withinYear < t'.withinYear := by
  simp only [withinYear, List.cons_lt_cons_iff, List.not_lt_nil, and_false, or_false]
  rcases Int.lt_or_le t.day t'.day with hlater | hday
  · have hbefore := CivilDate.before_ofDays hlater
    rw [CivilDate.Before] at hbefore
    simp only [date]
    omega
  · have hsame : t.day = t'.day ∧ (t.secondOfDay < t'.secondOfDay ∨
        t.secondOfDay = t'.secondOfDay ∧ t.nanos < t'.nanos) := by
      simp only [day, secondOfDay] at hday ⊢
      omega
    obtain ⟨hday, hclock⟩ := hsame
    have hdate : t.date = t'.date := by rw [date, date, hday]
    have hfraction : t.fraction = t.nanos ∧ t'.fraction = t'.nanos :=
      ⟨Nat.mod_eq_of_lt ht, Nat.mod_eq_of_lt ht'⟩
    simp only [hdate, hfraction, hour, minute, second, if_pos ht, if_pos ht', Nat.add_zero,
      true_and]
    rcases hclock with hlt | ⟨heq, hlt⟩
    · have := clock_lt hlt
      omega
    · rw [heq]
      omega

end Instant

end SmsRelay
