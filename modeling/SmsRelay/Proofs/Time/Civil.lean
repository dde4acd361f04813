import Mathlib.Tactic.IntervalCases
import SmsRelay.Time.Civil

/-!
# The calendar in both directions

Each number of days names a date that the calendar has, and the date names the number.

## Implementation notes

A day of an era is split into centuries of 36524 days, spans of 1461 days and years of 365 days; the
last century and the last year of a span may be a day longer. On the parts of this split all
divisions are linear.

## Main results

* `toDays_ofDays`: the date of a number of days lies so many days after 1970-01-01.
* `isValid_ofDays`: the calendar has this date.
-/

namespace SmsRelay

namespace CivilDate

/-! ### The years of an era -/

/-- The year of an era in which a day of the era lies. -/
def yearIn (day : ℤ) : ℤ := (day - day / 1460 + day / 36524 - day / 146096) / 365

/-- The day of this year. -/
def dayIn (day : ℤ) : ℤ := day - (365 * yearIn day + yearIn day / 4 - yearIn day / 100)

/-- The parts of a day of an era, which is not its last. -/
structure Split (day century span left year : ℤ) : Prop where
  century_le : 0 ≤ century ∧ century ≤ 3
  span_le : 0 ≤ span ∧ span ≤ 24
  year_le : 0 ≤ year ∧ year ≤ 3
  begun : 365 * year ≤ left
  going : left < 365 * year + 365 ∨ (year = 3 ∧ left = 1460 ∧ span < 24)
  sum : day = 36524 * century + 1461 * span + left

theorem exists_split {day : ℤ} (h : 0 ≤ day) (h' : day < 146096) :
    ∃ century span left year, Split day century span left year := by
  refine ⟨day / 36524, day % 36524 / 1461, day % 36524 % 1461,
    min (day % 36524 % 1461 / 365) 3, ?_, ?_, ?_, ?_, ?_, ?_⟩ <;> omega

theorem Split.yearIn {day century span left year : ℤ} (h : Split day century span left year) :
    yearIn day = 100 * century + 4 * span + year := by
  obtain ⟨hcentury, hspan, hyear, hbegun, hgoing, hday⟩ := h
  have hlast : day / 146096 = 0 := by omega
  have hdiv : day / 36524 = century := by omega
  rw [CivilDate.yearIn, hlast, hdiv]
  -- the spans of 1460 days run ahead of those of 1461 days
  by_cases hahead : 1460 ≤ 24 * century + span + left
  · have hquarter : day / 1460 = 25 * century + span + 1 := by omega
    rw [hquarter]
    omega
  · have hquarter : day / 1460 = 25 * century + span := by omega
    rw [hquarter]
    omega

/-- **The year and the day in it.** A year has a 366th day only if the next one is a leap year,
since years begin in March. -/
theorem yearIn_dayIn {day : ℤ} (h : 0 ≤ day) (h' : day < 146097) :
    (0 ≤ yearIn day ∧ yearIn day ≤ 399) ∧ (0 ≤ dayIn day ∧ dayIn day ≤ 365) ∧
      (dayIn day = 365 →
        (yearIn day + 1) % 4 = 0 ∧ ((yearIn day + 1) % 100 ≠ 0 ∨ yearIn day = 399)) := by
  by_cases hlast : day = 146096
  · subst hlast
    decide
  · obtain ⟨century, span, left, year, hsplit⟩ := exists_split h (by omega)
    rw [dayIn, hsplit.yearIn]
    obtain ⟨hcentury, hspan, hyear, hbegun, hgoing, hday⟩ := hsplit
    have hhundred : (100 * century + 4 * span + year) / 100 = century := by omega
    have hquarter : (100 * century + 4 * span + year) / 4 = 25 * century + span := by omega
    rw [hhundred, hquarter]
    omega

/-! ### The months of a year -/

/-- The month of a day of a year, counted from March. -/
def monthIn (day : ℤ) : ℤ := (5 * day + 2) / 153

theorem monthIn_bounds {day : ℤ} (h : 0 ≤ day) (h' : day ≤ 365) :
    0 ≤ monthIn day ∧ monthIn day ≤ 11 ∧ (153 * monthIn day + 2) / 5 ≤ day := by
  rw [monthIn]
  omega

/-- The month as a date counts it. -/
def monthOf (month : ℤ) : ℤ := if month < 10 then month + 3 else month - 9

/-- The parts of the date that lies a number of days after 1970-01-01. -/
theorem ofDays_eq {days era day : ℤ} (hera : (days + 719468) / 146097 = era)
    (hday : days + 719468 = era * 146097 + day) : ofDays days =
      { year := if monthOf (monthIn (dayIn day)) ≤ 2 then yearIn day + era * 400 + 1
          else yearIn day + era * 400
        month := (monthOf (monthIn (dayIn day))).toNat
        day := (dayIn day - (153 * monthIn (dayIn day) + 2) / 5 + 1).toNat } := by
  have hleft : days + 719468 - era * 146097 = day := by omega
  simp only [ofDays, hera, hleft]
  rfl

/-- The parts of a number of days. -/
theorem exists_days (days : ℤ) : ∃ era day, (days + 719468) / 146097 = era ∧
    days + 719468 = era * 146097 + day ∧ 0 ≤ day ∧ day < 146097 :=
  ⟨(days + 719468) / 146097, (days + 719468) % 146097, rfl, by omega, by omega, by omega⟩

/-- **Back to the days.** -/
theorem toDays_ofDays (days : ℤ) : (ofDays days).toDays = days := by
  obtain ⟨era, day, hera, hday, hlow, hhigh⟩ := exists_days days
  obtain ⟨hyear, hin, -⟩ := yearIn_dayIn hlow hhigh
  obtain ⟨hmonth, hmonth', hbefore⟩ := monthIn_bounds hin.1 hin.2
  have hback : day = yearIn day * 365 + yearIn day / 4 - yearIn day / 100 + dayIn day := by
    rw [dayIn]
    omega
  rw [ofDays_eq hera hday]
  generalize yearIn day = y, dayIn day = d at *
  generalize hm : monthIn d = m at *
  have hdiv : (y + era * 400) / 400 = era := by omega
  have hmod : y + era * 400 - era * 400 = y := by omega
  by_cases hlate : m < 10
  · have hnot : ¬ m + 3 ≤ 2 := by omega
    have hnot' : ¬ (m + 3).toNat ≤ 2 := by omega
    have hcast : ((m + 3).toNat : ℤ) - 3 = m := by omega
    simp only [toDays, monthOf, if_pos hlate, if_neg hnot, if_neg hnot', hdiv, hmod, hcast]
    omega
  · have hle : m - 9 ≤ 2 := by omega
    have hle' : (m - 9).toNat ≤ 2 := by omega
    have hcast : ((m - 9).toNat : ℤ) + 9 = m := by omega
    have hyear' : y + era * 400 + 1 - 1 = y + era * 400 := by omega
    simp only [toDays, monthOf, if_neg hlate, if_pos hle, if_pos hle', hyear', hdiv, hmod, hcast]
    omega

theorem isValid_iff {d : CivilDate} : d.isValid ↔
    1 ≤ d.month ∧ d.month ≤ 12 ∧ 1 ≤ d.day ∧ d.day ≤ daysInMonth d.year d.month := by
  simp [isValid, and_assoc]

theorem isLeapYear_iff {year : ℤ} :
    isLeapYear year ↔ year % 4 = 0 ∧ (year % 100 ≠ 0 ∨ year % 400 = 0) := by
  simp [isLeapYear]

theorem daysInMonth_le (year : ℤ) (month : ℕ) : daysInMonth year month ≤ 31 := by
  simp only [daysInMonth]
  split
  · split <;> decide
  all_goals decide

/-- The length of a month other than February, which is the last. -/
theorem daysInMonth_monthOf (year : ℤ) {month : ℤ} (h : 0 ≤ month) (h' : month ≤ 10) :
    (153 * (month + 1) + 2) / 5 - (153 * month + 2) / 5 ≤
      daysInMonth year (monthOf month).toNat := by
  interval_cases month <;> simp [daysInMonth, monthOf]

/-- **The calendar has the date.** -/
theorem isValid_ofDays (days : ℤ) : (ofDays days).isValid := by
  obtain ⟨era, day, hera, hday, hlow, hhigh⟩ := exists_days days
  obtain ⟨hyear, hin, hleap⟩ := yearIn_dayIn hlow hhigh
  obtain ⟨hmonth, hmonth', hbefore⟩ := monthIn_bounds hin.1 hin.2
  have hafter : dayIn day < (153 * (monthIn (dayIn day) + 1) + 2) / 5 := by
    rw [monthIn]
    omega
  rw [ofDays_eq hera hday]
  generalize yearIn day = y, dayIn day = d at *
  generalize hm : monthIn d = m at *
  rw [isValid_iff]
  dsimp only
  by_cases hfebruary : m = 11
  · subst hfebruary
    show 1 ≤ 2 ∧ 2 ≤ 12 ∧ 1 ≤ (d - 337 + 1).toNat ∧
      (d - 337 + 1).toNat ≤ if isLeapYear (y + era * 400 + 1) then 29 else 28
    refine ⟨by decide, by decide, by omega, ?_⟩
    split
    · omega
    · rename_i hcommon
      have hd : d ≠ 365 := fun hd => hcommon (isLeapYear_iff.mpr (by have := hleap hd; omega))
      omega
  · have hlong := daysInMonth_monthOf (if monthOf m ≤ 2 then y + era * 400 + 1 else y + era * 400)
      hmonth (by omega : m ≤ 10)
    have hmonthOf : 1 ≤ monthOf m ∧ monthOf m ≤ 12 := by
      rw [monthOf]
      split <;> omega
    exact ⟨by omega, by omega, by omega, by omega⟩

end CivilDate

end SmsRelay
