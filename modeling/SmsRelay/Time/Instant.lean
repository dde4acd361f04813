import SmsRelay.Time.Civil

/-!
# Instants

A point in time in UTC, to the nanosecond, as seconds from 1970-01-01T00:00:00Z and nanoseconds
within the second. A leap second is the second `59` of a minute continued: its nanoseconds run from
`10 ^ 9` to `2 * 10 ^ 9`.
-/

namespace SmsRelay

/-- A point in time in UTC. -/
structure Instant where
  /-- Seconds from 1970-01-01T00:00:00Z, leap seconds not counted. -/
  seconds : Int
  /-- Nanoseconds within the second; `10 ^ 9` and more within a leap second. -/
  nanos : Nat
  deriving DecidableEq, Repr

namespace Instant

/-- The first day that an instant may lie on, -262143-01-01. -/
def firstDay : Int := CivilDate.toDays ⟨-262143, 1, 1⟩

/-- The last day that an instant may lie on, 262142-12-31. -/
def lastDay : Int := CivilDate.toDays ⟨262142, 12, 31⟩

/-- The day of the instant, counted from 1970-01-01. -/
def day (t : Instant) : Int := t.seconds / 86400

/-- The second of the day. -/
def secondOfDay (t : Instant) : Nat := (t.seconds % 86400).toNat

/-- An instant within the range of days; a leap second, if there is one, continues a second `59`. -/
def isValid (t : Instant) : Bool :=
  decide (firstDay ≤ t.day) && decide (t.day ≤ lastDay)
    && (t.nanos < 1000000000 || (t.nanos < 2000000000 && t.secondOfDay % 60 == 59))

/-- The instant of a second and a nanosecond, if there is one. -/
def ofParts? (seconds : Int) (nanos : Nat) : Option Instant :=
  if Instant.isValid ⟨seconds, nanos⟩ then some ⟨seconds, nanos⟩ else none

/-- The instant that lies a number of milliseconds after 1970-01-01T00:00:00Z. -/
def ofMillis? (millis : Int) : Option Instant :=
  ofParts? (millis / 1000) ((millis % 1000).toNat * 1000000)

/-- The milliseconds from 1970-01-01T00:00:00Z to the instant, rounded down. -/
def toMillis (t : Instant) : Int := t.seconds * 1000 + (t.nanos / 1000000 : Nat)

/-- The date of the instant. -/
def date (t : Instant) : CivilDate := CivilDate.ofDays t.day

/-- The hour of the day. -/
def hour (t : Instant) : Nat := t.secondOfDay / 3600

/-- The minute of the hour. -/
def minute (t : Instant) : Nat := t.secondOfDay / 60 % 60

/-- The second of the minute as a clock shows it, `60` within a leap second. -/
def second (t : Instant) : Nat :=
  t.secondOfDay % 60 + if t.nanos < 1000000000 then 0 else 1

/-- The nanoseconds of the second as a clock shows them. -/
def fraction (t : Instant) : Nat := t.nanos % 1000000000

/-- Instants in order of time. -/
def le (a b : Instant) : Bool :=
  decide (a.seconds < b.seconds) || (a.seconds == b.seconds && a.nanos ≤ b.nanos)

theorem le_total (a b : Instant) : a.le b || b.le a := by
  simp only [le, Bool.or_eq_true, Bool.and_eq_true, decide_eq_true_eq, beq_iff_eq]
  omega

theorem le_trans {a b c : Instant} (hab : a.le b) (hbc : b.le c) : a.le c := by
  simp only [le, Bool.or_eq_true, Bool.and_eq_true, decide_eq_true_eq, beq_iff_eq] at hab hbc ⊢
  omega

theorem ofParts?_eq_some {seconds : Int} {nanos : Nat} {t : Instant}
    (h : ofParts? seconds nanos = some t) : t = ⟨seconds, nanos⟩ ∧ t.isValid = true := by
  unfold ofParts? at h
  split at h
  · rename_i hv
    cases h
    exact ⟨rfl, hv⟩
  · cases h

end Instant

end SmsRelay
