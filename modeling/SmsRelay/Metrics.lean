import SmsRelay.Power

/-!
# Metrics

What a consumer counts: records received and decoded, batches handed to the store, and what became
of their messages.

## Main results

* `flushed_balance`: a batch adds to the three outcomes together what it held, as long as the store
  does not account for more.
-/

namespace SmsRelay

/-- The counters of a consumer. -/
structure Metrics where
  received : Nat := 0
  decoded : Nat := 0
  decodeErrors : Nat := 0
  /-- Batches handed to the store. -/
  flushes : Nat := 0
  written : Nat := 0
  /-- Messages that the store held already. -/
  duplicates : Nat := 0
  lost : Nat := 0
  deriving DecidableEq, Repr

namespace Metrics

/-- Counts a record taken from the log. -/
def countReceived (m : Metrics) : Metrics := { m with received := m.received + 1 }

/-- Counts a record that is a message. -/
def countDecoded (m : Metrics) : Metrics := { m with decoded := m.decoded + 1 }

/-- Counts a record that is no message. -/
def countDecodeError (m : Metrics) : Metrics := { m with decodeErrors := m.decodeErrors + 1 }

/-- Counts a batch of `attempted` messages of which `written` were stored and `duplicates` had been
stored before; the others are lost. -/
def countFlush (m : Metrics) (attempted written duplicates : Nat) : Metrics :=
  { m with
    flushes := m.flushes + 1
    written := m.written + written
    duplicates := m.duplicates + duplicates
    lost := m.lost + (attempted - written - duplicates) }

/-- The counters as they are shown, 64 bits each. -/
def shown (m : Metrics) : List Nat :=
  [m.received, m.decoded, m.decodeErrors, m.flushes, m.written, m.duplicates, m.lost].map
    (· % pow2 64)

theorem flushed_balance (m : Metrics) {attempted written duplicates : Nat}
    (h : written + duplicates ≤ attempted) :
    let m' := m.countFlush attempted written duplicates
    m'.written + m'.duplicates + m'.lost = m.written + m.duplicates + m.lost + attempted := by
  simp [countFlush]; omega

end Metrics

end SmsRelay
