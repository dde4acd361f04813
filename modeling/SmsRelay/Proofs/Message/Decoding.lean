import SmsRelay.Proofs.Message.RoundTrip

/-!
# What becomes of an event

The sender writes an event into the log and a consumer makes a message of it. The message says what
the event says, and its instant is the one that the timestamp names, to the millisecond and without
a leap second. An event becomes no message if one of the fields that a message requires is empty, or
if its timestamp lies beyond the instants; the first of these reasons is the one that is given.

## Main results

* `Instant.ofMillis?_eq_some_iff`, `Instant.ofMillis?_eq_none_iff`: the instants of timestamps.
* `Event.answered_encode`: what reading an event gives, whatever its strings and its timestamp.
-/

namespace SmsRelay

namespace Instant

/-- Milliseconds at which an instant lies: from the first moment of the first day to the last one of
the last day. -/
def InRange (millis : ℤ) : Prop :=
  firstDay * 86400000 ≤ millis ∧ millis < (lastDay + 1) * 86400000

variable {millis : ℤ} {t : Instant}

theorem isValid_ofMillis_iff :
    Instant.isValid ⟨millis / 1000, (millis % 1000).toNat * 1000000⟩ ↔ InRange millis := by
  have hnanos : decide ((millis % 1000).toNat * 1000000 < 1000000000) = true := by
    rw [decide_eq_true_iff]
    omega
  rw [isValid, day, hnanos, Bool.true_or, Bool.and_true, Bool.and_eq_true, decide_eq_true_iff,
    decide_eq_true_iff, InRange]
  dsimp only
  omega

/-- **The instant of a timestamp** lies exactly there, and it is none of a leap second. -/
theorem ofMillis?_eq_some_iff : ofMillis? millis = some t ↔ InRange millis ∧
    t.nanos < 1000000000 ∧ t.seconds * 1000000000 + t.nanos = millis * 1000000 := by
  rw [ofMillis?, ofParts?, ← isValid_ofMillis_iff, Option.ite_none_right_eq_some]
  refine and_congr_right fun _ => ?_
  obtain ⟨seconds, nanos⟩ := t
  rw [Option.some.injEq, Instant.mk.injEq]
  dsimp only
  omega

/-- A timestamp without an instant lies beyond them. -/
theorem ofMillis?_eq_none_iff : ofMillis? millis = none ↔ ¬ InRange millis := by
  rw [ofMillis?, ofParts?, ← isValid_ofMillis_iff]
  simp

end Instant

namespace Event

/-- The first of the fields that a message requires which is empty. -/
def firstEmpty? (e : Event) : Option String :=
  ([("phoneNumber", e.phone), ("text", e.text), ("status", e.status)].find? (·.2 = "")).map
    Prod.fst

/-- A message says what an event says. -/
structure Told (e : Event) (m : Message) : Prop where
  correlationId : m.correlationId = e.correlationId
  phone : m.phone = e.phone
  text : m.text = e.text
  status : m.status = e.status
  second : m.createdAt.nanos < 1000000000
  instant : m.createdAt.seconds * 1000000000 + m.createdAt.nanos = e.timestamp * 1000000
  id : m.id = messageId m.createdAt

/-- What is to be made of an event. -/
structure Answered (e : Event) (r : Except DecodeError Message) : Prop where
  accepted : (∃ m, r = .ok m) ↔
    e.phone ≠ "" ∧ e.text ≠ "" ∧ e.status ≠ "" ∧ Instant.InRange e.timestamp
  told : ∀ m, r = .ok m → e.Told m
  refused : ∀ fault, r = .error fault ↔
    (∃ name, e.firstEmpty? = some name ∧ fault = .missingField name) ∨
      (e.firstEmpty? = none ∧ ¬ Instant.InRange e.timestamp ∧ fault = .timestamp e.timestamp)
  wellFormed : r ≠ .error .malformed

variable {e : Event}

/-- The reason why an event becomes no message. -/
theorem toMessage_error_iff {fault : DecodeError} : e.toMessage = .error fault ↔
    (∃ name, e.firstEmpty? = some name ∧ fault = .missingField name) ∨
      (e.firstEmpty? = none ∧ ¬ Instant.InRange e.timestamp ∧ fault = .timestamp e.timestamp) := by
  rw [toMessage, firstEmpty?, ← Instant.ofMillis?_eq_none_iff]
  by_cases hphone : e.phone = ""
  · simp [hphone, @eq_comm _ _ fault]
  · by_cases htext : e.text = ""
    · simp [hphone, htext, @eq_comm _ _ fault]
    · by_cases hstatus : e.status = ""
      · simp [hphone, htext, hstatus, @eq_comm _ _ fault]
      · cases Instant.ofMillis? e.timestamp <;>
          simp [hphone, htext, hstatus, @eq_comm _ _ fault]

/-- What is made of an event. -/
theorem answered_toMessage (e : Event) : e.Answered e.toMessage := by
  refine ⟨?_, fun m hm => ?_, fun fault => toMessage_error_iff, fun hmalformed => ?_⟩
  · constructor
    · rintro ⟨m, hm⟩
      obtain ⟨hphone, htext, hstatus, t, ht, -⟩ := toMessage_ok_iff.mp hm
      exact ⟨hphone, htext, hstatus, (Instant.ofMillis?_eq_some_iff.mp ht).1⟩
    · rintro ⟨hphone, htext, hstatus, hrange⟩
      obtain ⟨t, ht⟩ := Option.ne_none_iff_exists'.mp
        (mt Instant.ofMillis?_eq_none_iff.mp (not_not_intro hrange))
      exact ⟨_, toMessage_ok_iff.mpr ⟨hphone, htext, hstatus, t, ht, rfl⟩⟩
  · obtain ⟨-, -, -, t, ht, rfl⟩ := toMessage_ok_iff.mp hm
    obtain ⟨-, hsecond, hinstant⟩ := Instant.ofMillis?_eq_some_iff.mp ht
    exact ⟨rfl, rfl, rfl, rfl, hsecond, hinstant, rfl⟩
  · rcases toMessage_error_iff.mp hmalformed with ⟨name, -, hname⟩ | ⟨-, -, htime⟩
    · cases hname
    · cases htime

/-- **What becomes of an event** that went through the log, for any strings and any timestamp of 64
bits. -/
theorem answered_encode (h : -(pow2 63 : ℤ) ≤ e.timestamp) (h' : e.timestamp < (pow2 63 : ℤ)) :
    e.Answered (decode e.encode) := by
  rw [decode_encode h h']
  exact answered_toMessage e

/-- An event before 1970 whose strings hold a quote, a backslash, a line feed, a control character
and a character beyond the first plane. -/
theorem answered_encode_escapes :
    let e : Event := ⟨"", "\"1\"", "a\\b\nc\x01", "😀", -1⟩
    (-(pow2 63 : ℤ) ≤ e.timestamp ∧ e.timestamp < (pow2 63 : ℤ)) ∧ e.Answered (decode e.encode) ∧
      e.toMessage = .ok ⟨"msg-19691231235959.999000000", "", "\"1\"", "a\\b\nc\x01", "😀",
        ⟨-1, 999000000⟩⟩ := by
  intro e
  have hlow : -(pow2 63 : ℤ) ≤ e.timestamp := by decide
  have hhigh : e.timestamp < (pow2 63 : ℤ) := by decide
  exact ⟨⟨hlow, hhigh⟩, answered_encode hlow hhigh, by decide +kernel⟩

end Event

end SmsRelay
