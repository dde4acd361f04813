import SmsRelay.Message.Event
import SmsRelay.Proofs.Json.RoundTrip
import SmsRelay.Proofs.Text.Utf8
import SmsRelay.Proofs.Time.Rfc3339

/-!
# Events and messages are read back

What the sender writes into the log is read back by the consumers, and what the store writes into
its files is read back by the store.

## Main results

* `Event.decode_encode`: the message of an event that went through the log.
* `Message.read_render`: a message that went through a file.
-/

namespace SmsRelay

namespace Json

/-- A field that is stored by `set` changes the record by `set`. -/
theorem reads_of {σ α : Type} {r : Reader α} {v : Value} {a : α} (h : Reads r v a) (name : String)
    (set : α → σ → σ) : Reads (Field.of name r set).read v (set a) := by
  intro rest hrest
  rw [Field.of]
  dsimp only
  rw [h rest hrest]
  rfl

/-- A field that must be there is read like any other. -/
theorem reads_mandatory {σ : Type} {f : Field σ} {v : Value} {change : σ → σ}
    (h : Reads f.read v change) : Reads f.mandatory.read v change :=
  h

end Json

/-- Instants lie within 64 bits of milliseconds. -/
theorem Instant.millis_bounds {millis : ℤ} {t : Instant} (h : ofMillis? millis = some t) :
    -(pow2 63 : ℤ) ≤ millis ∧ millis < (pow2 63 : ℤ) := by
  obtain ⟨rfl, hvalid⟩ := ofParts?_eq_some h
  rw [isValid, Bool.and_eq_true, Bool.and_eq_true, decide_eq_true_iff, decide_eq_true_iff] at hvalid
  obtain ⟨⟨hfirst, hlast⟩, -⟩ := hvalid
  have hlow : firstDay = -96465292 := by decide
  have hhigh : lastDay = 95026236 := by decide
  have hpow : (pow2 63 : ℤ) = 9223372036854775808 := by decide
  rw [hlow, day] at hfirst
  rw [hhigh, day] at hlast
  rw [hpow]
  dsimp only at hfirst hlast
  omega

namespace Event

/-- The members of an event with what reading them does. -/
def entries (e : Event) : List (Json.Entry Event) :=
  List.zipWith (fun f p => ⟨f, p.1, p.2⟩) fields
    [(.text e.correlationId, fun s => { s with correlationId := e.correlationId }),
     (.text e.phone, fun s => { s with phone := e.phone }),
     (.text e.text, fun s => { s with text := e.text }),
     (.text e.status, fun s => { s with status := e.status }),
     (.int e.timestamp, fun s => { s with timestamp := e.timestamp })]

theorem fits_entries {e : Event} (h : -(pow2 63 : ℤ) ≤ e.timestamp)
    (h' : e.timestamp < (pow2 63 : ℤ)) : ∀ x ∈ e.entries, x.Fits fields := by
  intro x hx
  simp only [entries, fields, List.zipWith_cons_cons, List.zipWith_nil_right, List.mem_cons,
    List.not_mem_nil, or_false] at hx
  rcases hx with rfl | rfl | rfl | rfl | rfl
  · exact ⟨rfl, Json.reads_of (Json.reads_orNull_text _ _) _ _⟩
  · exact ⟨rfl, Json.reads_of (Json.reads_orNull_text _ _) _ _⟩
  · exact ⟨rfl, Json.reads_of (Json.reads_orNull_text _ _) _ _⟩
  · exact ⟨rfl, Json.reads_of (Json.reads_orNull_text _ _) _ _⟩
  · exact ⟨rfl, Json.reads_of (Json.reads_orNull_int64 _ h h') _ _⟩

theorem reads_event {e : Event} (h : -(pow2 63 : ℤ) ≤ e.timestamp)
    (h' : e.timestamp < (pow2 63 : ℤ)) : Json.Reads reader e.toJson e := by
  have hnames : (e.entries.map (·.field.name)).Nodup := by
    show ["correlationId", "phoneNumber", "text", "status", "timestamp"].Nodup
    decide
  have hcomplete : Json.Complete fields [] e.entries := by
    intro f hf hrequired
    simp only [fields, List.mem_cons, List.not_mem_nil, or_false] at hf
    rcases hf with rfl | rfl | rfl | rfl | rfl <;> cases hrequired
  exact Json.record_read (List.cons_ne_nil _ _) (fits_entries h h') hnames hcomplete blank

/-- **An event is read back** from its bytes. -/
theorem read_encode {e : Event} (h : -(pow2 63 : ℤ) ≤ e.timestamp)
    (h' : e.timestamp < (pow2 63 : ℤ)) : Json.whole reader (glyphs e.encode) = .ok e := by
  rw [encode, glyphs_utf8, Json.whole_read (reads_event h h')]

/-- The message of an event is read from its bytes. -/
theorem decode_encode {e : Event} (h : -(pow2 63 : ℤ) ≤ e.timestamp)
    (h' : e.timestamp < (pow2 63 : ℤ)) : decode e.encode = e.toMessage := by
  rw [decode, read_encode h h']

/-- The message of an event has a time within the range of instants. -/
theorem isValid_of_decode {bs : Bytes} {m : Message} (h : decode bs = .ok m) :
    m.createdAt.isValid := by
  rw [decode] at h
  split at h
  · obtain ⟨-, -, -, t, ht, rfl⟩ := toMessage_ok_iff.mp h
    exact (Instant.ofParts?_eq_some ht).2
  · cases h

end Event

namespace Message

/-- The members of a message with what reading them does. -/
def entries (m : Message) : List (Json.Entry Message) :=
  List.zipWith (fun f p => ⟨f, p.1, p.2⟩) fields
    [(.text m.id, fun s => { s with id := m.id }),
     (.text m.correlationId, fun s => { s with correlationId := m.correlationId }),
     (.text m.phone, fun s => { s with phone := m.phone }),
     (.text m.text, fun s => { s with text := m.text }),
     (.text m.status, fun s => { s with status := m.status }),
     (.text (Rfc3339.render m.createdAt), fun s => { s with createdAt := m.createdAt })]

theorem reads_instant {t : Instant} (h : t.isValid) :
    Json.Reads instantReader (.text (Rfc3339.render t)) t := by
  intro rest hrest
  have hread := Json.reads_text (Rfc3339.render t) rest hrest
  simp only [instantReader, hread, bind, Except.bind, Rfc3339.read?_render h]

theorem fits_entries {m : Message} (h : m.createdAt.isValid) :
    ∀ x ∈ m.entries, x.Fits fields := by
  intro x hx
  simp only [entries, fields, List.zipWith_cons_cons, List.zipWith_nil_right, List.mem_cons,
    List.not_mem_nil, or_false] at hx
  rcases hx with rfl | rfl | rfl | rfl | rfl | rfl
  · exact ⟨rfl, Json.reads_mandatory (Json.reads_of (Json.reads_text _) _ _)⟩
  · exact ⟨rfl, Json.reads_mandatory (Json.reads_of (Json.reads_text _) _ _)⟩
  · exact ⟨rfl, Json.reads_mandatory (Json.reads_of (Json.reads_text _) _ _)⟩
  · exact ⟨rfl, Json.reads_mandatory (Json.reads_of (Json.reads_text _) _ _)⟩
  · exact ⟨rfl, Json.reads_mandatory (Json.reads_of (Json.reads_text _) _ _)⟩
  · exact ⟨rfl, Json.reads_mandatory (Json.reads_of (reads_instant h) _ _)⟩

theorem reads_message {m : Message} (h : m.createdAt.isValid) : Json.Reads reader m.toJson m := by
  have hnames : m.entries.map (·.field.name)
      = ["id", "correlationId", "phoneNumber", "text", "status", "createdAt"] := rfl
  have hcomplete : Json.Complete fields [] m.entries := by
    intro f hf _
    rw [hnames]
    refine .inr ?_
    simp only [fields, List.mem_cons, List.not_mem_nil, or_false] at hf
    rcases hf with rfl | rfl | rfl | rfl | rfl | rfl <;> decide
  have hdistinct : (m.entries.map (·.field.name)).Nodup := by
    rw [hnames]
    decide
  exact Json.record_read (List.cons_ne_nil _ _) (fits_entries h) hdistinct hcomplete blank

/-- **A message is read back** from its text. -/
theorem read_render {m : Message} (h : m.createdAt.isValid) :
    Json.whole reader (Glyph.ofString m.toJson.render) = .ok m :=
  Json.whole_read (reads_message h)

end Message

end SmsRelay
