import SmsRelay.Proofs.Relay.Shift

/-!
# What becomes of records

A record that has got a slot is offered or dropped, or a worker still holds it. The message of a
record that has been offered has been handed over to the store, or it is in the batch of a worker.

## Main results

* `Course.placed`: workers hold records that have been appended to the partitions of their claims.
* `Course.delivery`: what becomes of records that have got a slot, and where the messages that are
  handed over come from.
-/

namespace SmsRelay

namespace Relay

/-! ### Events of a move -/

theorem deed_mem_events {r r' : Relay} {m : RelayMove} {g : String} {d : Deed} :
    .deed g d ∈ r.events m r' ↔ .deed g d ∈ r.deeds m := by
  simp [events, Log.changes]

theorem deed_mem_map {g g' : String} {d : Deed} {ds : List Deed} :
    RelayEvent.deed g d ∈ ds.map (RelayEvent.deed g') ↔ g = g' ∧ d ∈ ds := by
  rw [List.mem_map]
  constructor
  · rintro ⟨d', hd', heq⟩
    cases heq
    exact ⟨rfl, hd'⟩
  · rintro ⟨rfl, hd⟩
    exact ⟨d, hd, rfl⟩

/-! ### Where records and messages are -/

/-- The records at hand have been appended to the partitions of the claims. -/
def Placed (r : Relay) (h : List RelayEvent) : Prop :=
  ∀ w ∈ r.workers, ∀ a ∈ w.records, .appended a ∈ h ∧ ClaimWorker.InClaim w.claim a

/-- A worker of the group has given the record a slot and has not decided about it. -/
def Holds (r : Relay) (g : String) (a : Record) : Prop :=
  ∃ w ∈ r.workers, w.claim.group = g ∧ a ∈ w.undecided

/-- The message has been handed over, or it is in the batch of a worker. -/
def Keeps (r : Relay) (m : Message) : Prop :=
  m ∈ r.link.handed.flatten ∨ ∃ w ∈ r.workers, m ∈ w.batch.records

variable {r r' : Relay} {m : RelayMove} {es : List RelayEvent}

theorem Sound.worker (hr : r.Sound) {w : ClaimWorker} (hw : w ∈ r.workers) : w.Sound := by
  obtain ⟨c, hc, hw⟩ := mem_workers.mp hw
  exact hr.workers c hc w hw

theorem Placed.move {h : List RelayEvent} (hp : r.Placed h) (hr : r.Sound)
    (hrecorded : r.log.Recorded h) (hs : Shift r m es r') (es' : List RelayEvent) :
    r'.Placed (h ++ es') := by
  have hold : ∀ u ∈ r.workers, ∀ a ∈ u.records,
      .appended a ∈ h ++ es' ∧ ClaimWorker.InClaim u.claim a := by
    intro u hu a ha
    obtain ⟨happended, hplace⟩ := hp u hu a ha
    exact ⟨List.mem_append_left _ happended, hplace⟩
  cases hs with
  | @work i j n w w' cancelled s s' ds r' found left before after effect log =>
    have hlog : s.log.Numbered := log ▸ hr.log
    have hclaim := effect.claim hlog
    have hmoved : ∀ a, ClaimWorker.InClaim w.claim a → ClaimWorker.InClaim w'.claim a :=
      fun a ha => ⟨ha.topic.trans hclaim.topic.symm, ha.partition.trans hclaim.partition.symm⟩
    intro u hu a ha
    rcases after u hu with rfl | hu
    · rcases effect.records hlog ha with ha | ⟨ha, hplace⟩
      · exact (hold w found a ha).imp_right (hmoved a)
      · exact ⟨List.mem_append_left _ (hrecorded.kept a (log ▸ ha)), hmoved a hplace⟩
    · exact hold u hu a ha
  | rest before after =>
    intro u hu a ha
    rcases after u hu with hu | ⟨claim, n, size, timeout, rfl⟩
    · exact hold u hu a ha
    · exact absurd ha List.not_mem_nil

/-- **A record with a slot** keeps it until it is offered or dropped. -/
theorem Shift.decided (hs : Shift r m es r') (hr : r.Sound) {g : String} {a : Record}
    (h : r.Holds g a ∨ .deed g (.received a) ∈ es) :
    .deed g (.offered a) ∈ es ∨ .deed g (.dropped a) ∈ es ∨ r'.Holds g a := by
  cases hs with
  | @work i j n w w' cancelled s s' ds r' found left before after effect log =>
    have hdecide : g = w.claim.group → a ∈ w.undecided ++ ds.filterMap Deed.received? →
        RelayEvent.deed g (.offered a) ∈ ds.map (RelayEvent.deed w.claim.group) ∨
          RelayEvent.deed g (.dropped a) ∈ ds.map (RelayEvent.deed w.claim.group) ∨
            r'.Holds g a := by
      intro hg ha
      have ha := (effect.undecided (hr.worker found)).mem_iff.mp ha
      rw [List.mem_append, List.mem_append, Deed.mem_dropped, Deed.mem_offered] at ha
      rw [deed_mem_map, deed_mem_map]
      rcases ha with (ha | ha) | ha
      · exact .inr (.inl ⟨hg, ha⟩)
      · exact .inl ⟨hg, ha⟩
      · have hgroup := (effect.claim (log ▸ hr.log)).group
        exact .inr (.inr ⟨w', left, hgroup.trans hg.symm, ha⟩)
    rcases h with ⟨u, hu, hg, ha⟩ | ha
    · rcases before u hu with rfl | hu
      · exact hdecide hg.symm (List.mem_append_left _ ha)
      · exact .inr (.inr ⟨u, hu, hg, ha⟩)
    · obtain ⟨hg, ha⟩ := deed_mem_map.mp ha
      exact hdecide hg (List.mem_append_right _ (Deed.mem_received.mpr ha))
  | rest before after =>
    obtain ⟨u, hu, hg, ha⟩ := h.resolve_right List.not_mem_nil
    rcases before u hu with hu' | hfinished
    · exact .inr (.inr ⟨u, hu', hg, ha⟩)
    · rw [((hr.worker hu).nothing_left hfinished).1] at ha
      exact absurd ha List.not_mem_nil

/-- What is decided is at hand, and only what is no message is dropped. -/
theorem Shift.at_hand (hs : Shift r m es r') (hr : r.Sound) {g : String} {a : Record} :
    (.deed g (.offered a) ∈ es →
      a.message?.isSome ∧ ∃ w ∈ r.workers, w.claim.group = g ∧ a ∈ w.records) ∧
    (.deed g (.dropped a) ∈ es → a.message? = none) ∧
    (.deed g (.received a) ∈ es → ∃ w ∈ r.workers, w.claim.group = g ∧ a ∈ w.records) := by
  cases hs with
  | @work i j n w w' cancelled s s' ds r' found left before after effect log =>
    have hw := hr.worker found
    obtain ⟨hdropped, hoffered⟩ := effect.message? hw.queued
    have hreceived : ∀ b ∈ ds.filterMap Deed.received?, b ∈ w.records := fun b hb =>
      ClaimWorker.mem_records.mpr (.inl (effect.received_mem hb))
    simp only [deed_mem_map]
    refine ⟨?_, ?_, ?_⟩
    · rintro ⟨rfl, ha⟩
      rw [← Deed.mem_offered] at ha
      refine ⟨hoffered a ha, w, found, rfl, ?_⟩
      have hmem := (effect.undecided hw).mem_iff.mpr
        (List.mem_append_left _ (List.mem_append_right _ ha))
      rcases List.mem_append.mp hmem with hmem | hmem
      · exact ClaimWorker.mem_records_of_undecided hmem
      · exact hreceived a hmem
    · rintro ⟨rfl, ha⟩
      exact hdropped a (Deed.mem_dropped.mpr ha)
    · rintro ⟨rfl, ha⟩
      exact ⟨w, found, rfl, hreceived a (Deed.mem_received.mpr ha)⟩
  | rest => exact ⟨nofun, nofun, nofun⟩

/-- **Messages are kept**, and only offers add to them. -/
theorem Shift.keeps (hs : Shift r m es r') (hr : r.Sound) (x : Message) :
    r'.Keeps x ↔ r.Keeps x ∨ ∃ g a, .deed g (.offered a) ∈ es ∧ a.message? = some x := by
  cases hs with
  | @work i j n w w' cancelled s s' ds r' found left before after effect log link log' link' =>
    have hhanded : r'.link.handed = r.link.handed ++ ds.filterMap Deed.handed? := by
      rw [← link, ← link']
      exact effect.accounts.handed
    have hbatch : x ∈ w.batch.records ∨ (∃ g a, RelayEvent.deed g (.offered a) ∈
        ds.map (RelayEvent.deed w.claim.group) ∧ a.message? = some x) ↔
        x ∈ (ds.filterMap Deed.handed?).flatten ∨ x ∈ w'.batch.records := by
      rw [← List.mem_append, ← effect.handed (hr.worker found).queued, List.mem_append,
        ClaimWorker.messages, List.mem_filterMap]
      refine or_congr .rfl ⟨?_, ?_⟩
      · rintro ⟨g, a, ha, hx⟩
        exact ⟨a, Deed.mem_offered.mpr (deed_mem_map.mp ha).2, hx⟩
      · rintro ⟨a, ha, hx⟩
        exact ⟨_, a, deed_mem_map.mpr ⟨rfl, Deed.mem_offered.mp ha⟩, hx⟩
    rw [Keeps, hhanded, List.flatten_append, List.mem_append, Keeps]
    constructor
    · rintro ((hx | hx) | ⟨u, hu, hx⟩)
      · exact .inl (.inl hx)
      · exact (hbatch.mpr (.inl hx)).imp_left fun hx => .inr ⟨w, found, hx⟩
      · rcases after u hu with rfl | hu
        · exact (hbatch.mpr (.inr hx)).imp_left fun hx => .inr ⟨w, found, hx⟩
        · exact .inl (.inr ⟨u, hu, hx⟩)
    · have hnew : x ∈ w.batch.records ∨ (∃ g a, RelayEvent.deed g (.offered a) ∈
          ds.map (RelayEvent.deed w.claim.group) ∧ a.message? = some x) →
          (x ∈ r.link.handed.flatten ∨ x ∈ (ds.filterMap Deed.handed?).flatten) ∨
            ∃ u ∈ r'.workers, x ∈ u.batch.records := fun hx =>
        (hbatch.mp hx).imp .inr fun hx => ⟨w', left, hx⟩
      rintro ((hx | ⟨u, hu, hx⟩) | hx)
      · exact .inl (.inl hx)
      · rcases before u hu with rfl | hu
        · exact hnew (.inl hx)
        · exact .inr ⟨u, hu, hx⟩
      · exact hnew (.inr hx)
  | rest before after handed =>
    have hnone : ¬ ∃ g a, RelayEvent.deed g (.offered a) ∈ [] ∧ a.message? = some x := by
      rintro ⟨g, a, ha, -⟩
      exact List.not_mem_nil ha
    rw [or_iff_left hnone, Keeps, Keeps, handed]
    refine or_congr .rfl ⟨?_, ?_⟩
    · rintro ⟨u, hu, hx⟩
      rcases after u hu with hu | ⟨claim, n, size, timeout, rfl⟩
      · exact ⟨u, hu, hx⟩
      · exact absurd hx List.not_mem_nil
    · rintro ⟨u, hu, hx⟩
      rcases before u hu with hu' | hfinished
      · exact ⟨u, hu', hx⟩
      · rw [((hr.worker hu).nothing_left hfinished).2.1] at hx
        exact absurd hx List.not_mem_nil

/-! ### What the history tells -/

/-- What the history tells of records that have got a slot. -/
structure Delivery (r : Relay) (h : List RelayEvent) : Prop where
  received : ∀ g a, .deed g (.received a) ∈ h →
    .deed g (.offered a) ∈ h ∨ .deed g (.dropped a) ∈ h ∨ r.Holds g a
  dropped : ∀ g a, .deed g (.dropped a) ∈ h → a.message? = none
  offered : ∀ g a, .deed g (.offered a) ∈ h → ∃ x, a.message? = some x ∧ r.Keeps x
  origin : ∀ x, r.Keeps x → ∃ a, .appended a ∈ h ∧ a.message? = some x

theorem Delivery.move {h : List RelayEvent} (hd : r.Delivery h) (hr : r.Sound) (hp : r.Placed h)
    (hs : Shift r m (r.deeds m) r') : r'.Delivery (h ++ r.events m r') := by
  have hdeed : ∀ g d, .deed g d ∈ h ++ r.events m r' ↔ .deed g d ∈ h ∨ .deed g d ∈ r.deeds m := by
    intro g d
    rw [List.mem_append, deed_mem_events]
  refine ⟨fun g a ha => ?_, fun g a ha => ?_, fun g a ha => ?_, fun x hx => ?_⟩
  · have hdecided : r.Holds g a ∨ .deed g (.received a) ∈ r.deeds m →
        (.deed g (.offered a) ∈ h ∨ .deed g (.offered a) ∈ r.deeds m) ∨
          (.deed g (.dropped a) ∈ h ∨ .deed g (.dropped a) ∈ r.deeds m) ∨ r'.Holds g a := by
      intro hheld
      rcases hs.decided hr hheld with hoffered | hdropped | hholds
      · exact .inl (.inr hoffered)
      · exact .inr (.inl (.inr hdropped))
      · exact .inr (.inr hholds)
    rw [hdeed] at ha
    rw [hdeed, hdeed]
    rcases ha with ha | ha
    · rcases hd.received g a ha with hoffered | hdropped | hholds
      · exact .inl (.inl hoffered)
      · exact .inr (.inl (.inl hdropped))
      · exact hdecided (.inl hholds)
    · exact hdecided (.inr ha)
  · rcases (hdeed _ _).mp ha with ha | ha
    · exact hd.dropped g a ha
    · exact (hs.at_hand hr).2.1 ha
  · rcases (hdeed _ _).mp ha with ha | ha
    · obtain ⟨x, hx, hkeeps⟩ := hd.offered g a ha
      exact ⟨x, hx, (hs.keeps hr x).mpr (.inl hkeeps)⟩
    · obtain ⟨x, hx⟩ := Option.isSome_iff_exists.mp ((hs.at_hand hr).1 ha).1
      exact ⟨x, hx, (hs.keeps hr x).mpr (.inr ⟨g, a, ha, hx⟩)⟩
  · rcases (hs.keeps hr x).mp hx with hx | ⟨g, a, ha, hx⟩
    · obtain ⟨a, ha, hx⟩ := hd.origin x hx
      exact ⟨a, List.mem_append_left _ ha, hx⟩
    · obtain ⟨-, w, hw, -, hmem⟩ := (hs.at_hand hr).1 ha
      exact ⟨a, List.mem_append_left _ (hp w hw a hmem).1, hx⟩

theorem Fresh.workers (h : r.Fresh) : r.workers = [] := by
  rw [Relay.workers, h.consumers]
  rfl

theorem Fresh.placed (h : r.Fresh) : r.Placed [] := by
  intro w hw
  rw [h.workers] at hw
  exact absurd hw List.not_mem_nil

theorem Fresh.delivery (h : r.Fresh) : r.Delivery [] where
  received := nofun
  dropped := nofun
  offered := nofun
  origin x hx := by
    rw [Keeps, h.handed, h.workers] at hx
    rcases hx with hx | ⟨w, hw, -⟩
    · exact absurd hx List.not_mem_nil
    · exact absurd hw List.not_mem_nil

end Relay

namespace Course

variable {allowed : RelayMove → Prop} {r₀ r : Relay} {h : List RelayEvent}

theorem placed (course : Course allowed r₀ r h) : r.Placed h := by
  induction course with
  | start fresh => exact fresh.placed
  | move course permitted moved ih =>
    exact ih.move course.sound course.recorded (Relay.shift_of_move? course.sound moved) _

/-- **What becomes of the records that have got a slot.** -/
theorem delivery (course : Course allowed r₀ r h) : r.Delivery h := by
  induction course with
  | start fresh => exact fresh.delivery
  | move course permitted moved ih =>
    exact ih.move course.sound course.placed (Relay.shift_of_move? course.sound moved)

end Course

end SmsRelay
