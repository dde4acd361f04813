import SmsRelay.Proofs.Relay.Course

/-!
# Invariants of a course

Along a course the log stays numbered, the consumers orderly and the workers sound, and the history
accounts for all records: each place below a watermark has been filled once, and its record is kept
or has been trimmed.

## Main results

* `Course.sound`: the invariants of the parts.
* `Course.recorded`: the history accounts for the records of the log.
-/

namespace SmsRelay

/-- The invariants of the parts of a relay. -/
structure Relay.Sound (r : Relay) : Prop where
  log : r.log.Numbered
  consumers : ∀ c ∈ r.consumers, c.Orderly
  workers : ∀ c ∈ r.consumers, ∀ w ∈ c.workers, w.Sound

/-- The history `h` accounts for the records of a log. -/
structure Log.Recorded (l : Log) (h : List RelayEvent) : Prop where
  kept : ∀ a ∈ l.records, .appended a ∈ h
  placed : ∀ topic i p, l.partitionAt topic i = some p → ∀ o < p.watermark,
    ∃ a, .appended a ∈ h ∧ a.topic = topic ∧ a.partition = i ∧ a.offset = o ∧
      (a ∈ p.records ∨ .trimmed a ∈ h)
  below : ∀ a, .appended a ∈ h →
    ∃ p, l.partitionAt a.topic a.partition = some p ∧ a.offset < p.watermark
  unique : ∀ a b, .appended a ∈ h → .appended b ∈ h → a.topic = b.topic →
    a.partition = b.partition → a.offset = b.offset → a = b

/-! ### Changes of the log -/

namespace Log

theorem appended_mem_changes {l l' : Log} {a : Record} :
    .appended a ∈ l.changes l' ↔ a ∈ l'.records ∧ a ∉ l.records := by
  simp [changes]

theorem trimmed_mem_changes {l l' : Log} {a : Record} :
    .trimmed a ∈ l.changes l' ↔ a ∈ l.records ∧ a ∉ l'.records := by
  simp [changes]

theorem changes_of_topics {l l' : Log} (h : l'.topics = l.topics) : l.changes l' = [] := by
  have hrecords : l'.records = l.records := by rw [records, records, h]
  have hnone : l.records.filter (· ∉ l.records) = [] :=
    List.filter_eq_nil_iff.mpr fun a ha => by simpa using ha
  rw [changes, hrecords, hnone]
  rfl

/-- What others do to the history and what changes nothing about topics. -/
theorem Recorded.keep {l l' : Log} {h : List RelayEvent} (hr : l.Recorded h)
    (htopics : l'.topics = l.topics) {es : List RelayEvent} (hes : ∀ a, .appended a ∉ es) :
    l'.Recorded (h ++ es) where
  kept a ha := by
    rw [records, htopics] at ha
    exact List.mem_append_left _ (hr.kept a ha)
  placed topic i p hp o ho := by
    rw [partitionAt_of_topics htopics] at hp
    obtain ⟨a, ha, ht, hi, hoff, hkept⟩ := hr.placed topic i p hp o ho
    exact ⟨a, List.mem_append_left _ ha, ht, hi, hoff, hkept.imp_right (List.mem_append_left _)⟩
  below a ha := by
    rw [partitionAt_of_topics htopics]
    exact hr.below a ((List.mem_append.mp ha).resolve_right (hes a))
  unique a b ha hb := hr.unique a b ((List.mem_append.mp ha).resolve_right (hes a))
    ((List.mem_append.mp hb).resolve_right (hes b))

/-- One record is added to a log, at the end of its partition. -/
structure Grown (l l' : Log) (n : Record) : Prop where
  numbered : l'.Numbered
  place : ∃ p, l.partitionAt n.topic n.partition = some p ∧ n.offset = p.watermark ∧
    l'.partitionAt n.topic n.partition = some (p.append n.topic n.key n.value).1
  elsewhere : ∀ topic i, (topic, i) ≠ (n.topic, n.partition) →
    l'.partitionAt topic i = l.partitionAt topic i
  added : ∀ a, .appended a ∈ l.changes l' ↔ a = n

theorem Appended.grown? {l l' : Log} {topic key : String} {value : Bytes} {place : Placement}
    (hl : l.Numbered) (h : Appended l topic key value (l', place)) :
    l' = l ∧ l.find? topic = none ∨
      Grown l l' ⟨topic, place.partition, place.offset, key, value⟩ := by
  cases h with
  | ignored missing => exact .inl ⟨rfl, missing⟩
  | @grown i p l' hplace here elsewhere groups numbered =>
    obtain ⟨hp, hid⟩ := hl.of_partitionAt hplace
    have hnext : p.next topic key value = ⟨topic, i, p.base + p.records.length, key, value⟩ := by
      rw [Partition.next, hid]
    refine .inr ⟨numbered, ⟨p, hplace, hp.watermark.symm, here⟩, elsewhere, fun a => ?_⟩
    rw [appended_mem_changes, numbered.mem_records_iff, hl.mem_records_iff]
    constructor
    · rintro ⟨⟨q, hq, ha⟩, hnew⟩
      by_cases hat : (a.topic, a.partition) = (topic, i)
      · obtain ⟨htopic, hpart⟩ := Prod.mk.inj hat
        rw [htopic, hpart, here] at hq
        cases hq
        rcases Partition.mem_append ha with ha | ha
        · exact (hnew ⟨p, by rw [htopic, hpart, hplace], ha⟩).elim
        · rw [ha, hnext]
      · rw [elsewhere _ _ hat] at hq
        exact (hnew ⟨q, hq, ha⟩).elim
    · rintro rfl
      refine ⟨⟨_, here, ?_⟩, ?_⟩
      · rw [← hnext]
        exact Partition.next_mem_append hp key value
      · rintro ⟨q, hq, ha⟩
        rw [show l.partitionAt topic i = some p from hplace] at hq
        cases hq
        have hlt := (hp.bounds ha).2
        rw [hp.watermark] at hlt
        exact Nat.lt_irrefl _ hlt

/-- **One more record** is accounted for. -/
theorem Recorded.grow {l l' : Log} {h : List RelayEvent} {n : Record} (hl : l.Numbered)
    (hr : l.Recorded h) (hg : Grown l l' n) : l'.Recorded (h ++ l.changes l') := by
  obtain ⟨p, hplace, hoffset, hplace'⟩ := hg.place
  have hp := (hl.of_partitionAt hplace).1
  have hold : ∀ a, .appended a ∈ h → (a.topic, a.partition) = (n.topic, n.partition) →
      a.offset < n.offset := by
    intro a ha hat
    obtain ⟨q, hq, hlt⟩ := hr.below a ha
    obtain ⟨htopic, hpart⟩ := Prod.mk.inj hat
    rw [htopic, hpart, hplace] at hq
    cases hq
    rwa [hoffset]
  have hevent : ∀ a, .appended a ∈ h ++ l.changes l' ↔ .appended a ∈ h ∨ a = n := by
    intro a
    rw [List.mem_append, hg.added]
  refine ⟨fun a ha => ?_, fun topic i q hq o ho => ?_, fun a ha => ?_,
    fun a b ha hb htopic hpart hoff => ?_⟩
  · rw [List.mem_append, appended_mem_changes]
    by_cases hold : a ∈ l.records
    · exact .inl (hr.kept a hold)
    · exact .inr ⟨ha, hold⟩
  · by_cases hat : (topic, i) = (n.topic, n.partition)
    · obtain ⟨rfl, rfl⟩ := Prod.mk.inj hat
      rw [hplace'] at hq
      cases hq
      rcases Nat.lt_or_ge o p.watermark with hlt | hge
      · obtain ⟨a, ha, htopic, hpart, hoff, hkept⟩ := hr.placed _ _ p hplace o hlt
        refine ⟨a, List.mem_append_left _ ha, htopic, hpart, hoff, ?_⟩
        rcases hkept with hkept | hkept
        · by_cases hstill : a ∈ l'.records
          · obtain ⟨q, hq, ha⟩ := hg.numbered.mem_records_iff.mp hstill
            rw [htopic, hpart, hplace'] at hq
            cases hq
            exact .inl ha
          · refine .inr (List.mem_append_right _ (trimmed_mem_changes.mpr ⟨?_, hstill⟩))
            exact hl.mem_records_iff.mpr ⟨p, by rw [htopic, hpart, hplace], hkept⟩
        · exact .inr (List.mem_append_left _ hkept)
      · have hwatermark : (p.append n.topic n.key n.value).1.watermark = p.watermark + 1 := by
          rw [hp.watermark]
          rfl
        rw [hwatermark] at ho
        have hadded := (appended_mem_changes.mp ((hg.added n).mpr rfl)).1
        obtain ⟨q, hq, hn⟩ := hg.numbered.mem_records_iff.mp hadded
        rw [hplace'] at hq
        cases hq
        exact ⟨n, (hevent n).mpr (.inr rfl), rfl, rfl, by omega, .inl hn⟩
    · rw [hg.elsewhere _ _ hat] at hq
      obtain ⟨a, ha, htopic, hpart, hoff, hkept⟩ := hr.placed _ _ q hq o ho
      exact ⟨a, List.mem_append_left _ ha, htopic, hpart, hoff,
        hkept.imp_right (List.mem_append_left _)⟩
  · by_cases hat : (a.topic, a.partition) = (n.topic, n.partition)
    · obtain ⟨htopic, hpart⟩ := Prod.mk.inj hat
      refine ⟨_, by rw [htopic, hpart, hplace'], ?_⟩
      show a.offset < p.base + p.records.length + 1
      rw [← hp.watermark, ← hoffset]
      rcases (hevent a).mp ha with ha | rfl
      · exact Nat.lt_succ_of_lt (hold a ha hat)
      · exact Nat.lt_succ_self _
    · rcases (hevent a).mp ha with ha | rfl
      · rw [hg.elsewhere _ _ hat]
        exact hr.below a ha
      · exact (hat rfl).elim
  · rcases (hevent a).mp ha with ha | rfl <;> rcases (hevent b).mp hb with hb | rfl
    · exact hr.unique a b ha hb htopic hpart hoff
    · exact absurd hoff (Nat.ne_of_lt (hold a ha (by rw [htopic, hpart])))
    · exact absurd hoff.symm (Nat.ne_of_lt (hold b hb (by rw [htopic, hpart])))
    · rfl

end Log

namespace Relay

theorem mem_setConsumer {r : Relay} {i : ℕ} {c c' : Consumer}
    (h : c' ∈ (r.setConsumer i c).consumers) : c' ∈ r.consumers ∨ c' = c :=
  List.mem_or_eq_of_mem_set h

/-- A change that touches no topics and no consumers but one. -/
theorem Sound.setConsumer {r r₁ : Relay} (h : r.Sound) (hlog : r₁.log.topics = r.log.topics)
    (hconsumers : r₁.consumers = r.consumers) {i : ℕ} {c' : Consumer} (horderly : c'.Orderly)
    (hworkers : ∀ w ∈ c'.workers, w.Sound) : (r₁.setConsumer i c').Sound where
  log := h.log.of_topics hlog
  consumers c hc := by
    rcases mem_setConsumer hc with hc | rfl
    · exact h.consumers c (hconsumers ▸ hc)
    · exact horderly
  workers c hc := by
    rcases mem_setConsumer hc with hc | rfl
    · exact h.workers c (hconsumers ▸ hc)
    · exact hworkers

/-- The workers after a step of a session loop. -/
theorem workers_of_session {c c' : Consumer} {l l' : Log} (h : c.Effect l l' c')
    (hworkers : ∀ w ∈ c.workers, w.Sound) : ∀ w ∈ c'.workers, w.Sound := by
  have hemployed : ∀ claims : List Claim, ∀ w ∈ claims.map c.employ, w.Sound := by
    intro claims w hw
    obtain ⟨claim, -, rfl⟩ := List.mem_map.mp hw
    exact ClaimWorker.sound_create _ _ _ _
  cases h with
  | goOn workers | join _ workers | hear _ workers | leave workers =>
    rw [workers]
    exact hworkers
  | takeUp _ _ workers | release _ workers =>
    rw [workers]
    exact hemployed _

/-- What a move of a worker does to the log. -/
theorem topics_of_worker {w w' : ClaimWorker} {cancelled : Bool} {s s' : Site} {ds : List Deed}
    (h : w.Effect cancelled s ds s' w') : s'.log.topics = s.log.topics := by
  rw [h.accounts.marked]
  exact Log.topics_marks _ _ _

/-- Moves other than appends leave the topics alone. -/
theorem Effect.log {r r' : Relay} {m : RelayMove} (h : Effect r m r') (hr : r.Sound) :
    r'.log.topics = r.log.topics ∨ ∃ n, r.log.Grown r'.log n := by
  have happend : ∀ topic key value, (r.log.append topic key value).1.topics = r.log.topics ∨
      ∃ n, r.log.Grown (r.log.append topic key value).1 n := by
    intro topic key value
    rcases hplaced : r.log.append topic key value with ⟨l', place⟩
    have happended := hr.log.appended topic key value
    rw [hplaced] at happended
    rcases happended.grown? hr.log with ⟨rfl, -⟩ | hgrown
    · exact .inl rfl
    · exact .inr ⟨_, hgrown⟩
  cases h with
  | session _ _ _ effect => exact .inl effect.topics
  | worker found staffed moved =>
    have hw := hr.workers _ (List.mem_of_getElem? found) _ (List.mem_of_getElem? staffed)
    exact .inl (topics_of_worker (hw.effect moved))
  | dispatch effect =>
    cases effect with
    | goOn => exact .inl rfl
    | @publish d status place l' found pending known appended =>
      have := happend r.sender.topic d.request.phone (d.event status).encode
      rwa [appended] at this
  | append => exact happend _ _ _
  | steer log => exact .inl (by rw [log])
  | hire | adjust | closeLog => exact .inl rfl

theorem Effect.sound {r r' : Relay} {m : RelayMove} (h : Effect r m r') (hr : r.Sound) :
    r'.Sound := by
  have hlog : r'.log.Numbered := by
    rcases h.log hr with htopics | ⟨n, hgrown⟩
    · exact hr.log.of_topics htopics
    · exact hgrown.numbered
  cases h with
  | session found started _ effect =>
    have hc := List.mem_of_getElem? found
    refine hr.setConsumer ?_ ?_ (effect.orderly started (hr.consumers _ hc))
      (workers_of_session effect (hr.workers _ hc))
    · exact effect.topics
    · rfl
  | @worker i j m c w w' s' found staffed moved =>
    have hc := List.mem_of_getElem? found
    have hw := hr.workers _ hc _ (List.mem_of_getElem? staffed)
    have heffect := hw.effect moved
    have horderly := hr.consumers _ hc
    refine hr.setConsumer ?_ ?_ ⟨fun hquiet => ?_, horderly.unstarted⟩ ?_
    · exact topics_of_worker heffect
    · rfl
    · have hnone := horderly.rested hquiet
      rw [hnone] at staffed
      cases staffed
    · intro u hu
      rcases List.mem_or_eq_of_mem_set hu with hu | rfl
      · exact hr.workers _ hc u hu
      · exact heffect.sound hr.log hw
  | dispatch | append => exact ⟨hlog, hr.consumers, hr.workers⟩
  | steer log consumers => exact ⟨hlog, consumers ▸ hr.consumers, consumers ▸ hr.workers⟩
  | hire =>
    refine ⟨hlog, fun c hc => ?_, fun c hc => ?_⟩ <;>
      rcases List.mem_append.mp hc with hc | hc
    · exact hr.consumers c hc
    · rw [List.mem_singleton.mp hc]
      exact ⟨fun _ => rfl, fun _ _ => rfl⟩
    · exact hr.workers c hc
    · rw [List.mem_singleton.mp hc]
      exact fun w hw => absurd hw List.not_mem_nil
  | adjust found adjusted =>
    have hc := List.mem_of_getElem? found
    refine hr.setConsumer rfl rfl (adjusted.orderly (hr.consumers _ hc)) ?_
    rw [adjusted.workers]
    exact hr.workers _ hc
  | closeLog => exact ⟨hlog, hr.consumers, hr.workers⟩

theorem Fresh.sound {r : Relay} (h : r.Fresh) : r.Sound where
  log := h.numbered
  consumers c hc := by
    rw [h.consumers] at hc
    exact absurd hc List.not_mem_nil
  workers c hc := by
    rw [h.consumers] at hc
    exact absurd hc List.not_mem_nil

theorem Fresh.recorded {r : Relay} (h : r.Fresh) : r.log.Recorded [] where
  kept a ha := by
    rw [h.records] at ha
    exact absurd ha List.not_mem_nil
  placed topic i p hp o ho := by
    rw [h.watermarks topic i p hp] at ho
    exact absurd ho (Nat.not_lt_zero o)
  below := nofun
  unique := nofun

/-- Deeds are no changes of the log. -/
theorem deed_of_mem_deeds {r : Relay} {m : RelayMove} {e : RelayEvent} (h : e ∈ r.deeds m) :
    ∃ g d, e = .deed g d := by
  cases m with
  | worker i j m =>
    simp only [deeds] at h
    split at h
    · cases h
    · split at h
      · cases h
      · obtain ⟨d, -, rfl⟩ := List.mem_map.mp h
        exact ⟨_, d, rfl⟩
  | _ => cases h

end Relay

namespace Course

variable {allowed : RelayMove → Prop} {r₀ r : Relay} {h : List RelayEvent}

theorem sound (course : Course allowed r₀ r h) : r.Sound := by
  induction course with
  | start fresh => exact fresh.sound
  | move course permitted moved ih => exact (Relay.effect_of_move? moved).sound ih

theorem recorded (course : Course allowed r₀ r h) : r.log.Recorded h := by
  induction course with
  | start fresh => exact fresh.recorded
  | @move r r' h m course permitted moved ih =>
    have hdeeds : ∀ a, .appended a ∉ r.deeds m := fun a ha => by
      obtain ⟨g, d, heq⟩ := Relay.deed_of_mem_deeds ha
      cases heq
    rcases (Relay.effect_of_move? moved).log course.sound with htopics | ⟨n, hgrown⟩
    · refine ih.keep htopics fun a ha => ?_
      rw [Relay.events, Log.changes_of_topics htopics] at ha
      exact hdeeds a ha
    · rw [Relay.events, ← List.append_assoc]
      exact (ih.grow course.sound.log hgrown).keep rfl hdeeds

end Course

end SmsRelay
