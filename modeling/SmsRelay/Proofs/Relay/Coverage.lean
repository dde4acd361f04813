import SmsRelay.Proofs.Moves
import SmsRelay.Proofs.Relay.Delivery

/-!
# What lies below committed offsets

A record below the offset that a group has committed has got a slot from one of the group's workers,
unless it was trimmed before. From then on it is offered or dropped, or it stays in the hands of a
worker that is still at work.

## Implementation notes

That a record below a committed offset is still in the hands of a worker is no accident: offsets are
marked in the order in which records are done with, and the greatest one counts.

## Main results

* `Course.covered`: offsets below what a group has committed have been received or trimmed.
* `Course.commit_boundary`: what has become of the record at such an offset.
-/

namespace SmsRelay

/-- The record at an offset has got a slot from a worker of the group, or it has been trimmed. -/
def Covered (h : List RelayEvent) : OffsetProperty := fun g topic i o =>
  ∃ a, .appended a ∈ h ∧ a.topic = topic ∧ a.partition = i ∧ a.offset = o ∧
    (.deed g (.received a) ∈ h ∨ .trimmed a ∈ h)

theorem Covered.append {h : List RelayEvent} (es : List RelayEvent) (g topic : String) (i o : ℕ)
    (hc : Covered h g topic i o) : Covered (h ++ es) g topic i o := by
  obtain ⟨a, ha, htopic, hpart, hoff, hcovered⟩ := hc
  refine ⟨a, List.mem_append_left _ ha, htopic, hpart, hoff, ?_⟩
  exact hcovered.imp (List.mem_append_left _) (List.mem_append_left _)

namespace Log

/-- Below the base of a partition all records have been trimmed. -/
theorem Recorded.base {l : Log} {h : List RelayEvent} (hl : l.Numbered) (hr : l.Recorded h)
    (g : String) {topic : String} {i : ℕ} {p : Partition} (hp : l.partitionAt topic i = some p)
    {o : ℕ} (ho : o < p.base) : Covered h g topic i o := by
  have hnumbered := (hl.of_partitionAt hp).1
  have hlt : o < p.watermark := by
    rw [hnumbered.watermark]
    omega
  obtain ⟨a, ha, htopic, hpart, hoff, hkept⟩ := hr.placed topic i p hp o hlt
  refine ⟨a, ha, htopic, hpart, hoff, .inr (hkept.resolve_left fun hkept => ?_)⟩
  have := (hnumbered.bounds hkept).1
  omega

theorem Recorded.bases {l : Log} {h : List RelayEvent} (hl : l.Numbered) (hr : l.Recorded h)
    (g topic : String) : BasesSettled (Covered h) g topic (l.bases topic) := by
  intro i o ho
  rw [Log.bases] at ho
  cases hfind : l.find? topic with
  | none =>
    rw [hfind] at ho
    exact absurd ho (Nat.not_lt_zero o)
  | some t =>
    rw [hfind, List.getD_eq_getElem?_getD, List.getElem?_map] at ho
    cases hp : t.partitions[i]? with
    | none =>
      rw [hp] at ho
      exact absurd ho (Nat.not_lt_zero o)
    | some p =>
      rw [hp] at ho
      refine hr.base hl g (p := p) ?_ ho
      rw [partitionAt, hfind]
      exact hp

theorem SettledBelow.of_groups {Q : OffsetProperty} {l l' : Log} (h : l.SettledBelow Q)
    (heq : l'.groups = l.groups) : l'.SettledBelow Q := by
  rw [SettledBelow, heq]
  exact h

end Log

namespace Relay

variable {Q : OffsetProperty} {r r' : Relay}

/-- The property holds below what is committed, told, promised and worked on. -/
structure Settled (Q : OffsetProperty) (r : Relay) : Prop where
  log : r.log.SettledBelow Q
  promised : ∀ c ∈ r.consumers, ∀ claim ∈ c.promised, claim.SettledBelow Q
  workers : ∀ w ∈ r.workers, w.SettledBelow Q

theorem Settled.mono {Q' : OffsetProperty} (h : r.Settled Q)
    (hQ : ∀ g t i o, Q g t i o → Q' g t i o) : r.Settled Q' where
  log := h.log.mono hQ
  promised c hc claim hclaim o ho := hQ _ _ _ _ (h.promised c hc claim hclaim o ho)
  workers w hw := (h.workers w hw).mono hQ

/-- One consumer changes. -/
theorem Settled.set (h : r.Settled Q) {i : ℕ} {c c' : Consumer} (found : r.consumers[i]? = some c)
    (hset : r'.consumers = r.consumers.set i c') (hlog : r'.log.SettledBelow Q)
    (hpromised : ∀ claim ∈ c'.promised, claim.SettledBelow Q)
    (hworkers : ∀ w ∈ c'.workers, w.SettledBelow Q) : r'.Settled Q where
  log := hlog
  promised d hd := by
    rw [hset] at hd
    rcases List.mem_or_eq_of_mem_set hd with hd | rfl
    · exact h.promised d hd
    · exact hpromised
  workers w hw := by
    have hstaffed : Staffed r r' c c' := staffed_of_set found hset
    rcases hstaffed.after w hw with hw | hw
    · exact h.workers w hw
    · exact hworkers w hw

/-- **A session loop** takes up nothing but what it has been granted. -/
theorem Settled.session (h : r.Settled Q)
    (hbases : ∀ g topic, BasesSettled Q g topic (r.log.bases topic)) {i : ℕ} {c c' : Consumer}
    {l' : Log} (found : r.consumers[i]? = some c) (effect : c.Effect r.log l' c') :
    (setConsumer { r with log := l' } i c').Settled Q := by
  have hc := List.mem_of_getElem? found
  have hold : ∀ w ∈ c.workers, w.SettledBelow Q := fun w hw =>
    h.workers w (mem_workers.mpr ⟨c, hc, hw⟩)
  have hnone : ∀ claim : Claim, claim ∈ [] → claim.SettledBelow Q := fun _ hclaim =>
    absurd hclaim List.not_mem_nil
  have hemployed : ∀ claims : List Claim, (∀ claim ∈ claims, claim.SettledBelow Q) →
      ∀ w ∈ claims.map c.employ, w.SettledBelow Q := by
    intro claims hclaims w hw
    obtain ⟨claim, hclaim, rfl⟩ := List.mem_map.mp hw
    exact ClaimWorker.settledBelow_create (hclaims claim hclaim) _ _ _
  cases effect with
  | goOn workers promised =>
    exact h.set found rfl h.log (by rw [promised]; exact hnone) (by rwa [workers])
  | join joined workers promised =>
    refine h.set found rfl ?_ (by rw [promised]; exact hnone) (by rwa [workers])
    exact h.log.join (hbases _ _) joined
  | hear told workers promised =>
    obtain ⟨hlog, hclaims⟩ := h.log.nextEvent told
    exact h.set found rfl hlog (by rwa [promised]) (by rwa [workers])
  | takeUp told idle workers promised =>
    obtain ⟨hlog, hclaims⟩ := h.log.nextEvent told
    refine h.set found rfl hlog (by rw [promised]; exact hnone) ?_
    rw [workers]
    exact hemployed _ hclaims
  | release finished workers promised =>
    refine h.set found rfl h.log (by rw [promised]; exact hnone) ?_
    rw [workers]
    exact hemployed _ (h.promised c hc)
  | leave workers promised =>
    exact h.set found rfl (h.log.leave (hbases _ _) _) (by rw [promised]; exact hnone)
      (by rwa [workers])

/-- **A worker** marks nothing beyond its tasks. -/
theorem Settled.worker (h : r.Settled Q) (hr : r.Sound)
    (hbase : ∀ claim, ClaimWorker.BaseSettled Q r.log claim) {i j : ℕ} {c : Consumer}
    {w w' : ClaimWorker} {cancelled : Bool} {s' : Site} {ds : List Deed}
    (found : r.consumers[i]? = some c) (staffed : c.workers[j]? = some w)
    (effect : w.Effect cancelled (r.site c) ds s' w')
    (hreceived : ∀ a ∈ ds.filterMap Deed.received?,
      Q w.claim.group w.claim.topic w.claim.partition a.offset) :
    (setConsumer { r with log := s'.log, link := s'.link } i
      { c with metrics := s'.metrics, workers := c.workers.set j w' }).Settled Q := by
  have hc := List.mem_of_getElem? found
  have hw : w ∈ r.workers := mem_workers.mpr ⟨c, hc, List.mem_of_getElem? staffed⟩
  refine h.set found rfl (effect.settledBelow_log (h.workers w hw) h.log) (h.promised c hc) ?_
  intro u hu
  rcases List.mem_or_eq_of_mem_set hu with hu | rfl
  · exact h.workers u (mem_workers.mpr ⟨c, hc, hu⟩)
  · exact effect.settledBelow hr.log (h.workers w hw) (hbase _) hreceived
      (hr.worker hw).slotted

theorem Settled.move {m : RelayMove} (h : r.Settled Q) (hr : r.Sound)
    (hbases : ∀ g topic, BasesSettled Q g topic (r.log.bases topic))
    (hbase : ∀ claim, ClaimWorker.BaseSettled Q r.log claim)
    (hreceived : ∀ w ∈ r.workers, ∀ a ∈ w.records, .deed w.claim.group (.received a) ∈ r.deeds m →
      Q w.claim.group w.claim.topic w.claim.partition a.offset)
    (moved : r.move? m = some r') : r'.Settled Q := by
  have hsame : ∀ r₁ : Relay, r₁.log.groups = r.log.groups → r₁.consumers = r.consumers →
      r₁.Settled Q := by
    intro r₁ hgroups hconsumers
    refine ⟨h.log.of_groups hgroups, hconsumers ▸ h.promised, fun w hw => h.workers w ?_⟩
    rwa [Relay.workers, hconsumers] at hw
  cases effect_of_move? moved with
  | session found _ _ effect => exact h.session hbases found effect
  | @worker i j m c w w' s' found staffed stepped =>
    have hw : w ∈ r.workers :=
      mem_workers.mpr ⟨c, List.mem_of_getElem? found, List.mem_of_getElem? staffed⟩
    have effect := (hr.worker hw).effect stepped
    refine h.worker hr hbase found staffed effect fun a ha => hreceived w hw a ?_ ?_
    · exact ClaimWorker.mem_records.mpr (.inl (effect.received_mem ha))
    · rw [deeds_worker found staffed stepped]
      exact deed_mem_map.mpr ⟨rfl, Deed.mem_received.mp ha⟩
  | dispatch effect =>
    cases effect with
    | goOn => exact hsame _ rfl rfl
    | @publish d status _ _ _ _ _ appended =>
      refine hsame _ ?_ rfl
      have := r.log.groups_append r.sender.topic d.request.phone (d.event status).encode
      rwa [appended] at this
  | append => exact hsame _ (r.log.groups_append _ _ _) rfl
  | steer log consumers => exact hsame _ (congrArg _ log) consumers
  | hire =>
    refine ⟨h.log, fun c hc => ?_, fun w hw => h.workers w ?_⟩
    · rcases List.mem_append.mp hc with hc | hc
      · exact h.promised c hc
      · rw [List.mem_singleton.mp hc]
        exact fun claim hclaim => absurd hclaim List.not_mem_nil
    · simpa [Relay.workers, addConsumer] using hw
  | @adjust m i c c' found adjusted =>
    have hc := List.mem_of_getElem? found
    refine h.set found rfl h.log (fun claim hclaim => ?_) ?_
    · exact h.promised c hc claim (adjusted.promised claim hclaim)
    · rw [adjusted.workers]
      exact fun w hw => h.workers w (mem_workers.mpr ⟨c, hc, hw⟩)
  | closeLog => exact ⟨h.log.close, h.promised, h.workers⟩

theorem Fresh.settled (h : r.Fresh) : r.Settled Q where
  log g hg := by
    rw [h.groups] at hg
    exact absurd hg List.not_mem_nil
  promised c hc := by
    rw [h.consumers] at hc
    exact absurd hc List.not_mem_nil
  workers w hw := by
    rw [h.workers] at hw
    exact absurd hw List.not_mem_nil

end Relay

namespace Course

variable {allowed : RelayMove → Prop} {r₀ r : Relay} {h : List RelayEvent}

/-- **Nothing is passed over.** Below what a group has committed, every record has got a slot from
one of its workers or has been trimmed. -/
theorem covered (course : Course allowed r₀ r h) : r.Settled (Covered h) := by
  induction course with
  | start fresh => exact fresh.settled
  | @move r r' h m course permitted moved ih =>
    have hr := course.sound
    have hrecorded := course.recorded
    have hmono := Covered.append (h := h) (r.events m r')
    refine (ih.mono hmono).move hr ?_ ?_ (fun w hw a ha hreceived => ?_) moved
    · exact fun g topic i o ho => hmono _ _ _ _ (hrecorded.bases hr.log g topic i o ho)
    · exact fun claim p hp o ho => hmono _ _ _ _ (hrecorded.base hr.log _ hp ho)
    · obtain ⟨happended, hplace⟩ := course.placed w hw a ha
      refine ⟨a, List.mem_append_left _ happended, hplace.topic, hplace.partition, rfl, .inl ?_⟩
      exact List.mem_append_right _ (Relay.deed_mem_events.mpr hreceived)

/-- A record that has got a slot has been put into a batch or dropped as no message, or a worker
that is still at work holds it. -/
theorem fate_of_received (course : Course allowed r₀ r h) {group : String} {a : Record}
    (hreceived : .deed group (.received a) ∈ h) : .deed group (.offered a) ∈ h ∨
      .deed group (.dropped a) ∈ h ∨
        ∃ w ∈ r.workers, ¬ w.isFinished ∧ w.claim.group = group ∧ a ∈ w.undecided := by
  rcases course.delivery.received group a hreceived with hoffered | hdropped | ⟨w, hw, hgroup, hin⟩
  · exact .inl hoffered
  · exact .inr (.inl hdropped)
  · refine .inr (.inr ⟨w, hw, fun hfinished => ?_, hgroup, hin⟩)
    rw [((course.sound.worker hw).nothing_left hfinished).1] at hin
    exact absurd hin List.not_mem_nil

/-- A record below the offset that a group has committed which has got no slot was trimmed. -/
theorem trimmed_of_missed (course : Course allowed r₀ r h) {g : Group} (hg : g ∈ r.log.groups)
    {a : Record} (ha : .appended a ∈ h) (htopic : a.topic = g.topic)
    (hbelow : a.offset < g.committed.getD a.partition 0)
    (hmissed : .deed g.name (.received a) ∉ h) : .trimmed a ∈ h := by
  obtain ⟨b, hb, hbtopic, hbpart, hboff, hcovered⟩ :=
    (course.covered.log g hg).committed a.partition a.offset hbelow
  obtain rfl : b = a := course.recorded.unique b a hb ha (hbtopic.trans htopic.symm) hbpart hboff
  exact hcovered.resolve_left hmissed

/-- **The commit boundary.** A record that has been appended below the offset that a group has
committed was trimmed before it got a slot, or it has been put into a batch or dropped as no
message, or a worker of the group that is still at work holds it. -/
theorem commit_boundary (course : Course allowed r₀ r h) {g : Group} (hg : g ∈ r.log.groups)
    {a : Record} (ha : .appended a ∈ h) (htopic : a.topic = g.topic)
    (hbelow : a.offset < g.committed.getD a.partition 0) :
    (.trimmed a ∈ h ∧ .deed g.name (.received a) ∉ h) ∨ .deed g.name (.offered a) ∈ h ∨
      .deed g.name (.dropped a) ∈ h ∨
        ∃ w ∈ r.workers, ¬ w.isFinished ∧ w.claim.group = g.name ∧ a ∈ w.undecided := by
  by_cases hreceived : .deed g.name (.received a) ∈ h
  · exact .inr (course.fate_of_received hreceived)
  · exact .inl ⟨course.trimmed_of_missed hg ha htopic hbelow hreceived, hreceived⟩

/-! ### Courses that come to the boundary -/

open Relay.Sample

/-- Of three records the first is on its way to a slow store, the second waits for its turn at the
batch, and the third, which is no message, is done with. -/
def overtaking : List RelayMove :=
  join 0 4 10 ++ [.setDelay 1000, append "m0", receive 0, receive 0, tick 0, work 0 0, tick 0,
    work 0 0, work 0 0, tick 0, tick 0, .elapse 50, tick 0, tick 0, append "m1", .append "t" "1" [],
    receive 0, receive 0, receive 0, receive 0, work 0 1, work 0 2, work 0 2]

/-- A worker with one slot has read a second record when its consumer is stopped. The record is
trimmed before another consumer comes. -/
def lettingGo : List RelayMove :=
  join 0 1 1 ++ [.setDelay 100, append "m0", append "m1", receive 0, receive 0, work 0 0, work 0 0,
    receive 0, receive 0, .cancel 0, receive 0, append "m2", append "m3", .elapse 100, work 0 0,
    work 0 0, tick 0, tick 0, receive 0, tick 0, receive 0, receive 0, .session 0 true,
    .session 0 true, .session 0 true] ++ join 1 1 2 ++ [receive 1, receive 1, work 1 2, work 1 2,
    work 1 2]

/-- A record below a committed offset may have been put into no batch and dropped by nobody,
although it has not been trimmed, or was read before it was trimmed. -/
theorem commit_boundary_crossed :
    (∃ r h, Course (fun _ => True) (relay 3) r h ∧ ∃ g ∈ r.log.groups, ∃ a,
      .appended a ∈ h ∧ a.topic = g.topic ∧ a.offset < g.committed.getD a.partition 0 ∧
      .offered a ∉ h.filterMap (·.deed?) ∧ .dropped a ∉ h.filterMap (·.deed?) ∧ .trimmed a ∉ h) ∧
    ∃ r h, Course (fun _ => True) (relay 2) r h ∧ ∃ g ∈ r.log.groups, ∃ a,
      .appended a ∈ h ∧ a.topic = g.topic ∧ a.offset < g.committed.getD a.partition 0 ∧
      .offered a ∉ h.filterMap (·.deed?) ∧ .dropped a ∉ h.filterMap (·.deed?) ∧
      .deed g.name (.read a) ∈ h.takeWhile (· ≠ .trimmed a) := by
  constructor
  · obtain ⟨r, h, course, g, hg, hcrossed⟩ := exists_of_recording Relay.move? Relay.events
      (Course _ _) (relay 3) overtaking (fun _ course => course.move trivial)
      (.start (fresh_relay 3)) (fun r h => ∃ g ∈ r.log.groups,
        .appended (record 1 "m1") ∈ h ∧ (record 1 "m1").topic = g.topic ∧
        1 < g.committed.getD 0 0 ∧ .offered (record 1 "m1") ∉ h.filterMap (·.deed?) ∧
        .dropped (record 1 "m1") ∉ h.filterMap (·.deed?) ∧ .trimmed (record 1 "m1") ∉ h)
      (by decide +kernel)
    exact ⟨r, h, course, g, hg, record 1 "m1", hcrossed⟩
  · obtain ⟨r, h, course, g, hg, hcrossed⟩ := exists_of_recording Relay.move? Relay.events
      (Course _ _) (relay 2) lettingGo (fun _ course => course.move trivial)
      (.start (fresh_relay 2)) (fun r h => ∃ g ∈ r.log.groups,
        .appended (record 1 "m1") ∈ h ∧ (record 1 "m1").topic = g.topic ∧
        1 < g.committed.getD 0 0 ∧ .offered (record 1 "m1") ∉ h.filterMap (·.deed?) ∧
        .dropped (record 1 "m1") ∉ h.filterMap (·.deed?) ∧
        .deed g.name (.read (record 1 "m1")) ∈ h.takeWhile (· ≠ .trimmed (record 1 "m1")))
      (by decide +kernel)
    exact ⟨r, h, course, g, hg, record 1 "m1", hcrossed⟩

/-- While the store is slow a worker holds a record below the committed offset. -/
theorem commit_boundary_overtaken : ∃ r h, Course (fun _ => True) (relay 3) r h ∧
    ∃ g ∈ r.log.groups, ∃ a, .appended a ∈ h ∧ a.offset < g.committed.getD a.partition 0 ∧
      ∃ w ∈ r.workers, ¬ w.isFinished ∧ w.claim.group = g.name ∧ a ∈ w.undecided := by
  obtain ⟨r, h, course, g, hg, happended, htopic, hbelow, htrimmed, hoffered, hdropped⟩ :=
    exists_of_recording Relay.move? Relay.events (Course _ _) (relay 3) overtaking
      (fun _ course => course.move trivial) (.start (fresh_relay 3))
      (fun r h => ∃ g ∈ r.log.groups, .appended (record 1 "m1") ∈ h ∧
        (record 1 "m1").topic = g.topic ∧ 1 < g.committed.getD 0 0 ∧
        .trimmed (record 1 "m1") ∉ h ∧ .deed g.name (.offered (record 1 "m1")) ∉ h ∧
        .deed g.name (.dropped (record 1 "m1")) ∉ h) (by decide +kernel)
  refine ⟨r, h, course, g, hg, record 1 "m1", happended, hbelow, ?_⟩
  rcases course.commit_boundary hg happended htopic hbelow with ⟨htrimmed', -⟩ | hin | hin | hin
  · exact (htrimmed htrimmed').elim
  · exact (hoffered hin).elim
  · exact (hdropped hin).elim
  · exact hin

end Course

end SmsRelay
