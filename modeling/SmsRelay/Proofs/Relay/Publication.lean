import SmsRelay.Proofs.Relay.History

/-!
# What the sender publishes

The event of a dispatch that has been published stands in the log at the place that the outcome
names, and it is a message: the sender accepts no request of which none could be made.

## Main results

* `Course.publication`: published events have been appended.
* `Dispatch.message?_record`: the message of a published event.
-/

namespace SmsRelay

namespace Dispatch

/-- The record of a dispatch that has been published. -/
def record (d : Dispatch) (topic : String) (status : DeliveryStatus) (place : Placement) : Record :=
  ⟨topic, place.partition, place.offset, d.request.phone, (d.event status).encode⟩

/-- **A published event is a message.** -/
theorem message?_record {d : Dispatch} (h : d.Valid) (topic : String) (status : DeliveryStatus)
    (place : Placement) : ∃ t, Instant.ofMillis? d.timestamp = some t ∧
      (d.record topic status place).message? = some
        ⟨messageId t, d.correlationId, d.request.phone, d.request.message, status.name, t⟩ := by
  obtain ⟨t, ht, hdecode⟩ := h.decode_event status
  refine ⟨t, ht, ?_⟩
  rw [Record.message?, record, hdecode]
  rfl

end Dispatch

namespace Relay

variable {r r' : Relay} {m : RelayMove}

/-- What a move means for the dispatches. -/
inductive SenderShift (r : Relay) : Relay → Prop
  | same {r' : Relay} (dispatches : r'.sender.dispatches = r.sender.dispatches) : SenderShift r r'
  | accept {r' : Relay} {d : Dispatch} (valid : d.Valid) (pending : d.outcome? = none)
      (dispatches : r'.sender.dispatches = r.sender.dispatches ++ [d]) : SenderShift r r'
  | dispatch {n : ℕ} {r' : Relay} (effect : r.sender.Effect r.log n r'.log r'.sender) :
      SenderShift r r'

theorem sender_of_adjust {i : ℕ} {f : Consumer → Option Consumer} (h : r.adjust? i f = some r') :
    r'.sender = r.sender := by
  obtain ⟨c, -, h⟩ := Option.bind_eq_some_iff.mp h
  obtain ⟨c', -, rfl⟩ := Option.map_eq_some_iff.mp h
  rfl

theorem sender_of_session {i : ℕ} {heeding : Bool} (h : r.move? (.session i heeding) = some r') :
    r'.sender = r.sender := by
  cases heeding with
  | true | false =>
    obtain ⟨c, -, h⟩ := Option.bind_eq_some_iff.mp h
    obtain ⟨⟨l', c'⟩, -, h⟩ := Option.bind_eq_some_iff.mp h
    cases h
    rfl

theorem sender_of_worker {i j : ℕ} {n : WorkerMove} (h : r.move? (.worker i j n) = some r') :
    r'.sender = r.sender := by
  obtain ⟨c, -, h⟩ := Option.bind_eq_some_iff.mp h
  obtain ⟨w, -, h⟩ := Option.bind_eq_some_iff.mp h
  obtain ⟨⟨s', w'⟩, -, h⟩ := Option.bind_eq_some_iff.mp h
  cases h
  rfl

theorem shift_of_request {q : SendRequest} {id : String} {timestamp : ℤ}
    (h : r.move? (.request q id timestamp) = some r') :
    r'.sender.topic = r.sender.topic ∧ SenderShift r r' := by
  simp only [move?] at h
  split at h
  · rename_i hvalid
    obtain ⟨⟨reply, s'⟩, hdecide, rfl⟩ := Option.map_eq_some_iff.mp h
    have hok : r.sender.decide q id timestamp = .ok (reply, s') := by
      cases hd : r.sender.decide q id timestamp <;> rw [hd] at hdecide <;> cases hdecide
      rfl
    have hd : Dispatch.Valid { correlationId := id, request := q, timestamp := timestamp } :=
      ⟨hvalid.1, hvalid.2⟩
    obtain rfl := Sender.eq_of_decide hok
    exact ⟨rfl, .accept hd rfl rfl⟩
  · cases h

/-- **What a move means for the dispatches.** The sender keeps its topic. -/
theorem senderShift_of_move? (h : r.move? m = some r') :
    r'.sender.topic = r.sender.topic ∧ SenderShift r r' := by
  have hsame : r'.sender = r.sender →
      r'.sender.topic = r.sender.topic ∧ SenderShift r r' := fun heq =>
    ⟨congrArg _ heq, .same (congrArg _ heq)⟩
  cases m with
  | session => exact hsame (sender_of_session h)
  | worker => exact hsame (sender_of_worker h)
  | start | cancel | takeHandle | reroute => exact hsame (sender_of_adjust h)
  | request => exact shift_of_request h
  | dispatch n =>
    obtain ⟨⟨l', s'⟩, hstep, rfl⟩ := Option.map_eq_some_iff.mp h
    have heffect := Sender.effect_of_step? hstep
    refine ⟨?_, .dispatch heffect⟩
    cases heffect <;> rfl
  | elapse | append | equip | closeSender | hire | closeLog | setMode | setDelay =>
    cases h
    exact ⟨rfl, .same rfl⟩

/-! ### Published events -/

/-- All dispatches are valid, and the records of those that have been published have been
appended. -/
structure Publication (r : Relay) (h : List RelayEvent) : Prop where
  valid : ∀ d ∈ r.sender.dispatches, d.Valid
  published : ∀ d ∈ r.sender.dispatches, ∀ status place,
    d.outcome? = some (.published status place) →
    .appended (d.record r.sender.topic status place) ∈ h

/-- A dispatch changes its phase only. -/
theorem Publication.set {h : List RelayEvent} (hp : r.Publication h) {n : ℕ} {d : Dispatch}
    {phase : DispatchPhase} (found : r.sender.dispatches[n]? = some d)
    (htopic : r'.sender.topic = r.sender.topic)
    (hset : r'.sender.dispatches = r.sender.dispatches.set n { d with phase := phase })
    {es : List RelayEvent} (hpublished : ∀ status place, phase = .ended (.published status place) →
      .appended (d.record r.sender.topic status place) ∈ es) : r'.Publication (h ++ es) := by
  have hd := hp.valid d (List.mem_of_getElem? found)
  refine ⟨fun e he => ?_, fun e he status place houtcome => ?_⟩ <;> rw [hset] at he
  · rcases List.mem_or_eq_of_mem_set he with he | rfl
    · exact hp.valid e he
    · exact ⟨hd.request, hd.timestamp⟩
  · rw [htopic]
    rcases List.mem_or_eq_of_mem_set he with he | rfl
    · exact List.mem_append_left _ (hp.published e he status place houtcome)
    · refine List.mem_append_right _ (hpublished status place ?_)
      rw [Dispatch.outcome?] at houtcome
      dsimp only at houtcome
      split at houtcome
      · cases houtcome
        rfl
      · cases houtcome

theorem Publication.move {h : List RelayEvent} (hp : r.Publication h) (hr : r.Sound)
    (moved : r.move? m = some r') : r'.Publication (h ++ r.events m r') := by
  obtain ⟨htopic, hshift⟩ := senderShift_of_move? moved
  have hold : ∀ d ∈ r.sender.dispatches, ∀ status place,
      d.outcome? = some (.published status place) →
      .appended (d.record r'.sender.topic status place) ∈ h ++ r.events m r' := by
    intro d hd status place houtcome
    rw [htopic]
    exact List.mem_append_left _ (hp.published d hd status place houtcome)
  cases hshift with
  | same dispatches => exact ⟨dispatches ▸ hp.valid, dispatches ▸ hold⟩
  | @accept _ d valid pending dispatches =>
    refine ⟨fun e he => ?_, fun e he => ?_⟩ <;> rw [dispatches] at he <;>
      rcases List.mem_append.mp he with he | he
    · exact hp.valid e he
    · rw [List.mem_singleton.mp he]
      exact valid
    · exact hold e he
    · intro status place houtcome
      rw [List.mem_singleton.mp he, pending] at houtcome
      cases houtcome
  | dispatch effect =>
    generalize hlog : r'.log = l', hsender : r'.sender = s' at effect
    cases effect with
    | goOn found notYet quiet =>
      refine hp.set found htopic (by rw [hsender]) fun status place hphase => ?_
      exact (quiet status place hphase).elim
    | @publish d status place _ found notYet known appended =>
      refine hp.set found htopic (by rw [hsender]) fun status' place' hphase => ?_
      cases hphase
      have happended := hr.log.appended r.sender.topic d.request.phone (d.event status).encode
      rw [appended, ← hlog] at happended
      rcases happended.grown? hr.log with ⟨-, hmissing⟩ | hgrown
      · exact (known hmissing).elim
      · exact List.mem_append_left _ ((hgrown.added _).mpr rfl)

end Relay

/-- **What has been published has been appended.** -/
theorem Course.publication {allowed : RelayMove → Prop} {r₀ r : Relay} {h : List RelayEvent}
    (course : Course allowed r₀ r h) : r.Publication h := by
  induction course with
  | start fresh =>
    constructor <;> rw [fresh.dispatches] <;> exact fun d hd => absurd hd List.not_mem_nil
  | move course permitted moved ih => exact ih.move course.sound moved

end SmsRelay
