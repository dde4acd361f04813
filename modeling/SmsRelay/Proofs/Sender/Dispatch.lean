import Mathlib.Data.List.Basic
import SmsRelay.Proofs.Message.RoundTrip
import SmsRelay.Sender.Service

/-!
# What a dispatch does

A dispatch that has not ended goes on without touching the log, or ends by appending the event of
its request to the topic of the sender.

## Main results

* `Dispatch.Valid.decode_event`: the event of an accepted request is a message.
* `Sender.accept_blocked_iff`: which requests are refused because of the block list.
* `Sender.progress_of_step?`: what a step of a dispatch does in each phase.
* `Sender.effect_of_step?`: everything that a step of a dispatch can do to the log.
-/

namespace SmsRelay

/-! ### Events -/

namespace Dispatch

/-- A request of which a message can be made. -/
structure Valid (d : Dispatch) : Prop where
  request : d.request.violations = []
  timestamp : (Instant.ofMillis? d.timestamp).isSome

theorem Valid.isPhone {d : Dispatch} (h : d.Valid) : SendRequest.isPhone d.request.phone :=
  (SendRequest.violations_eq_nil_iff.mp h.request).2.2

/-- **The event of an accepted request** is a message, whatever its text and the verdict. -/
theorem Valid.decode_event {d : Dispatch} (h : d.Valid) (status : DeliveryStatus) :
    ∃ t, Instant.ofMillis? d.timestamp = some t ∧ Event.decode (d.event status).encode = .ok
      ⟨messageId t, d.correlationId, d.request.phone, d.request.message, status.name, t⟩ := by
  obtain ⟨t, ht⟩ := Option.isSome_iff_exists.mp h.timestamp
  obtain ⟨hmessage, -, hphone⟩ := SendRequest.violations_eq_nil_iff.mp h.request
  have hphone' : d.request.phone ≠ "" := by
    intro heq
    rw [heq] at hphone
    cases hphone
  have hmessage' : d.request.message ≠ "" := by
    intro heq
    rw [heq] at hmessage
    cases hmessage
  have hstatus : status.name ≠ "" := by cases status <;> decide
  obtain ⟨hlow, hhigh⟩ := Instant.millis_bounds ht
  refine ⟨t, ht, ?_⟩
  rw [Event.decode_encode hlow hhigh]
  exact Event.toMessage_ok_iff.mpr ⟨hphone', hmessage', hstatus, t, ht, rfl⟩

end Dispatch

/-! ### Requests -/

namespace Sender

variable {s s' : Sender} {q : SendRequest} {id : String} {timestamp : ℤ} {reply : SendReply}

/-- Nothing else changes with the block list. -/
theorem eq_of_changeBlockList {f : BlockList → Except Failure BlockList}
    (h : s.changeBlockList f = .ok s') :
    ∃ l, f s.blockList = .ok l ∧ s' = { s with blockList := l } := by
  rw [changeBlockList] at h
  split at h
  · cases h
  · cases hf : f s.blockList with
    | error e =>
      rw [hf] at h
      cases h
    | ok l =>
      rw [hf] at h
      cases h
      exact ⟨l, rfl, rfl⟩

/-- A request that passes the second check begins a dispatch. -/
theorem eq_of_decide (h : s.decide q id timestamp = .ok (reply, s')) :
    s' = { s with dispatches := s.dispatches ++
      [{ correlationId := id, request := q, timestamp := timestamp }] } := by
  rw [decide] at h
  split at h
  · cases h
  · cases h
  · cases h
    rfl

theorem accept_eq (s : Sender) (q : SendRequest) (id : String) (timestamp : ℤ) :
    s.accept q id timestamp = if q.violations ≠ [] then .error (.invalid q.violations)
      else if s.closed then .error .shuttingDown else s.decide q id timestamp := by
  rw [accept, screen]
  split
  · rfl
  · split <;> rfl

/-- A request that passes both checks begins a dispatch. -/
theorem eq_of_accept (h : s.accept q id timestamp = .ok (reply, s')) :
    s' = { s with dispatches := s.dispatches ++
      [{ correlationId := id, request := q, timestamp := timestamp }] } := by
  rw [accept_eq] at h
  split at h
  · cases h
  · split at h
    · cases h
    · exact eq_of_decide h

/-- **Which requests are refused because of the block list.** -/
theorem accept_blocked_iff (hguard : s.guardFault = none) (q : SendRequest) (id : String)
    (timestamp : ℤ) :
    (∃ phone, s.accept q id timestamp = .error (.blocked phone)) ↔
      q.violations = [] ∧ s.closed = false ∧ s.blockList.isBlocked q.phone := by
  rw [accept_eq]
  by_cases hviolations : q.violations = []
  · cases hclosed : s.closed with
    | true => simp [hviolations]
    | false =>
      rw [if_neg (not_not_intro hviolations), if_neg Bool.false_ne_true, decide, isBlocked, hguard]
      cases hblocked : s.blockList.isBlocked q.phone with
      | true => simp [hviolations]
      | false => simp
  · simp [hviolations]

end Sender

/-! ### Steps -/

/-- What a dispatch can come to when the provider has given its verdict or has broken down. -/
inductive DispatchOutcome.Follows : Option DeliveryStatus → DispatchOutcome → Prop
  | published {status : DeliveryStatus} {place : Placement} :
      Follows (some status) (.published status place)
  | publishFailed {status : DeliveryStatus} {reason : String} :
      Follows (some status) (.publishFailed status reason)
  | brokenDown : Follows none Dispatch.brokenDown

namespace Sender

/-- Everything that a step of a dispatch can do. -/
inductive Effect (s : Sender) (l : Log) (n : ℕ) : Log → Sender → Prop
  | goOn {d : Dispatch} {phase : DispatchPhase} (found : s.dispatches[n]? = some d)
      (pending : d.outcome? = none)
      (quiet : ∀ status place, phase ≠ .ended (.published status place)) :
      Effect s l n l { s with dispatches := s.dispatches.set n { d with phase := phase } }
  | publish {d : Dispatch} {status : DeliveryStatus} {place : Placement} {l' : Log}
      (found : s.dispatches[n]? = some d) (pending : d.outcome? = none)
      (known : l.find? s.topic ≠ none)
      (appended : l.append s.topic d.request.phone (d.event status).encode = (l', place)) :
      Effect s l n l' { s with
        dispatches := s.dispatches.set n { d with phase := .ended (.published status place) } }

/-- What is sent goes into a topic that exists. -/
theorem append_of_send {l l' : Log} {topic key : String} {value : Bytes} {place : Placement}
    (h : l.send topic key value = .ok (l', place)) :
    l.find? topic ≠ none ∧ l.append topic key value = (l', place) := by
  rw [Log.send] at h
  split at h
  · rename_i t ht
    refine ⟨fun hnone => ?_, Except.ok.inj h⟩
    rw [Log.topic?] at ht
    rw [hnone] at ht
    split at ht <;> cases ht
  · cases h

/-- Everything that a step of a dispatch can do, phase by phase. -/
inductive Progress (s : Sender) (now : ℕ) (l : Log) (n : ℕ) : Log → Sender → Prop
  /-- The provider is called. -/
  | provide {d : Dispatch} {plan : Delivery} (found : s.dispatches[n]? = some d)
      (fresh : d.phase = .fresh)
      (called : s.provider d.request.phone d.request.message = plan) :
      Progress s now l n l { s with
        dispatches := s.dispatches.set n
          { d with phase := .delivering (now + plan.delay) plan.verdict } }
  /-- The dispatch ends and nothing has been published. -/
  | fail {d : Dispatch} {due : ℕ} {verdict : Option DeliveryStatus} {o : DispatchOutcome}
      (found : s.dispatches[n]? = some d) (phase : d.phase = .delivering due verdict)
      (follows : o.Follows verdict) (quiet : ∀ status place, o ≠ .published status place) :
      Progress s now l n l { s with dispatches := s.dispatches.set n { d with phase := .ended o } }
  | publish {d : Dispatch} {due : ℕ} {status : DeliveryStatus} {place : Placement} {l' : Log}
      (found : s.dispatches[n]? = some d) (phase : d.phase = .delivering due (some status))
      (known : l.find? s.topic ≠ none)
      (appended : l.append s.topic d.request.phone (d.event status).encode = (l', place)) :
      Progress s now l n l' { s with
        dispatches := s.dispatches.set n { d with phase := .ended (.published status place) } }

theorem progress_of_step? {s s' : Sender} {now n : ℕ} {l l' : Log}
    (h : s.step? now l n = some (l', s')) : Progress s now l n l' s' := by
  obtain ⟨d, hfound, h⟩ := Option.bind_eq_some_iff.mp h
  cases hphase : d.phase with
  | fresh =>
    simp only [hphase] at h
    cases h
    exact .provide hfound hphase rfl
  | delivering due verdict =>
    simp only [hphase] at h
    split at h
    · cases h
    · cases verdict with
      | none =>
        cases h
        exact .fail hfound hphase .brokenDown nofun
      | some status =>
        simp only [publish] at h
        split at h
        · cases h
          exact .fail hfound hphase .publishFailed nofun
        · split at h
          · rename_i place hsend
            cases h
            obtain ⟨hknown, happend⟩ := append_of_send hsend
            exact .publish hfound hphase hknown happend
          · cases h
            exact .fail hfound hphase .publishFailed nofun
  | ended o => simp [hphase] at h

/-- **Everything that a step of a dispatch can do.** -/
theorem effect_of_step? {s s' : Sender} {now n : ℕ} {l l' : Log}
    (h : s.step? now l n = some (l', s')) : Effect s l n l' s' := by
  have hpending : ∀ {d : Dispatch} {due : ℕ} {verdict : Option DeliveryStatus},
      d.phase = .delivering due verdict → d.outcome? = none := by
    intro d due verdict hphase
    rw [Dispatch.outcome?, hphase]
  cases progress_of_step? h with
  | provide found fresh called => exact .goOn found (by rw [Dispatch.outcome?, fresh]) nofun
  | fail found phase follows quiet =>
    refine .goOn found (hpending phase) fun status place heq => ?_
    cases heq
    exact quiet status place rfl
  | publish found phase known appended => exact .publish found (hpending phase) known appended

end Sender

end SmsRelay
