import SmsRelay.Proofs.Consumer.Stopping
import SmsRelay.Proofs.Relay.Coverage
import SmsRelay.Proofs.Relay.Publication

/-!
# The end of the relay

The relay ends part by part: the sender accepts nothing more and finishes its dispatches, then each
consumer in turn is told to stop and waited for, then the log is closed. In the meantime everybody
else goes on as before.

## Implementation notes

A stage says how far the shutdown has come. Waiting is a step of its own, `await?`, which is taken
when what is waited for has happened; all other steps are moves of the relay.

A worker that is told to stop reads no further and lets go of a record for which it has no slot yet.
So what has been published and has no slot when the consumer is told to stop is not handed over.

## Main results

* `Shutdown.rested`: when the log has been closed, no worker is left.
* `Shutdown.received_handed`: the message of a published event whose record has got a slot has been
  handed over, and below committed offsets only records that were trimmed are missing.
-/

namespace SmsRelay

/-- How far the shutdown has come. -/
inductive ShutdownStage where
  | serving
  /-- The sender accepts nothing more and finishes its dispatches. -/
  | closing
  /-- The consumers before the number have been stopped, and that of the number has come this
  far. -/
  | stopping (number : ℕ) (s : StopStage)
  /-- The log has been closed. -/
  | closed
  deriving DecidableEq

namespace ShutdownStage

/-- The stage after a move of the relay. Consumers come only while it serves. -/
def move? (stage : ShutdownStage) (r : Relay) : RelayMove → Option ShutdownStage
  | .hire .. => if stage = .serving then some stage else none
  | .closeSender => if stage = .serving then some .closing else none
  | .cancel i => if stage = .stopping i .running then some (.stopping i .cancelled) else none
  | .takeHandle i =>
    if stage = .stopping i .cancelled then
      (r.consumers[i]?).map fun c => .stopping i (.waiting c.hasHandle)
    else none
  | .closeLog => if stage = .stopping r.consumers.length .running then some .closed else none
  | _ => some stage

/-- The stage when what is waited for has happened. -/
def await? (r : Relay) : ShutdownStage → Option ShutdownStage
  | .closing => if r.sender.inFlight = 0 then some (.stopping 0 .running) else none
  | .stopping i (.waiting waits) =>
    if waits = true → (r.consumers[i]?).all (·.hasEnded) then some (.stopping (i + 1) .running)
    else none
  | _ => none

/-- How far the stop of the consumer at a place has come. -/
def of (i : ℕ) : ShutdownStage → StopStage
  | .serving | .closing => .running
  | .stopping n s => if i < n then .stopped else if i = n then s else .running
  | .closed => .stopped

end ShutdownStage

/-- A course of the relay from its beginning `r₀` that shuts it down, with its history. -/
inductive Shutdown (r₀ : Relay) : ShutdownStage → Relay → List RelayEvent → Prop
  | start (fresh : r₀.Fresh) : Shutdown r₀ .serving r₀ []
  | move {stage stage' : ShutdownStage} {r r' : Relay} {h : List RelayEvent} {m : RelayMove}
      (shutdown : Shutdown r₀ stage r h) (staged : stage.move? r m = some stage')
      (moved : r.move? m = some r') : Shutdown r₀ stage' r' (h ++ r.events m r')
  | await {stage stage' : ShutdownStage} {r : Relay} {h : List RelayEvent}
      (shutdown : Shutdown r₀ stage r h) (awaited : stage.await? r = some stage') :
      Shutdown r₀ stage' r h

theorem Shutdown.course {r₀ r : Relay} {stage : ShutdownStage} {h : List RelayEvent}
    (shutdown : Shutdown r₀ stage r h) : Course (fun _ => True) r₀ r h := by
  induction shutdown with
  | start fresh => exact .start fresh
  | move shutdown staged moved ih => exact ih.move trivial moved
  | await shutdown awaited ih => exact ih

namespace Relay

/-- Every consumer is as the stage says. -/
def Expects (r : Relay) (stage : ShutdownStage) : Prop :=
  ∀ i c, r.consumers[i]? = some c → (stage.of i).Expects c

/-- The consumers after one of them has changed. -/
theorem getElem?_setConsumer {r r' : Relay} {i k : ℕ} {c c' d : Consumer}
    (found : r.consumers[i]? = some c) (hset : r'.consumers = r.consumers.set i c')
    (hd : r'.consumers[k]? = some d) : (k = i ∧ d = c') ∨ (k ≠ i ∧ r.consumers[k]? = some d) := by
  rw [hset, getElem?_set_eq_some_iff found] at hd
  exact hd.imp_left fun h => ⟨h.1, h.2.symm⟩

variable {r r' : Relay} {stage stage' : ShutdownStage}

/-- Only one consumer changes, and the stage of no other does. -/
theorem Expects.set (h : r.Expects stage) {i : ℕ} {c c' : Consumer}
    (found : r.consumers[i]? = some c) (hset : r'.consumers = r.consumers.set i c')
    (hother : ∀ k, k ≠ i → stage'.of k = stage.of k) (hc : (stage'.of i).Expects c') :
    r'.Expects stage' := by
  intro k d hd
  rcases getElem?_setConsumer found hset hd with ⟨rfl, rfl⟩ | ⟨hk, hd⟩
  · exact hc
  · rw [hother k hk]
    exact h k d hd

theorem Expects.undisturbed (h : r.Expects stage) {i : ℕ} {c c' : Consumer}
    (found : r.consumers[i]? = some c) (hset : r'.consumers = r.consumers.set i c')
    (hu : Consumer.Undisturbed c c') : r'.Expects stage :=
  h.set found hset (fun _ _ => rfl) ((h i c found).keep hu)

end Relay

namespace ShutdownStage

theorem of_stopping_self (n : ℕ) (s : StopStage) : (stopping n s).of n = s := by
  rw [of, if_neg (Nat.lt_irrefl n), if_pos rfl]

/-- The stop of one consumer is the business of no other. -/
theorem of_stopping_of_ne {n k : ℕ} (hk : k ≠ n) (s s' : StopStage) :
    (stopping n s).of k = (stopping n s').of k := by
  rw [of, of, if_neg hk, if_neg hk]

/-- When one consumer has been stopped it is the turn of the next. -/
theorem of_stopping_succ (n k : ℕ) :
    (stopping (n + 1) .running).of k = (stopping n .stopped).of k := by
  by_cases hk : k < n + 1
  · rw [of, if_pos hk, of]
    split
    · rfl
    · rw [if_pos (by omega)]
  · have hne : k ≠ n := by omega
    rw [of, if_neg hk, ite_self, of, if_neg (by omega), if_neg hne]

end ShutdownStage

namespace Relay

variable {r r' : Relay} {m : RelayMove} {stage stage' : ShutdownStage}

theorem Expects.same (h : r.Expects stage) (hconsumers : r'.consumers = r.consumers)
    (hstage : ∀ k, k < r.consumers.length → stage'.of k = stage.of k) : r'.Expects stage' := by
  intro k c hc
  rw [hconsumers] at hc
  rw [hstage k (List.getElem?_eq_some_iff.mp hc).1]
  exact h k c hc

/-- A consumer is told to stop, or its handle is asked for. -/
theorem Expects.adjust (h : r.Expects stage) (hr : r.Sound) {i : ℕ} {c c' : Consumer}
    (found : r.consumers[i]? = some c) (adjusted : Adjusted c i m c')
    (staged : stage.move? r m = some stage') : (r.setConsumer i c').Expects stage' := by
  cases adjusted with
  | start running =>
    cases staged
    exact h.undisturbed found rfl ⟨rfl, fun hs => absurd (running.symm.trans hs) nofun,
      fun hs => absurd (running.symm.trans hs) nofun⟩
  | reroute =>
    cases staged
    exact h.undisturbed found rfl ⟨rfl, fun _ => rfl, fun _ _ => rfl⟩
  | cancel =>
    obtain ⟨hstage, hstaged⟩ := Option.ite_none_right_eq_some.mp staged
    cases hstaged
    subst hstage
    have hc := h i c found
    rw [ShutdownStage.of_stopping_self] at hc
    refine h.set found rfl (fun k hk => ShutdownStage.of_stopping_of_ne hk _ _) ?_
    rw [ShutdownStage.of_stopping_self]
    exact ⟨rfl, fun hhandle =>
      (hr.consumers c (List.mem_of_getElem? found)).unstarted hhandle hc⟩
  | takeHandle stopping =>
    obtain ⟨hstage, hstaged⟩ := Option.ite_none_right_eq_some.mp staged
    rw [found] at hstaged
    cases hstaged
    subst hstage
    have hc := h i c found
    rw [ShutdownStage.of_stopping_self] at hc
    refine h.set found rfl (fun k hk => ShutdownStage.of_stopping_of_ne hk _ _) ?_
    rw [ShutdownStage.of_stopping_self]
    exact hc

/-- **A move** leaves every consumer as its stage says. -/
theorem Expects.move (h : r.Expects stage) (hr : r.Sound) (staged : stage.move? r m = some stage')
    (moved : r.move? m = some r') : r'.Expects stage' := by
  cases effect_of_move? moved with
  | session found started going effect =>
    cases staged
    exact h.undisturbed found rfl (effect.undisturbed started going)
  | worker found =>
    cases staged
    exact h.undisturbed found rfl ⟨rfl, fun _ => rfl, fun _ _ => rfl⟩
  | dispatch | append =>
    cases staged
    exact h.same rfl fun _ _ => rfl
  | adjust found adjusted => exact h.adjust hr found adjusted staged
  | hire =>
    obtain ⟨hstage, hstaged⟩ := Option.ite_none_right_eq_some.mp staged
    cases hstaged
    subst hstage
    intro k c hc
    rw [addConsumer, List.getElem?_append] at hc
    split at hc
    · exact h k c hc
    · rw [List.mem_singleton.mp (List.mem_of_getElem? hc)]
      rfl
  | closeLog =>
    obtain ⟨hstage, hstaged⟩ := Option.ite_none_right_eq_some.mp staged
    cases hstaged
    subst hstage
    refine h.same rfl fun k hk => ?_
    rw [ShutdownStage.of, ShutdownStage.of, if_pos hk]
  | steer log consumers handed store mode steering =>
    cases m with
    | closeSender =>
      obtain ⟨hstage, hstaged⟩ := Option.ite_none_right_eq_some.mp staged
      cases hstaged
      subst hstage
      exact h.same consumers fun _ _ => rfl
    | elapse | request | equip | setMode | setDelay =>
      cases staged
      exact h.same consumers fun _ _ => rfl
    | session | worker | dispatch | append | hire | start | cancel | takeHandle | reroute
    | closeLog => cases steering

/-- **What is waited for** is the end of a consumer that has been told to stop. -/
theorem Expects.await (h : r.Expects stage) (awaited : stage.await? r = some stage') :
    r.Expects stage' := by
  cases stage with
  | serving | closed => cases awaited
  | closing =>
    obtain ⟨-, hstaged⟩ := Option.ite_none_right_eq_some.mp awaited
    cases hstaged
    refine h.same rfl fun k _ => ?_
    show (ShutdownStage.stopping 0 .running).of k = .running
    rw [ShutdownStage.of, if_neg (Nat.not_lt_zero k), ite_self]
  | stopping n s =>
    cases s with
    | running | cancelled | stopped => cases awaited
    | waiting waits =>
      obtain ⟨hended, hstaged⟩ := Option.ite_none_right_eq_some.mp awaited
      cases hstaged
      intro k c hc
      rw [ShutdownStage.of_stopping_succ]
      by_cases hk : k = n
      · subst hk
        have hexpects := h k c hc
        rw [ShutdownStage.of_stopping_self] at hexpects ⊢
        refine ⟨hexpects.1, ?_⟩
        cases waits with
        | true =>
          have hended := hended rfl
          rw [hc, Option.all_some, Consumer.hasEnded, decide_eq_true_eq] at hended
          exact .inl hended
        | false => exact .inr (hexpects.2 rfl)
      · rw [ShutdownStage.of_stopping_of_ne hk _ (.waiting waits)]
        exact h k c hc

end Relay

namespace Shutdown

variable {r₀ r : Relay} {stage : ShutdownStage} {h : List RelayEvent}

theorem expects (shutdown : Shutdown r₀ stage r h) : r.Expects stage := by
  induction shutdown with
  | start fresh =>
    intro i c hc
    rw [fresh.consumers] at hc
    cases hc
  | move shutdown staged moved ih => exact ih.move shutdown.course.sound staged moved
  | await shutdown awaited ih => exact ih.await awaited

/-- **At the end nobody is at work.** -/
theorem rested (shutdown : Shutdown r₀ .closed r h) : r.workers = [] := by
  refine List.flatMap_eq_nil_iff.mpr fun c hc => ?_
  obtain ⟨i, hi⟩ := List.getElem?_of_mem hc
  exact (shutdown.expects i c hi).workers (shutdown.course.sound.consumers c hc)

/-- What is kept at the end has been handed over. -/
theorem handed_of_keeps (shutdown : Shutdown r₀ .closed r h) {x : Message} (hx : r.Keeps x) :
    x ∈ r.link.handed.flatten := by
  refine hx.resolve_right ?_
  rintro ⟨w, hw, -⟩
  rw [shutdown.rested] at hw
  exact List.not_mem_nil hw

/-- **The end of the relay loses nothing that has got a slot.** When the log has been closed, the
event of each request that has been published is a message. It has been handed to the store if its
record has got a slot from a worker, and also if the record lies below the offset that a group has
committed, unless it was trimmed before it got a slot. -/
theorem received_handed (shutdown : Shutdown r₀ .closed r h) {d : Dispatch}
    (hd : d ∈ r.sender.dispatches) {status : DeliveryStatus} {place : Placement}
    (houtcome : d.outcome? = some (.published status place)) {a : Record}
    (ha : a = d.record r.sender.topic status place) :
    .appended a ∈ h ∧ ∃ x, a.message? = some x ∧ x.correlationId = d.correlationId ∧
      (∀ g, .deed g (.received a) ∈ h → x ∈ r.link.handed.flatten) ∧
      ∀ g ∈ r.log.groups, a.topic = g.topic → a.offset < g.committed.getD a.partition 0 →
        x ∈ r.link.handed.flatten ∨ (.trimmed a ∈ h ∧ .deed g.name (.received a) ∉ h) := by
  have hpublication := shutdown.course.publication
  have happended : .appended a ∈ h := ha ▸ hpublication.published d hd status place houtcome
  obtain ⟨x, hx, hid⟩ : ∃ x, a.message? = some x ∧ x.correlationId = d.correlationId := by
    obtain ⟨t, -, hx⟩ :=
      Dispatch.message?_record (hpublication.valid d hd) r.sender.topic status place
    exact ⟨_, ha ▸ hx, rfl⟩
  have hoffered : ∀ g, .deed g (.offered a) ∈ h → x ∈ r.link.handed.flatten := by
    intro g hoffered
    obtain ⟨y, hy, hkeeps⟩ := shutdown.course.delivery.offered g a hoffered
    obtain rfl := Option.some.inj (hx.symm.trans hy)
    exact shutdown.handed_of_keeps hkeeps
  have hdropped : ∀ g, .deed g (.dropped a) ∉ h := by
    intro g hdropped
    rw [shutdown.course.delivery.dropped g a hdropped] at hx
    cases hx
  have hnobody : ∀ w, w ∉ r.workers := by
    rw [shutdown.rested]
    exact fun _ => List.not_mem_nil
  have hhanded : ∀ g, .deed g (.received a) ∈ h → x ∈ r.link.handed.flatten := by
    intro g hreceived
    rcases shutdown.course.fate_of_received hreceived with hin | hin | ⟨w, hw, -⟩
    · exact hoffered g hin
    · exact (hdropped g hin).elim
    · exact (hnobody w hw).elim
  refine ⟨happended, x, hx, hid, hhanded, fun g hg htopic hbelow => ?_⟩
  by_cases hreceived : .deed g.name (.received a) ∈ h
  · exact .inl (hhanded g.name hreceived)
  · exact .inr ⟨shutdown.course.trimmed_of_missed hg happended htopic hbelow hreceived, hreceived⟩

/-! ### A shutdown -/

/-- Makes a move and adds what is seen of it to the history; `none` stands for waiting. -/
def record? (e : ShutdownStage × Relay × List RelayEvent) :
    Option RelayMove → Option (ShutdownStage × Relay × List RelayEvent)
  | none => (e.1.await? e.2.1).map fun stage => (stage, e.2)
  | some m => (e.1.move? e.2.1 m).bind fun stage =>
      (recording Relay.move? Relay.events e.2 m).map fun next => (stage, next)

theorem record {e e' : ShutdownStage × Relay × List RelayEvent} {m : Option RelayMove}
    (shutdown : Shutdown r₀ e.1 e.2.1 e.2.2) (made : record? e m = some e') :
    Shutdown r₀ e'.1 e'.2.1 e'.2.2 := by
  cases m with
  | none =>
    obtain ⟨stage, hawait, rfl⟩ := Option.map_eq_some_iff.mp made
    exact shutdown.await hawait
  | some m =>
    obtain ⟨stage, hstage, made⟩ := Option.bind_eq_some_iff.mp made
    obtain ⟨next, hrecorded, rfl⟩ := Option.map_eq_some_iff.mp made
    obtain ⟨r, hmove, rfl⟩ := Option.map_eq_some_iff.mp hrecorded
    exact shutdown.move hstage hmove

/-- What is seen of moves that close the log is seen of a shutdown. -/
theorem exists_of_record (fresh : r₀.Fresh) (moves : List (Option RelayMove))
    (P : Relay → List RelayEvent → Prop) [∀ r h, Decidable (P r h)]
    (seen : (moves.foldlM record? (.serving, r₀, [])).any
      fun e => decide (e.1 = .closed ∧ P e.2.1 e.2.2)) :
    ∃ r h, Shutdown r₀ .closed r h ∧ P r h := by
  obtain ⟨⟨stage, r, h⟩, shutdown, rfl, hP⟩ := exists_of_foldlM record?
    (fun e => Shutdown r₀ e.1 e.2.1 e.2.2) (.serving, r₀, []) moves (fun _ => record) (.start fresh)
    (fun e => e.1 = .closed ∧ P e.2.1 e.2.2) seen
  exact ⟨r, h, shutdown, hP⟩

open Relay.Sample

/-- A request with a phone number. -/
def request (id : String) : RelayMove := .request ⟨"0123456789", "hello"⟩ id 0

/-- Two requests are published, and the worker of the only consumer, which has one slot, has read
both records and given the first its slot when the shutdown begins. -/
def shuttingDown : List (Option RelayMove) :=
  (join 0 1 1 ++ [.setDelay 100, request "m0", request "m1", .dispatch 0, .dispatch 0, .dispatch 1,
    .dispatch 1, receive 0, receive 0, work 0 0, work 0 0, receive 0, receive 0,
    .closeSender]).map some ++ none :: ([.cancel 0, .takeHandle 0, receive 0, .elapse 100,
    work 0 0, work 0 0, tick 0, tick 0, receive 0, tick 0, receive 0, receive 0, .session 0 true,
    .session 0 true, .session 0 true].map some ++ [none, some .closeLog])

/-- What has been published may not be handed over, although the store takes every batch and the
record has not been trimmed. -/
theorem published_not_handed : ∃ r h, Shutdown (relay 3) .closed r h ∧
    r.link.store.list.toOption = some r.link.handed.flatten ∧
    ∃ d ∈ r.sender.dispatches, ∃ status place, d.outcome? = some (.published status place) ∧
      .trimmed (d.record r.sender.topic status place) ∉ h ∧
      ∀ x ∈ r.link.handed.flatten, x.correlationId ≠ d.correlationId := by
  obtain ⟨r, h, shutdown, hstored, d, hd, hmissing⟩ :=
    exists_of_record (fresh_relay 3) shuttingDown (fun r h =>
      r.link.store.list.toOption = some r.link.handed.flatten ∧
      ∃ d ∈ r.sender.dispatches, d.outcome? = some (.published .success ⟨0, 1⟩) ∧
        .trimmed (d.record r.sender.topic .success ⟨0, 1⟩) ∉ h ∧
        ∀ x ∈ r.link.handed.flatten, x.correlationId ≠ d.correlationId) (by decide +kernel)
  exact ⟨r, h, shutdown, hstored, d, hd, .success, ⟨0, 1⟩, hmissing⟩

/-- In the same shutdown the message that is in its slot is handed over. -/
theorem received_handed_once : ∃ r h, Shutdown (relay 3) .closed r h ∧
    ∃ d ∈ r.sender.dispatches, ∃ status place, d.outcome? = some (.published status place) ∧
      ∃ x ∈ r.link.handed.flatten, x.correlationId = d.correlationId := by
  obtain ⟨r, h, shutdown, d, hd, houtcome, hreceived⟩ :=
    exists_of_record (fresh_relay 3) shuttingDown (fun r h =>
      ∃ d ∈ r.sender.dispatches, d.outcome? = some (.published .success ⟨0, 0⟩) ∧
        .deed "g" (.received (d.record r.sender.topic .success ⟨0, 0⟩)) ∈ h) (by decide +kernel)
  obtain ⟨-, x, -, hid, hhanded, -⟩ := shutdown.received_handed hd houtcome rfl
  exact ⟨r, h, shutdown, d, hd, .success, ⟨0, 0⟩, houtcome, x, hhanded "g" hreceived, hid⟩

end Shutdown

end SmsRelay
