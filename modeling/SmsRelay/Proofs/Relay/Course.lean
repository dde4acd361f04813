import SmsRelay.Proofs.Claim.Conservation
import SmsRelay.Proofs.Consumer.Session
import SmsRelay.Proofs.Log.Settlement
import SmsRelay.Proofs.Sender.Dispatch
import SmsRelay.Relay.Basic

/-!
# The course of the relay

What can happen to the relay, one move after the other: its actors take their steps in any order,
time passes, others append records and requests come in, consumers are added, started and stopped,
and the link to the store changes. The history of a course tells which records were appended and
trimmed and what the claim workers did.

## Implementation notes

A session loop that has been stopped while something else is ready for it may notice either; the
same is true of a timer. Moves `session` and `tick` say which.

`Relay.Effect` says once what a move can do. Whoever reasons about courses takes a move apart with
`effect_of_move?`.

## Main results

* `Relay.effect_of_move?`: everything that a move can do.
-/

namespace SmsRelay

/-- What happens on the way of the relay. -/
inductive RelayEvent where
  | appended (r : Record)
  | trimmed (r : Record)
  /-- A claim worker of a group does something. -/
  | deed (group : String) (d : Deed)
  deriving DecidableEq

/-- The deed that an event is, whatever the group. -/
def RelayEvent.deed? : RelayEvent → Option Deed
  | deed _ d => some d
  | _ => none

/-- What can happen to the relay. -/
inductive RelayMove where
  /-- A session loop takes a step, heeding or not that it has been stopped. -/
  | session (consumer : ℕ) (heeding : Bool)
  | worker (consumer worker : ℕ) (m : WorkerMove)
  | dispatch (number : ℕ)
  | elapse (millis : ℕ)
  /-- Someone else puts a record into the log. -/
  | append (topic key : String) (value : Bytes)
  /-- A request that has passed the first check is decided about. -/
  | request (q : SendRequest) (correlationId : String) (timestamp : Int)
  | equip (provider : Provider) (blockList : BlockList) (guardFault publishFault : Option Failure)
  | closeSender
  | hire (name : String) (settings : ConsumerSettings) (transport : Transport)
  | start (consumer : ℕ)
  | cancel (consumer : ℕ)
  | takeHandle (consumer : ℕ)
  | reroute (consumer : ℕ) (transport : Transport)
  | closeLog
  | setMode (mode : LinkMode)
  | setDelay (millis : ℕ)

/-- The move concerns neither records nor consumers. -/
def RelayMove.isSteering : RelayMove → Bool
  | elapse _ | request .. | equip .. | closeSender | setMode _ | setDelay _ => true
  | _ => false

/-- The link to the store goes on answering as it does. -/
def RelayMove.keepsMode : RelayMove → Bool
  | setMode _ => false
  | _ => true

/-- What a log begins to keep and no longer keeps. -/
def Log.changes (l l' : Log) : List RelayEvent :=
  (l'.records.filter (· ∉ l.records)).map .appended
    ++ (l.records.filter (· ∉ l'.records)).map .trimmed

namespace Relay

/-- Changes the consumer at a place. -/
def adjust? (r : Relay) (i : ℕ) (f : Consumer → Option Consumer) : Option Relay :=
  (r.consumers[i]?).bind fun c => (f c).map (r.setConsumer i)

/-- The result of a move, if it can be made. -/
def move? (r : Relay) : RelayMove → Option Relay
  | .session i true => r.step? (.session i)
  | .session i false => do
    let c ← r.consumers[i]?
    let (l, c') ← c.lateStep? r.now r.log
    some (setConsumer { r with log := l } i c')
  | .worker i j m => r.workerStep? i j fun c w =>
    w.move? (c.stopping || c.claimsCancelled) (r.site c) m
  | .dispatch n => r.step? (.dispatch n)
  | .elapse millis => some { r with now := r.now + millis }
  | .append topic key value => some { r with log := (r.log.append topic key value).1 }
  | .request q correlationId timestamp =>
    if q.violations = [] ∧ (Instant.ofMillis? timestamp).isSome then
      (r.sender.decide q correlationId timestamp).toOption.map fun p => { r with sender := p.2 }
    else none
  | .equip provider blockList guardFault publishFault => some { r with
      sender := { r.sender with
        provider := provider, blockList := blockList
        guardFault := guardFault, publishFault := publishFault } }
  | .closeSender => some { r with sender := r.sender.close }
  | .hire name settings transport =>
    some (r.addConsumer { name := name, settings := settings, transport := transport })
  | .start i => r.adjust? i fun c => c.start.toOption
  | .cancel i => r.adjust? i fun c => some c.cancel
  | .takeHandle i => r.adjust? i fun c => if c.stopping then some c.takeHandle.2 else none
  | .reroute i transport => r.adjust? i fun c => some { c with transport := transport }
  | .closeLog => some r.closeLog
  | .setMode mode => some { r with link := { r.link with mode := mode } }
  | .setDelay millis => some { r with link := { r.link with delay := millis } }

/-- The deeds of a move. -/
def deeds (r : Relay) : RelayMove → List RelayEvent
  | .worker i j m =>
    match (r.consumers[i]?).bind fun c => (c.workers[j]?).map (c, ·) with
    | none => []
    | some (c, w) =>
      match w.move? (c.stopping || c.claimsCancelled) (r.site c) m with
      | none => []
      | some (s, w') => (w.deeds (r.site c) m s w').map (.deed w.claim.group)
  | _ => []

/-- What happens in a move from `r` to `r'`. -/
def events (r : Relay) (m : RelayMove) (r' : Relay) : List RelayEvent :=
  r.log.changes r'.log ++ r.deeds m

/-- A relay at its beginning: nothing has been appended, nobody reads, nothing is on its way. -/
structure Fresh (r : Relay) : Prop where
  numbered : r.log.Numbered
  records : r.log.records = []
  watermarks : ∀ topic i p, r.log.partitionAt topic i = some p → p.watermark = 0
  groups : r.log.groups = []
  consumers : r.consumers = []
  dispatches : r.sender.dispatches = []
  handed : r.link.handed = []

/-- What can be asked of a consumer. -/
inductive Adjusted (c : Consumer) (i : ℕ) : RelayMove → Consumer → Prop
  | start (stopping : c.stopping = false) (handle : c.hasHandle = false) :
      Adjusted c i (.start i) { c with hasHandle := true, phase := .beginning }
  | cancel : Adjusted c i (.cancel i) c.cancel
  | takeHandle (stopping : c.stopping = true) : Adjusted c i (.takeHandle i) c.takeHandle.2
  | reroute {transport : Transport} :
      Adjusted c i (.reroute i transport) { c with transport := transport }

theorem Adjusted.workers {c c' : Consumer} {i : ℕ} {m : RelayMove} (h : Adjusted c i m c') :
    c'.workers = c.workers := by
  cases h <;> rfl

/-- Nothing new is promised. -/
theorem Adjusted.promised {c c' : Consumer} {i : ℕ} {m : RelayMove} (h : Adjusted c i m c') :
    ∀ claim ∈ c'.promised, claim ∈ c.promised := by
  intro claim hclaim
  cases h with
  | start => cases hclaim
  | cancel | takeHandle | reroute => exact hclaim

theorem Adjusted.orderly {c c' : Consumer} {i : ℕ} {m : RelayMove} (h : Adjusted c i m c')
    (ho : c.Orderly) : c'.Orderly := by
  cases h with
  | start stopping handle => exact ho.start stopping handle
  | cancel => exact ⟨ho.rested, nofun⟩
  | takeHandle stopping => exact ⟨ho.rested, fun _ hs => absurd (stopping.symm.trans hs) nofun⟩
  | reroute => exact ⟨ho.rested, ho.unstarted⟩

/-- Everything that a move can do. -/
inductive Effect (r : Relay) : RelayMove → Relay → Prop
  | session {i : ℕ} {heeding : Bool} {c c' : Consumer} {l' : Log}
      (found : r.consumers[i]? = some c) (started : c.phase ≠ .unstarted)
      (going : c.phase ≠ .ended) (effect : c.Effect r.log l' c') :
      Effect r (.session i heeding) (setConsumer { r with log := l' } i c')
  | worker {i j : ℕ} {m : WorkerMove} {c : Consumer} {w w' : ClaimWorker} {s' : Site}
      (found : r.consumers[i]? = some c) (staffed : c.workers[j]? = some w)
      (moved : w.move? (c.stopping || c.claimsCancelled) (r.site c) m = some (s', w')) :
      Effect r (.worker i j m) (setConsumer { r with log := s'.log, link := s'.link } i
        { c with metrics := s'.metrics, workers := c.workers.set j w' })
  /-- A dispatch goes on, and perhaps publishes its event. -/
  | dispatch {n : ℕ} {l' : Log} {s' : Sender} (effect : r.sender.Effect r.log n l' s') :
      Effect r (.dispatch n) { r with log := l', sender := s' }
  | append {topic key : String} {value : Bytes} :
      Effect r (.append topic key value) { r with log := (r.log.append topic key value).1 }
  /-- Nothing that concerns records changes. -/
  | steer {m : RelayMove} {r' : Relay} (log : r'.log = r.log)
      (consumers : r'.consumers = r.consumers)
      (handed : r'.link.handed = r.link.handed) (store : r'.link.store = r.link.store)
      (mode : m.keepsMode → r'.link.mode = r.link.mode)
      (steering : m.isSteering) : Effect r m r'
  | hire {name : String} {settings : ConsumerSettings} {transport : Transport} :
      Effect r (.hire name settings transport)
        (r.addConsumer { name := name, settings := settings, transport := transport })
  /-- A consumer is started or told to stop. -/
  | adjust {m : RelayMove} {i : ℕ} {c c' : Consumer} (found : r.consumers[i]? = some c)
      (adjusted : Adjusted c i m c') : Effect r m (r.setConsumer i c')
  | closeLog : Effect r .closeLog r.closeLog

theorem effect_of_adjust {r r' : Relay} {m : RelayMove} {i : ℕ} {f : Consumer → Option Consumer}
    (hf : ∀ c c', f c = some c' → Adjusted c i m c') (h : r.adjust? i f = some r') :
    Effect r m r' := by
  obtain ⟨c, hfound, h⟩ := Option.bind_eq_some_iff.mp h
  obtain ⟨c', hc', rfl⟩ := Option.map_eq_some_iff.mp h
  exact .adjust hfound (hf c c' hc')

theorem effect_of_session {r r' : Relay} {i : ℕ} {heeding : Bool}
    (h : r.move? (.session i heeding) = some r') : Effect r (.session i heeding) r' := by
  cases heeding with
  | true =>
    obtain ⟨c, hfound, h⟩ := Option.bind_eq_some_iff.mp h
    obtain ⟨⟨l', c'⟩, hstep, h⟩ := Option.bind_eq_some_iff.mp h
    cases h
    obtain ⟨hstarted, hgoing⟩ := Consumer.going_of_step? hstep
    exact .session hfound hstarted hgoing (Consumer.effect_of_step? hstep)
  | false =>
    obtain ⟨c, hfound, h⟩ := Option.bind_eq_some_iff.mp h
    obtain ⟨⟨l', c'⟩, hstep, h⟩ := Option.bind_eq_some_iff.mp h
    cases h
    obtain ⟨hstarted, hgoing⟩ := Consumer.going_of_lateStep? hstep
    exact .session hfound hstarted hgoing (Consumer.effect_of_lateStep? hstep)

theorem effect_of_worker {r r' : Relay} {i j : ℕ} {m : WorkerMove}
    (h : r.move? (.worker i j m) = some r') : Effect r (.worker i j m) r' := by
  obtain ⟨c, hfound, h⟩ := Option.bind_eq_some_iff.mp h
  obtain ⟨w, hstaffed, h⟩ := Option.bind_eq_some_iff.mp h
  obtain ⟨⟨s', w'⟩, hmoved, h⟩ := Option.bind_eq_some_iff.mp h
  cases h
  exact .worker hfound hstaffed hmoved

/-- **Everything that a move can do.** -/
theorem effect_of_move? {r r' : Relay} {m : RelayMove} (h : r.move? m = some r') :
    Effect r m r' := by
  cases m with
  | session i heeding => exact effect_of_session h
  | worker i j m => exact effect_of_worker h
  | dispatch n =>
    obtain ⟨⟨l', s'⟩, hstep, rfl⟩ := Option.map_eq_some_iff.mp h
    exact .dispatch (Sender.effect_of_step? hstep)
  | elapse millis | equip provider blockList guardFault publishFault | closeSender
  | setDelay millis =>
    cases h
    exact .steer rfl rfl rfl rfl (fun _ => rfl) rfl
  | setMode mode =>
    cases h
    exact .steer rfl rfl rfl rfl nofun rfl
  | append topic key value =>
    cases h
    exact .append
  | request q correlationId timestamp =>
    simp only [move?] at h
    split at h
    · obtain ⟨p, -, rfl⟩ := Option.map_eq_some_iff.mp h
      exact .steer rfl rfl rfl rfl (fun _ => rfl) rfl
    · cases h
  | hire name settings transport =>
    cases h
    exact .hire
  | start i =>
    refine effect_of_adjust (fun c c' hc => ?_) h
    have hstart : c.start = .ok c' := by
      cases hs : c.start <;> rw [hs] at hc <;> cases hc
      rfl
    obtain ⟨hstopping, hhandle, rfl⟩ := Consumer.of_start hstart
    exact .start hstopping hhandle
  | cancel i =>
    refine effect_of_adjust (fun c c' hc => ?_) h
    cases hc
    exact .cancel
  | takeHandle i =>
    refine effect_of_adjust (fun c c' hc => ?_) h
    split at hc
    · rename_i hstopping
      cases hc
      exact .takeHandle hstopping
    · cases hc
  | reroute i transport =>
    refine effect_of_adjust (fun c c' hc => ?_) h
    cases hc
    exact .reroute
  | closeLog =>
    cases h
    exact .closeLog

end Relay

/-- A course of the relay from its beginning `r₀`, with its history, oldest first. Only moves that
are allowed are made. -/
inductive Course (allowed : RelayMove → Prop) (r₀ : Relay) : Relay → List RelayEvent → Prop
  | start (fresh : r₀.Fresh) : Course allowed r₀ r₀ []
  | move {r r' : Relay} {h : List RelayEvent} {m : RelayMove} (course : Course allowed r₀ r h)
      (permitted : allowed m) (moved : r.move? m = some r') :
      Course allowed r₀ r' (h ++ r.events m r')

/-! ### A small relay -/

namespace Relay.Sample

/-- A topic with one partition, a store in memory, and nobody who reads. -/
def relay (retention : ℕ) : Relay :=
  { log := { retention := retention, topics := [Topic.create "t" 1 retention] }
    link := { store := .memory (.create 10 true) }
    sender := { topic := "t", provider := fun _ _ => ⟨0, some .success⟩ } }

/-- The record of a message. -/
def record (offset : ℕ) (id : String) : Record :=
  ⟨"t", 0, offset, "1", Event.encode ⟨id, "1", "hello", "SUCCESS", 0⟩⟩

/-- Appends the record of a message. -/
def append (id : String) : RelayMove := .append "t" "1" (record 0 id).value

/-- Settings of a consumer in the group `g`. -/
def settings (workers batchSize : ℕ) : ConsumerSettings where
  group := "g"
  topic := "t"
  workers := workers
  batchSize := batchSize
  batchTimeout := 50

/-- A consumer comes and takes up its claim. -/
def join (i workers batchSize : ℕ) : List RelayMove :=
  [.hire "c" (settings workers batchSize) {}, .start i, .session i true, .session i true,
    .session i true]

/-- A step of the worker of a consumer. -/
def receive (i : ℕ) : RelayMove := .worker i 0 .receive

/-- A step of a task of a consumer's worker. -/
def work (i offset : ℕ) : RelayMove := .worker i 0 (.work offset)

/-- A step of the timer of a consumer's worker. -/
def tick (i : ℕ) : RelayMove := .worker i 0 (.tick true)

theorem fresh_relay (retention : ℕ) : (relay retention).Fresh where
  numbered := by
    refine ⟨List.nodup_singleton _, fun t ht => ?_⟩
    rw [List.mem_singleton.mp ht]
    exact Topic.numbered_create "t" Nat.one_pos retention
  records := rfl
  watermarks topic i p hp := by
    obtain ⟨t, ht, hp⟩ := Option.bind_eq_some_iff.mp hp
    obtain rfl := List.mem_singleton.mp (Log.mem_of_find? ht)
    obtain rfl := List.mem_singleton.mp (List.mem_of_getElem? hp)
    rfl
  groups := rfl
  consumers := rfl
  dispatches := rfl
  handed := rfl

end Relay.Sample

end SmsRelay
