import Mathlib.Data.List.Basic
import SmsRelay.Claim.Worker
import SmsRelay.Proofs.Batch.Conservation

/-!
# What a claim worker does

The moves of a claim worker, its tasks and its timer, and the deeds by which others know what has
become of the records of its claim: a record is read, received when it has a slot, dropped or
offered, its message handed over with a batch, its offset marked.

## Implementation notes

Deeds are not kept in the state. `deeds` reads them off a move, by comparing what is before it with
what is after it: a record counts as received when the counter of received records goes up, and a
batch as handed over when the link notes it.

A timer that has been cancelled and whose time has come at the same moment may do either. A move
`tick heeding` says whether the timer heeds that it has been cancelled.

## Main results

* `effect_of_move?`: everything that a move can do, with the deeds that it shows.
-/

namespace SmsRelay

/-- What a claim worker does that concerns others. -/
inductive Deed where
  /-- The claim has given a record. -/
  | read (r : Record)
  /-- The record has a slot and counts as received. -/
  | received (r : Record)
  /-- The record is no message. -/
  | dropped (r : Record)
  /-- The message of the record has been put into a batch. -/
  | offered (r : Record)
  | handed (batch : List Message)
  | marked (offset : ℕ)
  deriving DecidableEq

namespace Deed

/-- The record that a deed reads. -/
@[simp] def read? : Deed → Option Record
  | read r => some r
  | _ => none

/-- The record that a deed receives. -/
@[simp] def received? : Deed → Option Record
  | received r => some r
  | _ => none

/-- The record that a deed drops. -/
@[simp] def dropped? : Deed → Option Record
  | dropped r => some r
  | _ => none

/-- The record whose message a deed puts into a batch. -/
@[simp] def offered? : Deed → Option Record
  | offered r => some r
  | _ => none

/-- The batch that a deed hands over. -/
@[simp] def handed? : Deed → Option (List Message)
  | handed batch => some batch
  | _ => none

/-- The offset that a deed marks. -/
@[simp] def marked? : Deed → Option ℕ
  | marked offset => some offset
  | _ => none

/-- A projection that undoes a constructor finds what the constructor has been applied to. -/
theorem mem_filterMap_iff {α : Type} {f : Deed → Option α} {make : α → Deed}
    (h : ∀ d a, f d = some a ↔ d = make a) {ds : List Deed} {a : α} :
    a ∈ ds.filterMap f ↔ make a ∈ ds := by
  rw [List.mem_filterMap]
  constructor
  · rintro ⟨d, hd, hf⟩
    rwa [← (h d a).mp hf]
  · intro hd
    exact ⟨_, hd, (h _ a).mpr rfl⟩

theorem mem_received {ds : List Deed} {r : Record} :
    r ∈ ds.filterMap received? ↔ received r ∈ ds :=
  mem_filterMap_iff fun d a => by cases d <;> simp

theorem mem_dropped {ds : List Deed} {r : Record} :
    r ∈ ds.filterMap dropped? ↔ dropped r ∈ ds :=
  mem_filterMap_iff fun d a => by cases d <;> simp

theorem mem_offered {ds : List Deed} {r : Record} :
    r ∈ ds.filterMap offered? ↔ offered r ∈ ds :=
  mem_filterMap_iff fun d a => by cases d <;> simp

/-- An offer is no deed of another kind, whether it is served or not. -/
theorem filterMap_offered {α : Type} {f : Deed → Option α} {r : Record} (h : f (offered r) = none)
    (b : Bool) : (if b then [offered r] else []).filterMap f = [] := by
  cases b
  · rfl
  · exact List.filterMap_cons_none h

theorem offered?_offered (r : Record) (b : Bool) :
    (if b then [offered r] else []).filterMap offered? = if b then [r] else [] := by
  cases b <;> rfl

/-- To hand batches over is no deed of another kind. -/
theorem filterMap_handed {α : Type} {f : Deed → Option α} (h : f ∘ handed = fun _ => none)
    (batches : List (List Message)) : (batches.map handed).filterMap f = [] := by
  rw [List.filterMap_map, h, List.filterMap_none]

theorem handed?_handed (batches : List (List Message)) :
    (batches.map handed).filterMap handed? = batches := by
  rw [List.filterMap_map]
  exact List.filterMap_some

end Deed

/-- The message of a record, if it is one. -/
def Record.message? (r : Record) : Option Message := (Event.decode r.value).toOption

/-- The moves of a claim worker, its tasks and its timer. -/
inductive WorkerMove where
  | receive
  | work (offset : ℕ)
  | tick (heeding : Bool)
  deriving DecidableEq

/-- The record for which a worker wants a slot. -/
def WorkerPhase.current? : WorkerPhase → Option Record
  | acquiring r | queued r => some r
  | _ => none

namespace ClaimWorker

/-- The task of an offset. -/
def task? (w : ClaimWorker) (offset : ℕ) : Option RecordTask :=
  w.tasks.find? (·.record.offset = offset)

/-- A step of the timer, which may fail to heed that it has been cancelled. -/
def tickHeeding? (w : ClaimWorker) (heeding : Bool) (s : Site) : Option (Site × ClaimWorker) :=
  (w.timer.step? (heeding && w.timerCancelled) .timer w.batch s.toOutlet).map fun p =>
    ({ s with toOutlet := p.outlet }, { w with timer := p.timer, batch := p.batch })

theorem tickHeeding?_true (w : ClaimWorker) (s : Site) : w.tickHeeding? true s = w.tick? s := by
  simp [tickHeeding?, tick?]

/-- The result of a move, if it can be made. -/
def move? (w : ClaimWorker) (cancelled : Bool) (s : Site) : WorkerMove → Option (Site × ClaimWorker)
  | .receive => w.receive? cancelled s
  | .work offset => w.work? s offset
  | .tick heeding => w.tickHeeding? heeding s

/-- The deeds of the worker itself in a step. -/
def receiveDeeds (w : ClaimWorker) (s s' : Site) (w' : ClaimWorker) : List Deed :=
  match w.phase.current? with
  | none => w'.phase.current?.toList.map .read
  | some r => if s'.metrics.received = s.metrics.received then [] else [.received r]

/-- The deeds of a task in a step. An offer is served at once when no batch is on its way. -/
def workDeeds (w : ClaimWorker) (s s' : Site) (t : RecordTask) : List Deed :=
  match t.phase with
  | .fresh =>
    if s'.metrics.decodeErrors = s.metrics.decodeErrors then [] else [.dropped t.record]
  | .offering => if w.batch.flushing.isNone then [.offered t.record] else []
  | .handled => [.marked t.record.offset]

/-- The batches handed over in a step. -/
def handedDeeds (s s' : Site) : List Deed :=
  (s'.link.handed.drop s.link.handed.length).map .handed

/-- The deeds of a move from `w` at `s` to `w'` at `s'`. -/
def deeds (w : ClaimWorker) (s : Site) (m : WorkerMove) (s' : Site) (w' : ClaimWorker) :
    List Deed :=
  (match m with
    | .receive => w.receiveDeeds s s' w'
    | .work offset => (w.task? offset).toList.flatMap (w.workDeeds s s')
    | .tick _ => []) ++ handedDeeds s s'

/-- The worker may still take records. -/
def isReceiving (w : ClaimWorker) : Bool :=
  match w.phase with
  | .receiving | .acquiring _ | .queued _ => true
  | _ => false

/-- A pool that is the same but for those who wait. -/
structure SamePool (p q : WorkerPool) : Prop where
  held : q.held = p.held
  slots : q.slots = p.slots
  size : q.size = p.size
  closed : q.closed = p.closed

/-- A pool in which one more holds a slot. -/
structure Took (p : WorkerPool) (who : ℕ) (q : WorkerPool) : Prop where
  held : q.held = p.held ++ [who]
  slots : q.slots = p.slots
  size : q.size = p.size
  closed : q.closed = p.closed

/-- Everything that a move of a worker whose pool is open can do, with the deeds that it shows. -/
inductive Effect (w : ClaimWorker) (cancelled : Bool) (s : Site) :
    List Deed → Site → ClaimWorker → Prop
  /-- It takes no further records. A record without a slot is let go only by a cancelled worker. -/
  | stop {p : WorkerPool} (receiving : w.isReceiving) (same : SamePool w.pool p)
      (reason : w.phase.current? = none ∨ cancelled = true) :
      Effect w cancelled s [] s { w with pool := p }.stopReceiving
  | read {r : Record} {c : Claim} (phase : w.phase = .receiving)
      (polled : s.log.poll w.claim = (.record r, c)) :
      Effect w cancelled s [.read r] s { w with claim := c, phase := .acquiring r }
  | queue {r : Record} {p : WorkerPool} (phase : w.phase = .acquiring r)
      (same : SamePool w.pool p) :
      Effect w cancelled s [] s { w with pool := p, phase := .queued r }
  | start {r : Record} {p : WorkerPool} (current : w.phase.current? = some r)
      (took : Took w.pool r.offset p) :
      Effect w cancelled s [.received r] { s with metrics := s.metrics.countReceived }
        { w with pool := p, phase := .receiving, tasks := w.tasks ++ [{ record := r }] }
  | drained (phase : w.phase = .draining) (tasks : w.tasks = []) :
      Effect w cancelled s [] s { w with phase := .stoppingTimer, timerCancelled := true }
  | lastFlush (phase : w.phase = .stoppingTimer) (timer : w.timer = .stopped) :
      Effect w cancelled s [] s { w with phase := .flushing, batch := w.batch.ask .drain .flush }
  | flush {reply : Option BatchReply} {o : Outlet} {b : Accumulator WorkCaller}
      {batches : List (List Message)} (phase : w.phase = .flushing)
      (effect : w.batch.Effect s.toOutlet .drain ⟨reply, o, b⟩)
      (handed : o.link.handed = s.link.handed ++ batches) :
      Effect w cancelled s (batches.map .handed) { s with toOutlet := o }
        { w with batch := b, phase := if reply.isSome then .finished else .flushing }
  | decode {t : RecordTask} {m : Message} (task : w.task? t.record.offset = some t)
      (phase : t.phase = .fresh) (decoded : Event.decode t.record.value = .ok m) :
      Effect w cancelled s [] { s with metrics := s.metrics.countDecoded }
        ({ w with batch := w.batch.ask (.task t.record.offset) (.offer m) }.setPhase
          t.record.offset .offering)
  | drop {t : RecordTask} {e : DecodeError} (task : w.task? t.record.offset = some t)
      (phase : t.phase = .fresh) (refused : Event.decode t.record.value = .error e) :
      Effect w cancelled s [.dropped t.record] { s with metrics := s.metrics.countDecodeError }
        (w.setPhase t.record.offset .handled)
  | offer {t : RecordTask} {reply : Option BatchReply} {o : Outlet} {b : Accumulator WorkCaller}
      {batches : List (List Message)} (task : w.task? t.record.offset = some t)
      (phase : t.phase = .offering)
      (effect : w.batch.Effect s.toOutlet (.task t.record.offset) ⟨reply, o, b⟩)
      (handed : o.link.handed = s.link.handed ++ batches) :
      Effect w cancelled s
        ((if w.batch.flushing.isNone then [.offered t.record] else []) ++ batches.map .handed)
        { s with toOutlet := o }
        (if reply.isSome then { w with batch := b }.setPhase t.record.offset .handled
          else { w with batch := b })
  | finish {t : RecordTask} (task : w.task? t.record.offset = some t)
      (phase : t.phase = .handled) :
      Effect w cancelled s [.marked t.record.offset]
        { s with log := s.log.mark w.claim t.record.offset }
        { w with
          pool := w.pool.release t.record.offset
          tasks := w.tasks.filter (·.record.offset ≠ t.record.offset) }
  | tick {p : FlushTimer.Progress WorkCaller} {batches : List (List Message)}
      (effect : w.timer.Effect .timer w.batch s.toOutlet p)
      (handed : p.outlet.link.handed = s.link.handed ++ batches) :
      Effect w cancelled s (batches.map .handed) { s with toOutlet := p.outlet }
        { w with timer := p.timer, batch := p.batch }

theorem task?_offset {w : ClaimWorker} {offset : ℕ} {t : RecordTask}
    (h : w.task? offset = some t) : t.record.offset = offset := by
  simpa using List.find?_some h

theorem mem_of_task? {w : ClaimWorker} {offset : ℕ} {t : RecordTask}
    (h : w.task? offset = some t) : t ∈ w.tasks :=
  List.mem_of_find?_eq_some h

theorem handedDeeds_self {s s' : Site} (h : s'.link = s.link) : handedDeeds s s' = [] := by
  simp [handedDeeds, h]

theorem handedDeeds_append {s s' : Site} {batches : List (List Message)}
    (h : s'.link.handed = s.link.handed ++ batches) : handedDeeds s s' = batches.map .handed := by
  simp [handedDeeds, h]

/-! ### The pool -/

theorem SamePool.rfl {p : WorkerPool} : SamePool p p := ⟨Eq.refl _, Eq.refl _, Eq.refl _, Eq.refl _⟩

theorem samePool_handOn {p q : WorkerPool} (h : p.handOn = q) :
    q.held = p.held ∧ q.size = p.size ∧ q.closed = p.closed := by
  subst h
  rw [WorkerPool.handOn]
  split <;> simp

theorem samePool_cancel (p : WorkerPool) (who : ℕ) : SamePool p (p.cancel who) := by
  refine ⟨?_, p.slots_cancel who, ?_, ?_⟩ <;> rw [WorkerPool.cancel] <;> split
  · exact (samePool_handOn rfl).1
  · rfl
  · exact (samePool_handOn rfl).2.1
  · rfl
  · exact (samePool_handOn rfl).2.2
  · rfl

/-- What an open pool can say to one that asks for a slot. -/
theorem acquire_of_open {p q : WorkerPool} {who : ℕ} {reply : WorkerPool.Reply}
    (hopen : p.closed = false) (h : p.acquire who = (reply, q)) :
    (reply = .wait ∧ SamePool p q) ∨ (reply = .slot ∧ Took p who q) := by
  have hslots := p.slots_acquire who
  rw [h] at hslots
  by_cases hfree : p.free = 0
  · simp only [WorkerPool.acquire, hopen, hfree, Bool.false_eq_true, if_false, if_true,
      Prod.mk.injEq] at h
    obtain ⟨rfl, rfl⟩ := h
    exact .inl ⟨rfl, rfl, hslots, rfl, hopen.symm⟩
  · simp only [WorkerPool.acquire, hopen, hfree, Bool.false_eq_true, if_false, Prod.mk.injEq] at h
    obtain ⟨rfl, rfl⟩ := h
    exact .inr ⟨rfl, rfl, hslots, rfl, hopen.symm⟩

/-- What an open pool can say to one that waits for a slot. -/
theorem take_of_open {p q : WorkerPool} {who : ℕ} {reply : WorkerPool.Reply}
    (hopen : p.closed = false) (h : p.take who = (reply, q)) :
    reply = .wait ∨ (reply = .slot ∧ Took p who q) := by
  have hslots := p.slots_take who
  rw [h] at hslots
  by_cases hoffered : who ∈ p.offered
  · simp only [WorkerPool.take, hopen, hoffered, Bool.false_eq_true, if_false, if_true,
      Prod.mk.injEq] at h
    obtain ⟨rfl, rfl⟩ := h
    exact .inr ⟨rfl, rfl, hslots, rfl, hopen.symm⟩
  · simp only [WorkerPool.take, hopen, hoffered, Bool.false_eq_true, if_false, Prod.mk.injEq] at h
    exact .inl h.1.symm

/-! ### Taking a move apart -/

theorem deeds_receive {w w' : ClaimWorker} {s s' : Site} (hlink : s'.link = s.link) :
    w.deeds s .receive s' w' = w.receiveDeeds s s' w' := by
  simp [deeds, handedDeeds_self hlink]

theorem deeds_work {w w' : ClaimWorker} {s s' : Site} {t : RecordTask}
    (htask : w.task? t.record.offset = some t) :
    w.deeds s (.work t.record.offset) s' w' = w.workDeeds s s' t ++ handedDeeds s s' := by
  simp [deeds, htask]

theorem receiveDeeds_of_stop {w w' : ClaimWorker} {s : Site} (hcurrent : w'.phase.current? = none) :
    w.receiveDeeds s s w' = [] := by
  rw [receiveDeeds]
  split <;> simp [hcurrent]

theorem effect_stop {w : ClaimWorker} {cancelled : Bool} {s : Site} {p : WorkerPool}
    (hreceiving : w.isReceiving) (hsame : SamePool w.pool p)
    (hreason : w.phase.current? = none ∨ cancelled = true) :
    Effect w cancelled s (w.deeds s .receive s { w with pool := p }.stopReceiving) s
      { w with pool := p }.stopReceiving := by
  rw [deeds_receive rfl, receiveDeeds_of_stop rfl]
  exact .stop hreceiving hsame hreason

theorem effect_start {w : ClaimWorker} {cancelled : Bool} {s s' : Site} {r : Record}
    {p : WorkerPool} {w' : ClaimWorker} (hcurrent : w.phase.current? = some r)
    (htook : Took w.pool r.offset p) (hstart : { w with pool := p }.startTask s r = (s', w')) :
    Effect w cancelled s (w.deeds s .receive s' w') s' w' := by
  cases hstart
  have hdeeds : w.deeds s .receive { s with metrics := s.metrics.countReceived }
      { w with pool := p, phase := .receiving, tasks := w.tasks ++ [{ record := r }] }
      = [.received r] := by
    rw [deeds_receive]
    · simp [receiveDeeds, hcurrent, Metrics.countReceived]
    · rfl
  rw [hdeeds]
  exact .start hcurrent htook

/-- What the worker itself can do while it has a record or looks for one. -/
theorem effect_of_receiving {w w' : ClaimWorker} {cancelled : Bool} {s s' : Site}
    (hopen : w.pool.closed = false) (hreceiving : w.isReceiving)
    (h : w.receive? cancelled s = some (s', w')) :
    Effect w cancelled s (w.deeds s .receive s' w') s' w' := by
  cases hphase : w.phase with
  | receiving =>
    have hcurrent : w.phase.current? = none := by rw [hphase]; rfl
    simp only [receive?, hphase] at h
    split at h
    · cases h
      exact effect_stop hreceiving .rfl (.inl hcurrent)
    · split at h
      · cases h
        exact effect_stop hreceiving .rfl (.inl hcurrent)
      · rename_i r c hpoll
        cases h
        have hdeeds : w.receiveDeeds s s { w with claim := c, phase := .acquiring r }
            = [.read r] := by
          simp [receiveDeeds, hphase, WorkerPhase.current?]
        rw [deeds_receive rfl, hdeeds]
        exact .read hphase hpoll
      · cases h
  | acquiring r =>
    have hcurrent : w.phase.current? = some r := by rw [hphase]; rfl
    simp only [receive?, hphase] at h
    split at h
    · rename_i hcancelled
      cases h
      exact effect_stop hreceiving .rfl (.inr hcancelled)
    · rcases hacquire : w.pool.acquire r.offset with ⟨reply, p⟩
      rw [hacquire] at h
      rcases acquire_of_open hopen hacquire with ⟨rfl, hsame⟩ | ⟨rfl, htook⟩
      · cases h
        have hdeeds : w.receiveDeeds s s { w with pool := p, phase := .queued r } = [] := by
          simp [receiveDeeds, hphase, WorkerPhase.current?]
        rw [deeds_receive rfl, hdeeds]
        exact .queue hphase hsame
      · exact effect_start hcurrent htook (Option.some.inj h)
  | queued r =>
    have hcurrent : w.phase.current? = some r := by rw [hphase]; rfl
    simp only [receive?, hphase] at h
    split at h
    · rename_i hcancelled
      cases h
      exact effect_stop hreceiving (samePool_cancel _ _) (.inr hcancelled)
    · rcases htake : w.pool.take r.offset with ⟨reply, p⟩
      rw [htake] at h
      rcases take_of_open hopen htake with rfl | ⟨rfl, htook⟩
      · cases h
      · exact effect_start hcurrent htook (Option.some.inj h)
  | draining | stoppingTimer | flushing | finished => simp [isReceiving, hphase] at hreceiving

/-- What the worker itself can do when it takes no further records. -/
theorem effect_of_draining {w w' : ClaimWorker} {cancelled : Bool} {s s' : Site}
    (hreceiving : w.isReceiving = false) (h : w.receive? cancelled s = some (s', w')) :
    Effect w cancelled s (w.deeds s .receive s' w') s' w' := by
  cases hphase : w.phase with
  | receiving | acquiring r | queued r => simp [isReceiving, hphase] at hreceiving
  | draining =>
    simp only [receive?, hphase] at h
    split at h
    · rename_i hempty
      cases h
      rw [deeds_receive rfl, receiveDeeds_of_stop rfl]
      exact .drained hphase (List.isEmpty_iff.mp hempty)
    · cases h
  | stoppingTimer =>
    simp only [receive?, hphase] at h
    split at h
    · rename_i hstopped
      cases h
      rw [deeds_receive rfl, receiveDeeds_of_stop rfl]
      exact .lastFlush hphase hstopped
    · cases h
  | flushing =>
    simp only [receive?, hphase] at h
    obtain ⟨⟨reply, o, b⟩, hstep, heq⟩ := Option.map_eq_some_iff.mp h
    cases heq
    have heffect := Accumulator.effect_of_step? hstep
    obtain ⟨batches, hlink, -⟩ := heffect.handed_append
    have hdeeds : w.deeds s .receive { s with toOutlet := o }
        { w with batch := b, phase := if reply.isSome then .finished else .flushing }
        = batches.map .handed := by
      have : w.receiveDeeds s { s with toOutlet := o }
          { w with batch := b, phase := if reply.isSome then .finished else .flushing } = [] := by
        cases reply <;> simp [receiveDeeds, hphase, WorkerPhase.current?]
      rw [deeds, this, handedDeeds_append hlink, List.nil_append]
    rw [hdeeds]
    exact .flush hphase heffect hlink
  | finished => simp [receive?, hphase] at h

theorem effect_of_work? {w w' : ClaimWorker} {cancelled : Bool} {s s' : Site} {offset : ℕ}
    (h : w.work? s offset = some (s', w')) :
    Effect w cancelled s (w.deeds s (.work offset) s' w') s' w' := by
  obtain ⟨t, htask, h⟩ := Option.bind_eq_some_iff.mp h
  obtain rfl : t.record.offset = offset := task?_offset htask
  have htask : w.task? t.record.offset = some t := htask
  rw [deeds_work htask]
  cases hphase : t.phase with
  | fresh =>
    simp only [hphase] at h
    cases hdecode : Event.decode t.record.value with
    | ok m =>
      simp only [hdecode] at h
      cases h
      have hnone : w.workDeeds s { s with metrics := s.metrics.countDecoded } t ++
          handedDeeds s { s with metrics := s.metrics.countDecoded } = [] := by
        simp [workDeeds, hphase, Metrics.countDecoded, handedDeeds]
      rw [hnone]
      exact .decode htask hphase hdecode
    | error e =>
      simp only [hdecode] at h
      cases h
      have hdropped : w.workDeeds s { s with metrics := s.metrics.countDecodeError } t ++
          handedDeeds s { s with metrics := s.metrics.countDecodeError } = [.dropped t.record] := by
        simp [workDeeds, hphase, Metrics.countDecodeError, handedDeeds]
      rw [hdropped]
      exact .drop htask hphase hdecode
  | offering =>
    simp only [hphase] at h
    obtain ⟨⟨reply, o, b⟩, hstep, h⟩ := Option.bind_eq_some_iff.mp h
    cases h
    have heffect := Accumulator.effect_of_step? hstep
    obtain ⟨batches, hlink, -⟩ := heffect.handed_append
    have hoffered : w.workDeeds s { s with toOutlet := o } t
        = if w.batch.flushing.isNone then [.offered t.record] else [] := by
      simp [workDeeds, hphase]
    rw [hoffered, handedDeeds_append hlink]
    exact .offer htask hphase heffect hlink
  | handled =>
    simp only [hphase, Option.some.injEq, endTask, Prod.mk.injEq] at h
    obtain ⟨rfl, rfl⟩ := h
    have hmarked : w.workDeeds s { s with log := s.log.mark w.claim t.record.offset } t ++
        handedDeeds s { s with log := s.log.mark w.claim t.record.offset }
        = [.marked t.record.offset] := by
      simp [workDeeds, hphase, handedDeeds]
    rw [hmarked]
    exact .finish htask hphase

theorem effect_of_tick? {w w' : ClaimWorker} {cancelled heeding : Bool} {s s' : Site}
    (h : w.tickHeeding? heeding s = some (s', w')) :
    Effect w cancelled s (w.deeds s (.tick heeding) s' w') s' w' := by
  obtain ⟨p, hstep, h⟩ := Option.map_eq_some_iff.mp h
  cases h
  have heffect := FlushTimer.effect_of_step? hstep
  obtain ⟨batches, hlink⟩ := heffect.handed_append
  rw [deeds, List.nil_append, handedDeeds_append hlink]
  exact .tick heffect hlink

/-- **Everything that a move can do.** -/
theorem effect_of_move? {w w' : ClaimWorker} {cancelled : Bool} {s s' : Site} {m : WorkerMove}
    (hopen : w.isReceiving = true → w.pool.closed = false)
    (h : w.move? cancelled s m = some (s', w')) :
    Effect w cancelled s (w.deeds s m s' w') s' w' := by
  cases m with
  | receive =>
    cases hreceiving : w.isReceiving with
    | true => exact effect_of_receiving (hopen hreceiving) hreceiving h
    | false => exact effect_of_draining hreceiving h
  | work offset => exact effect_of_work? h
  | tick heeding => exact effect_of_tick? h

end ClaimWorker

end SmsRelay
