import SmsRelay.Batch.Timer
import SmsRelay.Claim.WorkerPool
import SmsRelay.Log.Basic
import SmsRelay.Message.Event

/-!
# Claim workers

A claim worker turns the records of one claim into stored messages. For each record it takes a slot
of its pool and starts a task: the task decodes the record, offers the message to the batch, marks
the offset and gives the slot back. A record that is no message is dropped, and marked too.

When the claim ends or the worker is cancelled it takes no further records, lets its tasks end,
stops the timer and flushes what is left.

## Implementation notes

The worker, its tasks and its timer are actors of their own; `receive?`, `work?` and `tick?` are
their steps. A task is known by the offset of its record. `Site` holds what they share with others.
-/

namespace SmsRelay

/-- What a claim worker shares with others. -/
structure Site extends Outlet where
  log : Log
  deriving Repr

/-- Who calls the accumulator of a claim worker. -/
inductive WorkCaller where
  | task (offset : Nat)
  | timer
  /-- The last flush. -/
  | drain
  deriving DecidableEq, Repr

/-- How far a task has come. -/
inductive TaskPhase where
  | fresh
  /-- The message has been offered. -/
  | offering
  /-- The record need not be kept any longer. -/
  | handled
  deriving DecidableEq, Repr

/-- The work on one record. -/
structure RecordTask where
  record : Record
  phase : TaskPhase := .fresh
  deriving Repr

/-- What a claim worker is doing itself. -/
inductive WorkerPhase where
  | receiving
  /-- It has a record and wants a slot for it. -/
  | acquiring (r : Record)
  /-- It waits for a slot. -/
  | queued (r : Record)
  /-- It waits for its tasks. -/
  | draining
  /-- It waits for the timer. -/
  | stoppingTimer
  /-- It waits for the last flush. -/
  | flushing
  | finished
  deriving Repr

/-- The worker of one claim. -/
structure ClaimWorker where
  claim : Claim
  pool : WorkerPool
  batch : Accumulator WorkCaller
  phase : WorkerPhase := .receiving
  tasks : List RecordTask := []
  timer : FlushTimer := .fresh
  timerCancelled : Bool := false
  deriving Repr

namespace ClaimWorker

/-- A worker for a claim. -/
def create (c : Claim) (workers batchSize batchTimeout : Nat) : ClaimWorker :=
  { claim := c, pool := .create workers, batch := .create WorkCaller batchSize batchTimeout }

/-- The worker takes no further records. -/
def stopReceiving (w : ClaimWorker) : ClaimWorker :=
  { w with phase := .draining, pool := w.pool.close }

/-- Starts the task of a record that has a slot. -/
def startTask (w : ClaimWorker) (s : Site) (r : Record) : Site × ClaimWorker :=
  ({ s with metrics := s.metrics.countReceived },
    { w with phase := .receiving, tasks := w.tasks ++ [{ record := r }] })

/-- What the worker does when the pool has answered. -/
def withReply (w : ClaimWorker) (s : Site) (r : Record) :
    WorkerPool.Reply → Option (Site × ClaimWorker)
  | .slot => some (w.startTask s r)
  | .refused => some (s, w.stopReceiving)
  | .wait => none

/-- The next step of the worker itself. -/
def receive? (w : ClaimWorker) (cancelled : Bool) (s : Site) : Option (Site × ClaimWorker) :=
  match w.phase with
  | .receiving =>
    if cancelled then some (s, w.stopReceiving)
    else match s.log.poll w.claim with
      | (.ended, _) => some (s, w.stopReceiving)
      | (.record r, c) => some (s, { w with claim := c, phase := .acquiring r })
      | (.waiting, _) => none
  | .acquiring r =>
    if cancelled then some (s, w.stopReceiving)
    else
      let (reply, pool) := w.pool.acquire r.offset
      let w := { w with pool := pool }
      some ((w.withReply s r reply).getD (s, { w with phase := .queued r }))
  | .queued r =>
    if cancelled then some (s, { w with pool := w.pool.cancel r.offset }.stopReceiving)
    else
      let (reply, pool) := w.pool.take r.offset
      { w with pool := pool }.withReply s r reply
  | .draining =>
    if w.tasks.isEmpty then some (s, { w with phase := .stoppingTimer, timerCancelled := true })
    else none
  | .stoppingTimer =>
    if w.timer = .stopped then
      some (s, { w with phase := .flushing, batch := w.batch.ask .drain .flush })
    else none
  | .flushing => (w.batch.step? s.toOutlet .drain).map fun p =>
    ({ s with toOutlet := p.outlet },
      { w with batch := p.batch, phase := if p.reply.isSome then .finished else .flushing })
  | .finished => none

/-- Changes the phase of a task. -/
def setPhase (w : ClaimWorker) (offset : Nat) (phase : TaskPhase) : ClaimWorker :=
  { w with tasks := w.tasks.map fun t =>
      if t.record.offset = offset then { t with phase := phase } else t }

/-- Marks the record of a task and ends the task. -/
def endTask (w : ClaimWorker) (s : Site) (offset : Nat) : Site × ClaimWorker :=
  ({ s with log := s.log.mark w.claim offset },
    { w with
      pool := w.pool.release offset
      tasks := w.tasks.filter (·.record.offset ≠ offset) })

/-- The next step of a task. -/
def work? (w : ClaimWorker) (s : Site) (offset : Nat) : Option (Site × ClaimWorker) := do
  let t ← w.tasks.find? (·.record.offset = offset)
  match t.phase with
  | .fresh =>
    match Event.decode t.record.value with
    | .ok m =>
      some ({ s with metrics := s.metrics.countDecoded },
        { w with batch := w.batch.ask (.task offset) (.offer m) }.setPhase offset .offering)
    | .error _ =>
      some ({ s with metrics := s.metrics.countDecodeError }, w.setPhase offset .handled)
  | .offering =>
    let p ← w.batch.step? s.toOutlet (.task offset)
    let w := { w with batch := p.batch }
    some ({ s with toOutlet := p.outlet }, if p.reply.isSome then w.setPhase offset .handled else w)
  | .handled => some (w.endTask s offset)

/-- The next step of the timer. -/
def tick? (w : ClaimWorker) (s : Site) : Option (Site × ClaimWorker) :=
  (w.timer.step? w.timerCancelled .timer w.batch s.toOutlet).map fun p =>
    ({ s with toOutlet := p.outlet }, { w with timer := p.timer, batch := p.batch })

/-- Whether the worker has ended. -/
def isFinished (w : ClaimWorker) : Bool :=
  match w.phase with
  | .finished => true
  | _ => false

/-- The moments for which the worker or one of its actors waits. -/
def dues (w : ClaimWorker) : List Nat := w.batch.nextDue?.toList ++ w.timer.nextDue?.toList

end ClaimWorker

end SmsRelay
