import SmsRelay.Consumer.Basic
import SmsRelay.Schedule
import SmsRelay.Sender.Service

/-!
# The relay

The sender, the log, the consumers and the store at work together: the parts, the actors among them
and what can be asked of them from outside.
-/

namespace SmsRelay

/-- The parts of the relay. -/
structure Relay where
  /-- Milliseconds since the relay began. -/
  now : Nat := 0
  log : Log
  link : StoreLink
  sender : Sender
  consumers : List Consumer := []

/-- Who can take a step. Consumers and their workers are known by their places. -/
inductive Actor where
  | session (consumer : Nat)
  | receiver (consumer worker : Nat)
  | task (consumer worker offset : Nat)
  | timer (consumer worker : Nat)
  | dispatch (number : Nat)
  deriving DecidableEq, Repr

namespace Relay

/-- Puts a consumer in its place. -/
def setConsumer (r : Relay) (i : Nat) (c : Consumer) : Relay :=
  { r with consumers := r.consumers.set i c }

/-- What the workers of a consumer share with others. -/
def site (r : Relay) (c : Consumer) : Site :=
  { now := r.now, link := r.link, metrics := c.metrics, log := r.log }

/-- The step `f` of the worker `j` of the consumer `i`. -/
def workerStep? (r : Relay) (i j : Nat) (f : Consumer → ClaimWorker → Option (Site × ClaimWorker)) :
    Option Relay := do
  let c ← r.consumers[i]?
  let w ← c.workers[j]?
  let (s, w') ← f c w
  some (setConsumer { r with log := s.log, link := s.link } i
    { c with metrics := s.metrics, workers := c.workers.set j w' })

/-- The next step of an actor, if it can take one. -/
def step? (r : Relay) : Actor → Option Relay
  | .session i => do
    let c ← r.consumers[i]?
    let (l, c') ← c.step? r.now r.log
    some (setConsumer { r with log := l } i c')
  | .receiver i j => r.workerStep? i j fun c w =>
    w.receive? (c.stopping || c.claimsCancelled) (r.site c)
  | .task i j offset => r.workerStep? i j fun c w => w.work? (r.site c) offset
  | .timer i j => r.workerStep? i j fun c w => w.tick? (r.site c)
  | .dispatch n => (r.sender.step? r.now r.log n).map fun (l, s) => { r with log := l, sender := s }

/-- The actors of a worker. -/
def workerActors (i j : Nat) (w : ClaimWorker) : List Actor :=
  .receiver i j :: (w.tasks.map fun t => .task i j t.record.offset) ++ [.timer i j]

/-- The actors of a consumer. -/
def consumerActors (i : Nat) (c : Consumer) : List Actor :=
  .session i :: c.workers.zipIdx.flatMap fun (w, j) => workerActors i j w

/-- All actors. -/
def actors (r : Relay) : List Actor :=
  (List.range r.sender.dispatches.length).map .dispatch
    ++ r.consumers.zipIdx.flatMap fun (c, i) => consumerActors i c

/-- The relay as a machine. -/
def machine : Machine Relay Actor where
  actors := actors
  step? := step?
  now r := r.now
  setNow r now := { r with now := now }
  dues r := r.sender.dues ++ r.consumers.flatMap (·.dues)

/-- Lets the actors go on until none can move. -/
def settle (r : Relay) : Relay := machine.settle r

/-- Lets some milliseconds pass. -/
def advance (r : Relay) (millis : Nat) : Relay := machine.advanceTo r (r.now + millis)

/-- Adds a consumer. -/
def addConsumer (r : Relay) (c : Consumer) : Relay := { r with consumers := r.consumers ++ [c] }

/-- Starts the consumer at a place. -/
def startConsumer (r : Relay) (i : Nat) : Except ConsumerError Relay :=
  match r.consumers[i]? with
  | none => .ok r
  | some c => c.start.map (r.setConsumer i)

/-- Stops the consumer at a place and waits for its end. -/
def stopConsumer (r : Relay) (i : Nat) : Relay :=
  match r.consumers[i]? with
  | none => r
  | some c =>
    let (waits, c') := c.cancel.takeHandle
    let r := r.setConsumer i c'
    if waits then machine.waitUntil r fun r => (r.consumers[i]?).all (·.hasEnded) else r.settle

/-- Stops all consumers, one after the other. -/
def stopConsumers (r : Relay) : Relay :=
  (List.range r.consumers.length).foldl stopConsumer r

/-- Closes the log. -/
def closeLog (r : Relay) : Relay := { r with log := r.log.close }

/-- Waits for the outcome of a dispatch. -/
def awaitDispatch (r : Relay) (n : Nat) : Relay :=
  machine.waitUntil r fun r => (r.sender.dispatches[n]?).all fun d => d.outcome?.isSome

/-- Accepts no further requests and waits for all dispatches. -/
def closeSender (r : Relay) : Relay :=
  machine.waitUntil { r with sender := r.sender.close } fun r => r.sender.inFlight = 0

/-- Ends the work of the relay: the sender, then the consumers, then the log. -/
def shutDown (r : Relay) : Relay := r.closeSender.stopConsumers.closeLog.settle

end Relay

end SmsRelay
