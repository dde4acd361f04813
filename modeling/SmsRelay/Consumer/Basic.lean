import SmsRelay.Claim.Worker
import SmsRelay.Consumer.Error
import SmsRelay.Settings.Basic

/-!
# Consumers

A consumer is a member of a group that stores what it reads. Its session loop joins the group,
starts a claim worker for each claim granted, and drains the workers when the claims are revoked,
the log closes, the session breaks or the consumer is stopped. After a failed join or a broken
session it waits and joins anew; a consumer that has been stopped does not come back.

## Implementation notes

Starting and stopping take two steps each, between which others may act: starting checks and then
installs the loop, stopping cancels and then takes the loop's handle, to wait for its end. Only the
one who has taken the handle waits.

`Transport` is the way to the log: it takes its time, refuses as many joins as it is told to, and
breaks a session when it is told to.
-/

namespace SmsRelay

/-- What a consumer makes known about its claims. -/
inductive ClaimState where
  | idle
  | claimed
  | draining
  | stopped
  deriving DecidableEq, Repr

/-- The name of a state. -/
def ClaimState.name : ClaimState → String
  | idle => "idle"
  | claimed => "claimed"
  | draining => "draining"
  | stopped => "stopped"

/-- The way of a consumer to the log. -/
structure Transport where
  /-- Milliseconds that a join takes. -/
  joinDelay : Nat := 0
  /-- How many joins are still refused. -/
  refusals : Nat := 0
  /-- The session breaks at its next event. -/
  broken : Bool := false
  deriving DecidableEq, Repr

/-- What the session loop does when the workers have ended. -/
inductive AfterDrain where
  | grant (claims : List Claim)
  | listen
  /-- The session ends; `failed` tells whether the consumer joins anew. -/
  | leave (failed : Bool)
  deriving DecidableEq, Repr

/-- What the session loop is doing. -/
inductive SessionPhase where
  /-- There is no loop. -/
  | unstarted
  | beginning
  | joining (due : Nat)
  | listening
  | draining (next : AfterDrain)
  | leaving (failed : Bool)
  | backingOff (due : Nat)
  | ended
  deriving DecidableEq, Repr

/-- A consumer. -/
structure Consumer where
  name : String
  settings : ConsumerSettings
  transport : Transport := {}
  state : ClaimState := .idle
  phase : SessionPhase := .unstarted
  /-- The loop's handle has been installed and not taken. -/
  hasHandle : Bool := false
  stopping : Bool := false
  /-- The number of the consumer in its group. -/
  member : Option Nat := none
  workers : List ClaimWorker := []
  /-- The workers have been told to drain. -/
  claimsCancelled : Bool := false
  metrics : Metrics := {}
  /-- How many times the consumer has tried to join. -/
  joins : Nat := 0
  deriving Repr

namespace Consumer

/-- The check before a start. -/
def checkStart (c : Consumer) : Except ConsumerError Unit :=
  match c.settings.violation? with
  | some e => .error e
  | none => if c.stopping then .error .stopped else .ok ()

/-- Starts the loop. -/
def install (c : Consumer) : Except ConsumerError Consumer :=
  if c.hasHandle then .error .alreadyStarted
  else .ok { c with hasHandle := true, phase := .beginning }

/-- Starts the consumer. -/
def start (c : Consumer) : Except ConsumerError Consumer := do
  c.checkStart
  c.install

/-- Asks the consumer to stop. -/
def cancel (c : Consumer) : Consumer := { c with stopping := true }

/-- Takes the handle of the loop, if there is one: whoever gets it waits for the end of the loop. -/
def takeHandle (c : Consumer) : Bool × Consumer := (c.hasHandle, { c with hasHandle := false })

/-- Whether the loop has ended. -/
def hasEnded (c : Consumer) : Bool := c.phase = .ended

/-- The loop ends. -/
def finish (c : Consumer) : Consumer := { c with state := .stopped, phase := .ended }

/-- The loop fails and will join anew. -/
def retry (c : Consumer) (now : Nat) : Consumer :=
  { c with state := .stopped, phase := .backingOff (now + c.settings.retryBackoff) }

/-- Takes up granted claims. -/
def takeUp (c : Consumer) (claims : List Claim) : Consumer :=
  let c := { c with claimsCancelled := c.stopping, phase := .listening }
  if claims.isEmpty then { c with state := .idle }
  else { c with
    state := .claimed
    workers := claims.map fun claim =>
      .create claim c.settings.workers c.settings.batchSize c.settings.batchTimeout }

/-- Goes on when no worker is left. -/
def goOn (c : Consumer) : AfterDrain → Consumer
  | .grant claims => c.takeUp claims
  | .listen => { c with phase := .listening }
  | .leave failed => { c with phase := .leaving failed }

/-- Drains the workers, if there are any, before going on. -/
def drain (c : Consumer) (next : AfterDrain) : Consumer :=
  if c.workers.isEmpty then c.goOn next
  else { c with state := .draining, claimsCancelled := true, phase := .draining next }

/-- What the loop does at an event of its session. -/
def onEvent (c : Consumer) : SessionEvent → Consumer
  | .granted _ claims => c.drain (.grant claims)
  | .revoked _ => c.drain .listen
  | .closed => c.drain (.leave false)

/-- Joins the group. -/
def join (c : Consumer) (now : Nat) (l : Log) : Log × Consumer :=
  if 0 < c.transport.refusals then
    (l, { c with transport := { c.transport with refusals := c.transport.refusals - 1 } }.retry now)
  else match l.join c.settings.group c.settings.topic with
    | .ok (member, l') => (l', { c with member := some member, phase := .listening })
    | .error _ => (l, c.retry now)

/-- Looks for the next event of the session. -/
def listen? (c : Consumer) (l : Log) : Option (Log × Consumer) :=
  if c.transport.broken then
    some (l, { c with transport := { c.transport with broken := false } }.drain (.leave true))
  else match c.member with
    | none => none
    | some member =>
      match l.nextEvent c.settings.group c.settings.topic member with
      | (some e, l') => some (l', c.onEvent e)
      | (none, _) => none

/-- Leaves the group. -/
def leave (c : Consumer) (now : Nat) (l : Log) (failed : Bool) : Log × Consumer :=
  let l := match c.member with
    | some member => l.leave c.settings.group c.settings.topic member
    | none => l
  let c := { c with member := none }
  (l, if failed then c.retry now else c.finish)

/-- The next step of the session loop. -/
def step? (c : Consumer) (now : Nat) (l : Log) : Option (Log × Consumer) :=
  match c.phase with
  | .unstarted | .ended => none
  | .beginning =>
    if c.stopping then some (l, c.finish)
    else some (l, { c with
      state := .idle, joins := c.joins + 1, phase := .joining (now + c.transport.joinDelay) })
  | .joining due =>
    if c.stopping then some (l, c.finish)
    else if due ≤ now then some (c.join now l)
    else none
  | .listening => if c.stopping then some (l, c.drain (.leave false)) else c.listen? l
  | .draining next =>
    if c.workers.all (·.isFinished) then
      some (l, { c with workers := [], state := .stopped }.goOn next)
    else none
  | .leaving failed => some (c.leave now l failed)
  | .backingOff due =>
    if c.stopping then some (l, c.finish)
    else if due ≤ now then some (l, { c with phase := .beginning })
    else none

/-- The moments for which the loop or one of the workers waits. -/
def dues (c : Consumer) : List Nat :=
  (match c.phase with
    | .joining due | .backingOff due => [due]
    | _ => []) ++ c.workers.flatMap (·.dues)

end Consumer

end SmsRelay
