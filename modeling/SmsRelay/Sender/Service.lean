import SmsRelay.Log.Basic
import SmsRelay.Message.Event
import SmsRelay.Sender.BlockList
import SmsRelay.Sender.Error

/-!
# The sender

Accepts requests and answers them at once: the text is on its way. A dispatch then hands the text to
the provider, waits for its verdict and publishes the outcome as an event under the phone number.

## Implementation notes

A request passes two checks, between which others may act: `screen` looks at the request and at
whether the sender still accepts any, `decide` looks at the block list. Correlation ids and the time
come from the caller.

## Main results

* `screen_ok_iff`: which requests pass the first check.
-/

namespace SmsRelay

/-- What a provider will do with a text. -/
structure Delivery where
  /-- Milliseconds that it takes. -/
  delay : Nat
  /-- Its verdict; none if it breaks down. -/
  verdict : Option DeliveryStatus
  deriving DecidableEq, Repr

/-- A provider: what it does with a phone number and a text. -/
abbrev Provider := String → String → Delivery

/-- A provider that takes `delay` milliseconds and succeeds if `draw`, a number from zero to one, is
less than the rate. -/
def Provider.simulated (rate draw : Binary64) (delay : Nat) : Provider := fun _ _ =>
  let rate := rate.clamp Binary64.zero Binary64.one
  { delay := delay, verdict := some (if draw.lt rate then .success else .fail) }

/-- What became of a request. -/
inductive DispatchOutcome where
  | published (status : DeliveryStatus) (place : Placement)
  | publishFailed (status : DeliveryStatus) (reason : String)
  deriving DecidableEq, Repr

/-- How far a dispatch has come. -/
inductive DispatchPhase where
  | fresh
  /-- The provider is at work. -/
  | delivering (due : Nat) (verdict : Option DeliveryStatus)
  | ended (o : DispatchOutcome)
  deriving DecidableEq, Repr

/-- The work on an accepted request. -/
structure Dispatch where
  correlationId : String
  request : SendRequest
  /-- When the request was accepted, in milliseconds from 1970-01-01T00:00:00Z. -/
  timestamp : Int
  phase : DispatchPhase := .fresh
  deriving DecidableEq, Repr

namespace Dispatch

/-- The outcome, if there is one. -/
def outcome? (d : Dispatch) : Option DispatchOutcome :=
  match d.phase with
  | .ended o => some o
  | _ => none

/-- The event that tells of a status. -/
def event (d : Dispatch) (status : DeliveryStatus) : Event :=
  ⟨d.correlationId, d.request.phone, d.request.message, status.name, d.timestamp⟩

/-- The outcome of a dispatch whose provider broke down. -/
def brokenDown : DispatchOutcome := .publishFailed .fail "dispatch task aborted"

end Dispatch

/-- The sender. -/
structure Sender where
  /-- Where events are published. -/
  topic : String
  provider : Provider
  blockList : BlockList := {}
  /-- What keeps the block list from answering. -/
  guardFault : Option Failure := none
  /-- What keeps events from being published. -/
  publishFault : Option Failure := none
  closed : Bool := false
  /-- All dispatches, in the order in which their requests were accepted. -/
  dispatches : List Dispatch := []

namespace Sender

/-- The first check of a request. -/
def screen (s : Sender) (r : SendRequest) : Except SendError Unit :=
  if r.violations ≠ [] then .error (.invalid r.violations)
  else if s.closed then .error .shuttingDown
  else .ok ()

/-- Whether a phone number is blocked. -/
def isBlocked (s : Sender) (phone : String) : Except Failure Bool :=
  match s.guardFault with
  | some f => .error f
  | none => .ok (s.blockList.isBlocked phone)

/-- Changes the block list. -/
def changeBlockList (s : Sender) (f : BlockList → Except Failure BlockList) :
    Except Failure Sender :=
  match s.guardFault with
  | some e => .error e
  | none => (f s.blockList).map fun l => { s with blockList := l }

/-- Blocks a phone number. -/
def block (s : Sender) (phone : String) : Except Failure Sender :=
  s.changeBlockList (·.block phone)

/-- Unblocks a phone number. -/
def unblock (s : Sender) (phone : String) : Except Failure Sender :=
  s.changeBlockList (·.unblock phone)

/-- The second check of a request, and the start of its dispatch. -/
def decide (s : Sender) (r : SendRequest) (correlationId : String) (timestamp : Int) :
    Except SendError (SendReply × Sender) :=
  match s.isBlocked r.phone with
  | .error f => .error (.guardFailed f)
  | .ok true => .error (.blocked r.phone)
  | .ok false =>
    .ok (⟨correlationId, .pending, timestamp⟩,
      { s with dispatches := s.dispatches ++
          [{ correlationId := correlationId, request := r, timestamp := timestamp }] })

/-- Answers a request: both checks at once. -/
def accept (s : Sender) (r : SendRequest) (correlationId : String) (timestamp : Int) :
    Except SendError (SendReply × Sender) := do
  s.screen r
  s.decide r correlationId timestamp

/-- Accepts no further requests. -/
def close (s : Sender) : Sender := { s with closed := true }

/-- How many dispatches have not ended. -/
def inFlight (s : Sender) : Nat := (s.dispatches.filter fun d => d.outcome?.isNone).length

/-- Publishes the event of a dispatch. -/
def publish (s : Sender) (l : Log) (d : Dispatch) (status : DeliveryStatus) :
    DispatchOutcome × Log :=
  match s.publishFault with
  | some f => (.publishFailed status f.message, l)
  | none => match l.send s.topic d.request.phone (d.event status).encode with
    | .ok (l', place) => (.published status place, l')
    | .error e => (.publishFailed status e.message, l)

/-- The next step of a dispatch by its number. -/
def step? (s : Sender) (now : Nat) (l : Log) (n : Nat) : Option (Log × Sender) := do
  let d ← s.dispatches[n]?
  let put := fun (phase : DispatchPhase) =>
    { s with dispatches := s.dispatches.set n { d with phase := phase } }
  match d.phase with
  | .fresh =>
    let plan := s.provider d.request.phone d.request.message
    some (l, put (.delivering (now + plan.delay) plan.verdict))
  | .delivering due verdict =>
    if now < due then none
    else match verdict with
      | none => some (l, put (.ended Dispatch.brokenDown))
      | some status =>
        let (o, l') := s.publish l d status
        some (l', put (.ended o))
  | .ended _ => none

/-- The moments for which dispatches wait. -/
def dues (s : Sender) : List Nat :=
  s.dispatches.filterMap fun d => match d.phase with
    | .delivering due _ => some due
    | _ => none

theorem screen_ok_iff {s : Sender} {r : SendRequest} :
    s.screen r = .ok () ↔ r.violations = [] ∧ s.closed = false := by
  unfold screen
  by_cases hv : r.violations = [] <;> cases hc : s.closed <;> simp [hv]

end Sender

end SmsRelay
