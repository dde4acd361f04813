import SmsRelay.Metrics
import SmsRelay.Store.Link

/-!
# Batches

An accumulator gathers messages and hands them to the store when it holds `maxSize` of them, when
the deadline of the batch has come and someone ticks, or when it is flushed. One caller has the turn
at a time, first come first served, and keeps it until the store has answered.

## Implementation notes

`turn` is the queue of callers with what they ask for; its head has the turn. A caller is known by a
key of any type. `signal` is set when a batch begins and cleared by the one who waits for that.

A call takes one step when it is settled at once, and two when it flushes: the first hands the batch
over, the second, when the store has answered, takes note of the answer.

## Main results

* `length_push`: an offer adds one message to the batch.
-/

namespace SmsRelay

/-- What became of a flush. -/
inductive FlushOutcome where
  /-- There was nothing to store. -/
  | empty
  | written (count : Nat)
  /-- The store took some messages; the others are lost. -/
  | partly (written attempted : Nat)
  /-- The store took nothing; the batch is lost. -/
  | failed (attempted : Nat)
  deriving DecidableEq, Repr

/-- What a caller asks of an accumulator. -/
inductive BatchCall where
  | offer (m : Message)
  /-- Flush if the deadline has come. -/
  | tick
  | flush
  /-- When is the deadline? -/
  | deadline
  deriving DecidableEq, Repr

/-- What a caller is told. -/
inductive BatchReply where
  | outcome (o : FlushOutcome)
  | deadline (at? : Option Nat)
  deriving DecidableEq, Repr

/-- What an accumulator works with: the time, the way to the store and the counters. -/
structure Outlet where
  /-- Milliseconds. -/
  now : Nat
  link : StoreLink
  metrics : Metrics
  deriving Repr

/-- A batch under construction and the callers around it. -/
structure Accumulator (κ : Type) where
  maxSize : Nat
  /-- Milliseconds from the first message of a batch to its deadline. -/
  timeout : Nat
  records : List Message := []
  deadline : Option Nat := none
  signal : Bool := false
  turn : List (κ × BatchCall) := []
  /-- The call to the store that the head of `turn` waits for. -/
  flushing : Option StoreCall := none
  deriving Repr

namespace Accumulator

variable {κ : Type} [DecidableEq κ]

/-- An accumulator for batches of `maxSize` messages, at least one. -/
def create (κ : Type) (maxSize timeout : Nat) : Accumulator κ :=
  { maxSize := max maxSize 1, timeout := timeout }

/-- A caller joins the queue. -/
def ask (a : Accumulator κ) (who : κ) (call : BatchCall) : Accumulator κ :=
  { a with turn := a.turn ++ [(who, call)] }

/-- The turn passes on. -/
def pass (a : Accumulator κ) : Accumulator κ := { a with turn := a.turn.tail, flushing := none }

/-- Puts a message into the batch; the first one sets the deadline. -/
def push (a : Accumulator κ) (now : Nat) (m : Message) : Accumulator κ :=
  if a.records = [] then
    { a with records := [m], deadline := some (now + a.timeout), signal := true }
  else { a with records := a.records ++ [m] }

/-- What a step of a caller gives. -/
structure Progress (κ : Type) where
  /-- The reply, when the call is settled. -/
  reply : Option BatchReply
  outlet : Outlet
  batch : Accumulator κ

/-- Settles the call of the head. -/
def settled (a : Accumulator κ) (o : Outlet) (r : BatchReply) : Progress κ := ⟨some r, o, a.pass⟩

/-- Hands the batch over unless it is empty. -/
def beginFlush (a : Accumulator κ) (o : Outlet) : Progress κ :=
  let a := { a with deadline := none }
  if a.records = [] then a.settled o (.outcome .empty)
  else
    let (call, link) := o.link.hand o.now a.records
    ⟨none, { o with link := link }, { a with records := [], flushing := some call }⟩

/-- The outcome of a flush from the answer of the store. -/
def outcome (attempted : Nat) : Except StoreError Nat → FlushOutcome
  | .ok written => .written written
  | .error (.partly written _ _ _) => .partly written attempted
  | .error _ => .failed attempted

/-- Takes note of the answer of the store. -/
def endFlush (a : Accumulator κ) (o : Outlet) (call : StoreCall) : Progress κ :=
  let (r, link) := o.link.answer call
  let attempted := call.batch.length
  let (written, duplicates) := match r with
    | .ok written => (written, 0)
    | .error e => (e.written, e.duplicates)
  a.settled { o with link := link, metrics := o.metrics.countFlush attempted written duplicates }
    (.outcome (outcome attempted r))

/-- Does what the head asks for. -/
def serve (a : Accumulator κ) (o : Outlet) : BatchCall → Progress κ
  | .offer m =>
    let a := a.push o.now m
    if a.maxSize ≤ a.records.length then a.beginFlush o else a.settled o (.outcome .empty)
  | .tick =>
    if a.deadline.any (· ≤ o.now) then a.beginFlush o else a.settled o (.outcome .empty)
  | .flush => a.beginFlush o
  | .deadline => a.settled o (.deadline a.deadline)

/-- The next step of a caller, if it has the turn and need not wait for the store. -/
def step? (a : Accumulator κ) (o : Outlet) (who : κ) : Option (Progress κ) :=
  match a.turn.head? with
  | none => none
  | some (head, call) =>
    if head ≠ who then none
    else match a.flushing with
      | none => some (a.serve o call)
      | some c => if c.due ≤ o.now then some (a.endFlush o c) else none

/-- When the call to the store ends, if one is under way. -/
def nextDue? (a : Accumulator κ) : Option Nat := a.flushing.map (·.due)

omit [DecidableEq κ] in
theorem length_push (a : Accumulator κ) (now : Nat) (m : Message) :
    (a.push now m).records.length = a.records.length + 1 := by
  unfold push
  split <;> simp_all

end Accumulator

end SmsRelay
