import SmsRelay.Batch.Timer
import SmsRelay.Schedule

/-!
# Traffic on an accumulator

An accumulator on its own, with a flush timer that can be started and cancelled and any number of
callers. Calls are numbered as they come; an answered call is kept with its outcome.
-/

namespace SmsRelay

/-- Who calls an accumulator: the timer or a numbered caller. -/
inductive BatchCaller where
  | timer
  | caller (number : Nat)
  deriving DecidableEq, Repr

/-- An accumulator and those around it. -/
structure BatchTraffic where
  outlet : Outlet
  batch : Accumulator BatchCaller
  timer : FlushTimer := .stopped
  timerCancelled : Bool := false
  /-- How many calls have been made. -/
  calls : Nat := 0
  /-- The outcomes of calls in the order in which they were settled. -/
  answered : List (Nat × FlushOutcome) := []

namespace BatchTraffic

/-- Makes a call; its number is the number of calls before. -/
def call (t : BatchTraffic) (c : BatchCall) : BatchTraffic :=
  { t with batch := t.batch.ask (.caller t.calls) c, calls := t.calls + 1 }

/-- Starts the timer. -/
def startTimer (t : BatchTraffic) : BatchTraffic :=
  { t with timer := .fresh, timerCancelled := false }

/-- Cancels the timer. -/
def cancelTimer (t : BatchTraffic) : BatchTraffic := { t with timerCancelled := true }

/-- The callers that may take a step. -/
def actors (t : BatchTraffic) : List BatchCaller :=
  (t.batch.turn.map (·.1)).filter (· ≠ .timer) ++ [.timer]

/-- The next step of a caller. -/
def step? (t : BatchTraffic) : BatchCaller → Option BatchTraffic
  | .timer => (t.timer.step? t.timerCancelled .timer t.batch t.outlet).map fun p =>
    { t with timer := p.timer, outlet := p.outlet, batch := p.batch }
  | .caller n => (t.batch.step? t.outlet (.caller n)).map fun p =>
    { t with
      outlet := p.outlet
      batch := p.batch
      answered := match p.reply with
        | some (.outcome o) => t.answered ++ [(n, o)]
        | _ => t.answered }

/-- An accumulator and those around it as a machine. -/
def machine : Machine BatchTraffic BatchCaller where
  actors := actors
  step? := step?
  now t := t.outlet.now
  setNow t now := { t with outlet := { t.outlet with now := now } }
  dues t := t.batch.nextDue?.toList ++ t.timer.nextDue?.toList

end BatchTraffic

end SmsRelay
