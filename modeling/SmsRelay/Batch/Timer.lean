import SmsRelay.Batch.Accumulator

/-!
# Flush timers

A timer sees to it that a batch is flushed when its deadline has come. It asks for the deadline,
sleeps until then and ticks, or, when there is no batch, waits for one to begin. It can be cancelled
while it sleeps or waits, but not during a flush.
-/

namespace SmsRelay

/-- What a timer is doing. -/
inductive FlushTimer where
  | fresh
  /-- It has asked for the deadline. -/
  | asking
  | sleeping (wake : Nat)
  | ticking
  /-- It waits for a batch to begin. -/
  | waiting
  | stopped
  deriving DecidableEq, Repr

namespace FlushTimer

variable {κ : Type} [DecidableEq κ]

/-- What a step of a timer gives. -/
structure Progress (κ : Type) where
  timer : FlushTimer
  outlet : Outlet
  batch : Accumulator κ

/-- What a timer does after it has been told the deadline. -/
def afterReply : BatchReply → FlushTimer
  | .deadline (some wake) => .sleeping wake
  | _ => .waiting

/-- The next step of a timer that calls itself `me`. -/
def step? (t : FlushTimer) (cancelled : Bool) (me : κ) (a : Accumulator κ) (o : Outlet) :
    Option (Progress κ) :=
  match t with
  | .fresh => some ⟨.asking, o, a.ask me .deadline⟩
  | .asking => (a.step? o me).map fun p =>
    ⟨(p.reply.map afterReply).getD .asking, p.outlet, p.batch⟩
  | .sleeping wake =>
    if cancelled then some ⟨.stopped, o, a⟩
    else if wake ≤ o.now then some ⟨.ticking, o, a.ask me .tick⟩
    else none
  | .ticking => (a.step? o me).map fun p =>
    match p.reply with
    | some _ => ⟨.asking, p.outlet, p.batch.ask me .deadline⟩
    | none => ⟨.ticking, p.outlet, p.batch⟩
  | .waiting =>
    if cancelled then some ⟨.stopped, o, a⟩
    else if a.signal then some ⟨.asking, o, { a with signal := false }.ask me .deadline⟩
    else none
  | .stopped => none

/-- When a sleeping timer wakes. -/
def nextDue? : FlushTimer → Option Nat
  | .sleeping wake => some wake
  | _ => none

end FlushTimer

end SmsRelay
