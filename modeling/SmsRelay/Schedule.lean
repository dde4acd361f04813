/-!
# Schedules

A system of actors that take turns. An actor takes a step when it can; time passes only when no
actor can, and then at most to the next moment for which some actor waits.

## Implementation notes

`settle` and `waitUntil` let the actors go on, one after the other in the order of `actors`, until
none can move. How long that takes is not known beforehand, so all of them are bounded by a number
of rounds, `rounds`, far beyond what a run needs.
-/

namespace SmsRelay

/-- A system `σ` of actors `α`. -/
structure Machine (σ α : Type) where
  actors : σ → List α
  /-- The next step of an actor, if it can take one. -/
  step? : σ → α → Option σ
  now : σ → Nat
  setNow : σ → Nat → σ
  /-- The moments for which actors wait. -/
  dues : σ → List Nat

namespace Machine

variable {σ α : Type}

/-- The bound on rounds. -/
def rounds : Nat := 1000000

/-- An actor goes on until it cannot. -/
def runActor (m : Machine σ α) (a : α) : Nat → σ → σ
  | 0, s => s
  | n + 1, s => match m.step? s a with
    | some s' => m.runActor a n s'
    | none => s

/-- Each actor in turn goes on until it cannot. -/
def round (m : Machine σ α) (s : σ) : σ :=
  (m.actors s).foldl (fun s a => m.runActor a rounds s) s

/-- Whether no actor can move. -/
def isQuiet (m : Machine σ α) (s : σ) : Bool := (m.actors s).all fun a => (m.step? s a).isNone

/-- Rounds until no actor can move. -/
def settleWithin (m : Machine σ α) : Nat → σ → σ
  | 0, s => s
  | n + 1, s => if m.isQuiet s then s else m.settleWithin n (m.round s)

/-- Lets all actors go on until none can move. -/
def settle (m : Machine σ α) (s : σ) : σ := m.settleWithin rounds s

/-- The next moment for which an actor waits. -/
def nextDue? (m : Machine σ α) (s : σ) : Option Nat := ((m.dues s).filter (m.now s < ·)).min?

/-- Lets time pass to a moment within a bound of moments on the way. -/
def advanceWithin (m : Machine σ α) (target : Nat) : Nat → σ → σ
  | 0, s => s
  | n + 1, s =>
    let s := m.settle s
    match m.nextDue? s with
    | some due =>
      if due ≤ target then m.advanceWithin target n (m.setNow s due)
      else m.settle (m.setNow s (max target (m.now s)))
    | none => m.settle (m.setNow s (max target (m.now s)))

/-- Lets time pass to a moment, from one due moment to the next. -/
def advanceTo (m : Machine σ α) (s : σ) (target : Nat) : σ := m.advanceWithin target rounds s

/-- Lets time pass until something holds, within a bound of moments on the way. -/
def waitWithin (m : Machine σ α) (done : σ → Bool) : Nat → σ → σ
  | 0, s => s
  | n + 1, s =>
    let s := m.settle s
    if done s then s
    else match m.nextDue? s with
      | some due => m.waitWithin done n (m.setNow s due)
      | none => s

/-- Lets time pass, from one due moment to the next, until something holds or nothing is due. -/
def waitUntil (m : Machine σ α) (s : σ) (done : σ → Bool) : σ := m.waitWithin done rounds s

/-- The state is kept by steps. -/
def Steps (m : Machine σ α) (p : σ → Prop) : Prop := ∀ s a s', p s → m.step? s a = some s' → p s'

theorem runActor_of_steps {m : Machine σ α} {p : σ → Prop} (h : m.Steps p) (a : α) (n : Nat)
    {s : σ} (hs : p s) : p (m.runActor a n s) := by
  induction n generalizing s with
  | zero => exact hs
  | succ n ih =>
    rw [runActor]
    cases ha : m.step? s a with
    | none => exact hs
    | some s' => exact ih (h s a s' hs ha)

theorem round_of_steps {m : Machine σ α} {p : σ → Prop} (h : m.Steps p) {s : σ} (hs : p s) :
    p (m.round s) := by
  unfold round
  generalize m.actors s = actors
  induction actors generalizing s with
  | nil => exact hs
  | cons a rest ih => exact ih (runActor_of_steps h a rounds hs)

theorem settle_of_steps {m : Machine σ α} {p : σ → Prop} (h : m.Steps p) {s : σ} (hs : p s) :
    p (m.settle s) := by
  unfold settle
  generalize rounds = n
  induction n generalizing s with
  | zero => exact hs
  | succ n ih =>
    rw [settleWithin]
    split
    · exact hs
    · exact ih (round_of_steps h hs)

end Machine

end SmsRelay
