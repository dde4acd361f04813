import SmsRelay.Proofs.Relay.Course

/-!
# Schedules are courses

Whatever the relay does when its actors go on, when time passes, when its consumers are started and
stopped and when it is shut down, it does by moves. What holds along all courses holds of it.

## Implementation notes

The scheduler bounds its rounds. The bound does not matter here: each state on the way is reached by
moves, also the one at which the bound would stop it.

## Main results

* `Relay.move?_actor`: the steps of actors are moves.
* `Reached.advance`, `Reached.shutDown`: what a schedule leads to is reached by a course.
-/

namespace SmsRelay

namespace Machine

variable {σ α : Type} {m : Machine σ α} {p : σ → Prop} {s : σ}

/-- The state is kept when time passes. -/
def Ages (m : Machine σ α) (p : σ → Prop) : Prop :=
  ∀ s due, p s → m.now s ≤ due → p (m.setNow s due)

theorem now_le_of_nextDue? {due : ℕ} (h : m.nextDue? s = some due) : m.now s ≤ due := by
  have hmem := List.min?_mem h
  rw [List.mem_filter, decide_eq_true_iff] at hmem
  exact Nat.le_of_lt hmem.2

/-- What steps and the time keep holds after the time has passed. -/
theorem advanceTo_of_steps (hsteps : m.Steps p) (hages : m.Ages p) (target : ℕ) (hs : p s) :
    p (m.advanceTo s target) := by
  have hend : ∀ s, p s → p (m.settle (m.setNow s (max target (m.now s)))) := fun s hs =>
    settle_of_steps hsteps (hages s _ hs (Nat.le_max_right _ _))
  rw [advanceTo]
  generalize rounds = n
  induction n generalizing s with
  | zero => exact hs
  | succ n ih =>
    have hsettled := settle_of_steps hsteps hs
    rw [advanceWithin]
    split
    · rename_i due hdue
      split
      · exact ih (hages _ due hsettled (now_le_of_nextDue? hdue))
      · exact hend _ hsettled
    · exact hend _ hsettled

/-- What steps and the time keep holds when a wait is over. -/
theorem waitUntil_of_steps (hsteps : m.Steps p) (hages : m.Ages p) (done : σ → Bool) (hs : p s) :
    p (m.waitUntil s done) := by
  rw [waitUntil]
  generalize rounds = n
  induction n generalizing s with
  | zero => exact hs
  | succ n ih =>
    have hsettled := settle_of_steps hsteps hs
    rw [waitWithin]
    split
    · exact hsettled
    · split
      · rename_i due hdue
        exact ih (hages _ due hsettled (now_le_of_nextDue? hdue))
      · exact hsettled

end Machine

/-- The move of an actor. -/
def Actor.move : Actor → RelayMove
  | session i => .session i true
  | receiver i j => .worker i j .receive
  | task i j offset => .worker i j (.work offset)
  | timer i j => .worker i j (.tick true)
  | dispatch n => .dispatch n

namespace Relay

/-- **The steps of actors are moves.** -/
theorem move?_actor (r : Relay) (a : Actor) : r.move? a.move = r.step? a := by
  cases a with
  | timer i j =>
    simp only [Actor.move, move?, step?, ClaimWorker.move?, ClaimWorker.tickHeeding?_true]
  | session | receiver | task | dispatch => rfl

end Relay

/-- A course leads to the relay `r`. -/
def Reached (allowed : RelayMove → Prop) (r₀ r : Relay) : Prop := ∃ h, Course allowed r₀ r h

namespace Reached

variable {allowed : RelayMove → Prop} {r₀ r r' : Relay}

theorem move (h : Reached allowed r₀ r) {m : RelayMove} (hm : allowed m)
    (moved : r.move? m = some r') : Reached allowed r₀ r' := by
  obtain ⟨history, course⟩ := h
  exact ⟨_, course.move hm moved⟩

variable (hall : ∀ m : RelayMove, m.keepsMode → allowed m)
include hall

theorem steps : Relay.machine.Steps (Reached allowed r₀) := by
  intro r a r' h hstep
  refine h.move (hall a.move ?_) ((r.move?_actor a).trans hstep)
  cases a <;> rfl

theorem ages : Relay.machine.Ages (Reached allowed r₀) := by
  intro r due h hle
  have hnow : r.now + (due - r.now) = due := Nat.add_sub_cancel' hle
  refine h.move (m := .elapse (due - r.now)) (hall _ rfl) ?_
  rw [Relay.move?, hnow]
  rfl

theorem settle (h : Reached allowed r₀ r) : Reached allowed r₀ r.settle :=
  Machine.settle_of_steps (steps hall) h

/-- **The passing of time** leads along a course. -/
theorem advance (h : Reached allowed r₀ r) (millis : ℕ) : Reached allowed r₀ (r.advance millis) :=
  Machine.advanceTo_of_steps (steps hall) (ages hall) _ h

theorem wait (h : Reached allowed r₀ r) (done : Relay → Bool) :
    Reached allowed r₀ (Relay.machine.waitUntil r done) :=
  Machine.waitUntil_of_steps (steps hall) (ages hall) done h

theorem startConsumer (h : Reached allowed r₀ r) {i : ℕ} (hstart : r.startConsumer i = .ok r') :
    Reached allowed r₀ r' := by
  rw [Relay.startConsumer] at hstart
  split at hstart
  · cases hstart
    exact h
  · rename_i c found
    refine h.move (m := .start i) (hall _ rfl) ?_
    rw [Relay.move?, Relay.adjust?, found]
    cases hc : c.start with
    | error e =>
      rw [hc] at hstart
      cases hstart
    | ok c' =>
      rw [hc] at hstart
      cases hstart
      rw [Option.bind_some, hc]
      rfl

theorem stopConsumer (h : Reached allowed r₀ r) (i : ℕ) :
    Reached allowed r₀ (r.stopConsumer i) := by
  rw [Relay.stopConsumer]
  split
  · exact h
  · rename_i c found
    have hcancelled : Reached allowed r₀ (r.setConsumer i c.cancel) := by
      refine h.move (m := .cancel i) (hall _ rfl) ?_
      rw [Relay.move?, Relay.adjust?, found]
      rfl
    have htaken : Reached allowed r₀ (r.setConsumer i c.cancel.takeHandle.2) := by
      have hfound : (r.setConsumer i c.cancel).consumers[i]? = some c.cancel :=
        List.getElem?_set_self (List.getElem?_eq_some_iff.mp found).1
      have hset : (r.setConsumer i c.cancel).setConsumer i c.cancel.takeHandle.2
          = r.setConsumer i c.cancel.takeHandle.2 := by
        rw [Relay.setConsumer, Relay.setConsumer, Relay.setConsumer, List.set_set]
      refine hcancelled.move (m := .takeHandle i) (hall _ rfl) ?_
      rw [Relay.move?, Relay.adjust?, hfound, ← hset]
      rfl
    dsimp only
    split
    · exact wait hall htaken _
    · exact settle hall htaken

theorem stopConsumers (h : Reached allowed r₀ r) : Reached allowed r₀ r.stopConsumers := by
  rw [Relay.stopConsumers]
  generalize List.range r.consumers.length = numbers
  induction numbers generalizing r with
  | nil => exact h
  | cons i numbers ih => exact ih (stopConsumer hall h i)

theorem closeSender (h : Reached allowed r₀ r) : Reached allowed r₀ r.closeSender :=
  wait hall (h.move (m := .closeSender) (hall _ rfl) rfl) _

/-- **The shutdown** leads along a course. -/
theorem shutDown (h : Reached allowed r₀ r) : Reached allowed r₀ r.shutDown := by
  have hstopped := stopConsumers hall (closeSender hall h)
  exact settle hall (hstopped.move (m := .closeLog) (hall _ rfl) rfl)

end Reached

end SmsRelay
