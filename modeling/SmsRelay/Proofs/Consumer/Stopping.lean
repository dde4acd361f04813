import SmsRelay.Proofs.Consumer.Session

/-!
# The stop of a consumer

Whoever stops a consumer tells it to, takes the handle of its loop and waits for the end of the
loop. Without a handle there is no loop and nothing to wait for.

## Main results

* `Consumer.AtRest.workers`: a consumer that has been stopped has no workers.
* `StopStage.Expects.keep`: what is known of a consumer that is being stopped does not change by
  itself.
-/

namespace SmsRelay

/-- How far the stop of one consumer has come. -/
inductive StopStage where
  | running
  /-- It has been told to stop. -/
  | cancelled
  /-- The handle of its loop has been asked for; without one there is nothing to wait for. -/
  | waiting (waits : Bool)
  | stopped
  deriving DecidableEq

namespace Consumer

/-- The consumer will not work again. -/
structure AtRest (c : Consumer) : Prop where
  stopping : c.stopping = true
  phase : c.phase = .ended ∨ c.phase = .unstarted

/-- A consumer at rest has no workers. -/
theorem AtRest.workers {c : Consumer} (h : c.AtRest) (ho : c.Orderly) : c.workers = [] := by
  refine ho.rested ?_
  rw [isWorking]
  rcases h.phase with hphase | hphase <;> rw [hphase]

/-- What others leave alone in a consumer that is being stopped. -/
structure Undisturbed (c c' : Consumer) : Prop where
  stopping : c'.stopping = c.stopping
  hasHandle : c.stopping = true → c'.hasHandle = c.hasHandle
  phase : c.stopping = true → c.phase = .ended ∨ c.phase = .unstarted → c'.phase = c.phase

/-- A session loop neither ends twice nor begins by itself. -/
theorem Effect.undisturbed {c c' : Consumer} {l l' : Log} (h : Effect c l l' c')
    (started : c.phase ≠ .unstarted) (going : c.phase ≠ .ended) : Undisturbed c c' :=
  ⟨h.kept.stopping, fun _ => h.kept.hasHandle, fun _ h => (h.elim going started).elim⟩

end Consumer

/-- What is known of a consumer at a stage of its stop. -/
def StopStage.Expects (c : Consumer) : StopStage → Prop
  | .running => c.stopping = false
  | .cancelled => c.stopping = true ∧ (c.hasHandle = false → c.phase = .unstarted)
  | .waiting waits => c.stopping = true ∧ (waits = false → c.phase = .unstarted)
  | .stopped => c.AtRest

theorem StopStage.Expects.keep {c c' : Consumer} {s : StopStage} (h : s.Expects c)
    (hu : Consumer.Undisturbed c c') : s.Expects c' := by
  cases s with
  | running => exact hu.stopping.trans h
  | cancelled =>
    obtain ⟨hstopping, hunstarted⟩ := h
    refine ⟨hu.stopping.trans hstopping, fun hhandle => ?_⟩
    rw [hu.hasHandle hstopping] at hhandle
    have hphase := hunstarted hhandle
    exact (hu.phase hstopping (.inr hphase)).trans hphase
  | waiting waits =>
    obtain ⟨hstopping, hunstarted⟩ := h
    refine ⟨hu.stopping.trans hstopping, fun hwaits => ?_⟩
    have hphase := hunstarted hwaits
    exact (hu.phase hstopping (.inr hphase)).trans hphase
  | stopped =>
    refine ⟨hu.stopping.trans h.stopping, ?_⟩
    rw [hu.phase h.stopping h.phase]
    exact h.phase

end SmsRelay
