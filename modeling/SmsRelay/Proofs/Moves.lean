import Mathlib.Data.List.Basic

/-!
# Moves one after the other

A run is made of moves, and what can be seen in it is shown by moves that are tried out: they are
made one after the other, as far as each of them can be made. What each move keeps is true of the
state to which they lead.

## Implementation notes

`R` says of a state, or of a state and its history, that a run leads to it. Every kind of run brings
its own `R` and the proof that one move keeps it.

## Main results

* `kept_of_foldlM`: what each move keeps is kept by all of them.
* `exists_of_foldlM`: what is seen after some moves is seen at the end of a run.
* `exists_of_recording`: the same with a history to which each move adds what is seen of it.
-/

namespace SmsRelay

variable {σ μ ε : Type}

/-- **What each move keeps** is kept by all of them. -/
theorem kept_of_foldlM {move? : σ → μ → Option σ} {R : σ → Prop} {s s' : σ} {moves : List μ}
    (keeps : ∀ {s s' : σ} {m : μ}, m ∈ moves → R s → move? s m = some s' → R s') (start : R s)
    (made : moves.foldlM move? s = some s') : R s' := by
  induction moves generalizing s with
  | nil =>
    cases made
    exact start
  | cons m rest ih =>
    rw [List.foldlM_cons] at made
    obtain ⟨s₁, hfirst, hrest⟩ := Option.bind_eq_some_iff.mp made
    exact ih (fun hm => keeps (List.mem_cons_of_mem m hm)) (keeps List.mem_cons_self start hfirst)
      hrest

/-- What is seen after some moves is seen at the end of a run. -/
theorem exists_of_foldlM (move? : σ → μ → Option σ) (R : σ → Prop) (s : σ) (moves : List μ)
    (keeps : ∀ {s s' : σ} {m : μ}, m ∈ moves → R s → move? s m = some s' → R s') (start : R s)
    (P : σ → Prop) [DecidablePred P]
    (seen : (moves.foldlM move? s).any fun s => decide (P s)) : ∃ s, R s ∧ P s := by
  obtain ⟨s', made, hP⟩ := (Option.any_eq_true _ _).mp seen
  exact ⟨s', kept_of_foldlM keeps start made, of_decide_eq_true hP⟩

/-! ### A history -/

/-- Makes a move and adds what is seen of it to the history. -/
def recording (move? : σ → μ → Option σ) (events : σ → μ → σ → List ε) (e : σ × List ε) (m : μ) :
    Option (σ × List ε) :=
  (move? e.1 m).map fun s => (s, e.2 ++ events e.1 m s)

/-- What is seen of some moves is seen of a run with its history. -/
theorem exists_of_recording (move? : σ → μ → Option σ) (events : σ → μ → σ → List ε)
    (R : σ → List ε → Prop) (s : σ) (moves : List μ)
    (keeps : ∀ {s s' : σ} {h : List ε} {m : μ}, m ∈ moves → R s h → move? s m = some s' →
      R s' (h ++ events s m s')) (start : R s []) (P : σ → List ε → Prop)
    [∀ s h, Decidable (P s h)]
    (seen : (moves.foldlM (recording move? events) (s, [])).any fun e => decide (P e.1 e.2)) :
    ∃ s h, R s h ∧ P s h := by
  have hkeeps : ∀ {e e' : σ × List ε} {m : μ}, m ∈ moves → R e.1 e.2 →
      recording move? events e m = some e' → R e'.1 e'.2 := by
    intro e e' m hm hR made
    obtain ⟨s', hmove, rfl⟩ := Option.map_eq_some_iff.mp made
    exact keeps hm hR hmove
  obtain ⟨e, hR, hP⟩ := exists_of_foldlM (recording move? events) (fun e => R e.1 e.2) (s, []) moves
    hkeeps start (fun e => P e.1 e.2) seen
  exact ⟨e.1, e.2, hR, hP⟩

end SmsRelay
