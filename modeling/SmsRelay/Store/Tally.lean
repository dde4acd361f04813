import SmsRelay.Store.Error

/-!
# Storing a batch

A store takes the messages of a batch one by one; a refusal does not keep the next one from being
stored. The tally of a batch counts what became of its messages and keeps the first reason of a
refusal, from which the answer for the whole batch is made.

## Main results

* `Tally.result_eq_ok_iff`: a batch succeeds exactly when no message was refused.
-/

namespace SmsRelay

/-- What became of one message. -/
inductive Verdict where
  | stored
  /-- The message cannot be stored. -/
  | invalid (reason : String)
  /-- A message with the same correlation id is stored. -/
  | duplicate (reason : String)
  /-- The message could be stored, but writing it failed. -/
  | failed (reason : String)
  deriving DecidableEq, Repr

/-- The reason of a refusal. -/
def Verdict.reason? : Verdict → Option String
  | stored => none
  | invalid reason | duplicate reason | failed reason => some reason

/-- What became of the messages of a batch. -/
structure Tally where
  attempted : Nat := 0
  written : Nat := 0
  duplicates : Nat := 0
  /-- Writing a message failed. -/
  anyFailed : Bool := false
  /-- The first refusal, with the place of the message in the batch. -/
  refusal : Option String := none
  deriving DecidableEq, Repr

namespace Tally

/-- Counts the next message. -/
def count (t : Tally) (v : Verdict) : Tally :=
  { attempted := t.attempted + 1
    written := t.written + if v = .stored then 1 else 0
    duplicates := t.duplicates + match v with | .duplicate _ => 1 | _ => 0
    anyFailed := t.anyFailed || match v with | .failed _ => true | _ => false
    refusal := t.refusal <|> v.reason?.map fun reason =>
      "index " ++ natText t.attempted ++ ": " ++ reason }

/-- The answer for the batch. -/
def result (t : Tally) : Except StoreError Nat :=
  match t.refusal with
  | none => .ok t.written
  | some reason =>
    if t.written = 0 ∧ t.anyFailed then .error (.io reason)
    else .error (.partly t.written t.attempted t.duplicates reason)

theorem result_eq_ok_iff {t : Tally} {n : Nat} :
    t.result = .ok n ↔ t.refusal = none ∧ t.written = n := by
  unfold result
  cases t.refusal with
  | none => simp
  | some reason => by_cases h : t.written = 0 ∧ t.anyFailed = true <;> simp [h]

theorem attempted_count (t : Tally) (v : Verdict) :
    (t.count v).attempted = t.attempted + 1 := rfl

end Tally

/-- Puts messages one by one into a store by `put` and tallies the verdicts. -/
def putEach {σ μ : Type} (put : σ → μ → Verdict × σ) (s : σ) (ms : List μ) (t : Tally) :
    Tally × σ :=
  match ms with
  | [] => (t, s)
  | m :: rest => putEach put (put s m).2 rest (t.count (put s m).1)

end SmsRelay
