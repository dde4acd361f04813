import SmsRelay.Proofs.Batch.Conservation

/-!
# Batches as they are handed over

Callers come to an accumulator as they like and have their turns in the order in which they came.
Whatever they ask for and however the store answers, the messages leave in the order in which they
were offered, in batches that are neither empty nor too large, one at a time, and a batch that could
have taken more is handed over only because someone flushed or because its deadline had come.

## Implementation notes

The history of an accumulator is a list of events, oldest first: who joined the queue, which message
came into the batch and when, and which batch was handed over. `handovers` reads off it when each
batch was begun; the deadline that the accumulator keeps is never used to say so.

`Turn` says in full what a step does and with which events; `Effect` is what remains of it when the
deadline and the sizes do not matter.

## Main results

* `turn_of_step?`: everything that a step can do.
-/

namespace SmsRelay

/-- What is seen at an accumulator. -/
inductive BatchEvent (κ : Type) where
  /-- A caller joins the queue. -/
  | asked (who : κ) (call : BatchCall)
  /-- An offer has its turn: its message comes into the batch. -/
  | taken (now : ℕ) (m : Message)
  /-- The caller that has the turn hands the batch to the store. -/
  | handed (now : ℕ) (who : κ) (call : BatchCall) (batch : List Message)
  deriving DecidableEq, Repr

/-- A batch that was handed over and how that came about. -/
structure Handover (κ : Type) where
  /-- When the first message came into the batch. -/
  begun : Option ℕ
  /-- When the batch was handed over. -/
  now : ℕ
  who : κ
  call : BatchCall
  batch : List Message
  deriving DecidableEq, Repr

namespace BatchEvent

variable {κ : Type}

/-- The message of an offer that joins the queue. -/
def offered? : BatchEvent κ → Option Message
  | asked _ call => call.offered?
  | _ => none

/-- The message that comes into the batch. -/
def taken? : BatchEvent κ → Option Message
  | taken _ m => some m
  | _ => none

@[simp] theorem offered?_asked (who : κ) (call : BatchCall) :
    (asked who call).offered? = call.offered? := rfl

@[simp] theorem offered?_taken (now : ℕ) (m : Message) :
    (taken now m : BatchEvent κ).offered? = none := rfl

@[simp] theorem offered?_handed (now : ℕ) (who : κ) (call : BatchCall) (batch : List Message) :
    (handed now who call batch).offered? = none := rfl

@[simp] theorem taken?_asked (who : κ) (call : BatchCall) : (asked who call).taken? = none := rfl

@[simp] theorem taken?_taken (now : ℕ) (m : Message) :
    (taken now m : BatchEvent κ).taken? = some m := rfl

@[simp] theorem taken?_handed (now : ℕ) (who : κ) (call : BatchCall) (batch : List Message) :
    (handed now who call batch).taken? = none := rfl

/-- When the batch under construction was begun, after one more event. -/
def begunAfter : Option ℕ → BatchEvent κ → Option ℕ
  | begun, asked _ _ => begun
  | begun, taken now _ => some (begun.getD now)
  | _, handed .. => none

/-- When the batch under construction was begun, if there is one. -/
def begun (h : List (BatchEvent κ)) : Option ℕ := h.foldl begunAfter none

/-- The handovers in the rest of a history, when the present batch was begun at `begun`. -/
def handoversFrom : Option ℕ → List (BatchEvent κ) → List (Handover κ)
  | _, [] => []
  | begun, handed now who call batch :: rest =>
    ⟨begun, now, who, call, batch⟩ :: handoversFrom none rest
  | begun, e :: rest => handoversFrom (begunAfter begun e) rest

/-- The batches that were handed over, oldest first. -/
def handovers (h : List (BatchEvent κ)) : List (Handover κ) := handoversFrom none h

@[simp] theorem begun_append_asked (h : List (BatchEvent κ)) (who : κ) (call : BatchCall) :
    begun (h ++ [asked who call]) = begun h := by
  simp [begun, begunAfter]

@[simp] theorem begun_append_taken (h : List (BatchEvent κ)) (now : ℕ) (m : Message) :
    begun (h ++ [taken now m]) = some ((begun h).getD now) := by
  simp [begun, begunAfter]

@[simp] theorem begun_append_handed (h : List (BatchEvent κ)) (now : ℕ) (who : κ)
    (call : BatchCall) (batch : List Message) :
    begun (h ++ [handed now who call batch]) = none := by
  simp [begun, begunAfter]

theorem handoversFrom_append (b : Option ℕ) (h h' : List (BatchEvent κ)) :
    handoversFrom b (h ++ h') = handoversFrom b h ++ handoversFrom (h.foldl begunAfter b) h' := by
  induction h generalizing b with
  | nil => rfl
  | cons e rest ih => cases e <;> simp [handoversFrom, ih, begunAfter]

@[simp] theorem handovers_append_asked (h : List (BatchEvent κ)) (who : κ) (call : BatchCall) :
    handovers (h ++ [asked who call]) = handovers h := by
  simp [handovers, handoversFrom_append, handoversFrom]

@[simp] theorem handovers_append_taken (h : List (BatchEvent κ)) (now : ℕ) (m : Message) :
    handovers (h ++ [taken now m]) = handovers h := by
  simp [handovers, handoversFrom_append, handoversFrom]

@[simp] theorem handovers_append_handed (h : List (BatchEvent κ)) (now : ℕ) (who : κ)
    (call : BatchCall) (batch : List Message) :
    handovers (h ++ [handed now who call batch])
      = handovers h ++ [⟨begun h, now, who, call, batch⟩] := by
  simp [handovers, handoversFrom_append, handoversFrom, begun]

end BatchEvent

namespace Accumulator

variable {κ : Type}

/-! ### A step in full -/

/-- What is seen of a step of the caller `who`. -/
def events [DecidableEq κ] (a : Accumulator κ) (o : Outlet) (who : κ) : List (BatchEvent κ) :=
  match a.step? o who, a.next with
  | some p, [(_, call)] =>
    (call.offered?.map (BatchEvent.taken o.now)).toList
      ++ (p.batch.flushing.map fun c => BatchEvent.handed o.now who call c.batch).toList
  | _, _ => []

/-- The accumulator when the batch `batch` has been handed over. -/
def handing (a : Accumulator κ) (o : Outlet) (batch : List Message) : Accumulator κ :=
  { a with deadline := none, records := [], flushing := some (o.link.hand o.now batch).1 }

/-- What a step of the caller `who` does, and what is seen of it. -/
inductive Turn (a : Accumulator κ) (o : Outlet) (who : κ) :
    Progress κ → List (BatchEvent κ) → Prop
  /-- An offer leaves room in the batch. -/
  | put {m : Message} {rest : List (κ × BatchCall)} (turn : a.turn = (who, .offer m) :: rest)
      (idle : a.flushing = none) (room : a.records.length + 1 < a.maxSize) :
      Turn a o who ⟨some (.outcome .empty), o, (a.push o.now m).pass⟩ [.taken o.now m]
  /-- An offer fills the batch and hands it over. -/
  | fill {m : Message} {rest : List (κ × BatchCall)} (turn : a.turn = (who, .offer m) :: rest)
      (idle : a.flushing = none) (full : a.maxSize ≤ a.records.length + 1) :
      Turn a o who
        ⟨none, { o with link := (o.link.hand o.now (a.records ++ [m])).2 },
          (a.push o.now m).handing o (a.records ++ [m])⟩
        [.taken o.now m, .handed o.now who (.offer m) (a.records ++ [m])]
  /-- A tick comes before the deadline. -/
  | early {rest : List (κ × BatchCall)} (turn : a.turn = (who, .tick) :: rest)
      (idle : a.flushing = none) (early : ∀ d, a.deadline = some d → o.now < d) :
      Turn a o who ⟨some (.outcome .empty), o, a.pass⟩ []
  /-- A tick or a flush finds nothing to hand over. -/
  | empty {call : BatchCall} {rest : List (κ × BatchCall)} (turn : a.turn = (who, call) :: rest)
      (idle : a.flushing = none) (asked : call = .flush ∨ call = .tick) (empty : a.records = []) :
      Turn a o who ⟨some (.outcome .empty), o, { a with deadline := none }.pass⟩ []
  /-- A flush, or a tick at the deadline, hands the batch over. -/
  | flush {call : BatchCall} {rest : List (κ × BatchCall)} (turn : a.turn = (who, call) :: rest)
      (idle : a.flushing = none) (nonempty : a.records ≠ [])
      (due : call = .flush ∨ call = .tick ∧ ∃ d, a.deadline = some d ∧ d ≤ o.now) :
      Turn a o who ⟨none, { o with link := (o.link.hand o.now a.records).2 }, a.handing o a.records⟩
        [.handed o.now who call a.records]
  /-- The deadline is told. -/
  | told {rest : List (κ × BatchCall)} (turn : a.turn = (who, .deadline) :: rest)
      (idle : a.flushing = none) : Turn a o who ⟨some (.deadline a.deadline), o, a.pass⟩ []
  /-- The store has answered. -/
  | answered {call : BatchCall} {rest : List (κ × BatchCall)} {c : StoreCall}
      (turn : a.turn = (who, call) :: rest) (flushing : a.flushing = some c)
      (due : c.due ≤ o.now) : Turn a o who (a.endFlush o c) []

theorem beginFlush_of_ne_nil {a : Accumulator κ} (o : Outlet) (h : a.records ≠ []) :
    a.beginFlush o = ⟨none, { o with link := (o.link.hand o.now a.records).2 },
      a.handing o a.records⟩ := by
  simp [beginFlush, handing, h]

theorem beginFlush_of_nil {a : Accumulator κ} (o : Outlet) (h : a.records = []) :
    a.beginFlush o = ⟨some (.outcome .empty), o, { a with deadline := none }.pass⟩ := by
  simp [beginFlush, settled, h]

@[simp] theorem maxSize_push (a : Accumulator κ) (now : ℕ) (m : Message) :
    (a.push now m).maxSize = a.maxSize := by
  rw [push]
  split <;> rfl

@[simp] theorem timeout_push (a : Accumulator κ) (now : ℕ) (m : Message) :
    (a.push now m).timeout = a.timeout := by
  rw [push]
  split <;> rfl

variable [DecidableEq κ] {a : Accumulator κ} {o : Outlet} {who : κ} {p : Progress κ}

/-- A step belongs to the head of the queue, which is served or waits for the store. -/
theorem step?_eq_some (h : a.step? o who = some p) : ∃ call rest, a.turn = (who, call) :: rest ∧
    (a.flushing = none ∧ p = a.serve o call ∨
      ∃ c, a.flushing = some c ∧ c.due ≤ o.now ∧ p = a.endFlush o c) := by
  rw [step?] at h
  cases hturn : a.turn with
  | nil =>
    rw [hturn] at h
    cases h
  | cons e rest =>
    obtain ⟨head, call⟩ := e
    rw [hturn, List.head?_cons] at h
    by_cases hw : head = who
    · subst hw
      refine ⟨call, rest, rfl, ?_⟩
      cases hflushing : a.flushing with
      | none =>
        simp only [hflushing, ne_eq, not_true, if_false, Option.some.injEq] at h
        exact .inl ⟨rfl, h.symm⟩
      | some c =>
        simp only [hflushing, ne_eq, not_true, if_false, Option.ite_none_right_eq_some,
          Option.some.injEq] at h
        exact .inr ⟨c, rfl, h.1, h.2.symm⟩
    · simp [hw] at h

theorem events_of_idle {call : BatchCall} {rest : List (κ × BatchCall)}
    (h : a.step? o who = some p) (turn : a.turn = (who, call) :: rest) (idle : a.flushing = none) :
    a.events o who = (call.offered?.map (BatchEvent.taken o.now)).toList
      ++ (p.batch.flushing.map fun c => BatchEvent.handed o.now who call c.batch).toList := by
  rw [events, h, next_of_idle idle turn]

theorem events_of_flushing {c : StoreCall} (flushing : a.flushing = some c) :
    a.events o who = [] := by
  rw [events, next_of_flushing flushing]
  split <;> simp_all

/-- **Everything that a step can do.** -/
theorem turn_of_step? (h : a.step? o who = some p) : Turn a o who p (a.events o who) := by
  obtain ⟨call, rest, turn, ⟨idle, rfl⟩ | ⟨c, flushing, due, rfl⟩⟩ := step?_eq_some h
  · rw [events_of_idle h turn idle]
    cases call with
    | offer m =>
      by_cases hfull : a.maxSize ≤ a.records.length + 1
      · have hrecords : (a.push o.now m).records ≠ [] := by rw [records_push]; simp
        have hserve : a.serve o (.offer m) = (a.push o.now m).beginFlush o := by
          rw [serve]
          exact if_pos (by rw [length_push, maxSize_push]; exact hfull)
        rw [hserve, beginFlush_of_ne_nil o hrecords, records_push]
        exact .fill turn idle hfull
      · have hserve : a.serve o (.offer m)
            = ⟨some (.outcome .empty), o, (a.push o.now m).pass⟩ := by
          rw [serve]
          exact if_neg (by rw [length_push, maxSize_push]; exact hfull)
        rw [hserve]
        exact .put turn idle (Nat.lt_of_not_le hfull)
    | tick =>
      by_cases hdue : a.deadline.any (· ≤ o.now) = true
      · have hserve : a.serve o .tick = a.beginFlush o := if_pos hdue
        rw [hserve]
        by_cases hrecords : a.records = []
        · rw [beginFlush_of_nil o hrecords]
          exact .empty turn idle (.inr rfl) hrecords
        · rw [beginFlush_of_ne_nil o hrecords]
          obtain ⟨d, hd, hle⟩ := (Option.any_eq_true _ _).mp hdue
          exact .flush turn idle hrecords (.inr ⟨rfl, d, hd, of_decide_eq_true hle⟩)
      · have hserve : a.serve o .tick = ⟨some (.outcome .empty), o, a.pass⟩ := if_neg hdue
        rw [hserve]
        refine .early turn idle fun d hd => ?_
        by_contra hle
        exact hdue (by rw [hd]; exact decide_eq_true (Nat.le_of_not_lt hle))
    | flush =>
      rw [serve]
      by_cases hrecords : a.records = []
      · rw [beginFlush_of_nil o hrecords]
        exact .empty turn idle (.inl rfl) hrecords
      · rw [beginFlush_of_ne_nil o hrecords]
        exact .flush turn idle hrecords (.inl rfl)
    | deadline => exact .told turn idle
  · rw [events_of_flushing flushing]
    exact .answered turn flushing due

end Accumulator

end SmsRelay
