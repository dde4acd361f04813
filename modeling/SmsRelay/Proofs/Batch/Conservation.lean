import Mathlib.Data.List.Basic
import SmsRelay.Batch.Timer
import SmsRelay.Proofs.Store.Insertion

/-!
# What an accumulator keeps

A message that has been offered is in one of three places: its call has not had its turn, it is in
the batch under construction, or its batch has been handed over. One step of a caller moves messages
forward through these places and loses none of them.

## Implementation notes

`Effect` says once what a step of a caller can do; whoever reasons about accumulators takes a step
apart with `effect_of_step?` and does not unfold `Accumulator.step?`.

## Main results

* `effect_of_step?`: a step settles a call, hands the batch over or takes note of an answer.
* `Effect.sound`: while a batch is on its way its caller waits and nothing is under construction.
* `Effect.unserved`: a call has its turn once.
* `Effect.handed_append`: what is in the batch or comes into it stays there or is handed over.
* `Effect.use`: calls to the store begin and end one after the other.
-/

namespace SmsRelay

/-- The message that a call offers. -/
def BatchCall.offered? : BatchCall → Option Message
  | .offer m => some m
  | _ => none

@[simp] theorem BatchCall.offered?_offer (m : Message) : (offer m).offered? = some m := rfl

@[simp] theorem BatchCall.offered?_tick : tick.offered? = none := rfl

@[simp] theorem BatchCall.offered?_flush : flush.offered? = none := rfl

@[simp] theorem BatchCall.offered?_deadline : deadline.offered? = none := rfl

/-- What a step can do with a link over which a call may be under way: leave it alone, begin a call
or end the one under way. -/
inductive StoreLink.Use (l : StoreLink) : Option StoreCall → StoreLink → Option StoreCall → Prop
  | none (c : Option StoreCall) : Use l c l c
  | hand (now : ℕ) (batch : List Message) :
      Use l .none (l.hand now batch).2 (some (l.hand now batch).1)
  | answer (c : StoreCall) : Use l (some c) (l.answer c).2 .none

/-- Counts a batch that has been answered. -/
def Metrics.countAnswer (m : Metrics) (batch : List Message) (r : Except StoreError ℕ) : Metrics :=
  m.countFlush batch.length (StoreError.counted r).1 (StoreError.counted r).2

namespace Accumulator

variable {κ : Type}

/-- The calls that have not had their turn: all, or all but the one that waits for the store. -/
def unserved (a : Accumulator κ) : List (κ × BatchCall) :=
  if a.flushing.isSome then a.turn.tail else a.turn

/-- While a batch is on its way its caller waits for it, and no other is under construction. -/
structure Sound (a : Accumulator κ) : Prop where
  waits : a.flushing.isSome → a.turn ≠ []
  emptied : a.flushing.isSome → a.records = []

theorem sound_create (maxSize timeout : ℕ) : (create κ maxSize timeout).Sound :=
  ⟨fun h => (Bool.false_ne_true h).elim, fun h => (Bool.false_ne_true h).elim⟩

theorem unserved_of_idle {a : Accumulator κ} (h : a.flushing = none) : a.unserved = a.turn := by
  simp [unserved, h]

theorem unserved_of_flushing {a : Accumulator κ} {c : StoreCall} (h : a.flushing = some c) :
    a.unserved = a.turn.tail := by
  simp [unserved, h]

theorem Sound.unserved_ask {a : Accumulator κ} (h : a.Sound) (who : κ) (call : BatchCall) :
    (a.ask who call).unserved = a.unserved ++ [(who, call)] := by
  unfold unserved ask
  split
  · rename_i hf
    exact List.tail_append_of_ne_nil (h.waits hf)
  · rfl

theorem Sound.ask {a : Accumulator κ} (h : a.Sound) (who : κ) (call : BatchCall) :
    (a.ask who call).Sound :=
  ⟨fun _ => by simp [Accumulator.ask], h.emptied⟩

/-! ### What a step does -/

theorem endFlush_eq (a : Accumulator κ) (o : Outlet) (c : StoreCall) : a.endFlush o c =
    ⟨some (.outcome (outcome c.batch.length (o.link.answer c).1)),
      { o with
        link := (o.link.answer c).2
        metrics := o.metrics.countAnswer c.batch (o.link.answer c).1 }, a.pass⟩ := by
  rcases hanswer : o.link.answer c with ⟨r, l⟩
  rw [endFlush, hanswer]
  cases r <;> rfl

/-- What a step of the caller `who` can do: settle its call at once, hand the batch over, or take
note of the store's answer. -/
inductive Effect (a : Accumulator κ) (o : Outlet) (who : κ) : Progress κ → Prop
  | settled {call : BatchCall} {rest : List (κ × BatchCall)} {reply : BatchReply}
      {b : Accumulator κ} (turn : a.turn = (who, call) :: rest) (idle : a.flushing = none)
      (passed : b.turn = rest) (free : b.flushing = none)
      (records : b.records = a.records ++ call.offered?.toList)
      (flushed : call = .flush → b.records = []) : Effect a o who ⟨some reply, o, b⟩
  | handed {call : BatchCall} {rest : List (κ × BatchCall)} {c : StoreCall}
      {b : Accumulator κ} (turn : a.turn = (who, call) :: rest) (idle : a.flushing = none)
      (kept : b.turn = a.turn) (flushing : b.flushing = some c) (records : b.records = [])
      (batch : c.batch = a.records ++ call.offered?.toList)
      (begun : c = (o.link.hand o.now c.batch).1) :
      Effect a o who ⟨none, { o with link := (o.link.hand o.now c.batch).2 }, b⟩
  | answered {call : BatchCall} {rest : List (κ × BatchCall)} {c : StoreCall}
      {reply : BatchReply} {b : Accumulator κ}
      (turn : a.turn = (who, call) :: rest) (flushing : a.flushing = some c)
      (due : c.due ≤ o.now) (passed : b.turn = rest) (free : b.flushing = none)
      (records : b.records = a.records) :
      Effect a o who ⟨some reply,
        { o with
          link := (o.link.answer c).2
          metrics := o.metrics.countAnswer c.batch (o.link.answer c).1 }, b⟩

theorem effect_beginFlush {a a' : Accumulator κ} {o : Outlet} {who : κ} {call : BatchCall}
    {rest : List (κ × BatchCall)} (turn : a.turn = (who, call) :: rest) (idle : a.flushing = none)
    (hturn : a'.turn = a.turn) (hrecords : a'.records = a.records ++ call.offered?.toList) :
    Effect a o who (a'.beginFlush o) := by
  by_cases he : a'.records = []
  · have hp : a'.beginFlush o
        = ⟨some (.outcome .empty), o, { a' with deadline := none }.pass⟩ := by
      simp [beginFlush, settled, he]
    rw [hp]
    exact .settled turn idle (by simp [pass, hturn, turn]) rfl hrecords fun _ => he
  · have hp : a'.beginFlush o = ⟨none, { o with link := (o.link.hand o.now a'.records).2 },
        { a' with
          deadline := none, records := []
          flushing := some (o.link.hand o.now a'.records).1 }⟩ := by
      simp [beginFlush, he]
    rw [hp]
    exact .handed (c := (o.link.hand o.now a'.records).1) turn idle hturn rfl rfl hrecords rfl

theorem records_push (a : Accumulator κ) (now : ℕ) (m : Message) :
    (a.push now m).records = a.records ++ [m] := by
  rw [push]
  split
  · rename_i h
    simp [h]
  · rfl

theorem turn_push (a : Accumulator κ) (now : ℕ) (m : Message) : (a.push now m).turn = a.turn := by
  rw [push]
  split <;> rfl

theorem effect_serve {a : Accumulator κ} {o : Outlet} {who : κ} {call : BatchCall}
    {rest : List (κ × BatchCall)} (turn : a.turn = (who, call) :: rest)
    (idle : a.flushing = none) : Effect a o who (a.serve o call) := by
  cases call with
  | offer m =>
    rw [serve]
    split
    · exact effect_beginFlush turn idle (turn_push a o.now m) (records_push a o.now m)
    · refine .settled turn idle ?_ rfl (records_push a o.now m) fun h => by cases h
      rw [pass, turn_push, turn, List.tail_cons]
  | tick =>
    rw [serve]
    split
    · exact effect_beginFlush turn idle rfl (by simp)
    · exact .settled turn idle (by simp [pass, turn]) rfl (by simp [pass]) fun h => by cases h
  | flush => exact effect_beginFlush turn idle rfl (by simp)
  | deadline =>
    exact .settled turn idle (by simp [pass, turn]) rfl (by simp [pass]) fun h => by cases h

/-- Everything that a step of a caller can do. -/
theorem effect_of_step? [DecidableEq κ] {a : Accumulator κ} {o : Outlet} {who : κ}
    {p : Progress κ} (h : a.step? o who = some p) : Effect a o who p := by
  rw [step?] at h
  cases hturn : a.turn with
  | nil => simp [hturn] at h
  | cons e rest =>
    obtain ⟨head, call⟩ := e
    by_cases hw : head = who
    · subst hw
      cases hf : a.flushing with
      | none =>
        simp only [hturn, hf, List.head?_cons, ne_eq, not_true, if_false, Option.some.injEq] at h
        subst h
        exact effect_serve hturn hf
      | some c =>
        simp only [hturn, hf, List.head?_cons, ne_eq, not_true, if_false] at h
        split at h
        · rename_i hdue
          cases h
          rw [endFlush_eq]
          exact .answered hturn hf hdue (by simp [pass, hturn]) rfl rfl
        · cases h
    · simp [hturn, hw] at h

/-! ### What a step keeps -/

variable {a : Accumulator κ} {o : Outlet} {who : κ} {p : Progress κ}

theorem sound_of_idle {b : Accumulator κ} (h : b.flushing = none) : b.Sound := by
  constructor <;> intro hf <;> simp [h] at hf

theorem Effect.sound (h : Effect a o who p) : p.batch.Sound := by
  cases h with
  | settled turn idle passed free => exact sound_of_idle free
  | handed turn idle kept flushing records =>
    refine ⟨fun _ => ?_, fun _ => records⟩
    rw [kept, turn]
    exact List.cons_ne_nil _ _
  | answered turn flushing due passed free => exact sound_of_idle free

/-- The call that has its turn in the next step. -/
def next (a : Accumulator κ) : List (κ × BatchCall) :=
  if a.flushing.isSome then [] else a.turn.take 1

/-- The messages that the next step adds to the batch. -/
def served (a : Accumulator κ) : List Message := a.next.filterMap (·.2.offered?)

theorem next_of_idle {a : Accumulator κ} {e : κ × BatchCall} {rest : List (κ × BatchCall)}
    (idle : a.flushing = none) (turn : a.turn = e :: rest) : a.next = [e] := by
  simp [next, idle, turn]

theorem next_of_flushing {a : Accumulator κ} {c : StoreCall} (flushing : a.flushing = some c) :
    a.next = [] := by
  simp [next, flushing]

/-- The caller has the turn, and keeps it until it has been answered. -/
theorem Effect.turn (h : Effect a o who p) : ∃ call rest, a.turn = (who, call) :: rest ∧
    p.batch.turn = if p.reply.isSome then rest else (who, call) :: rest := by
  cases h with
  | settled turn idle passed | answered turn flushing due passed => exact ⟨_, _, turn, passed⟩
  | handed turn idle kept => exact ⟨_, _, turn, kept.trans turn⟩

theorem Effect.fst_of_mem_next (h : Effect a o who p) {e : κ × BatchCall} (he : e ∈ a.next) :
    e.1 = who := by
  obtain ⟨call, rest, hturn, -⟩ := h.turn
  rw [next, hturn] at he
  split at he
  · cases he
  · rw [List.mem_singleton.mp he]

theorem Effect.unserved_eq_tail (h : Effect a o who p) : p.batch.unserved = a.turn.tail := by
  cases h with
  | settled turn idle passed free | answered turn flushing due passed free =>
    rw [unserved_of_idle free, passed, turn, List.tail_cons]
  | handed turn idle kept flushing => rw [unserved_of_flushing flushing, kept]

/-- A call leaves those that have not had their turn when it is served. -/
theorem Effect.unserved (h : Effect a o who p) : a.unserved = a.next ++ p.batch.unserved := by
  rw [h.unserved_eq_tail]
  obtain ⟨call, rest, hturn, -⟩ := h.turn
  cases hflushing : a.flushing with
  | none => rw [next_of_idle hflushing hturn, unserved_of_idle hflushing, hturn]; rfl
  | some c => rw [next_of_flushing hflushing, unserved_of_flushing hflushing]; rfl

/-- **Nothing is lost.** What a step hands over and leaves in the batch was in the batch or has been
added to it by the step, in the same order. -/
theorem Effect.handed_append (h : Effect a o who p) :
    ∃ batches, p.outlet.link.handed = o.link.handed ++ batches ∧
      batches.flatten ++ p.batch.records = a.records ++ a.served := by
  cases h with
  | @settled call _ _ _ turn idle passed free records =>
    refine ⟨[], (List.append_nil _).symm, ?_⟩
    rw [served, next_of_idle idle turn, records]
    cases hc : call.offered? <;> simp [hc]
  | @handed call _ c _ turn idle kept flushing records batch =>
    refine ⟨[_], rfl, ?_⟩
    rw [served, next_of_idle idle turn, records, batch]
    cases hc : call.offered? <;> simp [hc]
  | answered turn flushing due passed free records =>
    refine ⟨[], ?_, ?_⟩
    · simp only [StoreLink.answer, List.append_nil]
      split <;> rfl
    · rw [served, next_of_flushing flushing, records]
      simp

/-- A step begins a call to the store, ends it, or leaves the link alone. -/
theorem Effect.use (h : Effect a o who p) :
    o.link.Use a.flushing p.outlet.link p.batch.flushing := by
  cases h with
  | settled turn idle passed free =>
    rw [idle, free]
    exact .none none
  | @handed call rest c b turn idle kept flushing records batch begun =>
    have hbegun := StoreLink.Use.hand (l := o.link) o.now c.batch
    rw [← begun] at hbegun
    rw [idle, flushing]
    exact hbegun
  | @answered call rest c reply b turn flushing due passed free =>
    rw [flushing, free]
    exact .answer c

/-- A step of a caller counts nothing about records. -/
theorem Effect.metrics (h : Effect a o who p) : p.outlet.metrics.received = o.metrics.received ∧
    p.outlet.metrics.decodeErrors = o.metrics.decodeErrors := by
  cases h <;> exact ⟨rfl, rfl⟩

end Accumulator

/-! ### What a timer does -/

namespace FlushTimer

variable {κ : Type}

/-- The call that a timer has in the queue. -/
def call? : FlushTimer → Option BatchCall
  | .asking => some .deadline
  | .ticking => some .tick
  | _ => none

/-- What a step of a timer can do: put a call into the queue, take a step of its call, take the
last step of its call and perhaps put the next one into the queue, or stop. -/
inductive Effect (t : FlushTimer) (me : κ) (a : Accumulator κ) (o : Outlet) : Progress κ → Prop
  | asks {t' : FlushTimer} {call : BatchCall} {signal : Bool} (quiet : t.call? = none)
      (running : t ≠ .stopped) (calling : t'.call? = some call) :
      Effect t me a o ⟨t', o, { a with signal := signal }.ask me call⟩
  | waits {o' : Outlet} {b : Accumulator κ} (effect : a.Effect o me ⟨none, o', b⟩)
      (calling : t.call?.isSome) : Effect t me a o ⟨t, o', b⟩
  | told {t' : FlushTimer} {reply : BatchReply} {o' : Outlet} {b : Accumulator κ}
      (effect : a.Effect o me ⟨some reply, o', b⟩) (quiet : t'.call? = none) :
      Effect t me a o ⟨t', o', b⟩
  | again {t' : FlushTimer} {call : BatchCall} {reply : BatchReply} {o' : Outlet}
      {b : Accumulator κ} (effect : a.Effect o me ⟨some reply, o', b⟩)
      (calling : t'.call? = some call) : Effect t me a o ⟨t', o', b.ask me call⟩
  | stops (quiet : t.call? = none) : Effect t me a o ⟨.stopped, o, a⟩

/-- Everything that a step of a timer can do. -/
theorem effect_of_step? [DecidableEq κ] {t : FlushTimer} {cancelled : Bool} {me : κ}
    {a : Accumulator κ} {o : Outlet} {p : Progress κ} (h : t.step? cancelled me a o = some p) :
    Effect t me a o p := by
  cases t with
  | fresh =>
    cases h
    exact .asks rfl (by simp) rfl
  | asking =>
    obtain ⟨⟨reply, o', b⟩, hp, rfl⟩ := Option.map_eq_some_iff.mp h
    have he := Accumulator.effect_of_step? hp
    cases reply with
    | none => exact .waits he rfl
    | some reply =>
      refine .told he ?_
      simp only [Option.map_some, Option.getD_some, afterReply]
      split <;> rfl
  | sleeping wake =>
    simp only [step?] at h
    split at h
    · cases h
      exact .stops rfl
    · split at h
      · cases h
        exact .asks rfl (by simp) rfl
      · cases h
  | ticking =>
    obtain ⟨⟨reply, o', b⟩, hp, rfl⟩ := Option.map_eq_some_iff.mp h
    have he := Accumulator.effect_of_step? hp
    cases reply with
    | none => exact .waits he rfl
    | some reply => exact .again he rfl
  | waiting =>
    simp only [step?] at h
    split at h
    · cases h
      exact .stops rfl
    · split at h
      · cases h
        exact .asks rfl (by simp) rfl
      · cases h
  | stopped => cases h

theorem Effect.handed_append {t : FlushTimer} {me : κ} {a : Accumulator κ} {o : Outlet}
    {p : Progress κ} (h : Effect t me a o p) :
    ∃ batches, p.outlet.link.handed = o.link.handed ++ batches := by
  cases h with
  | asks | stops => exact ⟨[], (List.append_nil _).symm⟩
  | waits effect | told effect | again effect =>
    obtain ⟨batches, hlink, -⟩ := effect.handed_append
    exact ⟨batches, hlink⟩

theorem Effect.use {t : FlushTimer} {me : κ} {a : Accumulator κ} {o : Outlet} {p : Progress κ}
    (h : Effect t me a o p) : o.link.Use a.flushing p.outlet.link p.batch.flushing := by
  cases h with
  | asks | stops => exact .none a.flushing
  | waits effect | told effect | again effect => exact effect.use

theorem Effect.metrics {t : FlushTimer} {me : κ} {a : Accumulator κ} {o : Outlet}
    {p : Progress κ} (h : Effect t me a o p) : p.outlet.metrics.received = o.metrics.received ∧
      p.outlet.metrics.decodeErrors = o.metrics.decodeErrors := by
  cases h with
  | asks | stops => exact ⟨rfl, rfl⟩
  | waits effect | told effect | again effect => exact effect.metrics

end FlushTimer

end SmsRelay
