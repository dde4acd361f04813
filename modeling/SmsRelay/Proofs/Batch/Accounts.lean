import Mathlib.Algebra.GroupWithZero.Nat
import SmsRelay.Proofs.Batch.Conservation

/-!
# What is in an accumulator, and what is counted

A message that has been offered is in the accumulator until the store has answered for it: its call
waits for its turn, or it is in the batch under construction, or in the batch on its way. It leaves
with the answer, and only then do the counters change.

## Main results

* `Accumulator.Effect.held`, `FlushTimer.Effect.held`: what leaves is the batch that is answered.
* `Accumulator.Effect.metrics_eq`, `FlushTimer.Effect.metrics_eq`: it is counted.
* `Outlet.counts_of_through`: what is counted is what the store did.
-/

namespace SmsRelay

/-- The call to the store that has ended when `before` was under way and now `after` is. -/
def StoreCall.ended? : Option StoreCall → Option StoreCall → Option StoreCall
  | some c, none => some c
  | _, _ => none

@[simp] theorem StoreCall.ended?_self (c : Option StoreCall) : ended? c c = none := by
  cases c <;> rfl

/-- The counters when a call to the store, if any, has been answered. -/
def Outlet.counted (o : Outlet) : Option StoreCall → Metrics
  | none => o.metrics
  | some c => o.metrics.countAnswer c.batch (o.link.answer c).1

/-! ### An accumulator -/

namespace Accumulator

variable {κ : Type} {a : Accumulator κ} {o : Outlet} {who : κ} {p : Progress κ}

/-- The messages in an accumulator in the order in which they came: those of the batch on its way,
those of the batch under construction, those whose offers wait for their turn. -/
def held (a : Accumulator κ) : List Message :=
  a.flushing.toList.flatMap (·.batch) ++ a.records ++ a.unserved.filterMap (·.2.offered?)

theorem held_ask (hs : a.Sound) (who : κ) (call : BatchCall) :
    (a.ask who call).held = a.held ++ call.offered?.toList := by
  rw [held, hs.unserved_ask, List.filterMap_append, ← List.append_assoc]
  cases call <;> rfl

/-- An accumulator in which nothing is left. -/
theorem held_of_empty (hrecords : a.records = []) (hturn : a.turn = []) (hs : a.Sound) :
    a.held = [] := by
  have hflushing : a.flushing = none :=
    Option.not_isSome_iff_eq_none.mp fun hf => hs.waits hf hturn
  rw [held, unserved_of_idle hflushing, hflushing, hrecords, hturn]
  rfl

/-- **What leaves** in a step is the batch that is answered. -/
theorem Effect.held (h : Effect a o who p) :
    a.held = (StoreCall.ended? a.flushing p.batch.flushing).toList.flatMap (·.batch)
      ++ p.batch.held := by
  have hunserved := h.unserved
  cases h with
  | @settled call rest reply b turn idle passed free records =>
    rw [Accumulator.held, Accumulator.held, hunserved, next_of_idle idle turn, idle, free, records]
    cases hc : call.offered? <;> simp [StoreCall.ended?, hc]
  | @handed call rest c b turn idle kept flushing records batch =>
    rw [Accumulator.held, Accumulator.held, hunserved, next_of_idle idle turn, idle, flushing,
      records]
    cases hc : call.offered? <;> simp [StoreCall.ended?, hc, batch]
  | answered turn flushing due passed free records =>
    rw [Accumulator.held, Accumulator.held, hunserved, next_of_flushing flushing, flushing, free,
      records]
    simp [StoreCall.ended?]

/-- **An answer is counted**, and nothing else. -/
theorem Effect.metrics_eq (h : Effect a o who p) :
    p.outlet.metrics = o.counted (StoreCall.ended? a.flushing p.batch.flushing) := by
  cases h with
  | settled turn idle passed free =>
    rw [idle, free]
    rfl
  | handed turn idle kept flushing =>
    rw [idle, flushing]
    rfl
  | answered turn flushing due passed free =>
    rw [flushing, free]
    rfl

end Accumulator

/-! ### Its timer -/

namespace FlushTimer

variable {κ : Type} {t : FlushTimer} {me : κ} {a : Accumulator κ} {o : Outlet} {p : Progress κ}

/-- A timer offers nothing. -/
theorem offered?_call? {call : BatchCall} (h : t.call? = some call) : call.offered? = none := by
  cases t <;> cases h <;> rfl

theorem Effect.held (h : Effect t me a o p) (hs : a.Sound) :
    a.held = (StoreCall.ended? a.flushing p.batch.flushing).toList.flatMap (·.batch)
      ++ p.batch.held := by
  cases h with
  | @asks t' call signal quiet running calling =>
    have hs' : Accumulator.Sound { a with signal := signal } := ⟨hs.waits, hs.emptied⟩
    have hask := Accumulator.held_ask hs' me call
    rw [offered?_call? calling, Option.toList_none, List.append_nil] at hask
    have hended : StoreCall.ended? a.flushing ({ a with signal := signal }.ask me call).flushing
        = none := StoreCall.ended?_self _
    rw [hask, hended]
    rfl
  | waits effect | told effect => exact effect.held
  | @again t' call reply o' b effect calling =>
    have hask := Accumulator.held_ask effect.sound me call
    rw [offered?_call? calling, Option.toList_none, List.append_nil] at hask
    have heffect := effect.held
    rw [← hask] at heffect
    exact heffect
  | stops =>
    rw [StoreCall.ended?_self]
    rfl

theorem Effect.metrics_eq (h : Effect t me a o p) :
    p.outlet.metrics = o.counted (StoreCall.ended? a.flushing p.batch.flushing) := by
  cases h with
  | @asks t' call signal =>
    have hended : StoreCall.ended? a.flushing ({ a with signal := signal }.ask me call).flushing
        = none := StoreCall.ended?_self _
    rw [hended]
    rfl
  | waits effect | told effect | again effect => exact effect.metrics_eq
  | stops =>
    rw [StoreCall.ended?_self]
    rfl

end FlushTimer

/-! ### What the store did -/

/-- A batch that comes to a store. -/
structure Insertion where
  store : Store
  batch : List Message

namespace Insertion

/-- The messages that are added to the store. -/
def added (x : Insertion) : List Message := x.store.added x.batch

/-- The messages that are turned away because their correlation ids are taken. -/
def known (x : Insertion) : List Message := x.store.known x.batch

/-- No message fails to be written. -/
def Whole (x : Insertion) : Prop := x.store.Withstands x.batch

end Insertion

/-- The batches that come to the store when a call to it ends. -/
def Outlet.insertions (o : Outlet) (c : Option StoreCall) : List Insertion :=
  c.toList.map fun c => ⟨o.link.store, c.batch⟩

/-- The calls under way go to the store. -/
def StoreCall.IsThrough (c : Option StoreCall) : Prop := ∀ x, c = some x → x.mode = .through

theorem StoreLink.Use.isThrough {l l' : StoreLink} {c c' : Option StoreCall} (h : l.Use c l' c')
    (hmode : l.mode = .through) (hc : StoreCall.IsThrough c) : StoreCall.IsThrough c' := by
  cases h with
  | none => exact hc
  | hand now batch =>
    intro x hx
    cases hx
    exact hmode
  | answer c => exact nofun

theorem StoreLink.Use.mode {l l' : StoreLink} {c c' : Option StoreCall} (h : l.Use c l' c') :
    l'.mode = l.mode := by
  cases h with
  | none | hand => rfl
  | answer c =>
    show (StoreLink.answer l c).2.mode = l.mode
    rw [StoreLink.answer]
    split <;> rfl

/-- The store changes by what comes to it and by nothing else. -/
theorem StoreLink.Use.store {o : Outlet} {l' : StoreLink} {c c' : Option StoreCall}
    (h : o.link.Use c l' c') (hc : StoreCall.IsThrough c) : l'.store =
      (o.insertions (StoreCall.ended? c c')).foldl (fun s x => (s.insertBatch x.batch).2)
        o.link.store := by
  cases h with
  | none c =>
    rw [StoreCall.ended?_self]
    rfl
  | hand => rfl
  | answer c =>
    show (StoreLink.answer o.link c).2.store = (o.link.store.insertBatch c.batch).2
    rw [StoreLink.answer, hc c rfl]

/-- What has been counted of batches that came to the store. -/
structure Counts (xs : List Insertion) (m m' : Metrics) : Prop where
  received : m'.received = m.received
  decoded : m'.decoded = m.decoded
  decodeErrors : m'.decodeErrors = m.decodeErrors
  written : m'.written = m.written + (xs.map (·.added.length)).sum
  duplicates : (∀ x ∈ xs, x.Whole) →
    m'.duplicates = m.duplicates + (xs.map (·.known.length)).sum
  total : m'.written + m'.duplicates + m'.lost
    = m.written + m.duplicates + m.lost + (xs.map (·.batch.length)).sum

/-- **What is counted** is what the store did. -/
theorem Outlet.counts_of_through (o : Outlet) {c : Option StoreCall}
    (h : StoreCall.IsThrough c) : Counts (o.insertions c) o.metrics (o.counted c) := by
  cases c with
  | none => exact ⟨rfl, rfl, rfl, rfl, fun _ => rfl, rfl⟩
  | some c =>
    have hanswer : (o.link.answer c).1 = (o.link.store.insertBatch c.batch).1 := by
      rw [StoreLink.answer, h c rfl]
    have hle := o.link.store.counted_insertBatch_le c.batch
    have hwritten := o.link.store.counted_insertBatch c.batch
    have hbalance := o.metrics.flushed_balance hle
    rw [Outlet.counted, Metrics.countAnswer, hanswer]
    refine ⟨rfl, rfl, rfl, ?_, fun hwhole => ?_, hbalance⟩
    · show o.metrics.written + _ = o.metrics.written + (o.link.store.added c.batch).length
      rw [hwritten]
    · have hwhole : o.link.store.Withstands c.batch := hwhole _ List.mem_cons_self
      show o.metrics.duplicates + _ = o.metrics.duplicates + (o.link.store.known c.batch).length
      rw [hwhole.counted_insertBatch]

end SmsRelay
