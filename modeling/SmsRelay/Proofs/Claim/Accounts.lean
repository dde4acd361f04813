import SmsRelay.Proofs.Batch.Accounts
import SmsRelay.Proofs.Claim.Conservation

/-!
# What a claim worker counts

A record that has been received counts as decoded or as a decode error when its task has looked at
it. A message that has been decoded is in the accumulator of the worker until the store has
answered, and then counts as written, as a duplicate or as lost.

## Main results

* `ClaimWorker.Effect.turnover`: a move changes the counters as much as what is under way.
* `ClaimWorker.Effect.store`: what a move does to the store is what the counted batches do.
-/

namespace SmsRelay

namespace ClaimWorker

/-- How many tasks have not looked at their records yet. -/
def started (w : ClaimWorker) : ℕ := w.tasks.countP (·.phase = .fresh)

/-- The call to the store that ends in a move from `w` to `w'`. -/
def ended? (w w' : ClaimWorker) : Option StoreCall :=
  StoreCall.ended? w.batch.flushing w'.batch.flushing

/-- What a move changes in a worker and in the counters, when `xs` are the batches that come to the
store in it. -/
structure Turnover (xs : List Insertion) (w w' : ClaimWorker) (m m' : Metrics) : Prop where
  started : m'.received + (m.decoded + m.decodeErrors + w.started)
    = m.received + (m'.decoded + m'.decodeErrors + w'.started)
  held : m'.decoded + (m.written + m.duplicates + m.lost + w.batch.held.length)
    = m.decoded + (m'.written + m'.duplicates + m'.lost + w'.batch.held.length)
  written : m'.written = m.written + (xs.map (·.added.length)).sum
  duplicates : (∀ x ∈ xs, x.Whole) →
    m'.duplicates = m.duplicates + (xs.map (·.known.length)).sum

/-- The tasks that have not looked at their records, when one task goes on. -/
theorem started_setPhase {w : ClaimWorker} (hw : w.Slotted) {offset : ℕ} {t : RecordTask}
    (task : w.task? offset = some t) (phase : TaskPhase) :
    (w.setPhase offset phase).started + (if t.phase = .fresh then 1 else 0)
      = w.started + if phase = .fresh then 1 else 0 := by
  obtain ⟨before, after, hsplit, -, hset, -⟩ := tasks_split hw.nodup task
  rw [started, started, hset, hsplit]
  simp only [List.countP_append, List.countP_cons, decide_eq_true_eq]
  omega

theorem started_filter {w : ClaimWorker} (hw : w.Slotted) {offset : ℕ} {t : RecordTask}
    (task : w.task? offset = some t) (phase : t.phase ≠ .fresh) :
    (w.tasks.filter (·.record.offset ≠ offset)).countP (·.phase = .fresh) = w.started := by
  obtain ⟨before, after, hsplit, -, -, hfilter⟩ := tasks_split hw.nodup task
  rw [started, hfilter, hsplit]
  simp [phase]

theorem sum_length_insertions (o : Outlet) (c : Option StoreCall) :
    ((o.insertions c).map (·.batch.length)).sum = (c.toList.flatMap (·.batch)).length := by
  cases c <;> simp [Outlet.insertions]

variable {w w' : ClaimWorker} {s s' : Site}

/-- A step at the accumulator. -/
theorem turnover_of_counts {o : Outlet} (through : StoreCall.IsThrough w.batch.flushing)
    (started : w'.started = w.started)
    (held : w.batch.held = (w.ended? w').toList.flatMap (·.batch) ++ w'.batch.held)
    (metrics : o.metrics = s.toOutlet.counted (w.ended? w')) :
    Turnover (s.toOutlet.insertions (w.ended? w')) w w' s.metrics o.metrics := by
  have hthrough : StoreCall.IsThrough (w.ended? w') := by
    intro x hx
    refine through x ?_
    rw [ended?] at hx
    cases hw : w.batch.flushing <;> cases hw' : w'.batch.flushing <;>
      rw [hw, hw'] at hx <;> cases hx
    rfl
  have hcounts := s.toOutlet.counts_of_through hthrough
  rw [← metrics] at hcounts
  have htotal := hcounts.total
  rw [sum_length_insertions] at htotal
  refine ⟨?_, ?_, hcounts.written, hcounts.duplicates⟩
  · rw [hcounts.received, hcounts.decoded, hcounts.decodeErrors, started]
  · rw [hcounts.decoded, held, List.length_append]
    omega

/-- A move that is nothing to the store. -/
theorem turnover_of_quiet {m : Metrics} (ended : w.ended? w' = none)
    (started : m.received + (s.metrics.decoded + s.metrics.decodeErrors + w.started)
      = s.metrics.received + (m.decoded + m.decodeErrors + w'.started))
    (held : m.decoded + w.batch.held.length = s.metrics.decoded + w'.batch.held.length)
    (written : m.written = s.metrics.written) (duplicates : m.duplicates = s.metrics.duplicates)
    (lost : m.lost = s.metrics.lost) :
    Turnover (s.toOutlet.insertions (w.ended? w')) w w' s.metrics m := by
  rw [ended]
  refine ⟨started, ?_, written, fun _ => duplicates⟩
  rw [written, duplicates, lost]
  omega

/-- **A move** changes the counters as much as what is under way. -/
theorem Effect.turnover {cancelled : Bool} {ds : List Deed}
    (h : Effect w cancelled s ds s' w') (hw : w.Sound)
    (through : StoreCall.IsThrough w.batch.flushing) :
    Turnover (s.toOutlet.insertions (w.ended? w')) w w' s.metrics s'.metrics := by
  cases h with
  | stop | read | queue | drained =>
    exact turnover_of_quiet (StoreCall.ended?_self _) rfl rfl rfl rfl rfl
  | start current took =>
    refine turnover_of_quiet (StoreCall.ended?_self _) ?_ rfl rfl rfl rfl
    simp [started, Metrics.countReceived, List.countP_append]
    omega
  | lastFlush phase timer =>
    refine turnover_of_quiet (StoreCall.ended?_self _) rfl ?_ rfl rfl rfl
    rw [Accumulator.held_ask hw.queued.batch, BatchCall.offered?_flush, Option.toList_none,
      List.append_nil]
  | flush phase effect => exact turnover_of_counts through rfl effect.held effect.metrics_eq
  | @decode t m task phase decoded =>
    have hstarted : (w.setPhase t.record.offset .offering).started + 1 = w.started := by
      have hset := started_setPhase hw.slotted task .offering
      rwa [phase, if_pos rfl, if_neg (by decide)] at hset
    refine turnover_of_quiet (StoreCall.ended?_self _) ?_ ?_ rfl rfl rfl
    · show _ = s.metrics.received + (s.metrics.decoded + 1 + s.metrics.decodeErrors
        + (w.setPhase t.record.offset .offering).started)
      rw [← hstarted]
      show s.metrics.received + _ = _
      omega
    · show s.metrics.decoded + 1 + w.batch.held.length
        = s.metrics.decoded + (w.batch.ask (.task t.record.offset) (.offer m)).held.length
      rw [Accumulator.held_ask hw.queued.batch, List.length_append]
      show _ = _ + (_ + 1)
      omega
  | @drop t e task phase refused =>
    have hstarted : (w.setPhase t.record.offset .handled).started + 1 = w.started := by
      have hset := started_setPhase hw.slotted task .handled
      rwa [phase, if_pos rfl, if_neg (by decide)] at hset
    refine turnover_of_quiet (StoreCall.ended?_self _) ?_ rfl rfl rfl rfl
    rw [← hstarted]
    show s.metrics.received + _ = s.metrics.received + (s.metrics.decoded
      + (s.metrics.decodeErrors + 1) + _)
    omega
  | @offer t reply o b batches task phase effect handed =>
    cases reply with
    | none => exact turnover_of_counts through rfl effect.held effect.metrics_eq
    | some reply =>
      have hset := started_setPhase hw.slotted task .handled
      rw [phase, if_neg (by decide), if_neg (by decide)] at hset
      exact turnover_of_counts through hset effect.held effect.metrics_eq
  | @finish t task phase =>
    have hstarted := started_filter hw.slotted task (by rw [phase]; decide)
    refine turnover_of_quiet (StoreCall.ended?_self _) ?_ rfl rfl rfl rfl
    rw [← hstarted]
    rfl
  | tick effect handed =>
    exact turnover_of_counts through rfl (effect.held hw.queued.batch) effect.metrics_eq

/-- What a move does to the store is done by the batches that come to it. -/
theorem Effect.store {cancelled : Bool} {ds : List Deed} (h : Effect w cancelled s ds s' w')
    (through : StoreCall.IsThrough w.batch.flushing) : s'.link.store =
      (s.toOutlet.insertions (w.ended? w')).foldl (fun s x => (s.insertBatch x.batch).2)
        s.link.store :=
  h.use.store (o := s.toOutlet) through

end ClaimWorker

end SmsRelay
