import SmsRelay.Proofs.Claim.Soundness

/-!
# What becomes of the records of a claim

A record that has a slot is decided once, dropped or offered; the messages of the offered records
are handed over in the order of the offers; each offset is marked once.

## Main results

* `Effect.undecided`: a record that has a slot is dropped or offered once.
* `Effect.handed`: batches take the messages of the offered records in order.
* `Effect.offsets`: an offset that has a slot is marked once.
* `Effect.accounts`: the deeds of a move say what it does to the counters, the link and the log.
* `Effect.use`: calls to the store begin and end one after the other.
-/

namespace SmsRelay

namespace ClaimWorker

/-- The task has not yet dropped its record, and its offer has not had its turn. -/
def isUndecided (b : Accumulator WorkCaller) (t : RecordTask) : Bool :=
  t.phase = .fresh ∨ t.phase = .offering ∧ .task t.record.offset ∈ b.unserved.map Prod.fst

/-- The records that have a slot and have been neither dropped nor offered. -/
def undecided (w : ClaimWorker) : List Record :=
  (w.tasks.filter (isUndecided w.batch)).map (·.record)

/-- A worker that has finished has nothing left. -/
theorem Sound.nothing_left {w : ClaimWorker} (hw : w.Sound) (h : w.isFinished) :
    w.undecided = [] ∧ w.batch.records = [] ∧ w.batch.flushing = none := by
  have hstage := stage_of_finished h
  have htasks : w.tasks = [] := hw.staged.tasks (by omega)
  have hturn : w.batch.turn = [] := hw.staged.turn (by omega)
  refine ⟨by rw [undecided, htasks]; rfl, hw.staged.records (by omega), ?_⟩
  by_contra hflushing
  exact hw.queued.batch.waits (Option.isSome_iff_ne_none.mpr hflushing) hturn

/-- The messages of some records. -/
def messages (rs : List Record) : List Message := rs.filterMap (·.message?)

/-! ### Decisions -/

/-- Calls of others do not decide about a task. -/
theorem isUndecided_congr {b b' : Accumulator WorkCaller} {t : RecordTask}
    (h : .task t.record.offset ∈ b'.unserved.map Prod.fst ↔
      .task t.record.offset ∈ b.unserved.map Prod.fst) : isUndecided b' t = isUndecided b t := by
  simp only [isUndecided, h]

theorem undecided_congr {w w' : ClaimWorker} (htasks : w'.tasks = w.tasks)
    (h : ∀ offset, .task offset ∈ w'.batch.unserved.map Prod.fst ↔
      .task offset ∈ w.batch.unserved.map Prod.fst) : w'.undecided = w.undecided := by
  rw [undecided, undecided, htasks]
  refine congrArg _ (List.filter_congr fun t _ => ?_)
  exact isUndecided_congr (h _)

/-- One that joins the queue is the only one to gain a turn. -/
theorem mem_unserved_ask {b : Accumulator WorkCaller} (hb : b.Sound) {who : WorkCaller}
    {call : BatchCall} {k : WorkCaller} (hne : k ≠ who) :
    k ∈ (b.ask who call).unserved.map Prod.fst ↔ k ∈ b.unserved.map Prod.fst := by
  rw [hb.unserved_ask, List.map_append, List.mem_append]
  simp [hne]

/-- One that takes a step is the only one to use up its turn. -/
theorem mem_unserved_of_effect {b b' : Accumulator WorkCaller} {o o' : Outlet} {who : WorkCaller}
    {reply : Option BatchReply} (heffect : b.Effect o who ⟨reply, o', b'⟩) {k : WorkCaller}
    (hne : k ≠ who) : k ∈ b'.unserved.map Prod.fst ↔ k ∈ b.unserved.map Prod.fst := by
  have hunserved : b.unserved = b.next ++ b'.unserved := heffect.unserved
  have hnext : k ∉ b.next.map Prod.fst := by
    intro hk
    obtain ⟨e, he, rfl⟩ := List.mem_map.mp hk
    exact hne (heffect.fst_of_mem_next he)
  rw [hunserved, List.map_append, List.mem_append, or_iff_right hnext]

theorem mem_unserved_of_tick {b : Accumulator WorkCaller} (hb : b.Sound) {t : FlushTimer}
    {o : Outlet} {p : FlushTimer.Progress WorkCaller} (heffect : t.Effect .timer b o p)
    {k : WorkCaller} (hne : k ≠ .timer) :
    k ∈ p.batch.unserved.map Prod.fst ↔ k ∈ b.unserved.map Prod.fst := by
  cases heffect with
  | asks =>
    exact mem_unserved_ask (b := { b with signal := _ }) ⟨hb.waits, hb.emptied⟩ hne
  | waits effect | told effect => exact mem_unserved_of_effect effect hne
  | again effect =>
    rw [mem_unserved_ask effect.sound hne]
    exact mem_unserved_of_effect effect hne
  | stops => rfl

/-- What changes when one task goes on and the others are not decided about. -/
theorem undecided_split {w : ClaimWorker} (w' : ClaimWorker) (decided : List Record)
    {before after rest : List RecordTask} {t : RecordTask} (hw : w.tasks = before ++ t :: after)
    (hw' : w'.tasks = before ++ rest ++ after)
    (hothers : ∀ u ∈ before ++ after, isUndecided w'.batch u = isUndecided w.batch u)
    (h : ([t].filter (isUndecided w.batch)).map (·.record)
      = decided ++ (rest.filter (isUndecided w'.batch)).map (·.record)) :
    w.undecided.Perm (decided ++ w'.undecided) := by
  have hbefore : before.filter (isUndecided w'.batch) = before.filter (isUndecided w.batch) :=
    List.filter_congr fun u hu => hothers u (List.mem_append_left _ hu)
  have hafter : after.filter (isUndecided w'.batch) = after.filter (isUndecided w.batch) :=
    List.filter_congr fun u hu => hothers u (List.mem_append_right _ hu)
  rw [undecided, undecided, hw, hw', ← List.singleton_append]
  simp only [List.filter_append, List.map_append, hbefore, hafter, h]
  rw [List.perm_iff_count]
  intro r
  simp only [List.count_append]
  omega

/-- The task that has the turn is undecided until it is served, and then no more. -/
theorem isUndecided_turn {w : ClaimWorker} (hw : w.Queued) {t : RecordTask}
    (hphase : t.phase = .offering) {o o' : Outlet} {reply : Option BatchReply}
    {b : Accumulator WorkCaller}
    (heffect : w.batch.Effect o (.task t.record.offset) ⟨reply, o', b⟩) :
    isUndecided w.batch t = w.batch.flushing.isNone ∧ isUndecided b t = false := by
  have hunserved : w.batch.unserved = w.batch.next ++ b.unserved := heffect.unserved
  have htail : b.unserved = w.batch.turn.tail := heffect.unserved_eq_tail
  obtain ⟨call, rest, hturn, -⟩ := heffect.turn
  have hcallers := hw.callers
  rw [hturn, List.map_cons, List.nodup_cons] at hcallers
  have hlater : .task t.record.offset ∉ b.unserved.map Prod.fst := by
    rw [htail, hturn]
    exact hcallers.1
  constructor
  · cases hflushing : w.batch.flushing with
    | none => simp [isUndecided, hphase, hunserved, Accumulator.next_of_idle hflushing hturn]
    | some c =>
      simpa [isUndecided, hphase, hunserved, Accumulator.next_of_flushing hflushing] using hlater
  · simpa [isUndecided, hphase] using hlater

/-- **Records are decided about once.** -/
theorem Effect.undecided {w w' : ClaimWorker} {cancelled : Bool} {s s' : Site} {ds : List Deed}
    (h : Effect w cancelled s ds s' w') (hw : w.Sound) :
    (w.undecided ++ ds.filterMap Deed.received?).Perm
      (ds.filterMap Deed.dropped? ++ ds.filterMap Deed.offered? ++ w'.undecided) := by
  have hnodup := hw.slotted.nodup
  have hsound := hw.queued.batch
  cases h with
  | stop | read | queue | drained => exact .of_eq (List.append_nil _)
  | @start r p current took =>
    simp [ClaimWorker.undecided, isUndecided, List.filterMap_cons]
  | lastFlush =>
    have hsame : ClaimWorker.undecided { w with
        phase := .flushing, batch := w.batch.ask .drain .flush } = w.undecided :=
      undecided_congr rfl fun offset => mem_unserved_ask hsound (by simp)
    rw [hsame]
    exact .of_eq (List.append_nil _)
  | @flush reply o b batches phase effect handed =>
    have hsame : ClaimWorker.undecided { w with
        batch := b, phase := if reply.isSome then .finished else .flushing } = w.undecided :=
      undecided_congr rfl fun offset => mem_unserved_of_effect effect (by simp)
    rw [hsame, Deed.filterMap_handed (f := Deed.received?) rfl,
      Deed.filterMap_handed (f := Deed.dropped?) rfl,
      Deed.filterMap_handed (f := Deed.offered?) rfl]
    exact .of_eq (List.append_nil _)
  | @decode t m task phase decoded =>
    obtain ⟨before, after, hsplit, hothers, hset, -⟩ := tasks_split hnodup task
    have hask := hsound.unserved_ask (.task t.record.offset) (.offer m)
    have hothers' : ∀ u ∈ before ++ after, isUndecided
        (w.batch.ask (.task t.record.offset) (.offer m)) u = isUndecided w.batch u := fun u hu =>
      isUndecided_congr (mem_unserved_ask hsound fun heq => hothers u hu (WorkCaller.task.inj heq))
    have hturn : isUndecided (w.batch.ask (.task t.record.offset) (.offer m))
        { t with phase := .offering } = true := by
      simp [isUndecided, hask]
    have hperm := undecided_split
      ({ w with batch := w.batch.ask (.task t.record.offset) (.offer m) }.setPhase
        t.record.offset .offering)
      [] hsplit ((hset .offering).trans (List.append_cons _ _ _)) hothers' ?_
    · simpa using hperm
    · have hfresh : isUndecided w.batch t = true := by simp [isUndecided, phase]
      have hbatch : ({ w with batch := w.batch.ask (.task t.record.offset) (.offer m) }.setPhase
        t.record.offset .offering).batch = w.batch.ask (.task t.record.offset) (.offer m) := rfl
      simp [hfresh, hbatch, hturn]
  | @drop t e task phase refused =>
    obtain ⟨before, after, hsplit, hothers, hset, -⟩ := tasks_split hnodup task
    have hperm := undecided_split (w.setPhase t.record.offset .handled) [t.record] hsplit
      ((hset .handled).trans (List.append_cons _ _ _)) (fun u _ => rfl) ?_
    · simpa [List.filterMap_cons] using hperm
    · simp [isUndecided, phase]
  | @offer t reply o b batches task phase effect handed =>
    obtain ⟨before, after, hsplit, hothers, hset, -⟩ := tasks_split hnodup task
    obtain ⟨hbefore, hafter⟩ := isUndecided_turn hw.queued phase effect
    have hothers' : ∀ u ∈ before ++ after, isUndecided b u = isUndecided w.batch u := fun u hu =>
      isUndecided_congr (mem_unserved_of_effect effect fun heq =>
        hothers u hu (WorkCaller.task.inj heq))
    have hperm : w.undecided.Perm ((if w.batch.flushing.isNone then [t.record] else []) ++
        ClaimWorker.undecided (if reply.isSome
          then { w with batch := b }.setPhase t.record.offset .handled
          else { w with batch := b })) := by
      cases reply with
      | none =>
        refine undecided_split { w with batch := b } _ hsplit
          (hsplit.trans (List.append_cons _ _ _)) hothers' ?_
        cases hnone : w.batch.flushing.isNone <;> simp [hbefore, hafter, hnone]
      | some reply =>
        refine undecided_split ({ w with batch := b }.setPhase t.record.offset .handled) _ hsplit
          ((hset .handled).trans (List.append_cons _ _ _)) hothers' ?_
        have hdone : isUndecided b { t with phase := .handled } = false := by simp [isUndecided]
        have hbatch : ({ w with batch := b }.setPhase t.record.offset .handled).batch = b := rfl
        cases hnone : w.batch.flushing.isNone <;> simp [hbefore, hbatch, hdone, hnone]
    simp only [List.filterMap_append, Deed.filterMap_offered (f := Deed.received?) rfl,
      Deed.filterMap_offered (f := Deed.dropped?) rfl, Deed.offered?_offered,
      Deed.filterMap_handed (f := Deed.received?) rfl,
      Deed.filterMap_handed (f := Deed.dropped?) rfl,
      Deed.filterMap_handed (f := Deed.offered?) rfl, List.append_nil, List.nil_append]
    exact hperm
  | @finish t task phase =>
    obtain ⟨before, after, hsplit, hothers, -, hfilter⟩ := tasks_split hnodup task
    have hperm := undecided_split { w with
        pool := w.pool.release t.record.offset
        tasks := w.tasks.filter (·.record.offset ≠ t.record.offset) } [] hsplit
      (show _ = before ++ [] ++ after from hfilter.trans (by simp)) (fun u _ => rfl) ?_
    · simpa [List.filterMap_cons] using hperm
    · simp [isUndecided, phase]
  | @tick p batches effect handed =>
    have hsame : ClaimWorker.undecided { w with timer := p.timer, batch := p.batch }
        = w.undecided :=
      undecided_congr rfl fun offset => mem_unserved_of_tick hsound effect (by simp)
    rw [hsame, Deed.filterMap_handed (f := Deed.received?) rfl,
      Deed.filterMap_handed (f := Deed.dropped?) rfl,
      Deed.filterMap_handed (f := Deed.offered?) rfl]
    exact .of_eq (List.append_nil _)

/-! ### Messages -/

/-- What the task that has the turn adds to the batch is the message of its record. -/
theorem served_task {w : ClaimWorker} (hw : w.Queued) {t : RecordTask}
    (ht : w.task? t.record.offset = some t) (hphase : t.phase = .offering) {o : Outlet}
    {p : Accumulator.Progress WorkCaller}
    (heffect : w.batch.Effect o (.task t.record.offset) p) :
    w.batch.served = messages (if w.batch.flushing.isNone then [t.record] else []) ∧
      t.record.message?.isSome := by
  obtain ⟨call, rest, hturn, -⟩ := heffect.turn
  have hcall := hw.calls (.task t.record.offset, call) (hturn ▸ List.mem_cons_self)
  rw [call?, ht, Option.bind_some, RecordTask.call?, hphase] at hcall
  obtain ⟨m, hm, rfl⟩ := Option.map_eq_some_iff.mp hcall
  refine ⟨?_, by rw [hm]; rfl⟩
  cases hflushing : w.batch.flushing with
  | none =>
    rw [Accumulator.served, Accumulator.next_of_idle hflushing hturn]
    simp [messages, hm]
  | some c =>
    rw [Accumulator.served, Accumulator.next_of_flushing hflushing]
    rfl

/-- The timer and the last flush add nothing to the batch. -/
theorem served_of_ne {w : ClaimWorker} (hw : w.Queued) {o : Outlet} {who : WorkCaller}
    {p : Accumulator.Progress WorkCaller} (heffect : w.batch.Effect o who p)
    (hwho : who = .timer ∨ who = .drain) : w.batch.served = [] := by
  obtain ⟨call, rest, hturn, -⟩ := heffect.turn
  have hcall := hw.calls (who, call) (hturn ▸ List.mem_cons_self)
  have hoffered : call.offered? = none := by
    rcases hwho with rfl | rfl
    · cases htimer : w.timer <;> rw [call?, htimer] at hcall <;> cases hcall <;> rfl
    · rw [call?] at hcall
      split at hcall <;> cases hcall
      rfl
  cases hflushing : w.batch.flushing with
  | none =>
    rw [Accumulator.served, Accumulator.next_of_idle hflushing hturn]
    simp [hoffered]
  | some c =>
    rw [Accumulator.served, Accumulator.next_of_flushing hflushing]
    rfl

/-- What one that has the turn hands over was in the batch or comes into it. -/
theorem handed_of_effect {w : ClaimWorker} {who : WorkCaller} {reply : Option BatchReply}
    {o o' : Outlet} {b : Accumulator WorkCaller} {batches : List (List Message)}
    (heffect : w.batch.Effect o who ⟨reply, o', b⟩)
    (hlink : o'.link.handed = o.link.handed ++ batches) :
    batches.flatten ++ b.records = w.batch.records ++ w.batch.served := by
  obtain ⟨batches', hlink', hrecords⟩ := heffect.handed_append
  obtain rfl : batches' = batches := List.append_cancel_left (hlink'.symm.trans hlink)
  exact hrecords

theorem handed_of_tick {w : ClaimWorker} (hw : w.Queued) {o : Outlet}
    {p : FlushTimer.Progress WorkCaller} {batches : List (List Message)}
    (heffect : w.timer.Effect .timer w.batch o p)
    (hlink : p.outlet.link.handed = o.link.handed ++ batches) :
    batches.flatten ++ p.batch.records = w.batch.records := by
  cases heffect with
  | asks | stops =>
    obtain rfl : batches = [] :=
      List.append_cancel_left (hlink.symm.trans (List.append_nil _).symm)
    rfl
  | waits effect | told effect | again effect =>
    have hhanded := handed_of_effect effect hlink
    rw [served_of_ne hw effect (.inl rfl), List.append_nil] at hhanded
    exact hhanded

/-- **Batches take the messages of the offered records in order.** -/
theorem Effect.handed {w w' : ClaimWorker} {cancelled : Bool} {s s' : Site} {ds : List Deed}
    (h : Effect w cancelled s ds s' w') (hw : w.Queued) :
    w.batch.records ++ messages (ds.filterMap Deed.offered?)
      = (ds.filterMap Deed.handed?).flatten ++ w'.batch.records := by
  cases h with
  | stop | read | queue | start | drained | lastFlush | decode | drop | finish =>
    exact List.append_nil _
  | flush phase effect handed =>
    have hhanded := handed_of_effect effect handed
    rw [served_of_ne hw effect (.inr rfl), List.append_nil] at hhanded
    rw [Deed.filterMap_handed (f := Deed.offered?) rfl, Deed.handed?_handed, hhanded]
    exact List.append_nil _
  | @offer t reply o b batches task phase effect handed =>
    have hhanded := handed_of_effect effect handed
    rw [(served_task hw task phase effect).1] at hhanded
    have hbatch : (if reply.isSome then { w with batch := b }.setPhase t.record.offset .handled
        else { w with batch := b }).batch = b := by
      cases reply <;> rfl
    simp only [List.filterMap_append, Deed.filterMap_offered (f := Deed.handed?) rfl,
      Deed.offered?_offered, Deed.filterMap_handed (f := Deed.offered?) rfl, Deed.handed?_handed,
      List.append_nil, List.nil_append, hbatch, hhanded]
  | tick effect handed =>
    have hhanded := handed_of_tick hw effect handed
    rw [Deed.filterMap_handed (f := Deed.offered?) rfl, Deed.handed?_handed, hhanded]
    exact List.append_nil _

/-- Only what is no message is dropped, and only messages are offered. -/
theorem Effect.message? {w w' : ClaimWorker} {cancelled : Bool} {s s' : Site} {ds : List Deed}
    (h : Effect w cancelled s ds s' w') (hw : w.Queued) :
    (∀ r ∈ ds.filterMap Deed.dropped?, r.message? = none) ∧
      ∀ r ∈ ds.filterMap Deed.offered?, r.message?.isSome := by
  cases h with
  | stop | read | queue | start | drained | lastFlush | decode | finish =>
    simp [List.filterMap_cons]
  | flush | tick => simp
  | @drop t e task phase refused =>
    simp [List.filterMap_cons, Record.message?, refused, Except.toOption]
  | @offer t reply o b batches task phase effect handed =>
    have hmessage := (served_task hw task phase effect).2
    simp only [List.filterMap_append, Deed.filterMap_offered (f := Deed.dropped?) rfl,
      Deed.offered?_offered]
    cases hnone : w.batch.flushing.isNone <;> simp [hmessage]

/-! ### Marks -/

/-- **Offsets are marked once.** -/
theorem Effect.offsets {w w' : ClaimWorker} {cancelled : Bool} {s s' : Site} {ds : List Deed}
    (h : Effect w cancelled s ds s' w') (hw : w.Slotted) :
    (w.offsets ++ (ds.filterMap Deed.received?).map (·.offset)).Perm
      (ds.filterMap Deed.marked? ++ w'.offsets) := by
  cases h with
  | stop | read | queue | drained | lastFlush =>
    simp [ClaimWorker.offsets, stopReceiving, List.filterMap_cons]
  | start => simp [ClaimWorker.offsets, List.filterMap_cons]
  | flush | tick =>
    rw [Deed.filterMap_handed (f := Deed.received?) rfl,
      Deed.filterMap_handed (f := Deed.marked?) rfl]
    exact .of_eq (List.append_nil _)
  | decode | drop =>
    rw [offsets_setPhase]
    simp [ClaimWorker.offsets, List.filterMap_cons]
  | @offer t reply o b batches task phase effect handed =>
    have hoffsets : (if reply.isSome then { w with batch := b }.setPhase t.record.offset .handled
        else { w with batch := b }).offsets = w.offsets := by
      cases reply with
      | none => rfl
      | some => exact offsets_setPhase _ _ _
    simp only [List.filterMap_append, Deed.filterMap_offered (f := Deed.received?) rfl,
      Deed.filterMap_offered (f := Deed.marked?) rfl,
      Deed.filterMap_handed (f := Deed.received?) rfl,
      Deed.filterMap_handed (f := Deed.marked?) rfl, hoffsets]
    exact .of_eq (List.append_nil _)
  | @finish t task phase =>
    obtain ⟨before, after, hsplit, -, -, hfilter⟩ := tasks_split hw.nodup task
    rw [ClaimWorker.offsets, ClaimWorker.offsets, hfilter, hsplit]
    simp [List.filterMap_cons, List.perm_middle]

/-! ### Accounts -/

/-- What the deeds `ds` of a worker with the claim `c` change about a site. -/
structure Accounts (c : Claim) (ds : List Deed) (s s' : Site) : Prop where
  received : s'.metrics.received = s.metrics.received + (ds.filterMap Deed.received?).length
  dropped : s'.metrics.decodeErrors = s.metrics.decodeErrors + (ds.filterMap Deed.dropped?).length
  handed : s'.link.handed = s.link.handed ++ ds.filterMap Deed.handed?
  marked : s'.log = (ds.filterMap Deed.marked?).foldl (·.mark c ·) s.log

/-- An offer changes the batch only. -/
theorem Accounts.offered {c : Claim} {ds : List Deed} {s s' : Site} (h : Accounts c ds s s')
    (r : Record) : Accounts c (.offered r :: ds) s s' :=
  ⟨h.received, h.dropped, h.handed, h.marked⟩

theorem accounts_of_outlet (c : Claim) {s : Site} {o : Outlet} {batches : List (List Message)}
    (hlink : o.link.handed = s.link.handed ++ batches)
    (hmetrics : o.metrics.received = s.metrics.received ∧
      o.metrics.decodeErrors = s.metrics.decodeErrors) :
    Accounts c (batches.map .handed) s { s with toOutlet := o } := by
  refine ⟨?_, ?_, ?_, ?_⟩
  · rw [Deed.filterMap_handed (f := Deed.received?) rfl]
    exact hmetrics.1
  · rw [Deed.filterMap_handed (f := Deed.dropped?) rfl]
    exact hmetrics.2
  · rw [Deed.handed?_handed]
    exact hlink
  · rw [Deed.filterMap_handed (f := Deed.marked?) rfl]
    rfl

/-- **What the deeds of a move say is what the move does.** -/
theorem Effect.accounts {w w' : ClaimWorker} {cancelled : Bool} {s s' : Site} {ds : List Deed}
    (h : Effect w cancelled s ds s' w') : Accounts w.claim ds s s' := by
  cases h with
  | stop | read | queue | drained | lastFlush | decode =>
    constructor <;> simp [List.filterMap_cons, Metrics.countDecoded]
  | start | drop | finish =>
    constructor <;>
      simp [List.filterMap_cons, Metrics.countReceived, Metrics.countDecodeError]
  | flush phase effect handed => exact accounts_of_outlet _ handed effect.metrics
  | offer task phase effect handed =>
    have haccounts := accounts_of_outlet w.claim handed effect.metrics
    split
    · exact haccounts.offered _
    · exact haccounts
  | tick effect handed => exact accounts_of_outlet _ handed effect.metrics

/-- **Calls to the store** begin and end one after the other. -/
theorem Effect.use {w w' : ClaimWorker} {cancelled : Bool} {s s' : Site} {ds : List Deed}
    (h : Effect w cancelled s ds s' w') :
    s.link.Use w.batch.flushing s'.link w'.batch.flushing := by
  cases h with
  | stop | read | queue | start | drained | lastFlush | decode | drop | finish =>
    exact .none w.batch.flushing
  | flush phase effect | tick effect => exact effect.use
  | offer task phase effect =>
    have huse := effect.use
    split
    · exact huse
    · exact huse

end ClaimWorker

end SmsRelay
