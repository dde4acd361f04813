import SmsRelay.Proofs.Claim.Conservation
import SmsRelay.Proofs.Moves

/-!
# The drain of a claim

One claim worker runs while others do as they like with the log, the link and the time. However its
tasks and its timer take turns, and whenever it is cancelled or its claim is revoked, when it has
finished nothing of what it received is left behind.

## Implementation notes

Between two moves of a `ClaimRun` the site may change in every way that leaves the records of the
log in their places. The deeds of the run, oldest first, are its history.

## Main results

* `ClaimRun.drain_complete`: a finished worker has handed over, dropped and marked what it received.
-/

namespace SmsRelay

/-- A run of the worker of a claim, with the deeds done so far. The flag tells whether the worker
has been cancelled. -/
inductive ClaimRun (c : Claim) (workers size timeout : ℕ) :
    Bool → ClaimWorker → List Deed → Prop
  | start : ClaimRun c workers size timeout false (.create c workers size timeout) []
  | cancel {cancelled : Bool} {w : ClaimWorker} {h : List Deed}
      (run : ClaimRun c workers size timeout cancelled w h) :
      ClaimRun c workers size timeout true w h
  | move {cancelled : Bool} {w w' : ClaimWorker} {h : List Deed} {s s' : Site} {m : WorkerMove}
      (run : ClaimRun c workers size timeout cancelled w h) (numbered : s.log.Numbered)
      (moved : w.move? cancelled s m = some (s', w')) :
      ClaimRun c workers size timeout cancelled w' (h ++ w.deeds s m s' w')

namespace ClaimWorker

/-! ### What has been read -/

/-- A worker has received what it has read, except for the record for which it wants a slot, or one
that it let go of when it was cancelled. -/
def Taken (w : ClaimWorker) (cancelled : Bool) (reads received : List Record) : Prop :=
  if w.isReceiving then reads = received ++ w.phase.current?.toList
  else reads = received ∨ cancelled = true ∧ ∃ r, reads = received ++ [r]

theorem taken_of_receiving {w : ClaimWorker} {cancelled : Bool} {reads received : List Record}
    (h : w.phase.stage = 0) : w.Taken cancelled reads received ↔
      reads = received ++ w.phase.current?.toList := by
  rw [Taken, if_pos (isReceiving_iff.mpr h)]

theorem taken_of_stopped {w : ClaimWorker} {cancelled : Bool} {reads received : List Record}
    (h : 0 < w.phase.stage) : w.Taken cancelled reads received ↔
      reads = received ∨ cancelled = true ∧ ∃ r, reads = received ++ [r] := by
  rw [Taken, if_neg fun hr => Nat.ne_of_gt h (isReceiving_iff.mp hr)]

theorem Taken.cancel {w : ClaimWorker} {cancelled : Bool} {reads received : List Record}
    (h : w.Taken cancelled reads received) : w.Taken true reads received := by
  rcases Nat.eq_zero_or_pos w.phase.stage with hstage | hstage
  · rwa [taken_of_receiving hstage] at h ⊢
  · rw [taken_of_stopped hstage] at h ⊢
    exact h.imp_right fun h => ⟨rfl, h.2⟩

/-- A move that neither reads nor receives keeps what has been taken, in the same phase or after the
worker has stopped taking records. -/
theorem Taken.keep {w w' : ClaimWorker} {cancelled : Bool} {reads received : List Record}
    {ds : List Deed} (h : w.Taken cancelled reads received)
    (hphase : w'.phase = w.phase ∨ 0 < w.phase.stage ∧ 0 < w'.phase.stage)
    (hread : ds.filterMap Deed.read? = []) (hreceived : ds.filterMap Deed.received? = []) :
    w'.Taken cancelled (reads ++ ds.filterMap Deed.read?)
      (received ++ ds.filterMap Deed.received?) := by
  rw [hread, hreceived, List.append_nil, List.append_nil]
  rcases hphase with hphase | ⟨hstage, hstage'⟩
  · rwa [Taken, isReceiving, hphase]
  · rw [taken_of_stopped hstage']
    rwa [taken_of_stopped hstage] at h

theorem Effect.taken {w w' : ClaimWorker} {cancelled : Bool} {s s' : Site} {ds : List Deed}
    (h : Effect w cancelled s ds s' w') {reads received : List Record}
    (ht : w.Taken cancelled reads received) :
    w'.Taken cancelled (reads ++ ds.filterMap Deed.read?)
      (received ++ ds.filterMap Deed.received?) := by
  cases h with
  | @stop p receiving same reason =>
    rw [taken_of_receiving (isReceiving_iff.mp receiving)] at ht
    have hstage : 0 < { w with pool := p }.stopReceiving.phase.stage := Nat.one_pos
    rw [taken_of_stopped hstage]
    cases hcurrent : w.phase.current? with
    | none => exact .inl (by simp [ht, hcurrent])
    | some r =>
      have hcancelled := reason.resolve_left (by rw [hcurrent]; exact Option.some_ne_none _)
      exact .inr ⟨hcancelled, r, by simp [ht, hcurrent]⟩
  | read phase polled =>
    rw [taken_of_receiving (by rw [phase]; rfl), phase] at ht
    rw [taken_of_receiving rfl]
    simp [ht, WorkerPhase.current?, List.filterMap_cons]
  | queue phase same =>
    rw [taken_of_receiving (by rw [phase]; rfl), phase] at ht
    rw [taken_of_receiving rfl]
    simp [ht, WorkerPhase.current?]
  | start current took =>
    rw [taken_of_receiving (stage_of_current current), current] at ht
    rw [taken_of_receiving rfl]
    simp [ht, WorkerPhase.current?, List.filterMap_cons]
  | drained phase | lastFlush phase =>
    exact ht.keep (.inr ⟨by rw [phase]; exact Nat.succ_pos _, Nat.succ_pos _⟩) rfl rfl
  | @flush reply _ _ _ phase =>
    refine ht.keep (.inr ⟨by rw [phase]; exact Nat.succ_pos _, ?_⟩) (by simp) (by simp)
    cases reply <;> exact Nat.succ_pos _
  | decode | drop | finish => exact ht.keep (.inl rfl) rfl rfl
  | @offer t reply =>
    refine ht.keep (.inl ?_) ?_ ?_
    · cases reply <;> rfl
    · rw [List.filterMap_append, Deed.filterMap_offered rfl]
      simp
    · rw [List.filterMap_append, Deed.filterMap_offered rfl]
      simp
  | tick => exact ht.keep (.inl rfl) (by simp) (by simp)

/-! ### The order of what has been received -/

/-- The reach does not go down. -/
theorem Effect.reach_le {w w' : ClaimWorker} {cancelled : Bool} {s s' : Site} {ds : List Deed}
    (hlog : s.log.Numbered) (h : Effect w cancelled s ds s' w') (hw : w.Slotted) :
    w.reach ≤ w'.reach := by
  cases h with
  | stop => exact hw.reach_le
  | @read r c phase polled =>
    obtain ⟨rfl, -, -, p, -, -, hoffset⟩ := hlog.poll polled
    rw [reach_of_none (by rw [phase]; rfl), reach_of_some rfl, hoffset]
    exact Nat.le_max_left _ _
  | queue phase => exact Nat.le_of_eq (reach_of_some (by rw [phase]; rfl))
  | start current =>
    rw [reach_of_some current, reach_of_none rfl]
    exact (hw.ahead _ current).symm ▸ Nat.le_succ _
  | drained | lastFlush => exact hw.reach_le
  | @flush reply =>
    cases reply <;> exact hw.reach_le
  | decode | drop | finish | tick => exact Nat.le_refl _
  | @offer _ reply => cases reply <;> exact Nat.le_refl _

/-- A slot is given to the offset that the worker has reached. -/
theorem Effect.received_reach {w w' : ClaimWorker} {cancelled : Bool} {s s' : Site}
    {ds : List Deed} (h : Effect w cancelled s ds s' w') (hw : w.Slotted) {r : Record}
    (hr : r ∈ ds.filterMap Deed.received?) :
    ds.filterMap Deed.received? = [r] ∧ r.offset = w.reach ∧ r.offset < w'.reach := by
  cases h with
  | @start r' p current =>
    obtain rfl : r = r' := List.mem_singleton.mp hr
    refine ⟨rfl, (reach_of_some current).symm, ?_⟩
    rw [reach_of_none rfl]
    exact (hw.ahead _ current).symm ▸ Nat.lt_succ_self _
  | stop | read | queue | drained | lastFlush | decode | drop | finish => cases hr
  | flush | tick => simp at hr
  | offer =>
    rw [List.filterMap_append, Deed.filterMap_offered rfl] at hr
    simp at hr

/-- Offsets in increasing order, all below the reach. -/
structure Ascending (w : ClaimWorker) (received : List Record) : Prop where
  order : (received.map (·.offset)).Pairwise (· < ·)
  below : ∀ r ∈ received, r.offset < w.reach

theorem Effect.ascending {w w' : ClaimWorker} {cancelled : Bool} {s s' : Site} {ds : List Deed}
    (hlog : s.log.Numbered) (h : Effect w cancelled s ds s' w') (hw : w.Slotted)
    {received : List Record} (ha : w.Ascending received) :
    w'.Ascending (received ++ ds.filterMap Deed.received?) := by
  have hreach := h.reach_le hlog hw
  have hbelow : ∀ r ∈ received, r.offset < w'.reach :=
    fun r hr => Nat.lt_of_lt_of_le (ha.below r hr) hreach
  cases hds : ds.filterMap Deed.received? with
  | nil =>
    rw [List.append_nil]
    exact ⟨ha.order, hbelow⟩
  | cons r rest =>
    have hr : r ∈ ds.filterMap Deed.received? := hds ▸ List.mem_cons_self
    obtain ⟨hone, hoffset, hlt⟩ := h.received_reach hw hr
    rw [← hds, hone]
    constructor
    · rw [List.map_append, List.pairwise_append]
      refine ⟨ha.order, List.pairwise_singleton _ _, fun o ho o' ho' => ?_⟩
      obtain ⟨r', hr', rfl⟩ := List.mem_map.mp ho
      rw [List.mem_singleton.mp ho']
      show r'.offset < r.offset
      rw [hoffset]
      exact ha.below r' hr'
    · intro r' hr'
      rcases List.mem_append.mp hr' with hr' | hr'
      · exact hbelow r' hr'
      · rw [List.mem_singleton.mp hr']
        exact hlt

end ClaimWorker

namespace ClaimRun

open ClaimWorker

variable {c : Claim} {workers size timeout : ℕ} {cancelled : Bool} {w : ClaimWorker} {h : List Deed}

theorem sound (run : ClaimRun c workers size timeout cancelled w h) : w.Sound := by
  induction run with
  | start => exact sound_create c workers size timeout
  | cancel run ih => exact ih
  | move run numbered moved ih => exact (ih.effect moved).sound numbered ih

theorem size_pool (run : ClaimRun c workers size timeout cancelled w h) :
    w.pool.size = max workers 1 := by
  induction run with
  | start => rfl
  | cancel run ih => exact ih
  | move run numbered moved ih => exact (run.sound.effect moved).size_pool.trans ih

/-- What a history has seen of the records of a claim, and what is still to come. -/
structure Balance (w : ClaimWorker) (cancelled : Bool) (h : List Deed) : Prop where
  taken : w.Taken cancelled (h.filterMap Deed.read?) (h.filterMap Deed.received?)
  ascending : w.Ascending (h.filterMap Deed.received?)
  decided : (h.filterMap Deed.received?).Perm
    (h.filterMap Deed.dropped? ++ h.filterMap Deed.offered? ++ w.undecided)
  dropped : ∀ r ∈ h.filterMap Deed.dropped?, r.message? = none
  offered : ∀ r ∈ h.filterMap Deed.offered?, r.message?.isSome
  handed : messages (h.filterMap Deed.offered?)
    = (h.filterMap Deed.handed?).flatten ++ w.batch.records
  marked : ((h.filterMap Deed.received?).map (·.offset)).Perm
    (h.filterMap Deed.marked? ++ w.offsets)

theorem balance_start : Balance (.create c workers size timeout) false [] where
  taken := rfl
  ascending := ⟨.nil, nofun⟩
  decided := .nil
  dropped := nofun
  offered := nofun
  handed := rfl
  marked := .nil

/-- **A move keeps the balance.** -/
theorem Balance.move {w' : ClaimWorker} {s s' : Site} {ds : List Deed} (hb : Balance w cancelled h)
    (hlog : s.log.Numbered) (hw : w.Sound) (heffect : w.Effect cancelled s ds s' w') :
    Balance w' cancelled (h ++ ds) := by
  have hdecided := heffect.undecided hw
  have hhanded := heffect.handed hw.queued
  have hmarked := heffect.offsets hw.slotted
  obtain ⟨hdropped, hoffered⟩ := heffect.message? hw.queued
  constructor
  · rw [List.filterMap_append, List.filterMap_append]
    exact heffect.taken hb.taken
  · rw [List.filterMap_append]
    exact heffect.ascending hlog hw.slotted hb.ascending
  · have := hb.decided
    simp only [List.filterMap_append, List.perm_iff_count, List.count_append] at this hdecided ⊢
    intro r
    have h₁ := this r
    have h₂ := hdecided r
    omega
  · rw [List.filterMap_append]
    exact List.forall_mem_append.mpr ⟨hb.dropped, hdropped⟩
  · rw [List.filterMap_append]
    exact List.forall_mem_append.mpr ⟨hb.offered, hoffered⟩
  · rw [List.filterMap_append, List.filterMap_append, messages, List.filterMap_append,
      List.flatten_append]
    change messages _ ++ messages _ = _
    rw [hb.handed, List.append_assoc, hhanded, List.append_assoc]
  · have := hb.marked
    simp only [List.filterMap_append, List.map_append, List.perm_iff_count, List.count_append]
      at this hmarked ⊢
    intro o
    have h₁ := this o
    have h₂ := hmarked o
    omega

theorem balance (run : ClaimRun c workers size timeout cancelled w h) : Balance w cancelled h := by
  induction run with
  | start => exact balance_start
  | cancel run ih => exact { ih with taken := ih.taken.cancel }
  | move run numbered moved ih => exact ih.move numbered run.sound (run.sound.effect moved)

/-- When nothing is left to come, what has been received divides into what has been dropped and
what has been handed over. -/
theorem Balance.settled (hb : Balance w cancelled h) (hundecided : w.undecided = [])
    (hrecords : w.batch.records = []) :
    (h.filterMap Deed.dropped?).Perm ((h.filterMap Deed.received?).filter (·.message?.isNone)) ∧
      (h.filterMap Deed.handed?).flatten.Perm (messages (h.filterMap Deed.received?)) := by
  have hdecided := hb.decided
  rw [hundecided, List.append_nil] at hdecided
  have hdropped : (h.filterMap Deed.dropped?).filter (·.message?.isNone)
      = h.filterMap Deed.dropped? :=
    List.filter_eq_self.mpr fun r hr => by rw [hb.dropped r hr]; rfl
  have hoffered : (h.filterMap Deed.offered?).filter (·.message?.isNone) = [] :=
    List.filter_eq_nil_iff.mpr fun r hr => by
      have := hb.offered r hr
      cases hm : r.message? with
      | none => rw [hm] at this; cases this
      | some m => exact Bool.false_ne_true
  have hsilent : messages (h.filterMap Deed.dropped?) = [] :=
    List.filterMap_eq_nil_iff.mpr hb.dropped
  constructor
  · have hfilter := hdecided.filter (·.message?.isNone)
    rw [List.filter_append, hdropped, hoffered, List.append_nil] at hfilter
    exact hfilter.symm
  · have hmessages := hdecided.filterMap (·.message?)
    rw [List.filterMap_append] at hmessages
    change (messages _).Perm (messages _ ++ messages _) at hmessages
    rw [hsilent, List.nil_append, hb.handed, hrecords, List.append_nil] at hmessages
    exact hmessages.symm

/-- **The drain of a claim.** At every moment no more than `workers` records hold a slot or are
about to get one. When the worker has finished, each record that it received has been dropped as no
message or its message has been handed over, once, and nothing else has been handed over; the
offset of each has been marked, once, and no other offset; and it received all records that it read,
except perhaps the last one if it was cancelled. -/
theorem drain_complete (hworkers : 0 < workers)
    (run : ClaimRun c workers size timeout cancelled w h) :
    w.pool.held.length + w.pool.offered.length ≤ workers ∧ w.pool.held = w.offsets ∧
      (w.phase = .finished →
        (h.filterMap Deed.dropped?).Perm
          ((h.filterMap Deed.received?).filter (·.message?.isNone)) ∧
        (h.filterMap Deed.handed?).flatten.Perm (messages (h.filterMap Deed.received?)) ∧
        (h.filterMap Deed.marked?).Perm ((h.filterMap Deed.received?).map (·.offset)) ∧
        (h.filterMap Deed.marked?).Nodup ∧
        (h.filterMap Deed.read? = h.filterMap Deed.received? ∨
          cancelled = true ∧ ∃ r, h.filterMap Deed.read? = h.filterMap Deed.received? ++ [r])) := by
  have hsound := run.sound
  have hbalance := run.balance
  have hheld := hsound.slotted.held
  refine ⟨?_, hheld, fun hfinished => ?_⟩
  · have hlength := hsound.length_held_le
    rw [run.size_pool, Nat.max_eq_left hworkers] at hlength
    exact hlength
  · have hstage : w.phase.stage = 4 := by rw [hfinished]; rfl
    have htasks : w.tasks = [] := hsound.staged.tasks (by omega)
    have hrecords : w.batch.records = [] := hsound.staged.records (by omega)
    have hundecided : w.undecided = [] := by rw [undecided, htasks]; rfl
    obtain ⟨hdropped, hhanded⟩ := hbalance.settled hundecided hrecords
    have hmarked := hbalance.marked
    rw [offsets, htasks, List.map_nil, List.append_nil] at hmarked
    refine ⟨hdropped, hhanded, hmarked.symm, ?_, ?_⟩
    · exact hmarked.nodup_iff.mp (hbalance.ascending.order.imp Nat.ne_of_lt)
    · exact (taken_of_stopped (by omega)).mp hbalance.taken

/-! ### A run -/

/-- Makes a move at its site and adds what is done to the history. -/
def record? (e : ClaimWorker × List Deed) (m : Site × WorkerMove) :
    Option (ClaimWorker × List Deed) :=
  (e.1.move? false m.1 m.2).map fun p => (p.2, e.2 ++ e.1.deeds m.1 m.2 p.1 p.2)

theorem record {e e' : ClaimWorker × List Deed} {m : Site × WorkerMove}
    (run : ClaimRun c workers size timeout false e.1 e.2) (numbered : m.1.log.Numbered)
    (made : record? e m = some e') : ClaimRun c workers size timeout false e'.1 e'.2 := by
  obtain ⟨p, hmove, rfl⟩ := Option.map_eq_some_iff.mp made
  exact run.move numbered hmove

namespace Sample

/-- A claim on the only partition of a topic. -/
def claim : Claim := ⟨"g", "t", 0, 1, 1, 0⟩

/-- A topic with one partition. -/
def topic : Log := { retention := 4, topics := [Topic.create "t" 1 4] }

/-- A message and a record that is none. -/
def log : Log :=
  ((topic.append "t" "1" (Event.encode ⟨"a", "1", "hello", "SUCCESS", 0⟩)).1.append "t" "1" []).1

/-- The claim has ended. -/
def ended : Log :=
  { log with groups := [{ name := "g", topic := "t", committed := [0], endedLeases := [1] }] }

/-- A site at which everything goes fast. -/
def site (l : Log) : Site :=
  { now := 10, link := { store := .memory (.create 1 true) }, metrics := {}, log := l }

/-- Two records, of which the first is stored and the second dropped. -/
def moves : List (Site × WorkerMove) :=
  [(site log, .receive), (site log, .receive), (site log, .tick true), (site log, .tick true),
    (site log, .work 0), (site log, .work 0), (site log, .work 0), (site log, .receive),
    (site log, .receive), (site log, .work 1), (site log, .work 1), (site ended, .receive),
    (site ended, .receive), (site ended, .tick true), (site ended, .receive),
    (site ended, .receive), (site ended, .receive)]

theorem numbered_log : log.Numbered := by
  have htopic : topic.Numbered := by
    refine ⟨List.nodup_singleton _, fun t ht => ?_⟩
    rw [List.mem_singleton.mp ht]
    exact Topic.numbered_create "t" Nat.one_pos 4
  exact (htopic.append _ _ _).append _ _ _

end Sample

/-- A worker for one record at a time and batches of two takes both records, drains and finishes. -/
theorem drain_complete_sample : ∃ w h, ClaimRun Sample.claim 1 2 5 false w h ∧ w.phase = .finished ∧
    (h.filterMap Deed.received?).length = 2 ∧ (h.filterMap Deed.marked?).Nodup ∧
    (h.filterMap Deed.handed?).flatten.Perm (messages (h.filterMap Deed.received?)) := by
  have hnumbered : ∀ m ∈ Sample.moves, m.1.log.Numbered := by
    have hended : Sample.ended.Numbered := Sample.numbered_log.of_topics rfl
    simp only [Sample.moves, List.forall_mem_cons, Sample.site, Sample.numbered_log, hended]
    simp
  obtain ⟨⟨w, h⟩, run, hfinished, hreceived⟩ := exists_of_foldlM record?
    (fun e => ClaimRun Sample.claim 1 2 5 false e.1 e.2) (.create Sample.claim 1 2 5, [])
    Sample.moves (fun hm run => run.record (hnumbered _ hm)) .start
    (fun e => e.1.isFinished ∧ (e.2.filterMap Deed.received?).length = 2) (by decide +kernel)
  have hfinished : w.phase = .finished := by
    rw [isFinished] at hfinished
    split at hfinished
    · assumption
    · cases hfinished
  obtain ⟨-, -, hdrained⟩ := drain_complete Nat.one_pos run
  obtain ⟨-, hhanded, -, hnodup, -⟩ := hdrained hfinished
  exact ⟨w, h, run, hfinished, hreceived, hnodup, hhanded⟩

end ClaimRun

end SmsRelay
