import SmsRelay.Proofs.Claim.Accounts
import SmsRelay.Proofs.Consumer.Stopping
import SmsRelay.Proofs.Moves

/-!
# What a consumer counts

One consumer runs while others do as they like with the log, the time and the store. Its counters
agree at every moment with the records that its claim workers have under way and with what its
batches have done to the store.

## Implementation notes

Between two moves of a `ConsumerRun` the log, the time and the store may change in every way that
leaves the records of the log in their places. The history of a run are the batches that came to the
store through the consumer, each with the store to which it came.

## Main results

* `Books.worker`: a move of a claim worker keeps the books.
* `ConsumerRun.books`: the books are right in every reachable state.
* `ConsumerRun.conserved`: what has been received, decoded, written, turned away and lost.
-/

namespace SmsRelay

/-- A run of one consumer with the batches that came to the store through it, oldest first. It is
stopped by one caller at most. -/
inductive ConsumerRun (name : String) (settings : ConsumerSettings) :
    StopStage → Consumer → List Insertion → Prop
  | hire (transport : Transport) : ConsumerRun name settings .running
      { name := name, settings := settings, transport := transport } []
  /-- The way to the log behaves otherwise from now on. -/
  | reroute {stage : StopStage} {c : Consumer} {h : List Insertion}
      (run : ConsumerRun name settings stage c h) (transport : Transport) :
      ConsumerRun name settings stage { c with transport := transport } h
  | start {stage : StopStage} {c c' : Consumer} {h : List Insertion}
      (run : ConsumerRun name settings stage c h) (started : c.start = .ok c') :
      ConsumerRun name settings stage c' h
  /-- The session loop takes a step, heeding or not that the consumer has been stopped. -/
  | session {stage : StopStage} {c c' : Consumer} {h : List Insertion} {now : ℕ} {l l' : Log}
      (run : ConsumerRun name settings stage c h)
      (stepped : c.step? now l = some (l', c') ∨ c.lateStep? now l = some (l', c')) :
      ConsumerRun name settings stage c' h
  /-- A claim worker, one of its tasks or its timer makes a move. -/
  | worker {stage : StopStage} {c : Consumer} {h : List Insertion} {j : ℕ} {w w' : ClaimWorker}
      {m : WorkerMove} {s s' : Site} (run : ConsumerRun name settings stage c h)
      (staffed : c.workers[j]? = some w) (metrics : s.metrics = c.metrics)
      (through : s.link.mode = .through) (numbered : s.log.Numbered)
      (moved : w.move? (c.stopping || c.claimsCancelled) s m = some (s', w')) :
      ConsumerRun name settings stage
        { c with metrics := s'.metrics, workers := c.workers.set j w' }
        (h ++ s.toOutlet.insertions (w.ended? w'))
  | cancel {c : Consumer} {h : List Insertion} (run : ConsumerRun name settings .running c h) :
      ConsumerRun name settings .cancelled c.cancel h
  | takeHandle {c : Consumer} {h : List Insertion}
      (run : ConsumerRun name settings .cancelled c h) :
      ConsumerRun name settings (.waiting c.takeHandle.1) c.takeHandle.2 h
  /-- The one who stops the consumer need not wait any longer. -/
  | await {waits : Bool} {c : Consumer} {h : List Insertion}
      (run : ConsumerRun name settings (.waiting waits) c h)
      (ended : waits = true → c.hasEnded = true) : ConsumerRun name settings .stopped c h

/-! ### Books -/

/-- The counters of a consumer agree with its workers and with what has come to the store. -/
structure Books (c : Consumer) (h : List Insertion) : Prop where
  sound : ∀ w ∈ c.workers, w.Sound
  through : ∀ w ∈ c.workers, StoreCall.IsThrough w.batch.flushing
  started : c.metrics.received
    = c.metrics.decoded + c.metrics.decodeErrors + (c.workers.map (·.started)).sum
  held : c.metrics.decoded = c.metrics.written + c.metrics.duplicates + c.metrics.lost
    + (c.workers.map (·.batch.held.length)).sum
  written : c.metrics.written = (h.map (·.added.length)).sum
  duplicates : (∀ x ∈ h, x.Whole) → c.metrics.duplicates = (h.map (·.known.length)).sum

namespace Books

variable {c c' : Consumer} {h : List Insertion}

/-- A consumer whose workers and counters stay the same. -/
theorem keep (hb : Books c h) (workers : c'.workers = c.workers)
    (metrics : c'.metrics = c.metrics) : Books c' h := by
  obtain ⟨sound, through, started, held, written, duplicates⟩ := hb
  rw [← workers] at sound through started held
  rw [← metrics] at started held written duplicates
  exact ⟨sound, through, started, held, written, duplicates⟩

/-- A worker that has nothing under way. -/
structure Idle (w : ClaimWorker) : Prop where
  sound : w.Sound
  started : w.started = 0
  held : w.batch.held = []
  through : StoreCall.IsThrough w.batch.flushing

theorem idle_employ (c : Consumer) (claim : Claim) : Idle (c.employ claim) where
  sound := ClaimWorker.sound_create _ _ _ _
  started := rfl
  held := rfl
  through := nofun

/-- A worker that has finished has nothing under way. -/
theorem idle_of_finished {w : ClaimWorker} (hw : w.Sound)
    (hthrough : StoreCall.IsThrough w.batch.flushing) (hfinished : w.isFinished) : Idle w := by
  have hstage := ClaimWorker.stage_of_finished hfinished
  have htasks : w.tasks = [] := hw.staged.tasks (by omega)
  have hrecords : w.batch.records = [] := hw.staged.records (by omega)
  have hturn : w.batch.turn = [] := hw.staged.turn (by omega)
  refine ⟨hw, ?_, Accumulator.held_of_empty hrecords hturn hw.queued.batch, hthrough⟩
  rw [ClaimWorker.started, htasks]
  rfl

theorem sum_of_idle {ws : List ClaimWorker} (h : ∀ w ∈ ws, Idle w) :
    (ws.map (·.started)).sum = 0 ∧ (ws.map (·.batch.held.length)).sum = 0 := by
  constructor <;> refine List.sum_eq_zero_iff_forall_eq_nat.mpr fun n hn => ?_
  · obtain ⟨w, hw, rfl⟩ := List.mem_map.mp hn
    exact (h w hw).started
  · obtain ⟨w, hw, rfl⟩ := List.mem_map.mp hn
    rw [(h w hw).held, List.length_nil]

/-- Workers come and go when they have nothing under way. -/
theorem replace (hb : Books c h) (old : ∀ w ∈ c.workers, Idle w) (new : ∀ w ∈ c'.workers, Idle w)
    (metrics : c'.metrics = c.metrics) : Books c' h := by
  obtain ⟨hstarted, hheld⟩ := sum_of_idle old
  obtain ⟨hstarted', hheld'⟩ := sum_of_idle new
  have started := hb.started
  have held := hb.held
  rw [hstarted, ← hstarted', ← metrics] at started
  rw [hheld, ← hheld', ← metrics] at held
  refine ⟨fun w hw => (new w hw).sound, fun w hw => (new w hw).through, started, held, ?_, ?_⟩
  · rw [metrics]
    exact hb.written
  · rw [metrics]
    exact hb.duplicates

/-- **A step of the session loop** keeps the books. -/
theorem session (hb : Books c h) {l l' : Log} (heffect : c.Effect l l' c') : Books c' h := by
  have hmetrics := heffect.kept.metrics
  have hemployed : ∀ claims : List Claim, ∀ w ∈ claims.map c.employ, Idle w := by
    intro claims w hw
    obtain ⟨claim, -, rfl⟩ := List.mem_map.mp hw
    exact idle_employ c claim
  cases heffect with
  | goOn workers | join _ workers | hear _ workers | leave workers =>
    exact hb.keep workers hmetrics
  | takeUp told idle workers =>
    refine hb.replace (fun w hw => ?_) (fun w hw => ?_) hmetrics
    · rw [idle] at hw
      cases hw
    · rw [workers] at hw
      exact hemployed _ w hw
  | release finished workers =>
    refine hb.replace (fun w hw => ?_) (fun w hw => ?_) hmetrics
    · exact idle_of_finished (hb.sound w hw) (hb.through w hw) (finished w hw)
    · rw [workers] at hw
      exact hemployed _ w hw

/-- **A move of a claim worker** keeps the books. -/
theorem worker (hb : Books c h) {j : ℕ} {w w' : ClaimWorker} {m : WorkerMove} {s s' : Site}
    (staffed : c.workers[j]? = some w) (metrics : s.metrics = c.metrics)
    (through : s.link.mode = .through) (numbered : s.log.Numbered)
    (moved : w.move? (c.stopping || c.claimsCancelled) s m = some (s', w')) :
    Books { c with metrics := s'.metrics, workers := c.workers.set j w' }
      (h ++ s.toOutlet.insertions (w.ended? w')) := by
  have hmem := List.mem_of_getElem? staffed
  have hsound := hb.sound w hmem
  have hthrough := hb.through w hmem
  have heffect := hsound.effect moved
  obtain ⟨hstarted, hheld, hwritten, hduplicates⟩ := heffect.turnover hsound hthrough
  rw [metrics] at hstarted hheld hwritten hduplicates
  have hsumStarted := sum_map_set (·.started) w' staffed
  have hsumHeld := sum_map_set (·.batch.held.length) w' staffed
  have hbStarted := hb.started
  have hbHeld := hb.held
  constructor
  · intro x hx
    rcases List.mem_or_eq_of_mem_set hx with hx | rfl
    · exact hb.sound x hx
    · exact heffect.sound numbered hsound
  · intro x hx
    rcases List.mem_or_eq_of_mem_set hx with hx | rfl
    · exact hb.through x hx
    · exact heffect.use.isThrough through hthrough
  · show s'.metrics.received = s'.metrics.decoded + s'.metrics.decodeErrors
      + ((c.workers.set j w').map (·.started)).sum
    omega
  · show s'.metrics.decoded = s'.metrics.written + s'.metrics.duplicates + s'.metrics.lost
      + ((c.workers.set j w').map (·.batch.held.length)).sum
    omega
  · rw [List.map_append, List.sum_append, ← hb.written]
    exact hwritten
  · intro hwhole
    obtain ⟨hbefore, hnow⟩ := List.forall_mem_append.mp hwhole
    rw [List.map_append, List.sum_append, ← hb.duplicates hbefore]
    exact hduplicates hnow

end Books

/-! ### A run -/

namespace ConsumerRun

variable {name : String} {settings : ConsumerSettings} {stage : StopStage} {c : Consumer}
  {h : List Insertion}

/-- A run is orderly, and the consumer is as the stage of its stop says. -/
theorem expects (run : ConsumerRun name settings stage c h) : c.Orderly ∧ stage.Expects c := by
  induction run with
  | hire transport => exact ⟨⟨fun _ => rfl, fun _ _ => rfl⟩, rfl⟩
  | reroute run transport ih =>
    exact ⟨⟨ih.1.rested, ih.1.unstarted⟩, ih.2.keep ⟨rfl, fun _ => rfl, fun _ _ => rfl⟩⟩
  | start run started ih =>
    obtain ⟨hstopping, hhandle, rfl⟩ := Consumer.of_start started
    have hrunning : ∀ {p : Prop}, _ = true → p := fun hs =>
      absurd (hstopping.symm.trans hs) Bool.false_ne_true
    exact ⟨ih.1.start hstopping hhandle, ih.2.keep ⟨rfl, hrunning, hrunning⟩⟩
  | @session stage c c' h now l l' run stepped ih =>
    obtain ⟨heffect, hstarted, hgoing⟩ :
        c.Effect l l' c' ∧ c.phase ≠ .unstarted ∧ c.phase ≠ .ended := by
      rcases stepped with hstep | hstep
      · exact ⟨Consumer.effect_of_step? hstep, Consumer.going_of_step? hstep⟩
      · exact ⟨Consumer.effect_of_lateStep? hstep, Consumer.going_of_lateStep? hstep⟩
    exact ⟨heffect.orderly hstarted ih.1, ih.2.keep (heffect.undisturbed hstarted hgoing)⟩
  | @worker stage c h j w w' m s s' run staffed metrics through numbered moved ih =>
    refine ⟨⟨fun hquiet => ?_, ih.1.unstarted⟩, ih.2.keep ⟨rfl, fun _ => rfl, fun _ _ => rfl⟩⟩
    have hnone : c.workers = [] := ih.1.rested hquiet
    rw [hnone] at staffed
    cases staffed
  | @cancel c h run ih =>
    exact ⟨⟨ih.1.rested, nofun⟩, rfl, fun hhandle => ih.1.unstarted hhandle ih.2⟩
  | @takeHandle c h run ih =>
    obtain ⟨horderly, hstopping, hunstarted⟩ := ih
    refine ⟨⟨horderly.rested, fun _ hs => ?_⟩, hstopping, hunstarted⟩
    exact absurd (hstopping.symm.trans hs) nofun
  | @await waits c h run ended ih =>
    obtain ⟨horderly, hstopping, hunstarted⟩ := ih
    refine ⟨horderly, hstopping, ?_⟩
    cases waits with
    | true => exact .inl (of_decide_eq_true (ended rfl))
    | false => exact .inr (hunstarted rfl)

/-- **The books are right** in every reachable state. -/
theorem books (run : ConsumerRun name settings stage c h) : Books c h := by
  induction run with
  | hire transport =>
    exact ⟨fun _ hw => absurd hw List.not_mem_nil, fun _ hw => absurd hw List.not_mem_nil, rfl, rfl,
      rfl, fun _ => rfl⟩
  | reroute run transport ih => exact ih.keep rfl rfl
  | start run started ih =>
    obtain ⟨-, -, rfl⟩ := Consumer.of_start started
    exact ih.keep rfl rfl
  | session run stepped ih =>
    rcases stepped with hstep | hstep
    · exact ih.session (Consumer.effect_of_step? hstep)
    · exact ih.session (Consumer.effect_of_lateStep? hstep)
  | worker run staffed metrics through numbered moved ih =>
    exact ih.worker staffed metrics through numbered moved
  | cancel run ih | takeHandle run ih => exact ih.keep rfl rfl
  | await run ended ih => exact ih

/-- **What a consumer counts.** In every reachable state the records received are those decoded,
those that were no messages, and those that their tasks have not looked at yet; and the messages
decoded are those written, turned away and lost, and those in an accumulator, with an offer that
waits, in the batch under construction or in one on its way. As many messages count as written as
the batches of this consumer have added to the store, and unless a message could not be written as
many count as duplicates as were turned away because their correlation ids were taken. A move of a
worker does to the store what the batches do that come to it in this move, and nothing else. When
nothing fails, what a batch does to the store is to add these messages, and each message that is
turned away shares its correlation id with one that the store knew or that was added before in the
same batch. When the stop of the consumer has returned, nothing is under way. -/
theorem conserved (run : ConsumerRun name settings stage c h) :
    c.metrics.received
      = c.metrics.decoded + c.metrics.decodeErrors + (c.workers.map (·.started)).sum ∧
    c.metrics.decoded = c.metrics.written + c.metrics.duplicates + c.metrics.lost
      + (c.workers.map (·.batch.held.length)).sum ∧
    c.metrics.written = (h.map (·.added.length)).sum ∧
    ((∀ x ∈ h, x.Whole) → c.metrics.duplicates = (h.map (·.known.length)).sum) ∧
    (∀ (j : ℕ) (w w' : ClaimWorker) m s s', c.workers[j]? = some w →
      w.move? (c.stopping || c.claimsCancelled) s m = some (s', w') → s'.link.store =
        (s.toOutlet.insertions (w.ended? w')).foldl (fun s x => (s.insertBatch x.batch).2)
          s.link.store) ∧
    (∀ x ∈ h, x.Whole → (x.store.insertBatch x.batch).2 = x.added.foldl Store.grow x.store) ∧
    (∀ x ∈ h, ∀ m ∈ x.known, m.correlationId ≠ "" ∧
      (m.correlationId ∈ x.store.ids ∨ m.correlationId ∈ x.added.map (·.correlationId))) ∧
    (stage = .stopped → c.metrics.received = c.metrics.decodeErrors + c.metrics.written
      + c.metrics.duplicates + c.metrics.lost) := by
  obtain ⟨horderly, hexpects⟩ := run.expects
  have hbooks := run.books
  have hstarted := hbooks.started
  have hheld := hbooks.held
  refine ⟨hstarted, hheld, hbooks.written, hbooks.duplicates,
    fun j w w' m s s' staffed moved => ?_, fun x _ hwhole => ?_,
    fun x _ m hm => x.store.id_of_mem_known hm, fun hstopped => ?_⟩
  · have hmem := List.mem_of_getElem? staffed
    exact ((hbooks.sound w hmem).effect moved).store (hbooks.through w hmem)
  · exact Store.Withstands.insertBatch_snd hwhole
  · subst hstopped
    have hworkers : c.workers = [] := hexpects.workers horderly
    rw [hworkers, List.map_nil, List.sum_nil] at hstarted hheld
    omega

end ConsumerRun

/-! ### A consumer that is stopped -/

namespace ConsumerRun.Sample

/-- A consumer and what is around it. -/
structure Scene where
  stage : StopStage := .running
  consumer : Consumer
  history : List Insertion := []
  /-- The log as the session sees it. -/
  log : Log
  link : StoreLink

/-- What is done: by the session loop, by the only claim worker, or by one who stops the
consumer. -/
inductive Move where
  | start
  | session
  | worker (m : WorkerMove)
  | cancel
  | takeHandle
  | await

/-- The records are those of `records`, whatever the session does to the log. -/
def Scene.play? (records : Log) (e : Scene) : Move → Option Scene
  | .start => match e.consumer.start with
    | .ok c => some { e with consumer := c }
    | .error _ => none
  | .session => (e.consumer.step? 10 e.log).map fun p => { e with log := p.1, consumer := p.2 }
  | .worker m => do
    let w ← e.consumer.workers[0]?
    let s : Site :=
      { now := 10, link := e.link, metrics := e.consumer.metrics, log := records }
    let p ← w.move? (e.consumer.stopping || e.consumer.claimsCancelled) s m
    some { e with
      link := p.1.link
      consumer := { e.consumer with
        metrics := p.1.metrics, workers := e.consumer.workers.set 0 p.2 }
      history := e.history ++ s.toOutlet.insertions (w.ended? p.2) }
  | .cancel => if e.stage = .running then
      some { e with stage := .cancelled, consumer := e.consumer.cancel } else none
  | .takeHandle => if e.stage = .cancelled then
      some { e with
        stage := .waiting e.consumer.takeHandle.1, consumer := e.consumer.takeHandle.2 } else none
  | .await => if e.stage = .waiting true ∧ e.consumer.hasEnded = true then
      some { e with stage := .stopped } else none

/-- The scene belongs to a run over a link that hands everything on. -/
structure Scene.Reached (settings : ConsumerSettings) (e : Scene) : Prop where
  run : ConsumerRun "c" settings e.stage e.consumer e.history
  through : e.link.mode = .through

theorem Scene.Reached.play {settings : ConsumerSettings} {records : Log} {e e' : Scene} {m : Move}
    (he : e.Reached settings) (hnumbered : records.Numbered)
    (hplay : e.play? records m = some e') : e'.Reached settings := by
  cases m with
  | start =>
    simp only [Scene.play?] at hplay
    split at hplay
    · rename_i c hstart
      cases hplay
      exact ⟨he.run.start hstart, he.through⟩
    · cases hplay
  | session =>
    obtain ⟨⟨l, c⟩, hstep, rfl⟩ := Option.map_eq_some_iff.mp hplay
    exact ⟨he.run.session (.inl hstep), he.through⟩
  | worker m =>
    obtain ⟨w, hw, hplay⟩ := Option.bind_eq_some_iff.mp hplay
    obtain ⟨⟨s', w'⟩, hmove, hplay⟩ := Option.bind_eq_some_iff.mp hplay
    cases hplay
    have heffect := (he.run.books.sound w (List.mem_of_getElem? hw)).effect hmove
    exact ⟨he.run.worker hw rfl he.through hnumbered hmove, heffect.use.mode.trans he.through⟩
  | cancel =>
    obtain ⟨hstage, hplay⟩ := Option.ite_none_right_eq_some.mp hplay
    cases hplay
    have hrun := he.run
    rw [hstage] at hrun
    exact ⟨hrun.cancel, he.through⟩
  | takeHandle =>
    obtain ⟨hstage, hplay⟩ := Option.ite_none_right_eq_some.mp hplay
    cases hplay
    have hrun := he.run
    rw [hstage] at hrun
    exact ⟨hrun.takeHandle, he.through⟩
  | await =>
    obtain ⟨⟨hstage, hended⟩, hplay⟩ := Option.ite_none_right_eq_some.mp hplay
    cases hplay
    have hrun := he.run
    rw [hstage] at hrun
    exact ⟨hrun.await fun _ => hended, he.through⟩

/-- Settings of a consumer with batches of one message. -/
def settings : ConsumerSettings where
  group := "g"
  topic := "t"
  workers := 1
  batchSize := 1
  batchTimeout := 5

/-- A topic with one partition. -/
def topic : Log := { retention := 4, topics := [Topic.create "t" 1 4] }

/-- The record of a message. -/
def value (text : String) : Bytes := Event.encode ⟨"a", "1", text, "SUCCESS", 0⟩

/-- Two messages with the same correlation id and a record between them that is no message. -/
def records : Log :=
  (((topic.append "t" "1" (value "hello")).1.append "t" "1" []).1.append "t" "1" (value "again")).1

/-- A consumer, an empty store, and a log from which it takes its claim. -/
def scene : Scene where
  consumer := { name := "c", settings := settings }
  log := records
  link := { store := .memory (.create 4 true) }

/-- The worker takes a record and its task works on it until it ends. -/
def take (offset steps : ℕ) : List Move :=
  [.worker .receive, .worker .receive] ++ List.replicate steps (.worker (.work offset))

/-- The consumer takes all records and is stopped. -/
def moves : List Move :=
  [.start, .session, .session, .session, .worker (.tick true), .worker (.tick true)]
    ++ take 0 4 ++ take 1 2 ++ take 2 4
    ++ [.cancel, .takeHandle, .session, .worker .receive, .worker .receive]
    ++ [.worker (.tick true), .worker .receive, .worker .receive, .session, .session, .await]

theorem numbered_records : records.Numbered := by
  have htopic : topic.Numbered := by
    refine ⟨List.nodup_singleton _, fun t ht => ?_⟩
    rw [List.mem_singleton.mp ht]
    exact Topic.numbered_create "t" Nat.one_pos 4
  exact ((htopic.append _ _ _).append _ _ _).append _ _ _

end ConsumerRun.Sample

namespace ConsumerRun

open Sample

/-- Of three records one is stored, one is no message and one has been stored before. -/
theorem conserved_sample : ∃ c h, ConsumerRun "c" Sample.settings .stopped c h ∧
    c.metrics.received = 3 ∧ c.metrics.decodeErrors = 1 ∧
    c.metrics.written = (h.map (·.added.length)).sum ∧
    c.metrics.duplicates = (h.map (·.known.length)).sum ∧
    c.metrics.received = c.metrics.decodeErrors + c.metrics.written + c.metrics.duplicates
      + c.metrics.lost := by
  obtain ⟨e, hreached, hstage, hreceived, herrors, hwhole⟩ :=
    exists_of_foldlM (Scene.play? records) (Scene.Reached settings) scene moves
      (fun _ he made => he.play numbered_records made) ⟨.hire {}, rfl⟩
      (fun e => e.stage = .stopped ∧ e.consumer.metrics.received = 3 ∧
        e.consumer.metrics.decodeErrors = 1 ∧
        ∀ x ∈ e.history, ∀ fate ∈ x.store.fates x.batch, fate.2.isFailure = false)
      (by decide +kernel)
  have run := hreached.run
  rw [hstage] at run
  obtain ⟨-, -, hwritten, hduplicates, -, -, -, hstopped⟩ := conserved run
  exact ⟨e.consumer, e.history, run, hreceived, herrors, hwritten, hduplicates hwhole, hstopped rfl⟩

end ConsumerRun

end SmsRelay
