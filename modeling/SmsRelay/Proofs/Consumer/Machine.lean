import SmsRelay.Proofs.Claim.Drain
import SmsRelay.Proofs.Consumer.Accounts
import SmsRelay.Proofs.Consumer.Life

/-!
# The state machine of a consumer

A consumer is started once and stopped at most once. Whatever its group tells it, however long its
workers take and whenever it is stopped, the state that it makes known tells the truth about its
workers.

## Implementation notes

A `ConsumerLife` keeps beside the consumer what has become of every worker that it ever had: those
that it has now, with their deeds, and those that it has let go of, as they were when it did. A
worker that the consumer let go of too early would be among them, unfinished.

Between two moves the log, the time and the store may change in every way that leaves the records of
the log in their places; in particular the events of a session are arbitrary.

## Main results

* `Run.step`: a step of the running loop is one move or two.
* `Run.sound`: the state made known, the workers and the session in every reachable state.
* `Run.truthful`: the law of the machine.
-/

namespace SmsRelay

/-- A claim on which a worker has been put, and what the worker has done. -/
structure Post where
  claim : Claim
  deeds : List Deed := []

/-- Each record that the worker received has been dropped as no message or its message has been
handed to the store, once, and nothing else has been handed over. -/
def Post.Flushed (p : Post) : Prop :=
  (p.deeds.filterMap Deed.dropped?).Perm
      ((p.deeds.filterMap Deed.received?).filter (·.message?.isNone)) ∧
    (p.deeds.filterMap Deed.handed?).flatten.Perm
      (ClaimWorker.messages (p.deeds.filterMap Deed.received?))

/-- A consumer with its past. -/
structure ConsumerLife where
  stage : StopStage := .running
  consumer : Consumer
  notes : List SessionNote := []
  /-- The posts of the workers that the consumer has now. -/
  posts : List Post := []
  /-- The workers that the consumer has let go of, as they were then. -/
  past : List (Post × ClaimWorker) := []

namespace ConsumerLife

/-- Whether the workers have been told to drain. -/
def cancelled (s : ConsumerLife) : Bool := s.consumer.stopping || s.consumer.claimsCancelled

/-- The claims of the grants of which the consumer has heard, oldest first. -/
def granted (s : ConsumerLife) : List (List Claim) := s.notes.filterMap SessionNote.granted?

/-- What can happen next. -/
inductive Move (s : ConsumerLife) : ConsumerLife → Prop
  /-- The way to the log behaves otherwise from now on. -/
  | reroute (transport : Transport) :
      Move s { s with consumer := { s.consumer with transport := transport } }
  /-- The session loop takes a step and keeps its workers. -/
  | loop {heeding : Bool} {now : ℕ} {l l' : Log} {c : Consumer}
      (stepped : s.consumer.proceed? heeding now l = some (l', c))
      (same : c.workers = s.consumer.workers) :
      Move s { s with consumer := c, notes := s.notes ++ s.consumer.notes heeding l c }
  /-- The session loop takes a step and has other workers than before. -/
  | restaff {heeding : Bool} {now : ℕ} {l l' : Log} {c : Consumer}
      (stepped : s.consumer.proceed? heeding now l = some (l', c))
      (other : c.workers ≠ s.consumer.workers) :
      Move s { s with
        consumer := c
        notes := s.notes ++ s.consumer.notes heeding l c
        posts := c.workers.map fun w => { claim := w.claim }
        past := s.past ++ s.posts.zip s.consumer.workers }
  /-- A claim worker, one of its tasks or its timer makes a move. -/
  | worker {j : ℕ} {w w' : ClaimWorker} {m : WorkerMove} {site site' : Site}
      (staffed : s.consumer.workers[j]? = some w) (metrics : site.metrics = s.consumer.metrics)
      (numbered : site.log.Numbered) (moved : w.move? s.cancelled site m = some (site', w')) :
      Move s { s with
        consumer := { s.consumer with
          metrics := site'.metrics, workers := s.consumer.workers.set j w' }
        posts := s.posts.modify j fun p =>
          { p with deeds := p.deeds ++ w.deeds site m site' w' } }
  | cancel (running : s.stage = .running) :
      Move s { s with stage := .cancelled, consumer := s.consumer.cancel }
  | takeHandle (cancelled : s.stage = .cancelled) :
      Move s { s with
        stage := .waiting s.consumer.takeHandle.1, consumer := s.consumer.takeHandle.2 }
  /-- The one who stops the consumer need not wait any longer. -/
  | await {waits : Bool} (waiting : s.stage = .waiting waits)
      (ended : waits = true → s.consumer.hasEnded = true) : Move s { s with stage := .stopped }

/-- What a consumer with these settings can come to once it has been started. -/
inductive Run (name : String) (settings : ConsumerSettings) : ConsumerLife → Prop
  | start {transport : Transport} {c : Consumer}
      (started : { name := name, settings := settings, transport := transport : Consumer }.start
        = .ok c) : Run name settings { consumer := c }
  | move {s s' : ConsumerLife} (run : Run name settings s) (moved : s.Move s') :
      Run name settings s'

/-- A step of the session loop is a move. -/
theorem exists_move {s : ConsumerLife} {heeding : Bool} {now : ℕ} {l l' : Log} {c : Consumer}
    (h : s.consumer.proceed? heeding now l = some (l', c)) :
    ∃ s', s.Move s' ∧ s'.consumer = c ∧ s'.stage = s.stage := by
  by_cases hsame : c.workers = s.consumer.workers
  · exact ⟨_, .loop h hsame, rfl, rfl⟩
  · exact ⟨_, .restaff h hsame, rfl, rfl⟩

/-- **The running loop** does nothing that is not looked at here: whatever a step of it leads to is
reached, in two moves at most. This is a result of its own, for runs are made of moves. -/
theorem Run.step {name : String} {settings : ConsumerSettings} {s : ConsumerLife}
    (run : Run name settings s) {now : ℕ} {l l' : Log} {c : Consumer}
    (h : s.consumer.step? now l = some (l', c)) :
    ∃ s', Run name settings s' ∧ s'.consumer = c ∧ s'.stage = s.stage := by
  rcases Consumer.step?_eq_proceed? h with hshort | ⟨c₁, hfirst, hsecond⟩
  · obtain ⟨s', hmove, hs'⟩ := exists_move hshort
    exact ⟨s', run.move hmove, hs'⟩
  · obtain ⟨s₁, hmove₁, rfl, hstage₁⟩ := exists_move hfirst
    obtain ⟨s₂, hmove₂, hc, hstage₂⟩ := exists_move hsecond
    exact ⟨s₂, (run.move hmove₁).move hmove₂, hc, hstage₂.trans hstage₁⟩

/-! ### What is known in every reachable state -/

/-- A worker with its post: what it has done since it was put there. -/
def Serves (settings : ConsumerSettings) (cancelled : Bool) (p : Post) (w : ClaimWorker) : Prop :=
  ClaimRun p.claim settings.workers settings.batchSize settings.batchTimeout cancelled w p.deeds

/-- What is known of a consumer that has been started. -/
structure Sound (settings : ConsumerSettings) (s : ConsumerLife) : Prop where
  settings_eq : s.consumer.settings = settings
  posture : s.consumer.Posture
  expects : s.stage.Expects s.consumer
  installed : s.consumer.stopping = false → s.consumer.hasHandle = true
  membership : s.notes.filterMap SessionNote.joined?
    = s.notes.filterMap SessionNote.left? ++ s.consumer.member.toList
  served : List.Forall₂ (Serves settings s.cancelled) s.posts s.consumer.workers
  taken : ∃ taken, s.granted = taken ++ s.consumer.offers ∧
    (s.consumer.workers ≠ [] → taken.getLast? = some (s.posts.map (·.claim)))
  dismissed : ∀ e ∈ s.past, e.2.isFinished ∧ ∃ cancelled, Serves settings cancelled e.1 e.2

theorem Serves.imp {settings : ConsumerSettings} {b b' : Bool} {p : Post} {w : ClaimWorker}
    (h : Serves settings b p w) (hb : b = true → b' = true) : Serves settings b' p w := by
  cases b with
  | true =>
    rw [hb rfl]
    exact h
  | false =>
    cases b' with
    | false => exact h
    | true => exact ClaimRun.cancel h

/-- One worker of the staff makes a move. -/
theorem served_set {settings : ConsumerSettings} {b : Bool} {f : Post → Post} {w w' : ClaimWorker}
    (hf : ∀ p, Serves settings b p w → Serves settings b (f p) w') {posts : List Post}
    {workers : List ClaimWorker} (h : List.Forall₂ (Serves settings b) posts workers) {j : ℕ}
    (hw : workers[j]? = some w) :
    List.Forall₂ (Serves settings b) (posts.modify j f) (workers.set j w') := by
  induction h generalizing j with
  | nil => cases hw
  | @cons p x posts workers hhead htail ih =>
    cases j with
    | zero =>
      obtain rfl := Option.some.inj hw
      exact .cons (hf _ hhead) htail
    | succ j => exact .cons hhead (ih hw)

theorem mem_zip_of_served {settings : ConsumerSettings} {b : Bool} {posts : List Post}
    {workers : List ClaimWorker} (h : List.Forall₂ (Serves settings b) posts workers)
    {e : Post × ClaimWorker} (he : e ∈ posts.zip workers) :
    e.2 ∈ workers ∧ Serves settings b e.1 e.2 :=
  ⟨(List.of_mem_zip he).2, (List.forall₂_iff_zip.mp h).2 he⟩

/-- New workers have done nothing on their posts. -/
theorem served_employ {c : Consumer} {settings : ConsumerSettings} (hc : c.settings = settings)
    (b : Bool) (claims : List Claim) : List.Forall₂ (Serves settings b)
      ((claims.map c.employ).map fun w => { claim := w.claim }) (claims.map c.employ) := by
  rw [List.forall₂_map_left_iff, List.forall₂_same]
  intro w hw
  obtain ⟨claim, -, rfl⟩ := List.mem_map.mp hw
  have hstart : Serves settings false { claim := claim } (c.employ claim) := by
    subst hc
    exact .start
  exact hstart.imp nofun

namespace Sound

variable {settings : ConsumerSettings} {s : ConsumerLife}

/-- A step of the session loop, if the workers are accounted for. -/
theorem advance (hs : s.Sound settings) {ns : List SessionNote} {c : Consumer}
    (h : s.consumer.Advance ns c) (hu : s.consumer.Undisturbed c) {posts : List Post}
    {past : List (Post × ClaimWorker)}
    (served : List.Forall₂ (Serves settings (c.stopping || c.claimsCancelled)) posts c.workers)
    (taken : ∃ taken, s.granted ++ ns.filterMap SessionNote.granted? = taken ++ c.offers ∧
      (c.workers ≠ [] → taken.getLast? = some (posts.map (·.claim))))
    (dismissed : ∀ e ∈ past, e.2.isFinished ∧ ∃ cancelled, Serves settings cancelled e.1 e.2) :
    Sound settings { s with consumer := c, notes := s.notes ++ ns, posts := posts, past := past }
    where
  settings_eq := h.kept.settings.trans hs.settings_eq
  posture := h.posture
  expects := hs.expects.keep hu
  installed := by
    rw [h.kept.stopping, h.kept.hasHandle]
    exact hs.installed
  membership := by
    rw [List.filterMap_append, List.filterMap_append, hs.membership, List.append_assoc,
      h.membership, List.append_assoc]
  served := served
  taken := by
    rw [granted, List.filterMap_append]
    exact taken
  dismissed := dismissed

/-- **A step of the session loop** that keeps the workers. -/
theorem loop (hs : s.Sound settings) {ns : List SessionNote} {c : Consumer}
    (h : s.consumer.Advance ns c) (hu : s.consumer.Undisturbed c)
    (same : c.workers = s.consumer.workers) :
    Sound settings { s with consumer := c, notes := s.notes ++ ns } := by
  obtain ⟨taken, hgranted, hlast⟩ := hs.taken
  have hserved := hs.served
  cases h.staffing with
  | keep _ cancelled offers =>
    refine hs.advance h hu ?_ ⟨taken, ?_, ?_⟩ hs.dismissed
    · rw [same]
      refine hserved.imp fun p w hp => hp.imp fun hcancelled => ?_
      rw [h.kept.stopping, Bool.or_eq_true]
      exact (Bool.or_eq_true_iff.mp hcancelled).imp_right cancelled
    · rw [hgranted, offers, List.append_assoc]
    · rw [same]
      exact hlast
  | release workers _ none => exact (workers (same.symm.trans none)).elim
  | @takeUp claims idle _ granted offers =>
    have hnone : c.workers = [] := same.trans idle
    rw [idle] at hserved
    refine hs.advance h hu ?_ ⟨taken ++ [claims], ?_, fun hc => (hc hnone).elim⟩ hs.dismissed
    · rw [hnone, List.forall₂_nil_right_iff.mp hserved]
      exact .nil
    · rw [hgranted, List.append_assoc, granted, offers, List.append_nil]

/-- **A step of the session loop** after which there are other workers. -/
theorem restaff (hs : s.Sound settings) {ns : List SessionNote} {c : Consumer}
    (h : s.consumer.Advance ns c) (hu : s.consumer.Undisturbed c)
    (other : c.workers ≠ s.consumer.workers) :
    Sound settings { s with
      consumer := c
      notes := s.notes ++ ns
      posts := c.workers.map fun w => { claim := w.claim }
      past := s.past ++ s.posts.zip s.consumer.workers } := by
  obtain ⟨taken, hgranted, hlast⟩ := hs.taken
  have hserved := hs.served
  cases h.staffing with
  | keep workers => exact (other workers).elim
  | release _ finished none offers =>
    refine hs.advance h hu ?_ ⟨taken, ?_, fun hc => (hc none).elim⟩ ?_
    · rw [none]
      exact .nil
    · rw [hgranted, offers, List.append_assoc]
    · refine List.forall_mem_append.mpr ⟨hs.dismissed, fun e he => ?_⟩
      obtain ⟨hmem, hserves⟩ := mem_zip_of_served hserved he
      exact ⟨finished _ hmem, _, hserves⟩
  | @takeUp claims idle workers granted offers =>
    refine hs.advance h hu ?_ ⟨taken ++ [claims], ?_, fun _ => ?_⟩ ?_
    · rw [workers]
      exact served_employ hs.settings_eq _ _
    · rw [hgranted, List.append_assoc, granted, offers, List.append_nil]
    · rw [List.getLast?_concat, workers, List.map_map, List.map_map]
      exact congrArg some (List.map_id claims).symm
    · rw [idle, List.zip_nil_right, List.append_nil]
      exact hs.dismissed

/-- What is done beside the session loop. -/
theorem beside (hs : s.Sound settings) {stage : StopStage} {c : Consumer} {posts : List Post}
    (settings_eq : c.settings = s.consumer.settings) (phase : c.phase = s.consumer.phase)
    (state : c.state = s.consumer.state) (workers : c.workers = [] ↔ s.consumer.workers = [])
    (member : c.member = s.consumer.member) (expects : stage.Expects c)
    (installed : c.stopping = false → c.hasHandle = true)
    (served : List.Forall₂ (Serves settings (c.stopping || c.claimsCancelled)) posts c.workers)
    (claims : posts.map (·.claim) = s.posts.map (·.claim)) :
    Sound settings { s with stage := stage, consumer := c, posts := posts } where
  settings_eq := settings_eq.trans hs.settings_eq
  posture := hs.posture.keep phase state workers member
  expects := expects
  installed := installed
  membership := by
    rw [member]
    exact hs.membership
  served := served
  taken := by
    obtain ⟨taken, hgranted, hlast⟩ := hs.taken
    refine ⟨taken, ?_, fun hc => ?_⟩
    · rw [Consumer.offers, phase]
      exact hgranted
    · rw [claims]
      exact hlast fun hnone => hc (workers.mpr hnone)
  dismissed := hs.dismissed

/-- **Every move** keeps what is known. -/
theorem move (hs : s.Sound settings) {s' : ConsumerLife} (h : s.Move s') : s'.Sound settings := by
  have hexpects := hs.expects
  cases h with
  | reroute transport =>
    exact hs.beside rfl rfl rfl .rfl rfl (hexpects.keep ⟨rfl, fun _ => rfl, fun _ _ => rfl⟩)
      hs.installed hs.served rfl
  | loop stepped same =>
    have hproceeds := Consumer.proceeds_of_proceed? stepped
    have hadvance := hproceeds.advance hs.posture
    exact hs.loop hadvance (hadvance.undisturbed hproceeds.going) same
  | restaff stepped other =>
    have hproceeds := Consumer.proceeds_of_proceed? stepped
    have hadvance := hproceeds.advance hs.posture
    exact hs.restaff hadvance (hadvance.undisturbed hproceeds.going) other
  | @worker j w w' m site site' staffed metrics numbered moved =>
    have hmove : ∀ p, Serves settings s.cancelled p w → Serves settings s.cancelled
        { p with deeds := p.deeds ++ w.deeds site m site' w' } w' :=
      fun p hp => ClaimRun.move hp numbered moved
    refine hs.beside rfl rfl rfl (List.set_eq_nil_iff j w') rfl
      (hexpects.keep ⟨rfl, fun _ => rfl, fun _ _ => rfl⟩) hs.installed
      (served_set hmove hs.served staffed) ?_
    refine List.ext_getElem? fun i => ?_
    rw [List.getElem?_map, List.getElem?_map, List.getElem?_modify]
    cases s.posts[i]? with
    | none => rfl
    | some p => split <;> rfl
  | cancel running =>
    rw [running] at hexpects
    refine hs.beside rfl rfl rfl .rfl rfl ⟨rfl, fun hhandle => ?_⟩ nofun
      (hs.served.imp fun p w hp => hp.imp fun _ => rfl) rfl
    exact absurd ((hs.installed hexpects).symm.trans hhandle) Bool.true_eq_false.mp
  | takeHandle cancelled =>
    rw [cancelled] at hexpects
    refine hs.beside rfl rfl rfl .rfl rfl hexpects (fun hs => ?_) hs.served rfl
    exact absurd (hexpects.1.symm.trans hs) Bool.true_eq_false.mp
  | @await waits waiting ended =>
    rw [waiting] at hexpects
    obtain ⟨hstopping, hunstarted⟩ := hexpects
    refine hs.beside rfl rfl rfl .rfl rfl ⟨hstopping, ?_⟩ hs.installed hs.served rfl
    cases waits with
    | true => exact .inl (of_decide_eq_true (ended rfl))
    | false => exact .inr (hunstarted rfl)

end Sound

theorem Run.sound {name : String} {settings : ConsumerSettings} {s : ConsumerLife}
    (run : Run name settings s) : s.Sound settings := by
  induction run with
  | start started =>
    obtain ⟨hstopping, -, hc⟩ := Consumer.of_start started
    subst hc
    exact {
      settings_eq := rfl
      posture := ⟨⟨.inl rfl, rfl⟩, rfl⟩
      expects := hstopping
      installed := fun _ => rfl
      membership := rfl
      served := .nil
      taken := ⟨[], rfl, fun h => (h rfl).elim⟩
      dismissed := List.forall_mem_nil _ }
  | move run moved ih => exact ih.move moved

/-! ### The law of the machine -/

/-- The worker of a claim stays on it, wherever it has come to in it. -/
theorem sameClaim_of_run {claim : Claim} {workers size timeout : ℕ} {b : Bool} {w : ClaimWorker}
    {deeds : List Deed} (run : ClaimRun claim workers size timeout b w deeds) :
    ClaimWorker.SameClaim claim w.claim := by
  induction run with
  | start => exact .rfl
  | cancel run ih => exact ih
  | move run numbered moved ih => exact ih.trans ((run.sound.effect moved).claim numbered)

/-- **A worker that has finished** has handed over what it received. -/
theorem Serves.flushed {settings : ConsumerSettings} {b : Bool} {p : Post} {w : ClaimWorker}
    (h : Serves settings b p w) (finished : w.isFinished) : p.Flushed := by
  obtain ⟨hundecided, hrecords, -⟩ := (ClaimRun.sound h).nothing_left finished
  exact (ClaimRun.balance h).settled hundecided hrecords

/-- **The state made known** leaves `claimed` only for `draining` and `draining` only for
`stopped`. -/
theorem Sound.transition {settings : ConsumerSettings} {s s' : ConsumerLife}
    (hs : s.Sound settings) (h : s.Move s') :
    (s.consumer.state = .claimed → s'.consumer.state = .claimed ∨ s'.consumer.state = .draining) ∧
      (s.consumer.state = .draining →
        s'.consumer.state = .draining ∨ s'.consumer.state = .stopped) := by
  cases h with
  | loop stepped | restaff stepped =>
    have hadvance := (Consumer.proceeds_of_proceed? stepped).advance hs.posture
    exact ⟨hadvance.claimed, hadvance.draining⟩
  | reroute | worker | cancel | takeHandle | await => exact ⟨.inl, .inl⟩

/-- **The law of the machine.** In every reachable state of a consumer that has been started the
state made known can change from claimed to draining only, and from draining to stopped only.
Whenever it is idle or stopped, the consumer has no worker. Every worker that it ever let go of had
finished, and had handed over or dropped everything that it received. The workers that it has belong
one by one to the claims of the last grant that it has taken up; of the grants of which it has heard
at most the last one is not taken up yet, and only while workers of an earlier grant drain. When the
stop of the consumer has returned, the state made known is stopped, no worker is left, and every
session that was joined has been left. What is noted of a step of the loop is true of the log. -/
theorem Run.truthful {name : String} {settings : ConsumerSettings} {s : ConsumerLife}
    (run : Run name settings s) :
    (∀ s', s.Move s' →
      (s.consumer.state = .claimed → s'.consumer.state = .claimed ∨ s'.consumer.state = .draining) ∧
      (s.consumer.state = .draining →
        s'.consumer.state = .draining ∨ s'.consumer.state = .stopped)) ∧
    (s.consumer.state = .idle ∨ s.consumer.state = .stopped → s.consumer.workers = []) ∧
    (s.posts.length = s.consumer.workers.length ∧ ∀ e ∈ s.past, e.2.isFinished ∧ e.1.Flushed) ∧
    (∃ taken, s.granted = taken ++ s.consumer.offers ∧ (s.consumer.workers ≠ [] →
      ∃ claims, taken.getLast? = some claims ∧
        List.Forall₂ (fun claim w => ClaimWorker.SameClaim claim w.claim) claims
          s.consumer.workers)) ∧
    (s.stage = .stopped → s.consumer.state = .stopped ∧ s.consumer.workers = [] ∧
      s.consumer.member = none ∧
      s.notes.filterMap SessionNote.joined? = s.notes.filterMap SessionNote.left?) ∧
    ∀ heeding now l l' c', s.consumer.proceed? heeding now l = some (l', c') →
      ∀ n ∈ s.consumer.notes heeding l c', s.consumer.Says l l' n := by
  have hs := run.sound
  refine ⟨fun s' h => hs.transition h, hs.posture.workers,
    ⟨hs.served.length_eq, fun e he => ?_⟩, ?_, fun hstage => ?_,
    fun heeding now l l' c' stepped n => (Consumer.proceeds_of_proceed? stepped).notes_true⟩
  · obtain ⟨hfinished, b, hserves⟩ := hs.dismissed e he
    exact ⟨hfinished, hserves.flushed hfinished⟩
  · obtain ⟨taken, hgranted, hlast⟩ := hs.taken
    refine ⟨taken, hgranted, fun hworkers => ⟨_, hlast hworkers, ?_⟩⟩
    rw [List.forall₂_map_left_iff]
    exact hs.served.imp fun p w hp => sameClaim_of_run hp
  · have hrest : s.consumer.AtRest := by
      have hexpects := hs.expects
      rwa [hstage] at hexpects
    have hended : s.consumer.phase = .ended := hrest.phase.resolve_right hs.posture.started
    obtain ⟨hstate, hworkers, hmember⟩ := hs.posture.ended hended
    have hmembership := hs.membership
    rw [hmember] at hmembership
    exact ⟨hstate, hworkers, hmember, hmembership.trans (List.append_nil _)⟩

/-! ### A life -/

namespace Sample

open ConsumerRun.Sample (settings records numbered_records)

/-- A consumer with its past and what is around it. -/
structure World where
  life : ConsumerLife
  /-- The log as the session sees it. -/
  log : Log := records
  link : StoreLink := { store := .memory (.create 4 true) }

/-- What is done: by the session loop, by the only claim worker, or by one who stops the
consumer. -/
inductive Deal where
  | loop
  | worker (m : WorkerMove)
  | cancel
  | takeHandle
  | await

/-- The records are those of `records`, whatever the session does to the log. -/
def World.play? (e : World) : Deal → Option World
  | .loop => (e.life.consumer.proceed? true 10 e.log).map fun p =>
      let notes := e.life.notes ++ e.life.consumer.notes true e.log p.2
      if p.2.workers.isEmpty = e.life.consumer.workers.isEmpty then
        { e with log := p.1, life := { e.life with consumer := p.2, notes := notes } }
      else
        { e with
          log := p.1
          life := { e.life with
            consumer := p.2
            notes := notes
            posts := p.2.workers.map fun w => { claim := w.claim }
            past := e.life.past ++ e.life.posts.zip e.life.consumer.workers } }
  | .worker m => do
    let w ← e.life.consumer.workers[0]?
    let s : Site :=
      { now := 10, link := e.link, metrics := e.life.consumer.metrics, log := records }
    let p ← w.move? e.life.cancelled s m
    some { e with
      link := p.1.link
      life := { e.life with
        consumer := { e.life.consumer with
          metrics := p.1.metrics, workers := e.life.consumer.workers.set 0 p.2 }
        posts := e.life.posts.modify 0 fun q =>
          { q with deeds := q.deeds ++ w.deeds s m p.1 p.2 } } }
  | .cancel => if e.life.stage = .running then
      some { e with life := { e.life with
        stage := .cancelled, consumer := e.life.consumer.cancel } } else none
  | .takeHandle => if e.life.stage = .cancelled then
      some { e with life := { e.life with
        stage := .waiting e.life.consumer.takeHandle.1
        consumer := e.life.consumer.takeHandle.2 } } else none
  | .await => if e.life.stage = .waiting true ∧ e.life.consumer.hasEnded = true then
      some { e with life := { e.life with stage := .stopped } } else none

/-- Workers come when there are none, and go all at once. -/
theorem workers_of_isEmpty {c c' : Consumer} {ns : List SessionNote} (h : c.Advance ns c')
    (hempty : c'.workers.isEmpty = c.workers.isEmpty) : c'.workers = c.workers := by
  cases h.staffing with
  | keep workers => exact workers
  | release workers _ none =>
    rw [none] at hempty
    exact (workers (List.isEmpty_iff.mp hempty.symm)).elim
  | takeUp idle =>
    rw [idle] at hempty ⊢
    exact List.isEmpty_iff.mp hempty

theorem move_of_play? {e e' : World} {d : Deal} (hp : e.life.consumer.Posture)
    (h : e.play? d = some e') : e.life.Move e'.life := by
  cases d with
  | loop =>
    obtain ⟨⟨l, c⟩, hstep, rfl⟩ := Option.map_eq_some_iff.mp h
    have hadvance := (Consumer.proceeds_of_proceed? hstep).advance hp
    split
    · rename_i hempty
      exact .loop hstep (workers_of_isEmpty hadvance hempty)
    · rename_i hempty
      exact .restaff hstep fun hsame => hempty (congrArg List.isEmpty hsame)
  | worker m =>
    obtain ⟨w, hw, h⟩ := Option.bind_eq_some_iff.mp h
    obtain ⟨⟨s', w'⟩, hmove, h⟩ := Option.bind_eq_some_iff.mp h
    cases h
    exact .worker hw rfl numbered_records hmove
  | cancel =>
    obtain ⟨hstage, h⟩ := Option.ite_none_right_eq_some.mp h
    cases h
    exact .cancel hstage
  | takeHandle =>
    obtain ⟨hstage, h⟩ := Option.ite_none_right_eq_some.mp h
    cases h
    exact .takeHandle hstage
  | await =>
    obtain ⟨⟨hstage, hended⟩, h⟩ := Option.ite_none_right_eq_some.mp h
    cases h
    exact .await hstage fun _ => hended

/-- A consumer that has been started. -/
def world : World where
  life := { consumer :=
    { name := "c", settings := settings, hasHandle := true, phase := .beginning } }

/-- The worker takes a record and its task works on it until it ends. -/
def take (offset steps : ℕ) : List Deal :=
  [.worker .receive, .worker .receive] ++ List.replicate steps (.worker (.work offset))

/-- The consumer takes two records, of which one is no message, and is stopped. -/
def deals : List Deal :=
  [.loop, .loop, .loop, .worker (.tick true), .worker (.tick true)]
    ++ take 0 4 ++ take 1 2
    ++ [.cancel, .takeHandle, .loop, .worker .receive, .worker .receive]
    ++ [.worker (.tick true), .worker .receive, .worker .receive, .loop, .loop, .loop, .await]

end Sample

/-- A consumer that has taken two records up is stopped: its only worker has returned, with both of
them settled, and the session has been left. -/
theorem Run.truthful_stopped : ∃ s, Run "c" ConsumerRun.Sample.settings s ∧ s.stage = .stopped ∧
    s.consumer.state = .stopped ∧ s.consumer.workers = [] ∧
    s.notes.filterMap SessionNote.joined? = s.notes.filterMap SessionNote.left? ∧
    ∃ e ∈ s.past, (e.1.deeds.filterMap Deed.received?).length = 2 ∧ e.2.isFinished ∧
      e.1.Flushed := by
  obtain ⟨e, run, hstage, x, hx, hreceived⟩ :=
    exists_of_foldlM Sample.World.play? (fun e => Run "c" ConsumerRun.Sample.settings e.life)
      Sample.world Sample.deals
      (fun _ run made => run.move (Sample.move_of_play? run.sound.posture made)) (.start rfl)
      (fun e => e.life.stage = .stopped ∧
        ∃ x ∈ e.life.past, (x.1.deeds.filterMap Deed.received?).length = 2) (by decide +kernel)
  obtain ⟨-, -, ⟨-, hdone⟩, -, hstopped, -⟩ := truthful run
  obtain ⟨hstate, hworkers, -, hleft⟩ := hstopped hstage
  obtain ⟨hfinished, hflushed⟩ := hdone x hx
  exact ⟨e.life, run, hstage, hstate, hworkers, hleft, x, hx, hreceived, hfinished, hflushed⟩

end ConsumerLife

end SmsRelay
