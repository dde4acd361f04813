import SmsRelay.Consumer.Basic
import SmsRelay.Proofs.Log.Settlement

/-!
# What a session loop does

A session loop gets claims from the log and gives each a worker. It lets go of workers only when
all of them have finished, and it has none while it is not in a session.

## Implementation notes

`Effect` says once what a step of a session loop can do to the log, to the workers and to the claims
that it has been granted and has not taken up yet.

## Main results

* `effect_of_step?`, `effect_of_lateStep?`: everything that a step can do.
-/

namespace SmsRelay

/-- The claims that the loop takes up when it goes on. -/
def AfterDrain.claims : AfterDrain → List Claim
  | grant claims => claims
  | _ => []

namespace Consumer

/-- A step of a session loop that does not notice that it has been stopped. -/
def lateStep? (c : Consumer) (now : ℕ) (l : Log) : Option (Log × Consumer) :=
  match c.phase with
  | .joining due => if due ≤ now then some (c.join now l) else none
  | .listening => c.listen? l
  | .backingOff due => if due ≤ now then some (l, { c with phase := .beginning }) else none
  | _ => none

/-- The claims that have been granted and wait for workers to finish. -/
def promised (c : Consumer) : List Claim :=
  match c.phase with
  | .draining next => next.claims
  | _ => []

/-- The worker that a consumer puts on a claim. -/
def employ (c : Consumer) (claim : Claim) : ClaimWorker :=
  .create claim c.settings.workers c.settings.batchSize c.settings.batchTimeout

/-- The loop is in a session. -/
def isWorking (c : Consumer) : Bool :=
  match c.phase with
  | .listening | .draining _ => true
  | _ => false

/-- There are no workers outside a session. -/
def Rested (c : Consumer) : Prop := c.isWorking = false → c.workers = []

/-- A consumer has workers only in a session, and a loop only once it has been started. -/
structure Orderly (c : Consumer) : Prop where
  rested : c.Rested
  unstarted : c.hasHandle = false → c.stopping = false → c.phase = .unstarted

/-- What a session loop leaves alone. -/
structure Kept (c c' : Consumer) : Prop where
  settings : c'.settings = c.settings
  hasHandle : c'.hasHandle = c.hasHandle
  stopping : c'.stopping = c.stopping
  metrics : c'.metrics = c.metrics

theorem Kept.rfl {c : Consumer} : Kept c c := ⟨Eq.refl _, Eq.refl _, Eq.refl _, Eq.refl _⟩

theorem Kept.trans {c c₁ c₂ : Consumer} (h : Kept c c₁) (h' : Kept c₁ c₂) : Kept c c₂ :=
  ⟨h'.settings.trans h.settings, h'.hasHandle.trans h.hasHandle, h'.stopping.trans h.stopping,
    h'.metrics.trans h.metrics⟩

/-- Everything that a step of a session loop can do. -/
inductive Effect (c : Consumer) (l : Log) : Log → Consumer → Prop
  /-- It goes on without the log, and no claims are taken up. -/
  | goOn {c' : Consumer} (workers : c'.workers = c.workers) (promised : c'.promised = [])
      (kept : Kept c c') (rested : c.Rested → c'.Rested) : Effect c l l c'
  | join {c' : Consumer} {l' : Log} {member : ℕ}
      (joined : l.join c.settings.group c.settings.topic = .ok (member, l'))
      (workers : c'.workers = c.workers) (promised : c'.promised = [])
      (kept : Kept c c') (rested : c'.Rested) : Effect c l l' c'
  /-- It hears of an event while workers are at work. -/
  | hear {c' : Consumer} {l' : Log} {member : ℕ} {e : SessionEvent}
      (told : l.nextEvent c.settings.group c.settings.topic member = (some e, l'))
      (workers : c'.workers = c.workers) (promised : c'.promised = e.claims)
      (kept : Kept c c') (rested : c'.Rested) : Effect c l l' c'
  /-- It hears of an event while nobody is at work. -/
  | takeUp {c' : Consumer} {l' : Log} {member : ℕ} {e : SessionEvent}
      (told : l.nextEvent c.settings.group c.settings.topic member = (some e, l'))
      (idle : c.workers = []) (workers : c'.workers = e.claims.map c.employ)
      (promised : c'.promised = []) (kept : Kept c c') (rested : c'.Rested) :
      Effect c l l' c'
  /-- All workers have finished. -/
  | release {c' : Consumer} (finished : ∀ w ∈ c.workers, w.isFinished)
      (workers : c'.workers = c.promised.map c.employ) (promised : c'.promised = [])
      (kept : Kept c c') (rested : c'.Rested) : Effect c l l c'
  | leave {c' : Consumer} {member : ℕ} (workers : c'.workers = c.workers)
      (promised : c'.promised = []) (kept : Kept c c')
      (rested : c.Rested → c'.Rested) :
      Effect c l (l.leave c.settings.group c.settings.topic member) c'

/-! ### Taking a step apart -/

/-- Claims are taken up by nobody but the consumer. -/
theorem takeUp_eq (c : Consumer) (claims : List Claim) (idle : c.workers = []) :
    (c.takeUp claims).workers = claims.map c.employ ∧ (c.takeUp claims).promised = [] ∧
      Kept c (c.takeUp claims) ∧ (c.takeUp claims).Rested := by
  rw [takeUp]
  cases claims with
  | nil => exact ⟨idle, rfl, ⟨rfl, rfl, rfl, rfl⟩, fun h => by cases h⟩
  | cons claim rest => exact ⟨rfl, rfl, ⟨rfl, rfl, rfl, rfl⟩, fun h => by cases h⟩

/-- What the loop goes on with when nobody is at work. -/
theorem goOn_eq (c : Consumer) (next : AfterDrain) (idle : c.workers = []) :
    (c.goOn next).workers = next.claims.map c.employ ∧ (c.goOn next).promised = [] ∧
      Kept c (c.goOn next) ∧ (c.goOn next).Rested := by
  cases next with
  | grant claims => exact c.takeUp_eq claims idle
  | listen => exact ⟨idle, rfl, ⟨rfl, rfl, rfl, rfl⟩, fun h => by cases h⟩
  | leave failed => exact ⟨idle, rfl, ⟨rfl, rfl, rfl, rfl⟩, fun _ => idle⟩

theorem rested_of_quiet {c c' : Consumer} (hquiet : c.isWorking = false)
    (hworkers : c'.workers = c.workers) (h : c.Rested) : c'.Rested :=
  fun _ => hworkers.trans (h hquiet)

/-- The loop tells its workers to finish before it leaves. -/
theorem effect_leaving {c c₁ : Consumer} {l : Log} (failed : Bool)
    (hworkers : c₁.workers = c.workers) (hkept : Kept c c₁) :
    Effect c l l (c₁.drain (.leave failed)) := by
  rw [drain]
  split
  · rename_i hidle
    have hidle : c₁.workers = [] := List.isEmpty_iff.mp hidle
    obtain ⟨hw, hp, hs, hr⟩ := c₁.goOn_eq (.leave failed) hidle
    exact .goOn (by rw [hw, ← hworkers, hidle]; rfl) hp (hkept.trans hs) fun _ => hr
  · exact .goOn hworkers rfl (hkept.trans ⟨rfl, rfl, rfl, rfl⟩) fun _ h => by cases h

/-- The loop hears of an event. -/
theorem effect_onEvent {c : Consumer} {l l' : Log} {member : ℕ} {e : SessionEvent}
    (told : l.nextEvent c.settings.group c.settings.topic member = (some e, l')) :
    Effect c l l' (c.onEvent e) := by
  have hdrain : ∀ next : AfterDrain, next.claims = e.claims → Effect c l l' (c.drain next) := by
    intro next hclaims
    rw [drain]
    split
    · rename_i hidle
      have hidle : c.workers = [] := List.isEmpty_iff.mp hidle
      obtain ⟨hw, hp, hs, hr⟩ := c.goOn_eq next hidle
      exact .takeUp told hidle (by rw [hw, hclaims]) hp hs hr
    · exact .hear told rfl hclaims ⟨rfl, rfl, rfl, rfl⟩ fun h => by cases h
  cases e with
  | granted generation claims => exact hdrain (.grant claims) rfl
  | revoked generation => exact hdrain .listen rfl
  | closed => exact hdrain (.leave false) rfl

theorem effect_join (c : Consumer) (now : ℕ) (l : Log) (hquiet : c.isWorking = false) :
    Effect c l (c.join now l).1 (c.join now l).2 := by
  rw [join]
  split
  · exact .goOn rfl rfl ⟨rfl, rfl, rfl, rfl⟩ (rested_of_quiet hquiet rfl)
  · split
    · rename_i member l' hjoin
      exact .join hjoin rfl rfl ⟨rfl, rfl, rfl, rfl⟩ fun h => by cases h
    · exact .goOn rfl rfl ⟨rfl, rfl, rfl, rfl⟩ (rested_of_quiet hquiet rfl)

theorem effect_listen {c c' : Consumer} {l l' : Log} (h : c.listen? l = some (l', c')) :
    Effect c l l' c' := by
  rw [listen?] at h
  split at h
  · cases h
    exact effect_leaving true rfl ⟨rfl, rfl, rfl, rfl⟩
  · split at h
    · cases h
    · split at h
      · rename_i e l₁ hnext
        cases h
        exact effect_onEvent hnext
      · cases h

theorem effect_leave (c : Consumer) (now : ℕ) (l : Log) (failed : Bool)
    (hquiet : c.isWorking = false) :
    Effect c l (c.leave now l failed).1 (c.leave now l failed).2 := by
  rw [leave]
  cases hmember : c.member with
  | none =>
    cases failed
    · exact .goOn rfl rfl ⟨rfl, rfl, rfl, rfl⟩ (rested_of_quiet hquiet rfl)
    · exact .goOn rfl rfl ⟨rfl, rfl, rfl, rfl⟩ (rested_of_quiet hquiet rfl)
  | some member =>
    cases failed
    · exact .leave rfl rfl ⟨rfl, rfl, rfl, rfl⟩ (rested_of_quiet hquiet rfl)
    · exact .leave rfl rfl ⟨rfl, rfl, rfl, rfl⟩ (rested_of_quiet hquiet rfl)

/-- **Everything that a step can do.** -/
theorem effect_of_step? {c c' : Consumer} {now : ℕ} {l l' : Log}
    (h : c.step? now l = some (l', c')) : Effect c l l' c' := by
  rw [step?] at h
  cases hphase : c.phase with
  | unstarted | ended => simp [hphase] at h
  | beginning =>
    have hquiet : c.isWorking = false := by rw [isWorking, hphase]
    simp only [hphase] at h
    split at h <;> cases h <;> exact .goOn rfl rfl ⟨rfl, rfl, rfl, rfl⟩ (rested_of_quiet hquiet rfl)
  | joining due =>
    have hquiet : c.isWorking = false := by rw [isWorking, hphase]
    simp only [hphase] at h
    split at h
    · cases h
      exact .goOn rfl rfl ⟨rfl, rfl, rfl, rfl⟩ (rested_of_quiet hquiet rfl)
    · split at h
      · have heffect := effect_join c now l hquiet
        rwa [Option.some.inj h] at heffect
      · cases h
  | listening =>
    simp only [hphase] at h
    split at h
    · cases h
      exact effect_leaving false rfl .rfl
    · exact effect_listen h
  | draining next =>
    simp only [hphase] at h
    split at h
    · rename_i hfinished
      cases h
      obtain ⟨hw, hp, hs, hr⟩ := goOn_eq { c with
        workers := [], state := .stopped, phase := .draining next } next rfl
      have hclaims : c.promised = next.claims := by rw [promised, hphase]
      have hkept : Kept c { c with workers := [], state := .stopped, phase := .draining next } :=
        ⟨rfl, rfl, rfl, rfl⟩
      refine .release (List.all_eq_true.mp hfinished) ?_ hp (hkept.trans hs) hr
      rw [hw, hclaims]
      rfl
    · cases h
  | leaving failed =>
    have hquiet : c.isWorking = false := by rw [isWorking, hphase]
    simp only [hphase] at h
    have heffect := effect_leave c now l failed hquiet
    rwa [Option.some.inj h] at heffect
  | backingOff due =>
    have hquiet : c.isWorking = false := by rw [isWorking, hphase]
    simp only [hphase] at h
    split at h
    · cases h
      exact .goOn rfl rfl ⟨rfl, rfl, rfl, rfl⟩ (rested_of_quiet hquiet rfl)
    · split at h
      · cases h
        exact .goOn rfl rfl ⟨rfl, rfl, rfl, rfl⟩ (rested_of_quiet hquiet rfl)
      · cases h

theorem effect_of_lateStep? {c c' : Consumer} {now : ℕ} {l l' : Log}
    (h : c.lateStep? now l = some (l', c')) : Effect c l l' c' := by
  rw [lateStep?] at h
  cases hphase : c.phase with
  | joining due =>
    have hquiet : c.isWorking = false := by rw [isWorking, hphase]
    simp only [hphase] at h
    split at h
    · have heffect := effect_join c now l hquiet
      rwa [Option.some.inj h] at heffect
    · cases h
  | listening =>
    simp only [hphase] at h
    exact effect_listen h
  | backingOff due =>
    have hquiet : c.isWorking = false := by rw [isWorking, hphase]
    simp only [hphase] at h
    split at h
    · cases h
      exact .goOn rfl rfl ⟨rfl, rfl, rfl, rfl⟩ (rested_of_quiet hquiet rfl)
    · cases h
  | unstarted | beginning | draining | leaving | ended => simp [hphase] at h

theorem Effect.kept {c c' : Consumer} {l l' : Log} (h : Effect c l l' c') : Kept c c' := by
  cases h with
  | goOn _ _ kept | join _ _ _ kept | hear _ _ _ kept | takeUp _ _ _ _ kept
  | release _ _ _ kept | leave _ _ kept => exact kept

/-- A loop that takes a step has begun and has not ended. -/
theorem going_of_step? {c c' : Consumer} {now : ℕ} {l l' : Log}
    (h : c.step? now l = some (l', c')) : c.phase ≠ .unstarted ∧ c.phase ≠ .ended := by
  constructor <;> intro hphase <;> simp [step?, hphase] at h

theorem going_of_lateStep? {c c' : Consumer} {now : ℕ} {l l' : Log}
    (h : c.lateStep? now l = some (l', c')) : c.phase ≠ .unstarted ∧ c.phase ≠ .ended := by
  constructor <;> intro hphase <;> simp [lateStep?, hphase] at h

theorem Effect.topics {c c' : Consumer} {l l' : Log} (h : Effect c l l' c') :
    l'.topics = l.topics := by
  cases h with
  | goOn | release => rfl
  | join joined => exact Log.topics_join joined
  | hear told | takeUp told => exact Log.topics_nextEvent told
  | leave => exact Log.topics_updateGroup _ _ _ _

/-! ### Starting -/

/-- Only a consumer that has been neither started nor stopped can be started. -/
theorem of_start {c c' : Consumer} (h : c.start = .ok c') : c.stopping = false ∧
    c.hasHandle = false ∧ c' = { c with hasHandle := true, phase := .beginning } := by
  cases hcheck : c.checkStart with
  | error e =>
    rw [start, hcheck] at h
    cases h
  | ok u =>
    rw [start, hcheck] at h
    have hstopping : c.stopping = false := by
      rw [checkStart] at hcheck
      split at hcheck
      · cases hcheck
      · split at hcheck
        · cases hcheck
        · rename_i hstopping
          exact Bool.of_not_eq_true hstopping
    change c.install = .ok c' at h
    rw [install] at h
    split at h
    · cases h
    · rename_i hhandle
      cases h
      exact ⟨hstopping, Bool.of_not_eq_true hhandle, rfl⟩

theorem Orderly.start {c : Consumer} (h : c.Orderly) (hstopping : c.stopping = false)
    (hhandle : c.hasHandle = false) :
    Orderly { c with hasHandle := true, phase := .beginning } := by
  refine ⟨fun _ => h.rested ?_, nofun⟩
  rw [isWorking, h.unstarted hhandle hstopping]

/-- A step of a session loop keeps the consumer orderly. -/
theorem Effect.orderly {c c' : Consumer} {l l' : Log} (h : Effect c l l' c')
    (hstarted : c.phase ≠ .unstarted) (ho : c.Orderly) : c'.Orderly := by
  have hnever : Kept c c' → c'.hasHandle = false → c'.stopping = false → c'.phase = .unstarted := by
    intro hkept hhandle hstopping
    rw [hkept.hasHandle] at hhandle
    rw [hkept.stopping] at hstopping
    exact (hstarted (ho.unstarted hhandle hstopping)).elim
  cases h with
  | goOn workers promised kept rested | leave workers promised kept rested =>
    exact ⟨rested ho.rested, hnever kept⟩
  | join _ _ _ kept rested | hear _ _ _ kept rested | takeUp _ _ _ _ kept rested
  | release _ _ _ kept rested => exact ⟨rested, hnever kept⟩

end Consumer

end SmsRelay
