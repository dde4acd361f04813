import SmsRelay.Proofs.Claim.Coverage
import SmsRelay.Proofs.Consumer.Stopping

/-!
# The steps of a session loop one by one

A session loop makes known what it does. When all its workers have returned it makes known that they
have, and may go on in the same breath with claims that have been granted meanwhile; here these are
two steps, so that every state that is made known can be seen.

## Implementation notes

`Advance` says what a step does to the state made known, to the membership and to the staff. It is
proved for a consumer whose state fits its phase, and says that it still does, so that nothing has
to be looked up in the step again.

The notes of a step are what the consumer and the group tell each other: it has joined, it has left,
it has heard of an event. `notes` reads them off what is before and after the step.

## Main results

* `step?_eq_proceed?`: a step of the loop is one or two of the steps looked at here.
* `proceeds_of_proceed?`: all that such a step can do.
* `Proceeds.notes_true`: what the notes of a step say is true of the log.
* `Proceeds.advance`: what a step does when the state made known fits the phase.
-/

namespace SmsRelay

/-- With what a session loop goes on at an event. -/
def SessionEvent.next : SessionEvent → AfterDrain
  | granted _ claims => .grant claims
  | revoked _ => .listen
  | closed => .leave false

/-- The claims of a grant with which the loop goes on, none if it goes on otherwise. -/
def AfterDrain.offers : AfterDrain → List (List Claim)
  | grant claims => [claims]
  | _ => []

/-- The phases of a started loop that is in no session and has not ended. -/
def SessionPhase.isAway : SessionPhase → Bool
  | beginning | joining _ | backingOff _ => true
  | _ => false

/-- What a consumer and its group tell each other. -/
inductive SessionNote where
  | joined (member : ℕ)
  | heard (e : SessionEvent)
  | left (member : ℕ)

namespace SessionNote

/-- The member as which the consumer joins. -/
@[simp] def joined? : SessionNote → Option ℕ
  | joined member => some member
  | _ => none

/-- The member as which the consumer leaves. -/
@[simp] def left? : SessionNote → Option ℕ
  | left member => some member
  | _ => none

/-- The claims that the consumer is granted. -/
@[simp] def granted? : SessionNote → Option (List Claim)
  | heard (.granted _ claims) => some claims
  | _ => none

end SessionNote

namespace Consumer

/-- A step of the session loop that makes at most one state known: that the workers have returned is
a step of its own. -/
def shortStep? (c : Consumer) (now : ℕ) (l : Log) : Option (Log × Consumer) :=
  match c.phase with
  | .draining _ =>
    if c.workers.isEmpty then c.step? now l
    else if c.workers.all (·.isFinished) then some (l, { c with workers := [], state := .stopped })
    else none
  | _ => c.step? now l

/-- A step of the loop, which may fail to notice that the consumer has been stopped. -/
def proceed? (c : Consumer) (heeding : Bool) (now : ℕ) (l : Log) : Option (Log × Consumer) :=
  if heeding then c.shortStep? now l else c.lateStep? now l

/-- **A step of the loop** is one of these steps or two, of which the first leaves the log alone. -/
theorem step?_eq_proceed? {c : Consumer} {now : ℕ} {l : Log} {p : Log × Consumer}
    (h : c.step? now l = some p) : c.proceed? true now l = some p ∨
      ∃ c₁, c.proceed? true now l = some (l, c₁) ∧ c₁.proceed? true now l = some p := by
  simp only [proceed?, if_true]
  cases hphase : c.phase with
  | draining next =>
    cases hidle : c.workers.isEmpty with
    | true => exact .inl (by simpa [shortStep?, hphase, hidle] using h)
    | false =>
      simp only [step?, hphase] at h
      split at h
      · rename_i hfinished
        refine .inr ⟨{ c with workers := [], state := .stopped }, ?_, ?_⟩
        · simp [shortStep?, hphase, hidle, hfinished]
        · simpa [shortStep?, step?, hphase] using h
      · cases h
  | unstarted | beginning | joining | listening | leaving | backingOff | ended =>
    exact .inl (by simpa only [shortStep?, hphase] using h)

/-- The event of which a consumer hears when it listens. -/
def hears? (c : Consumer) (l : Log) : Option SessionEvent :=
  if c.transport.broken then none
  else c.member.bind fun member => (l.nextEvent c.settings.group c.settings.topic member).1

/-- The notes of a step to `c'`. -/
def notes (c : Consumer) (heeding : Bool) (l : Log) (c' : Consumer) : List SessionNote :=
  match c.phase with
  | .joining _ => if c'.phase = .listening then c'.member.toList.map .joined else []
  | .listening => if heeding && c.stopping then [] else (c.hears? l).toList.map .heard
  | .leaving _ => c.member.toList.map .left
  | _ => []

/-- The claims granted while workers of an earlier grant drain. -/
def offers (c : Consumer) : List (List Claim) :=
  match c.phase with
  | .draining next => next.offers
  | _ => []

/-- What a note says of a step in which the log goes from `l` to `l'`. -/
def Says (c : Consumer) (l l' : Log) : SessionNote → Prop
  | .joined member => l.join c.settings.group c.settings.topic = .ok (member, l')
  | .heard e => ∃ member, c.member = some member ∧
      l.nextEvent c.settings.group c.settings.topic member = (some e, l')
  | .left member => l' = l.leave c.settings.group c.settings.topic member

theorem says_join {c : Consumer} {now : ℕ} {l : Log} {n : SessionNote}
    (hn : n ∈ if (c.join now l).2.phase = .listening
      then (c.join now l).2.member.toList.map .joined else []) :
    c.Says l (c.join now l).1 n := by
  rw [join] at hn ⊢
  split
  · rename_i h
    rw [if_pos h, if_neg (by rintro ⟨⟩)] at hn
    cases hn
  · rename_i h
    rw [if_neg h] at hn
    split
    · rename_i m l' hjoin
      simp only [hjoin, if_true, Option.toList_some, List.map_cons, List.map_nil,
        List.mem_singleton] at hn
      subst hn
      exact hjoin
    · rename_i e hjoin
      simp only [hjoin] at hn
      rw [if_neg (by rintro ⟨⟩)] at hn
      cases hn

theorem says_listen {c c' : Consumer} {l l' : Log} (h : c.listen? l = some (l', c'))
    {n : SessionNote} (hn : n ∈ (c.hears? l).toList.map .heard) : c.Says l l' n := by
  rw [listen?] at h
  rw [hears?] at hn
  split at h
  · rename_i hbroken
    rw [if_pos hbroken] at hn
    cases hn
  · rename_i hbroken
    rw [if_neg hbroken] at hn
    split at h
    · cases h
    · rename_i member hmember
      split at h
      · rename_i e l₁ hnext
        cases h
        rw [hmember, Option.bind_some, hnext] at hn
        obtain rfl := List.mem_singleton.mp hn
        exact ⟨member, hmember, hnext⟩
      · cases h

/-- What a step of the loop is, and what is noted of it. -/
inductive Proceeds (c : Consumer) (now : ℕ) (l : Log) :
    Log → Consumer → List SessionNote → Prop
  /-- A loop that is in no session has been told to stop. -/
  | finish (away : c.phase.isAway) : Proceeds c now l l c.finish []
  | attempt (phase : c.phase = .beginning) : Proceeds c now l l { c with
      state := .idle, joins := c.joins + 1, phase := .joining (now + c.transport.joinDelay) } []
  | join {due : ℕ} (phase : c.phase = .joining due) :
      Proceeds c now l (c.join now l).1 (c.join now l).2
        (if (c.join now l).2.phase = .listening
          then (c.join now l).2.member.toList.map .joined else [])
  | again {due : ℕ} (phase : c.phase = .backingOff due) :
      Proceeds c now l l { c with phase := .beginning } []
  /-- A loop that is in a session has been told to stop. -/
  | stop (phase : c.phase = .listening) : Proceeds c now l l (c.drain (.leave false)) []
  | listen {l' : Log} {c' : Consumer} (phase : c.phase = .listening)
      (listened : c.listen? l = some (l', c')) :
      Proceeds c now l l' c' ((c.hears? l).toList.map .heard)
  /-- All workers have returned. -/
  | release {next : AfterDrain} (phase : c.phase = .draining next) (working : c.workers ≠ [])
      (finished : ∀ w ∈ c.workers, w.isFinished) :
      Proceeds c now l l { c with workers := [], state := .stopped } []
  | goOn {next : AfterDrain} (phase : c.phase = .draining next) (idle : c.workers = []) :
      Proceeds c now l l ({ c with workers := [], state := .stopped }.goOn next) []
  | leave {failed : Bool} (phase : c.phase = .leaving failed) :
      Proceeds c now l (c.leave now l failed).1 (c.leave now l failed).2
        (c.member.toList.map .left)

theorem proceeds_of_shortStep? {c c' : Consumer} {now : ℕ} {l l' : Log}
    (h : c.shortStep? now l = some (l', c')) : c.Proceeds now l l' c' (c.notes true l c') := by
  rw [notes]
  cases hphase : c.phase with
  | unstarted | ended => simp [shortStep?, step?, hphase] at h
  | beginning =>
    simp only [shortStep?, step?, hphase] at h
    split at h
    · cases h
      exact .finish (by rw [hphase]; rfl)
    · cases h
      exact .attempt hphase
  | joining due =>
    simp only [shortStep?, step?, hphase] at h
    split at h
    · cases h
      rw [if_neg (by rintro ⟨⟩)]
      exact .finish (by rw [hphase]; rfl)
    · have hjoin : c.Proceeds now l _ _ _ := .join hphase
      rwa [Option.some.inj (Option.ite_none_right_eq_some.mp h).2] at hjoin
  | listening =>
    simp only [shortStep?, step?, hphase] at h
    rw [Bool.true_and]
    split at h
    · rename_i hstopping
      cases h
      rw [if_pos hstopping]
      exact .stop hphase
    · rename_i hrunning
      rw [if_neg hrunning]
      exact .listen hphase h
  | draining next =>
    simp only [shortStep?, hphase] at h
    split at h
    · rename_i hidle
      have hidle := List.isEmpty_iff.mp hidle
      simp only [step?, hphase, hidle, List.all_nil, if_true] at h
      cases h
      have hgoOn : c.Proceeds now l l _ [] := .goOn hphase hidle
      rwa [hphase] at hgoOn
    · rename_i hworking
      obtain ⟨hfinished, h⟩ := Option.ite_none_right_eq_some.mp h
      cases h
      have hrelease : c.Proceeds now l l _ [] := .release hphase
        (fun hidle => hworking (List.isEmpty_iff.mpr hidle)) (List.all_eq_true.mp hfinished)
      rwa [hphase] at hrelease
  | leaving failed =>
    simp only [shortStep?, step?, hphase] at h
    have hleave : c.Proceeds now l _ _ _ := .leave hphase
    rwa [Option.some.inj h] at hleave
  | backingOff due =>
    simp only [shortStep?, step?, hphase] at h
    split at h
    · cases h
      exact .finish (by rw [hphase]; rfl)
    · obtain ⟨-, h⟩ := Option.ite_none_right_eq_some.mp h
      cases h
      exact .again hphase

theorem proceeds_of_lateStep? {c c' : Consumer} {now : ℕ} {l l' : Log}
    (h : c.lateStep? now l = some (l', c')) : c.Proceeds now l l' c' (c.notes false l c') := by
  rw [notes]
  cases hphase : c.phase with
  | unstarted | beginning | draining | leaving | ended => simp [lateStep?, hphase] at h
  | joining due =>
    simp only [lateStep?, hphase] at h
    have hjoin : c.Proceeds now l _ _ _ := .join hphase
    rwa [Option.some.inj (Option.ite_none_right_eq_some.mp h).2] at hjoin
  | listening =>
    simp only [lateStep?, hphase] at h
    exact .listen hphase h
  | backingOff due =>
    simp only [lateStep?, hphase] at h
    obtain ⟨-, h⟩ := Option.ite_none_right_eq_some.mp h
    cases h
    exact .again hphase

/-- **All that a step of the loop can do.** -/
theorem proceeds_of_proceed? {c c' : Consumer} {heeding : Bool} {now : ℕ} {l l' : Log}
    (h : c.proceed? heeding now l = some (l', c')) :
    c.Proceeds now l l' c' (c.notes heeding l c') := by
  cases heeding with
  | true => exact proceeds_of_shortStep? h
  | false => exact proceeds_of_lateStep? h

/-- **The notes of a step** are true. -/
theorem Proceeds.notes_true {c c' : Consumer} {now : ℕ} {l l' : Log} {ns : List SessionNote}
    (h : c.Proceeds now l l' c' ns) {n : SessionNote} (hn : n ∈ ns) : c.Says l l' n := by
  cases h with
  | finish | attempt | again | stop | release | goOn => cases hn
  | join => exact says_join hn
  | listen phase listened => exact says_listen listened hn
  | leave phase =>
    cases hmember : c.member with
    | none =>
      rw [hmember] at hn
      cases hn
    | some member =>
      rw [hmember] at hn
      obtain rfl := List.mem_singleton.mp hn
      rw [Says, Consumer.leave, hmember]

/-! ### State and phase -/

/-- Nobody is at work, and the state made known says so. -/
structure Resting (c : Consumer) : Prop where
  state : c.state = .idle ∨ c.state = .stopped
  workers : c.workers = []

/-- The state that a consumer has made known fits what its loop is doing. -/
def Posture (c : Consumer) : Prop :=
  match c.phase with
  | .unstarted => False
  | .beginning | .joining _ | .backingOff _ => c.Resting ∧ c.member = none
  | .listening => c.Resting ∨ c.state = .claimed ∧ c.workers ≠ []
  | .draining _ => c.state = .stopped ∧ c.workers = [] ∨ c.state = .draining ∧ c.workers ≠ []
  | .leaving _ => c.Resting
  | .ended => c.state = .stopped ∧ c.workers = [] ∧ c.member = none

/-- The posture does not depend on which workers there are, but on whether there are any. -/
theorem Posture.keep {c c' : Consumer} (h : c.Posture) (phase : c'.phase = c.phase)
    (state : c'.state = c.state) (workers : c'.workers = [] ↔ c.workers = [])
    (member : c'.member = c.member) : c'.Posture := by
  have hrest : c.Resting → c'.Resting := fun h => ⟨state ▸ h.state, workers.mpr h.workers⟩
  rw [Posture] at h ⊢
  rw [phase, state, member, ne_eq, workers]
  split at h
  · exact h
  · exact ⟨hrest h.1, h.2⟩
  · exact ⟨hrest h.1, h.2⟩
  · exact ⟨hrest h.1, h.2⟩
  · exact h.imp_left hrest
  · exact h
  · exact hrest h
  · exact h

/-- A consumer that has made known that it is idle or has stopped has no workers. -/
theorem Posture.workers {c : Consumer} (h : c.Posture)
    (state : c.state = .idle ∨ c.state = .stopped) : c.workers = [] := by
  have hworking : c.state ≠ .claimed ∧ c.state ≠ .draining := by
    rcases state with h | h <;> rw [h] <;> exact ⟨nofun, nofun⟩
  rw [Posture] at h
  split at h
  · exact h.elim
  · exact h.1.workers
  · exact h.1.workers
  · exact h.1.workers
  · exact h.elim (·.workers) fun h => (hworking.1 h.1).elim
  · exact h.elim (·.2) fun h => (hworking.2 h.1).elim
  · exact h.workers
  · exact h.2.1

theorem Posture.ended {c : Consumer} (h : c.Posture) (phase : c.phase = .ended) :
    c.state = .stopped ∧ c.workers = [] ∧ c.member = none := by
  rwa [Posture, phase] at h

theorem Posture.started {c : Consumer} (h : c.Posture) : c.phase ≠ .unstarted := by
  intro hphase
  rwa [Posture, hphase] at h

/-- A loop that is in no session has no workers, and no grant waits for it. -/
theorem Posture.away {c : Consumer} (h : c.Posture) (away : c.phase.isAway) :
    c.Resting ∧ c.member = none ∧ c.offers = [] := by
  rw [Posture] at h
  rw [offers]
  cases hphase : c.phase with
  | beginning | joining | backingOff =>
    rw [hphase] at h
    exact ⟨h.1, h.2, rfl⟩
  | unstarted | listening | draining | leaving | ended =>
    rw [hphase] at away
    cases away

theorem Resting.ne {c : Consumer} (h : c.Resting) {s : ClaimState} (hs : c.state = s) :
    s ≠ .claimed ∧ s ≠ .draining := by
  subst hs
  rcases h.state with h | h <;> rw [h] <;> exact ⟨nofun, nofun⟩

/-- What a step does to the staff, where `granted` are the grants of which it has heard. -/
inductive Staffing (c : Consumer) (granted : List (List Claim)) (c' : Consumer) : Prop
  /-- The workers stay; once they have been told to drain they remain so. -/
  | keep (workers : c'.workers = c.workers)
      (cancelled : c.claimsCancelled = true → c'.claimsCancelled = true)
      (offers : c'.offers = c.offers ++ granted)
  /-- All workers have returned. -/
  | release (workers : c.workers ≠ []) (finished : ∀ w ∈ c.workers, w.isFinished)
      (none : c'.workers = []) (offers : c'.offers = c.offers ++ granted)
  /-- There are no workers, and a grant is taken up. -/
  | takeUp {claims : List Claim} (idle : c.workers = [])
      (workers : c'.workers = claims.map c.employ) (taken : c.offers ++ granted = [claims])
      (offers : c'.offers = [])

/-- What a step does, with the notes that it shows. -/
structure Advance (c : Consumer) (ns : List SessionNote) (c' : Consumer) : Prop where
  kept : Kept c c'
  posture : c'.Posture
  claimed : c.state = .claimed → c'.state = .claimed ∨ c'.state = .draining
  draining : c.state = .draining → c'.state = .draining ∨ c'.state = .stopped
  membership : c.member.toList ++ ns.filterMap SessionNote.joined?
    = ns.filterMap SessionNote.left? ++ c'.member.toList
  staffing : c.Staffing (ns.filterMap SessionNote.granted?) c'

/-- The notes of a step in a session before the consumer leaves: it hears of one event at most. -/
structure Hearing (c : Consumer) (ns : List SessionNote) (next : AfterDrain) : Prop where
  joined : ns.filterMap SessionNote.joined? = []
  left : ns.filterMap SessionNote.left? = []
  offers : c.offers ++ ns.filterMap SessionNote.granted? = next.offers

theorem Hearing.heard {c : Consumer} (h : c.offers = []) (e : SessionEvent) :
    c.Hearing [.heard e] e.next := by
  cases e <;> exact ⟨rfl, rfl, by rw [h]; rfl⟩

theorem Hearing.silent {c : Consumer} {next : AfterDrain} (h : c.offers = next.offers) :
    c.Hearing [] next :=
  ⟨rfl, rfl, by rw [← h]; exact List.append_nil _⟩

/-- A step of a consumer that rests. -/
theorem Resting.advance {c c' : Consumer} (h : c.Resting) {ns : List SessionNote}
    (kept : Kept c c') (posture : c'.Posture)
    (membership : c.member.toList ++ ns.filterMap SessionNote.joined?
      = ns.filterMap SessionNote.left? ++ c'.member.toList)
    (staffing : c.Staffing (ns.filterMap SessionNote.granted?) c') : c.Advance ns c' :=
  ⟨kept, posture, fun hs => absurd rfl (h.ne hs).1, fun hs => absurd rfl (h.ne hs).2, membership,
    staffing⟩

/-- **Going on** when nobody is at work. -/
theorem Resting.goOn {c : Consumer} (h : c.Resting) {next : AfterDrain} {ns : List SessionNote}
    (transport : Transport) (hearing : c.Hearing ns next) :
    c.Advance ns ({ c with transport := transport }.goOn next) := by
  obtain ⟨hjoined, hleft, hoffers⟩ := hearing
  have hmembership : ∀ c' : Consumer, c'.member = c.member → c.member.toList
      ++ ns.filterMap SessionNote.joined? = ns.filterMap SessionNote.left? ++ c'.member.toList := by
    intro c' hmember
    rw [hjoined, hleft, hmember]
    exact List.append_nil _
  cases next with
  | grant claims =>
    have taken : c.Staffing (ns.filterMap SessionNote.granted?)
        ({ c with transport := transport }.takeUp claims) := by
      refine .takeUp h.workers ?_ hoffers ?_
      · exact (takeUp_eq { c with transport := transport } claims h.workers).1
      · cases claims <;> rfl
    cases claims with
    | nil =>
      exact h.advance ⟨rfl, rfl, rfl, rfl⟩ (.inl ⟨.inl rfl, h.workers⟩) (hmembership _ rfl) taken
    | cons claim rest =>
      exact h.advance ⟨rfl, rfl, rfl, rfl⟩ (.inr ⟨rfl, List.cons_ne_nil _ _⟩) (hmembership _ rfl)
        taken
  | listen =>
    exact h.advance ⟨rfl, rfl, rfl, rfl⟩ (.inl ⟨h.state, h.workers⟩) (hmembership _ rfl)
      (.keep rfl id hoffers.symm)
  | leave failed =>
    exact h.advance ⟨rfl, rfl, rfl, rfl⟩ ⟨h.state, h.workers⟩ (hmembership _ rfl)
      (.keep rfl id hoffers.symm)

/-- **Draining** from a session in which the loop listens. -/
theorem advance_drain {c : Consumer} (hp : c.Posture) (hphase : c.phase = .listening)
    {next : AfterDrain} {ns : List SessionNote} (transport : Transport)
    (hearing : c.Hearing ns next) :
    c.Advance ns ({ c with transport := transport }.drain next) := by
  rw [Posture, hphase] at hp
  rw [drain]
  split
  · rename_i hidle
    rcases hp with hrest | ⟨-, hworking⟩
    · exact hrest.goOn transport hearing
    · exact (hworking (List.isEmpty_iff.mp hidle)).elim
  · rename_i hworking
    have hworking : c.workers ≠ [] := fun h => hworking (List.isEmpty_iff.mpr h)
    obtain ⟨hjoined, hleft, hnext⟩ := hearing
    refine ⟨⟨rfl, rfl, rfl, rfl⟩, .inr ⟨rfl, hworking⟩, fun _ => .inr rfl, fun _ => .inl rfl, ?_,
      .keep rfl (fun _ => rfl) hnext.symm⟩
    rw [hjoined, hleft]
    exact List.append_nil _

/-- **The workers have returned.** -/
theorem advance_release {c : Consumer} {next : AfterDrain} (hp : c.Posture)
    (hphase : c.phase = .draining next) (working : c.workers ≠ [])
    (finished : ∀ w ∈ c.workers, w.isFinished) :
    c.Advance [] { c with workers := [], state := .stopped } := by
  have hposture : Posture { c with workers := [], state := .stopped } := by
    rw [Posture, hphase]
    exact .inl ⟨rfl, rfl⟩
  rw [Posture, hphase] at hp
  obtain ⟨hstate, -⟩ := hp.resolve_left fun h => working h.2
  refine ⟨⟨rfl, rfl, rfl, rfl⟩, hposture, fun h => ?_, fun _ => .inr rfl, List.append_nil _,
    .release working finished rfl (List.append_nil _).symm⟩
  rw [hstate] at h
  cases h

/-- **Going on** when all workers have returned. -/
theorem advance_goOn {c : Consumer} {next : AfterDrain} (hp : c.Posture)
    (hphase : c.phase = .draining next) (idle : c.workers = []) :
    c.Advance [] ({ c with workers := [], state := .stopped }.goOn next) := by
  rw [Posture, hphase] at hp
  obtain ⟨hstate, -⟩ := hp.resolve_right fun h => h.2 idle
  have hsame : { c with workers := [], state := .stopped } = c := by rw [← idle, ← hstate]
  rw [hsame]
  exact Resting.goOn ⟨.inr hstate, idle⟩ c.transport (.silent (by rw [offers, hphase]))

/-- **Joining**, with what the log says to it. -/
theorem advance_join {c : Consumer} {due : ℕ} (hp : c.Posture) (hphase : c.phase = .joining due)
    (now : ℕ) (l : Log) :
    c.Advance (if (c.join now l).2.phase = .listening
      then (c.join now l).2.member.toList.map .joined else []) (c.join now l).2 := by
  have hoffers : c.offers = [] := by rw [offers, hphase]
  rw [Posture, hphase] at hp
  obtain ⟨hrest, hmember⟩ := hp
  have hretry : ∀ transport : Transport,
      c.Advance [] ({ c with transport := transport }.retry now) := fun transport =>
    hrest.advance ⟨rfl, rfl, rfl, rfl⟩ ⟨⟨.inr rfl, hrest.workers⟩, hmember⟩ (List.append_nil _)
      (.keep rfl id (by rw [hoffers]; rfl))
  rw [join]
  split
  · rw [if_neg (by rintro ⟨⟩)]
    exact hretry _
  · split
    · rw [if_pos rfl]
      exact hrest.advance ⟨rfl, rfl, rfl, rfl⟩ (.inl ⟨hrest.state, hrest.workers⟩)
        (by rw [hmember]; rfl) (.keep rfl id (by rw [hoffers]; rfl))
    · rw [if_neg (by rintro ⟨⟩)]
      exact hretry c.transport

/-- **Leaving** the group. -/
theorem advance_leave {c : Consumer} {failed : Bool} (hp : c.Posture)
    (hphase : c.phase = .leaving failed) (now : ℕ) (l : Log) :
    c.Advance (c.member.toList.map .left) (c.leave now l failed).2 := by
  have hoffers : c.offers = [] := by rw [offers, hphase]
  have hgranted : (c.member.toList.map SessionNote.left).filterMap SessionNote.granted? = [] := by
    cases c.member <;> rfl
  have hmembership : c.member.toList ++ (c.member.toList.map SessionNote.left).filterMap
      SessionNote.joined? = (c.member.toList.map SessionNote.left).filterMap SessionNote.left?
        ++ (none : Option ℕ).toList := by
    cases c.member <;> rfl
  rw [Posture, hphase] at hp
  cases failed with
  | true =>
    exact hp.advance ⟨rfl, rfl, rfl, rfl⟩ ⟨⟨.inr rfl, hp.workers⟩, rfl⟩ hmembership
      (.keep rfl id (by rw [hoffers, hgranted]; rfl))
  | false =>
    exact hp.advance ⟨rfl, rfl, rfl, rfl⟩ ⟨rfl, hp.workers, rfl⟩ hmembership
      (.keep rfl id (by rw [hoffers, hgranted]; rfl))

/-- **Listening**, when an event has come or the session breaks. -/
theorem advance_listen {c c' : Consumer} {l l' : Log} (hp : c.Posture)
    (hphase : c.phase = .listening) (h : c.listen? l = some (l', c')) :
    c.Advance ((c.hears? l).toList.map .heard) c' := by
  have hoffers : c.offers = [] := by rw [offers, hphase]
  rw [listen?] at h
  rw [hears?]
  split at h
  · rename_i hbroken
    cases h
    rw [if_pos hbroken]
    exact advance_drain hp hphase _ (.silent hoffers)
  · rename_i hbroken
    rw [if_neg hbroken]
    split at h
    · cases h
    · rename_i member hmember
      split at h
      · rename_i e l₁ hnext
        cases h
        have hevent : c.onEvent e = { c with transport := c.transport }.drain e.next := by
          cases e <;> rfl
        rw [hmember, Option.bind_some, hnext, hevent]
        exact advance_drain hp hphase c.transport (.heard hoffers e)
      · cases h

/-- **A step outside a session** by which the consumer does not enter one. -/
theorem Resting.stay {c c' : Consumer} (h : c.Resting) (member : c.member = none)
    (offers : c.offers = []) (kept : Kept c c') (posture : c'.Posture)
    (member' : c'.member = c.member) (workers : c'.workers = c.workers)
    (cancelled : c'.claimsCancelled = c.claimsCancelled) (offers' : c'.offers = []) :
    c.Advance [] c' :=
  h.advance kept posture (by rw [member', member]; rfl)
    (.keep workers (fun h => cancelled.trans h) (by rw [offers, offers']; rfl))

/-- A loop that takes a step has begun and has not ended. -/
theorem Proceeds.going {c c' : Consumer} {now : ℕ} {l l' : Log} {ns : List SessionNote}
    (h : c.Proceeds now l l' c' ns) : c.phase ≠ .unstarted ∧ c.phase ≠ .ended := by
  cases h with
  | finish away => constructor <;> intro hphase <;> rw [hphase] at away <;> cases away
  | attempt phase | join phase | again phase | stop phase | listen phase | release phase
  | goOn phase | leave phase => rw [phase]; exact ⟨nofun, nofun⟩

/-- A step of the loop leaves alone what concerns the stop of the consumer. -/
theorem Advance.undisturbed {c c' : Consumer} {ns : List SessionNote} (h : c.Advance ns c')
    (going : c.phase ≠ .unstarted ∧ c.phase ≠ .ended) : Undisturbed c c' :=
  ⟨h.kept.stopping, fun _ => h.kept.hasHandle, fun _ h => (h.elim going.2 going.1).elim⟩

/-- **What a step does** when the state made known fits the phase. -/
theorem Proceeds.advance {c c' : Consumer} {now : ℕ} {l l' : Log} {ns : List SessionNote}
    (h : c.Proceeds now l l' c' ns) (hp : c.Posture) : c.Advance ns c' := by
  cases h with
  | finish away =>
    obtain ⟨hrest, hmember, hoffers⟩ := hp.away away
    exact hrest.stay hmember hoffers ⟨rfl, rfl, rfl, rfl⟩ ⟨rfl, hrest.workers, hmember⟩ rfl rfl rfl
      rfl
  | attempt phase =>
    obtain ⟨hrest, hmember, hoffers⟩ := hp.away (by rw [phase]; rfl)
    exact hrest.stay hmember hoffers ⟨rfl, rfl, rfl, rfl⟩ ⟨⟨.inl rfl, hrest.workers⟩, hmember⟩ rfl
      rfl rfl rfl
  | join phase => exact advance_join hp phase now l
  | again phase =>
    obtain ⟨hrest, hmember, hoffers⟩ := hp.away (by rw [phase]; rfl)
    exact hrest.stay hmember hoffers ⟨rfl, rfl, rfl, rfl⟩ ⟨⟨hrest.state, hrest.workers⟩, hmember⟩
      rfl rfl rfl rfl
  | stop phase =>
    exact advance_drain hp phase c.transport (.silent (by rw [offers, phase]; rfl))
  | listen phase listened => exact advance_listen hp phase listened
  | release phase working finished => exact advance_release hp phase working finished
  | goOn phase idle => exact advance_goOn hp phase idle
  | leave phase => exact advance_leave hp phase now l

end Consumer

end SmsRelay
