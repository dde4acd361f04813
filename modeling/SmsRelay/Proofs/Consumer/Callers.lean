import SmsRelay.Proofs.Consumer.Machine
import SmsRelay.Proofs.Places

/-!
# Those who start and stop a consumer

Any number of callers may start and stop a consumer at the same time. A start first looks at the
settings and at whether the consumer has been told to stop, and installs a session loop later. A
stop first tells the consumer to stop, takes the handle of the loop later, and waits for the loop if
it has got one. In between others may act, and the loops that have been installed go on.

## Implementation notes

Calls have numbers, in the order in which they were made, and so have loops. Of `consumer` only what
the callers share matters: the settings, whether the consumer has been told to stop, and whether
there is a handle to take, which is always that of the last loop. Each loop is a `ConsumerLife`; it
hears at once when the consumer is told to stop. A loop that is installed when the consumer has been
told to stop does nothing but end, so the metrics and the way to the log, of which each loop has its
own here, are used by the first loop only.

A stop is meant to wait until the workers have drained their claims and the group has been left.
Whoever comes when the handle has been taken waits for nothing: this stop returns while the loop is
still on its way to its end. `Run.stop_overtaken` shows it, and `Run.settled_by_stop` gives the
condition under which a stop that has returned means what it is meant to: no other stop is still
waiting for the first loop. A record that is no message is settled by being dropped.

## Main results

* `Sound.move`: what is known of calls and loops is kept by every move.
* `Run.single`: one loop at most is ever in the group.
* `Run.settled_by_stop`: what holds when a stop has returned, and when it holds.
* `Run.stop_overtaken`: a stop that returns too early.
-/

namespace SmsRelay

/-- How far a call to start a consumer has come. -/
inductive StartCall where
  | called
  /-- Nothing speaks against a start. -/
  | checked
  | started
  | refused (e : ConsumerError)
  deriving DecidableEq

/-- How far a call to stop a consumer has come. -/
inductive StopCall where
  | called
  /-- The consumer has been told to stop. -/
  | cancelled
  /-- The handle has been asked for, and the loop is the one whose handle was there. -/
  | waiting (loop : Option ℕ)
  | returned (loop : Option ℕ)
  deriving DecidableEq

namespace StopCall

/-- The handle has been asked for. -/
def hasAsked : StopCall → Bool
  | called | cancelled => false
  | waiting _ | returned _ => true

/-- The loop whose handle the call has taken. -/
def taken? : StopCall → Option ℕ
  | called | cancelled => none
  | waiting loop | returned loop => loop

/-- The call has returned. -/
def hasReturned : StopCall → Bool
  | returned _ => true
  | _ => false

/-- What a call has taken it keeps. -/
theorem taken_set {calls : List StopCall} {i k : ℕ} {c c' : StopCall} (found : calls[i]? = some c)
    (keeps : c.taken? = some k → c'.taken? = some k) (h : ∃ x ∈ calls, x.taken? = some k) :
    ∃ x ∈ calls.set i c', x.taken? = some k := by
  obtain ⟨x, hx, htaken⟩ := h
  rcases mem_or_mem_set c' found hx with rfl | hx
  · exact ⟨c', mem_set_self c' found, keeps htaken⟩
  · exact ⟨x, hx, htaken⟩

end StopCall

namespace ConsumerLife

/-- A loop at its installation. -/
def installed (c : Consumer) : ConsumerLife :=
  { stage := if c.stopping then .cancelled else .running, consumer := c }

/-- A loop when the consumer is told to stop. -/
def hush (s : ConsumerLife) : ConsumerLife :=
  { s with stage := .cancelled, consumer := s.consumer.cancel }

end ConsumerLife

/-- A consumer, its loops, and those who start and stop it. -/
structure ConsumerDesk where
  consumer : Consumer
  loops : List ConsumerLife := []
  starts : List StartCall := []
  stops : List StopCall := []

/-- What callers do. -/
inductive CallerMove where
  | callStart
  | callStop
  /-- A start looks at the settings and at whether the consumer has been told to stop. -/
  | check (call : ℕ)
  | install (call : ℕ)
  | cancel (call : ℕ)
  | takeHandle (call : ℕ)
  /-- A stop returns. -/
  | await (call : ℕ)

namespace ConsumerDesk

/-- The consumer after a caller has done something, if he can. -/
def ask? (d : ConsumerDesk) : CallerMove → Option ConsumerDesk
  | .callStart => some { d with starts := d.starts ++ [.called] }
  | .callStop => some { d with stops := d.stops ++ [.called] }
  | .check i =>
    if d.starts[i]? = some .called then
      match d.consumer.checkStart with
      | .ok () => some { d with starts := d.starts.set i .checked }
      | .error e => some { d with starts := d.starts.set i (.refused e) }
    else none
  | .install i =>
    if d.starts[i]? = some .checked then
      match d.consumer.install with
      | .ok c => some { d with
          consumer := c, loops := d.loops ++ [.installed c], starts := d.starts.set i .started }
      | .error e => some { d with starts := d.starts.set i (.refused e) }
    else none
  | .cancel i =>
    if d.stops[i]? = some .called then
      some { d with
        consumer := d.consumer.cancel
        loops := d.loops.map .hush
        stops := d.stops.set i .cancelled }
    else none
  | .takeHandle i =>
    if d.stops[i]? = some .cancelled then
      let loop := if d.consumer.takeHandle.1 then some (d.loops.length - 1) else none
      some { d with
        consumer := d.consumer.takeHandle.2, stops := d.stops.set i (.waiting loop) }
    else none
  | .await i =>
    match d.stops[i]? with
    | some (.waiting loop) =>
      if loop.all fun k => (d.loops[k]?).any (·.consumer.hasEnded) then
        some { d with stops := d.stops.set i (.returned loop) }
      else none
    | _ => none

/-- What can happen next. -/
inductive Move (d : ConsumerDesk) : ConsumerDesk → Prop
  | call {m : CallerMove} {d' : ConsumerDesk} (asked : d.ask? m = some d') : Move d d'
  /-- A loop, one of its workers or its way to the log does something. -/
  | loop {k : ℕ} {s s' : ConsumerLife} (found : d.loops[k]? = some s) (moved : s.Move s')
      (own : s'.stage = s.stage) : Move d { d with loops := d.loops.set k s' }

/-- What a new consumer with these settings can come to. -/
inductive Run (name : String) (settings : ConsumerSettings) : ConsumerDesk → Prop
  | start (transport : Transport) : Run name settings
      { consumer := { name := name, settings := settings, transport := transport } }
  | move {d d' : ConsumerDesk} (run : Run name settings d) (moved : d.Move d') :
      Run name settings d'

end ConsumerDesk

namespace ConsumerLife

variable {settings : ConsumerSettings} {s s' : ConsumerLife}

/-! ### Loops -/

/-- A loop that was installed when the consumer had been told to stop. It never joins. -/
structure Belated (s : ConsumerLife) : Prop where
  stopping : s.consumer.stopping = true
  phase : s.consumer.phase = .beginning ∨ s.consumer.phase = .ended
  notes : s.notes = []
  posts : s.posts = []
  past : s.past = []
  workers : s.consumer.workers = []
  member : s.consumer.member = none

theorem Belated.hush (h : s.Belated) : s.hush.Belated :=
  ⟨rfl, h.phase, h.notes, h.posts, h.past, h.workers, h.member⟩

/-- The only step of a belated loop is to end. -/
theorem Belated.proceed (h : s.Belated) {heeding : Bool} {now : ℕ} {l l' : Log} {c : Consumer}
    (stepped : s.consumer.proceed? heeding now l = some (l', c)) :
    c = s.consumer.finish ∧ s.consumer.notes heeding l c = [] := by
  have hphase : s.consumer.phase = .beginning :=
    h.phase.resolve_right (Consumer.proceeds_of_proceed? stepped).going.2
  cases heeding with
  | true =>
    simp only [Consumer.proceed?, Consumer.shortStep?, Consumer.step?, hphase, h.stopping,
      if_true] at stepped
    cases stepped
    exact ⟨rfl, by rw [Consumer.notes, hphase]⟩
  | false => simp [Consumer.proceed?, Consumer.lateStep?, hphase] at stepped

theorem Belated.move (h : s.Belated) (moved : s.Move s') : s'.Belated := by
  cases moved with
  | reroute | takeHandle | await =>
    exact ⟨h.stopping, h.phase, h.notes, h.posts, h.past, h.workers, h.member⟩
  | cancel => exact h.hush
  | loop stepped same =>
    obtain ⟨rfl, hnotes⟩ := h.proceed stepped
    refine ⟨h.stopping, .inr rfl, ?_, h.posts, h.past, h.workers, h.member⟩
    rw [hnotes, h.notes]
    rfl
  | restaff stepped other =>
    obtain ⟨rfl, -⟩ := h.proceed stepped
    exact (other rfl).elim
  | worker staffed =>
    rw [h.workers] at staffed
    cases staffed

/-- Nobody works for a loop any more: it has no workers, all that it ever had have finished and have
handed over or dropped what they received, and every session that it joined has been left. -/
structure Gone (s : ConsumerLife) : Prop where
  workers : s.consumer.workers = []
  posts : s.posts = []
  member : s.consumer.member = none
  left : s.notes.filterMap SessionNote.joined? = s.notes.filterMap SessionNote.left?
  past : ∀ e ∈ s.past, e.2.isFinished ∧ e.1.Flushed

theorem Belated.gone (h : s.Belated) : s.Gone where
  workers := h.workers
  posts := h.posts
  member := h.member
  left := by rw [h.notes]; rfl
  past := by rw [h.past]; exact List.forall_mem_nil _

/-- **A loop that has ended** leaves nothing behind. -/
theorem Sound.gone (hs : s.Sound settings) (ended : s.consumer.phase = .ended) : s.Gone := by
  obtain ⟨-, hworkers, hmember⟩ := hs.posture.ended ended
  have hserved := hs.served
  have hmembership := hs.membership
  rw [hworkers, List.forall₂_nil_right_iff] at hserved
  rw [hmember] at hmembership
  refine ⟨hworkers, hserved, hmember, hmembership.trans (List.append_nil _), fun e he => ?_⟩
  obtain ⟨hfinished, b, hserves⟩ := hs.dismissed e he
  exact ⟨hfinished, hserves.flushed hfinished⟩

/-- A loop that has ended does not begin again. -/
theorem phase_of_move (moved : s.Move s') (ended : s.consumer.phase = .ended) :
    s'.consumer.phase = .ended := by
  cases moved with
  | reroute | worker | cancel | takeHandle | await => exact ended
  | loop stepped | restaff stepped =>
    exact ((Consumer.proceeds_of_proceed? stepped).going.2 ended).elim

/-- What is known of a loop of which only the consumer decides when it stops. -/
structure Held (settings : ConsumerSettings) (s : ConsumerLife) : Prop where
  sound : s.Sound settings
  stage : s.stage = .running ∨ s.stage = .cancelled

theorem Held.move (h : s.Held settings) (moved : s.Move s') (own : s'.stage = s.stage) :
    s'.Held settings :=
  ⟨h.sound.move moved, own ▸ h.stage⟩

theorem Held.hush (h : s.Held settings) : s.hush.Held settings := by
  refine ⟨?_, .inr rfl⟩
  rcases h.stage with hstage | hstage
  · exact h.sound.move (.cancel hstage)
  · have hexpects := h.sound.expects
    rw [hstage] at hexpects
    have hsame : s.hush = s := by
      rw [ConsumerLife.hush, Consumer.cancel, ← hexpects.1, ← hstage]
    rw [hsame]
    exact h.sound

end ConsumerLife

/-! ### Calls -/

namespace Consumer

/-- A consumer of which nobody has made use, apart from starting and stopping it. -/
structure Unused (settings : ConsumerSettings) (c : Consumer) : Prop where
  settings_eq : c.settings = settings
  state : c.state = .idle
  workers : c.workers = []
  member : c.member = none

theorem of_install {c c' : Consumer} (h : c.install = .ok c') :
    c.hasHandle = false ∧ c' = { c with hasHandle := true, phase := .beginning } := by
  rw [install] at h
  split at h
  · cases h
  · rename_i hhandle
    cases h
    exact ⟨Bool.not_eq_true _ ▸ hhandle, rfl⟩

end Consumer

namespace ConsumerLife

variable {settings : ConsumerSettings} {c c' : Consumer}

theorem held_installed (h : c.Unused settings) (hinstall : c.install = .ok c') :
    (installed c').Held settings := by
  obtain ⟨-, rfl⟩ := Consumer.of_install hinstall
  constructor
  · exact {
      settings_eq := h.settings_eq
      posture := ⟨⟨.inl h.state, h.workers⟩, h.member⟩
      expects := by
        rw [installed]
        cases c.stopping with
        | true => exact ⟨rfl, nofun⟩
        | false => exact rfl
      installed := fun _ => rfl
      membership := by
        show [] = [] ++ c.member.toList
        rw [h.member]
        rfl
      served := by
        show List.Forall₂ _ [] c.workers
        rw [h.workers]
        exact .nil
      taken := ⟨[], rfl, fun hworkers => (hworkers h.workers).elim⟩
      dismissed := List.forall_mem_nil _ }
  · rw [installed]
    cases c.stopping
    · exact .inl rfl
    · exact .inr rfl

theorem belated_installed (h : c.Unused settings) (hinstall : c.install = .ok c')
    (stopping : c.stopping = true) : (installed c').Belated := by
  obtain ⟨-, rfl⟩ := Consumer.of_install hinstall
  exact ⟨stopping, .inl rfl, rfl, rfl, rfl, h.workers, h.member⟩

end ConsumerLife

namespace ConsumerDesk

variable {settings : ConsumerSettings} {d d' : ConsumerDesk}

/-- Who sees to it that the first loop is waited for: it will do nothing, or its handle is still
there and nobody has asked for it, or somebody has taken it. -/
def Custody (d : ConsumerDesk) (s : ConsumerLife) : Prop :=
  s.Belated ∨
    (d.consumer.hasHandle = true ∧ d.loops.length = 1 ∧ ∀ c ∈ d.stops, c.hasAsked = false) ∨
    ∃ c ∈ d.stops, c.taken? = some 0

/-- What is known of a consumer whatever its callers do. -/
structure Sound (settings : ConsumerSettings) (d : ConsumerDesk) : Prop where
  unused : d.consumer.Unused settings
  loops : ∀ s ∈ d.loops, s.Held settings
  /-- All loops but the first come too late. -/
  belated : ∀ k s, d.loops[k]? = some s → k ≠ 0 → s.Belated
  stopping : ∀ c ∈ d.stops, c ≠ .called → d.consumer.stopping = true
  /-- Only those who stop the consumer take handles. -/
  taken : d.loops ≠ [] → d.consumer.hasHandle = false → d.consumer.stopping = true
  custody : ∀ s, d.loops[0]? = some s → d.Custody s
  ended : ∀ k, .returned (some k) ∈ d.stops →
    ∃ s, d.loops[k]? = some s ∧ s.consumer.phase = .ended

namespace Sound

/-- **A loop goes on.** -/
theorem loop (h : d.Sound settings) {k : ℕ} {s s' : ConsumerLife} (found : d.loops[k]? = some s)
    (moved : s.Move s') (own : s'.stage = s.stage) :
    Sound settings { d with loops := d.loops.set k s' } where
  unused := h.unused
  loops := by
    intro t ht
    rcases List.mem_or_eq_of_mem_set ht with ht | rfl
    · exact h.loops t ht
    · exact (h.loops s (List.mem_of_getElem? found)).move moved own
  belated := by
    intro i t ht hi
    rcases (getElem?_set_eq_some_iff found).mp ht with ⟨rfl, rfl⟩ | ⟨-, ht⟩
    · exact (h.belated i s found hi).move moved
    · exact h.belated i t ht hi
  stopping := h.stopping
  taken hne := h.taken fun hnil => hne (by rw [hnil]; rfl)
  custody := by
    intro t ht
    have hcustody : ∃ u, d.loops[0]? = some u ∧ (u.Belated → t.Belated) := by
      rcases (getElem?_set_eq_some_iff found).mp ht with ⟨rfl, rfl⟩ | ⟨-, ht⟩
      · exact ⟨s, found, fun hu => hu.move moved⟩
      · exact ⟨t, ht, id⟩
    obtain ⟨u, hu, hbelated⟩ := hcustody
    rcases h.custody u hu with hcase | ⟨hhandle, hlength, hasked⟩ | hcase
    · exact .inl (hbelated hcase)
    · exact .inr (.inl ⟨hhandle, List.length_set.trans hlength, hasked⟩)
    · exact .inr (.inr hcase)
  ended := by
    intro i hi
    obtain ⟨t, ht, hended⟩ := h.ended i hi
    by_cases hik : i = k
    · subst hik
      obtain rfl := Option.some.inj (found.symm.trans ht)
      refine ⟨s', ?_, ConsumerLife.phase_of_move moved hended⟩
      exact (getElem?_set_eq_some_iff found).mpr (.inl ⟨rfl, rfl⟩)
    · exact ⟨t, (getElem?_set_eq_some_iff found).mpr (.inr ⟨hik, ht⟩), hended⟩

/-- A loop that is installed is told to stop with the consumer, or nobody has asked for its
handle. -/
theorem custody_installed (h : d.Sound settings) {c : Consumer}
    (hinstall : d.consumer.install = .ok c) (hfirst : d.loops = []) (starts : List StartCall) :
    Custody { d with consumer := c, loops := d.loops ++ [.installed c], starts := starts }
      (.installed c) := by
  cases hstopping : d.consumer.stopping with
  | true => exact .inl (ConsumerLife.belated_installed h.unused hinstall hstopping)
  | false =>
    obtain ⟨-, rfl⟩ := Consumer.of_install hinstall
    refine .inr (.inl ⟨rfl, by rw [hfirst]; rfl, fun s hs => ?_⟩)
    by_contra hasked
    have hcalled : s ≠ .called := fun hs => hasked (hs ▸ rfl)
    exact absurd ((h.stopping s hs hcalled).symm.trans hstopping) nofun

/-- **A loop is installed.** -/
theorem install (h : d.Sound settings) {c : Consumer} (hinstall : d.consumer.install = .ok c)
    (starts : List StartCall) : Sound settings
      { d with consumer := c, loops := d.loops ++ [.installed c], starts := starts } where
  unused := by
    obtain ⟨-, rfl⟩ := Consumer.of_install hinstall
    exact ⟨h.unused.settings_eq, h.unused.state, h.unused.workers, h.unused.member⟩
  loops := List.forall_mem_append.mpr ⟨h.loops,
    List.forall_mem_singleton.mpr (ConsumerLife.held_installed h.unused hinstall)⟩
  belated := by
    -- the handle of an earlier loop has been taken, so the consumer has been told to stop
    intro k s hs hk
    obtain ⟨hhandle, -⟩ := Consumer.of_install hinstall
    rcases getElem?_concat_eq_some_iff.mp hs with hs | ⟨rfl, rfl⟩
    · exact h.belated k s hs hk
    · have hstopping := h.taken (fun hnil => hk (congrArg List.length hnil)) hhandle
      exact ConsumerLife.belated_installed h.unused hinstall hstopping
  stopping := by
    obtain ⟨-, rfl⟩ := Consumer.of_install hinstall
    exact h.stopping
  taken := by
    obtain ⟨-, rfl⟩ := Consumer.of_install hinstall
    exact fun _ => nofun
  custody := by
    intro s hs
    obtain ⟨hhandle, -⟩ := Consumer.of_install hinstall
    rcases getElem?_concat_eq_some_iff.mp hs with hs | ⟨hfirst, rfl⟩
    · rcases h.custody s hs with hcase | ⟨htrue, -⟩ | hcase
      · exact .inl hcase
      · exact absurd (htrue.symm.trans hhandle) nofun
      · exact .inr (.inr hcase)
    · exact h.custody_installed hinstall (List.length_eq_zero_iff.mp hfirst.symm) starts
  ended := by
    intro k hk
    obtain ⟨s, hs, hended⟩ := h.ended k hk
    exact ⟨s, getElem?_concat_eq_some_iff.mpr (.inl hs), hended⟩

/-- **The consumer is told to stop.** -/
theorem cancel (h : d.Sound settings) {i : ℕ} (called : d.stops[i]? = some .called) :
    Sound settings { d with
      consumer := d.consumer.cancel
      loops := d.loops.map .hush
      stops := d.stops.set i .cancelled } where
  unused := ⟨h.unused.settings_eq, h.unused.state, h.unused.workers, h.unused.member⟩
  loops := by
    intro s hs
    obtain ⟨t, ht, rfl⟩ := List.mem_map.mp hs
    exact (h.loops t ht).hush
  belated := by
    intro k s hs hk
    rw [List.getElem?_map] at hs
    obtain ⟨t, ht, rfl⟩ := Option.map_eq_some_iff.mp hs
    exact (h.belated k t ht hk).hush
  stopping _ _ _ := rfl
  taken _ _ := rfl
  custody := by
    intro s hs
    rw [List.getElem?_map] at hs
    obtain ⟨t, ht, rfl⟩ := Option.map_eq_some_iff.mp hs
    rcases h.custody t ht with hcase | ⟨hhandle, hlength, hasked⟩ | hcase
    · exact .inl hcase.hush
    · refine .inr (.inl ⟨hhandle, (List.length_map _).trans hlength, fun c hc => ?_⟩)
      rcases List.mem_or_eq_of_mem_set hc with hc | rfl
      · exact hasked c hc
      · rfl
    · exact .inr (.inr (StopCall.taken_set called nofun hcase))
  ended := by
    intro k hk
    rcases List.mem_or_eq_of_mem_set hk with hk | hk
    · obtain ⟨s, hs, hended⟩ := h.ended k hk
      exact ⟨s.hush, by rw [List.getElem?_map, hs]; rfl, hended⟩
    · cases hk

/-- **The handle is taken**, if there is one. -/
theorem takeHandle (h : d.Sound settings) {i : ℕ} (cancelled : d.stops[i]? = some .cancelled) :
    Sound settings { d with
      consumer := d.consumer.takeHandle.2
      stops := d.stops.set i
        (.waiting (if d.consumer.takeHandle.1 then some (d.loops.length - 1) else none)) } where
  unused := ⟨h.unused.settings_eq, h.unused.state, h.unused.workers, h.unused.member⟩
  loops := h.loops
  belated := h.belated
  stopping _ _ _ := h.stopping _ (List.mem_of_getElem? cancelled) nofun
  taken _ _ := h.stopping _ (List.mem_of_getElem? cancelled) nofun
  custody := by
    intro s hs
    rcases h.custody s hs with hcase | ⟨hhandle, hlength, -⟩ | hcase
    · exact .inl hcase
    · refine .inr (.inr ⟨_, mem_set_self _ cancelled, ?_⟩)
      show (if d.consumer.hasHandle then some (d.loops.length - 1) else none) = some 0
      rw [hhandle, hlength]
      rfl
    · exact .inr (.inr (StopCall.taken_set cancelled nofun hcase))
  ended := by
    intro k hk
    rcases List.mem_or_eq_of_mem_set hk with hk | hk
    · exact h.ended k hk
    · cases hk

/-- **A stop returns.** -/
theorem await (h : d.Sound settings) {i : ℕ} {loop : Option ℕ}
    (waiting : d.stops[i]? = some (.waiting loop))
    (ended : ∀ k, loop = some k → ∃ s, d.loops[k]? = some s ∧ s.consumer.phase = .ended) :
    Sound settings { d with stops := d.stops.set i (.returned loop) } where
  unused := h.unused
  loops := h.loops
  belated := h.belated
  stopping _ _ _ := h.stopping _ (List.mem_of_getElem? waiting) nofun
  taken := h.taken
  custody := by
    intro s hs
    rcases h.custody s hs with hcase | ⟨-, -, hasked⟩ | hcase
    · exact .inl hcase
    · exact absurd (hasked _ (List.mem_of_getElem? waiting)) nofun
    · exact .inr (.inr (StopCall.taken_set waiting id hcase))
  ended := by
    intro k hk
    rcases List.mem_or_eq_of_mem_set hk with hk | hk
    · exact h.ended k hk
    · cases hk
      exact ended k rfl

/-- A stop begins. -/
theorem callStop (h : d.Sound settings) :
    Sound settings { d with stops := d.stops ++ [.called] } where
  unused := h.unused
  loops := h.loops
  belated := h.belated
  stopping := by
    intro c hc hcalled
    rcases List.mem_append.mp hc with hc | hc
    · exact h.stopping c hc hcalled
    · exact (hcalled (List.mem_singleton.mp hc)).elim
  taken := h.taken
  custody := by
    intro s hs
    rcases h.custody s hs with hcase | ⟨hhandle, hlength, hasked⟩ | ⟨c, hc, htaken⟩
    · exact .inl hcase
    · refine .inr (.inl ⟨hhandle, hlength, List.forall_mem_append.mpr ⟨hasked, ?_⟩⟩)
      exact List.forall_mem_singleton.mpr rfl
    · exact .inr (.inr ⟨c, List.mem_append_left _ hc, htaken⟩)
  ended := by
    intro k hk
    rcases List.mem_append.mp hk with hk | hk
    · exact h.ended k hk
    · cases List.mem_singleton.mp hk

/-- A start that does not install a loop is nobody's concern. -/
theorem starts (h : d.Sound settings) (starts : List StartCall) :
    Sound settings { d with starts := starts } :=
  ⟨h.unused, h.loops, h.belated, h.stopping, h.taken, h.custody, h.ended⟩

/-- **A caller does something.** -/
theorem call (h : d.Sound settings) {m : CallerMove} (asked : d.ask? m = some d') :
    d'.Sound settings := by
  cases m with
  | callStart =>
    cases asked
    exact h.starts _
  | callStop =>
    cases asked
    exact h.callStop
  | check i =>
    obtain ⟨-, hasked⟩ := Option.ite_none_right_eq_some.mp asked
    split at hasked <;> cases hasked <;> exact h.starts _
  | install i =>
    obtain ⟨-, hasked⟩ := Option.ite_none_right_eq_some.mp asked
    split at hasked
    · rename_i c hinstall
      cases hasked
      exact h.install hinstall _
    · cases hasked
      exact h.starts _
  | cancel i =>
    obtain ⟨hcalled, hasked⟩ := Option.ite_none_right_eq_some.mp asked
    cases hasked
    exact h.cancel hcalled
  | takeHandle i =>
    obtain ⟨hcancelled, hasked⟩ := Option.ite_none_right_eq_some.mp asked
    cases hasked
    exact h.takeHandle hcancelled
  | await i =>
    rw [ask?] at asked
    split at asked
    · rename_i loop hwaiting
      obtain ⟨hended, hasked⟩ := Option.ite_none_right_eq_some.mp asked
      cases hasked
      refine h.await hwaiting fun k hk => ?_
      subst hk
      obtain ⟨s, hs, hended⟩ := (Option.any_eq_true _ _).mp hended
      exact ⟨s, hs, of_decide_eq_true hended⟩
    · cases asked

/-- **Every move** keeps what is known. -/
theorem move (h : d.Sound settings) (moved : d.Move d') : d'.Sound settings := by
  cases moved with
  | call asked => exact h.call asked
  | loop found moved own => exact h.loop found moved own

end Sound

namespace Run

variable {name : String}

theorem sound (run : Run name settings d) : d.Sound settings := by
  induction run with
  | start transport =>
    exact {
      unused := ⟨rfl, rfl, rfl, rfl⟩
      loops := List.forall_mem_nil _
      belated := fun k s hs => absurd (List.mem_of_getElem? hs) List.not_mem_nil
      stopping := List.forall_mem_nil _
      taken := fun hne => (hne rfl).elim
      custody := fun s hs => absurd (List.mem_of_getElem? hs) List.not_mem_nil
      ended := fun k hk => absurd hk List.not_mem_nil }
  | move run moved ih => exact ih.move moved

/-- **One loop at most** is ever in the group, hears of claims and puts workers on them. -/
theorem single (run : Run name settings d) {k : ℕ} {s : ConsumerLife}
    (hs : d.loops[k]? = some s) (hk : k ≠ 0) : s.notes = [] ∧ s.posts = [] ∧ s.past = [] := by
  have hbelated := run.sound.belated k s hs hk
  exact ⟨hbelated.notes, hbelated.posts, hbelated.past⟩

/-- **When a stop has returned** nobody works for any loop, unless another stop is still waiting for
the first one. -/
theorem gone (run : Run name settings d) {c : StopCall} (hc : c ∈ d.stops)
    (returned : c.hasReturned = true) (nobody : .waiting (some 0) ∉ d.stops) :
    ∀ s ∈ d.loops, s.Gone := by
  intro s hs
  obtain ⟨k, hk⟩ := List.getElem?_of_mem hs
  by_cases hfirst : k = 0
  · subst hfirst
    rcases run.sound.custody s hk with hbelated | ⟨-, -, hasked⟩ | ⟨x, hx, htaken⟩
    · exact hbelated.gone
    · cases c with
      | returned => exact absurd (hasked _ hc) nofun
      | called | cancelled | waiting => cases returned
    · have hreturned : .returned (some 0) ∈ d.stops := by
        cases x with
        | called | cancelled => cases htaken
        | waiting => exact (nobody (htaken ▸ hx)).elim
        | returned => exact htaken ▸ hx
      obtain ⟨t, ht, hended⟩ := run.sound.ended 0 hreturned
      obtain rfl := Option.some.inj (hk.symm.trans ht)
      exact (run.sound.loops s hs).sound.gone hended
  · exact (run.sound.belated k s hk hfirst).gone

/-- **Starting and stopping at the same time.** Whatever the callers of a consumer do, one loop at
most is ever in the group, hears of claims and puts workers on them. When a stop has returned and
none is still waiting for the first loop, no loop has a worker, all workers that there ever were
have finished and have handed over or dropped what they received, and every session that was joined
has been left. This is what every stop is meant to wait for; one that finds the handle taken does
not (`stop_overtaken`). -/
theorem settled_by_stop (run : Run name settings d) :
    (∀ k s, d.loops[k]? = some s → k ≠ 0 → s.notes = [] ∧ s.posts = [] ∧ s.past = []) ∧
    ∀ c ∈ d.stops, c.hasReturned = true →
      .waiting (some 0) ∈ d.stops ∨ ∀ s ∈ d.loops, s.Gone := by
  refine ⟨fun k s hs hk => run.single hs hk, fun c hc hreturned => ?_⟩
  by_cases hwaiting : .waiting (some 0) ∈ d.stops
  · exact .inl hwaiting
  · exact .inr (run.gone hc hreturned hwaiting)

end Run

end ConsumerDesk

/-! ### Two callers that stop a consumer -/

namespace ConsumerDesk

namespace Sample

open ConsumerRun.Sample (settings records)
open ConsumerLife.Sample (Deal take)

/-- A consumer with its callers and what is around it. -/
structure World where
  desk : ConsumerDesk := { consumer := { name := "c", settings := settings } }
  log : Log := records
  link : StoreLink := { store := .memory (.create 4 true) }

/-- What is done: by a caller, or by the first loop. -/
inductive Act where
  | call (m : CallerMove)
  | loop (d : Deal)

def World.play? (e : World) : Act → Option World
  | .call m => (e.desk.ask? m).map fun d => { e with desk := d }
  | .loop deal => do
    let s ← e.desk.loops[0]?
    let w ← ({ life := s, log := e.log, link := e.link } : ConsumerLife.Sample.World).play? deal
    if w.life.stage = s.stage then
      some { desk := { e.desk with loops := e.desk.loops.set 0 w.life }
             log := w.log, link := w.link }
    else none

theorem run_of_play? {name : String} {settings : ConsumerSettings} {e e' : World} {a : Act}
    (run : Run name settings e.desk) (h : e.play? a = some e') : Run name settings e'.desk := by
  refine run.move ?_
  cases a with
  | call m =>
    obtain ⟨d, hasked, rfl⟩ := Option.map_eq_some_iff.mp h
    exact .call hasked
  | loop deal =>
    obtain ⟨s, hs, h⟩ := Option.bind_eq_some_iff.mp h
    obtain ⟨w, hplay, h⟩ := Option.bind_eq_some_iff.mp h
    obtain ⟨hown, h⟩ := Option.ite_none_right_eq_some.mp h
    cases h
    have hposture := (run.sound.loops s (List.mem_of_getElem? hs)).sound.posture
    exact .loop hs (ConsumerLife.Sample.move_of_play? hposture hplay) hown

/-- The loop joins, and its worker takes two records, of which one is no message. -/
def taking : List Deal :=
  [.loop, .loop, .loop, .worker (.tick true), .worker (.tick true)] ++ take 0 4 ++ take 1 2

/-- The worker finishes, and the loop leaves and ends. -/
def leaving : List Deal :=
  [.loop, .worker .receive, .worker .receive, .worker (.tick true), .worker .receive,
    .worker .receive, .loop, .loop, .loop]

/-- Two callers stop the consumer: the first gets the handle and waits, the second finds none and
returns. -/
def overtaking : List Act :=
  [.call .callStart, .call (.check 0), .call (.install 0)] ++ taking.map .loop
    ++ [.call .callStop, .call .callStop, .call (.cancel 0), .call (.cancel 1),
      .call (.takeHandle 0), .call (.takeHandle 1), .call (.await 1)]

/-- The first caller returns too. -/
def ending : List Act := leaving.map .loop ++ [.call (.await 0)]

end Sample

namespace Run

open ConsumerRun.Sample (settings)
open Sample (World overtaking ending)

/-- **A stop returns too early** when another has taken the handle: a worker is at work, and the
session goes on. And a record that has been received is never handed over if it is no message. -/
theorem stop_overtaken :
    (∃ d, Run "c" settings d ∧ .started ∈ d.starts ∧ .returned none ∈ d.stops ∧
      ∃ s ∈ d.loops, s.consumer.member.isSome ∧ ∃ w ∈ s.consumer.workers, ¬ w.isFinished) ∧
    ∃ d, Run "c" settings d ∧ .started ∈ d.starts ∧ .returned (some 0) ∈ d.stops ∧
      ∃ s ∈ d.loops, ∃ e ∈ s.past, ∃ r, .received r ∈ e.1.deeds ∧ r.message? = none := by
  constructor
  · obtain ⟨e, run, hseen⟩ := exists_of_foldlM World.play? (fun e => Run "c" settings e.desk) {}
      overtaking (fun _ => Sample.run_of_play?) (.start {})
      (fun e => .started ∈ e.desk.starts ∧ .returned none ∈ e.desk.stops ∧
        ∃ s ∈ e.desk.loops, s.consumer.member.isSome ∧
          ∃ w ∈ s.consumer.workers, ¬ w.isFinished) (by decide +kernel)
    exact ⟨e.desk, run, hseen⟩
  · obtain ⟨e, run, hstarted, hreturned, s, hs, x, hx, r, hr, hmessage⟩ :=
      exists_of_foldlM World.play? (fun e => Run "c" settings e.desk) {} (overtaking ++ ending)
        (fun _ => Sample.run_of_play?) (.start {})
        (fun e => .started ∈ e.desk.starts ∧ .returned (some 0) ∈ e.desk.stops ∧
          ∃ s ∈ e.desk.loops, ∃ x ∈ s.past,
            ∃ r ∈ x.1.deeds.filterMap Deed.received?, r.message? = none) (by decide +kernel)
    obtain ⟨a, ha, hreceived⟩ := List.mem_filterMap.mp hr
    cases a <;> cases hreceived
    exact ⟨e.desk, run, hstarted, hreturned, s, hs, x, hx, r, ha, hmessage⟩

/-- When both callers have returned nobody is at work, and both records have been settled. -/
theorem settled_by_stop_both :
    ∃ d, Run "c" settings d ∧ d.stops = [.returned (some 0), .returned none] ∧
      ∃ s ∈ d.loops, s.Gone ∧
        ∃ e ∈ s.past, (e.1.deeds.filterMap Deed.received?).length = 2 ∧ e.1.Flushed := by
  obtain ⟨e, run, hstops, s, hs, x, hx, htwo⟩ :=
    exists_of_foldlM World.play? (fun e => Run "c" settings e.desk) {} (overtaking ++ ending)
      (fun _ => Sample.run_of_play?) (.start {})
      (fun e => e.desk.stops = [.returned (some 0), .returned none] ∧
        ∃ s ∈ e.desk.loops, ∃ x ∈ s.past, (x.1.deeds.filterMap Deed.received?).length = 2)
      (by decide +kernel)
  have hreturned : .returned none ∈ e.desk.stops := by
    rw [hstops]
    decide
  have hgone := (run.settled_by_stop.2 _ hreturned rfl).resolve_left (by rw [hstops]; decide) s hs
  exact ⟨e.desk, run, hstops, s, hs, hgone, x, hx, htwo, (hgone.past x hx).2⟩

end Run

end ConsumerDesk

end SmsRelay
