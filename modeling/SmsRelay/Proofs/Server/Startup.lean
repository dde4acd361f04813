import SmsRelay.Proofs.Log.Closing
import SmsRelay.Proofs.Relay.Shutdown
import SmsRelay.Server.Run

/-!
# Settings that a server can start with

The rules for settings are checked once, before the server starts. The parts of the relay check what
they are given again, each in its own way: the log its topics, a consumer its settings, the provider
its rate. Settings that keep the rules pass all these checks, and nobody in the relay is refused by
another part of it as long as the server is there.

## Implementation notes

`Settings.Service` is a shutdown of the relay in which only the server hires consumers and equips
the sender, while everybody else does as he likes. `Settings.Fits` is the invariant along it.

## Main results

* `Settings.starts_of_valid`: a server with valid settings fails with its store or its address only.
* `Settings.Service.supplies`: from the start to the end of the shutdown consumers and the sender
  find their topics with all their partitions.
* `Log.exists_createTopics`: topics that are not there yet can be created.
-/

namespace SmsRelay

/-! ### Topics -/

namespace Log

/-- Nothing has been put into the topics of a log. -/
def Unused (l : Log) : Prop :=
  ∀ t ∈ l.topics, ∀ p ∈ t.partitions, p.records = [] ∧ p.watermark = 0

theorem Unused.createTopic {l l' : Log} (hunused : l.Unused) {name : String} {partitions : ℕ}
    (hcreated : l.createTopic name partitions = .ok l') : l'.Unused := by
  obtain ⟨-, -, rfl⟩ := of_createTopic hcreated
  intro t ht p hp
  rcases List.mem_append.mp ht with ht | ht
  · exact hunused t ht p hp
  · rw [List.mem_singleton.mp ht] at hp
    obtain ⟨id, -, rfl⟩ := List.mem_map.mp hp
    exact ⟨rfl, rfl⟩

/-- **Topics are created**, each with the number of partitions that is asked for. Those that are
there stay as they are. -/
theorem exists_createTopics {partitions : ℕ} (hpositive : partitions ≠ 0) {names : List String}
    (hnodup : names.Nodup) {l : Log} (hnumbered : l.Numbered) (hunused : l.Unused)
    (hnew : ∀ name ∈ names, l.find? name = none) :
    ∃ l', l.createTopics partitions names = .ok l' ∧ l'.Numbered ∧ l'.Unused ∧
      l'.closed = l.closed ∧ l'.groups = l.groups ∧
      (∀ topic t, l.find? topic = some t → l'.find? topic = some t) ∧
      ∀ name ∈ names, ∃ t, l'.find? name = some t ∧ t.size = partitions := by
  induction names generalizing l with
  | nil => exact ⟨l, rfl, hnumbered, hunused, rfl, rfl, fun _ _ ht => ht, List.forall_mem_nil _⟩
  | cons name rest ih =>
    obtain ⟨hnot, hnodup⟩ := List.nodup_cons.mp hnodup
    obtain ⟨hnone, hnew⟩ := List.forall_mem_cons.mp hnew
    obtain ⟨l₁, hcreated⟩ : ∃ l₁, l.createTopic name partitions = .ok l₁ := by
      rw [createTopic, if_neg hpositive, hnone]
      exact ⟨_, rfl⟩
    have hfind := find?_createTopic hcreated
    have hrest : ∀ other ∈ rest, l₁.find? other = none := by
      intro other hother
      have hne : name ≠ other := fun heq => hnot (heq ▸ hother)
      rw [hfind, hnew other hother, if_neg hne, Option.none_or]
    obtain ⟨l', hall, hnumbered', hunused', hclosed, hgroups, hkept, hsizes⟩ :=
      ih hnodup (hnumbered.createTopic hcreated) (hunused.createTopic hcreated) hrest
    obtain ⟨-, -, hl₁⟩ := of_createTopic hcreated
    have hself : l₁.find? name = some (Topic.create name partitions l.retention) := by
      rw [hfind, hnone, if_pos rfl, Option.none_or]
    refine ⟨l', ?_, hnumbered', hunused', hclosed.trans (by rw [hl₁]), hgroups.trans (by rw [hl₁]),
      fun topic t ht => hkept topic t (by rw [hfind, ht, Option.some_or]), ?_⟩
    · rw [createTopics, List.foldlM_cons, hcreated]
      exact hall
    · refine List.forall_mem_cons.mpr ⟨⟨_, hkept name _ hself, ?_⟩, hsizes⟩
      exact Topic.size_create name partitions l.retention

end Log

/-! ### Settings -/

namespace Settings

/-- The rules for settings, as far as the parts of the relay depend on them. -/
theorem of_violation? {s : Settings} (h : s.violation? = none) :
    s.log.partitions ≠ 0 ∧ s.consumer.violation? = none ∧ s.sender.violation? = none := by
  simp only [violation?] at h
  split at h
  · cases h
  · split at h
    · cases h
    · rename_i hpartitions
      split at h
      · cases h
      · split at h
        · cases h
        · split at h
          · cases h
          · split at h
            · cases h
            · rename_i hconsumer
              exact ⟨hpartitions, hconsumer, by simpa using h⟩

theorem nodup_topics (s : Settings) : s.topics.Nodup := by
  rw [topics]
  split
  · exact List.nodup_singleton _
  · rename_i hne
    simp [Ne.symm hne]

theorem mem_topics (s : Settings) : s.consumer.topic ∈ s.topics ∧ s.sender.topic ∈ s.topics := by
  rw [topics]
  split
  · rename_i heq
    simp [heq]
  · simp

/-- **The log is opened** with its topics. -/
theorem exists_openLog {s : Settings} (hpositive : s.log.partitions ≠ 0) :
    ∃ l, s.openLog = .ok l ∧ l.Numbered ∧ l.Unused ∧ l.closed = false ∧ l.groups = [] ∧
      ∀ topic ∈ s.topics, ∃ t, l.find? topic = some t ∧ t.size = s.log.partitions := by
  have hempty : ({ retention := s.log.retention } : Log).Numbered := Log.numbered_of_nil rfl
  obtain ⟨l, hopened, hnumbered, hunused, hclosed, hgroups, -, hsizes⟩ :=
    Log.exists_createTopics hpositive s.nodup_topics hempty (List.forall_mem_nil _) fun _ _ => rfl
  exact ⟨l, hopened, hnumbered, hunused, hclosed, hgroups, hsizes⟩

/-- **The provider** uses the rate as it is set. -/
theorem simulated_eq {s : Settings} (hsender : s.sender.violation? = none) (draw : Binary64) :
    Provider.simulated s.sender.successRate draw s.sender.delay = fun _ _ =>
      ⟨s.sender.delay, some (if draw.lt s.sender.successRate then .success else .fail)⟩ := by
  funext phone text
  rw [Provider.simulated, SenderSettings.rate_within hsender]

/-- A consumer that has been started. -/
def startedConsumer (s : Settings) (n : ℕ) : Consumer :=
  { s.newConsumer n with hasHandle := true, phase := .beginning }

/-- **A consumer starts.** -/
theorem start_newConsumer {s : Settings} (hconsumer : s.consumer.violation? = none) (n : ℕ) :
    (s.newConsumer n).start = .ok (s.startedConsumer n) := by
  have hcheck : (s.newConsumer n).checkStart = .ok () := by
    rw [Consumer.checkStart]
    dsimp only [newConsumer]
    rw [hconsumer]
    rfl
  rw [Consumer.start, hcheck]
  rfl

end Settings

/-! ### What a relay keeps -/

namespace Log

theorem topic?_of_find? {l : Log} (hopen : l.closed = false) {topic : String} {t : Topic}
    (ht : l.find? topic = some t) : l.topic? topic = .ok t := by
  rw [topic?, hopen, ht]
  rfl

theorem closed_marks (c : Claim) (offsets : List ℕ) (l : Log) :
    (offsets.foldl (·.mark c ·) l).closed = l.closed := by
  induction offsets generalizing l with
  | nil => rfl
  | cons o rest ih => exact (ih _).trans (closed_updateGroup _ _ _ _)

end Log

/-- A session loop does not close the log. -/
theorem Consumer.Effect.closed {c c' : Consumer} {l l' : Log} (h : c.Effect l l' c') :
    l'.closed = l.closed := by
  cases h with
  | goOn | release => rfl
  | join joined =>
    rw [Log.join] at joined
    split at joined
    · exact Log.closed_enrol joined
    · cases joined
  | hear told | takeUp told =>
    have hclosed := Log.closed_nextEvent l c.settings.group c.settings.topic ‹_›
    rwa [told] at hclosed
  | leave => exact Log.closed_updateGroup _ _ _ _

namespace Relay

variable {r r' : Relay} {m : RelayMove}

/-- **What a move does to the log**, apart from its groups: a record is appended, or the log is
closed, or nothing. -/
theorem Effect.log_cases (h : Effect r m r') (hr : r.Sound) :
    (∃ topic key value, r'.log = (r.log.append topic key value).1) ∨
      r'.log.topics = r.log.topics ∧ (m ≠ .closeLog → r'.log.closed = r.log.closed) := by
  cases h with
  | session _ _ _ effect => exact .inr ⟨effect.topics, fun _ => effect.closed⟩
  | worker found staffed moved =>
    have hw := hr.workers _ (List.mem_of_getElem? found) _ (List.mem_of_getElem? staffed)
    have heffect := hw.effect moved
    refine .inr ⟨topics_of_worker heffect, fun _ => ?_⟩
    exact (congrArg Log.closed heffect.accounts.marked).trans (Log.closed_marks _ _ _)
  | dispatch effect =>
    cases effect with
    | goOn => exact .inr ⟨rfl, fun _ => rfl⟩
    | publish _ _ _ appended => exact .inl ⟨_, _, _, (congrArg Prod.fst appended).symm⟩
  | append => exact .inl ⟨_, _, _, rfl⟩
  | steer log => exact .inr ⟨by rw [log], fun _ => by rw [log]⟩
  | hire | adjust => exact .inr ⟨rfl, fun _ => rfl⟩
  | closeLog => exact .inr ⟨rfl, fun h => (h rfl).elim⟩

/-- **Topics stay**, with all their partitions. -/
theorem Effect.find? (h : Effect r m r') (hr : r.Sound) {topic : String} {t : Topic}
    (ht : r.log.find? topic = some t) :
    ∃ t', r'.log.find? topic = some t' ∧ t'.size = t.size := by
  rcases h.log_cases hr with ⟨topic', key, value, happended⟩ | ⟨htopics, -⟩
  · obtain ⟨t', hfind, -, hsize⟩ := Log.find?_append ht topic' key value
    exact ⟨t', happended ▸ hfind, hsize⟩
  · exact ⟨t, (Log.find?_of_topics htopics topic).trans ht, rfl⟩

/-- The log is closed by nothing but its closing. -/
theorem Effect.closed (h : Effect r m r') (hr : r.Sound) (hm : m ≠ .closeLog) :
    r'.log.closed = r.log.closed := by
  rcases h.log_cases hr with ⟨topic, key, value, happended⟩ | ⟨-, hclosed⟩
  · rw [happended, Log.closed_append]
  · exact hclosed hm

/-- Nobody changes the settings of a consumer. -/
theorem Effect.settings (h : Effect r m r') {settings : ConsumerSettings}
    (hired : ∀ name other transport, m = .hire name other transport → other = settings)
    (hall : ∀ c ∈ r.consumers, c.settings = settings) :
    ∀ c ∈ r'.consumers, c.settings = settings := by
  have hset : ∀ (r₁ : Relay) (i : ℕ) (c c' : Consumer), r₁.consumers = r.consumers →
      r.consumers[i]? = some c → c'.settings = c.settings →
      ∀ d ∈ (r₁.setConsumer i c').consumers, d.settings = settings := by
    intro r₁ i c c' hconsumers hfound hkept d hd
    rcases mem_setConsumer hd with hd | rfl
    · exact hall d (hconsumers ▸ hd)
    · exact hkept.trans (hall c (List.mem_of_getElem? hfound))
  cases h with
  | session found _ _ effect => exact hset _ _ _ _ rfl found effect.kept.settings
  | worker found => exact hset _ _ _ _ rfl found rfl
  | adjust found adjusted =>
    refine hset _ _ _ _ rfl found ?_
    cases adjusted <;> rfl
  | hire =>
    intro c hc
    rcases List.mem_append.mp hc with hc | hc
    · exact hall c hc
    · rw [List.mem_singleton.mp hc]
      exact hired _ _ _ rfl
  | steer log consumers =>
    rw [consumers]
    exact hall
  | dispatch | append | closeLog => exact hall

end Relay

/-! ### A relay in service -/

namespace ShutdownStage

/-- All dispatches have been waited for. -/
def hasDispatched : ShutdownStage → Bool
  | serving | closing => false
  | stopping .. | closed => true

theorem hasDispatched_of_move? {stage stage' : ShutdownStage} {r : Relay} {m : RelayMove}
    (staged : stage.move? r m = some stage') : stage'.hasDispatched = stage.hasDispatched := by
  cases m with
  | takeHandle i =>
    obtain ⟨hstage, hstaged⟩ := Option.ite_none_right_eq_some.mp staged
    obtain ⟨c, -, rfl⟩ := Option.map_eq_some_iff.mp hstaged
    rw [hstage]
    rfl
  | hire =>
    obtain ⟨-, hstaged⟩ := Option.ite_none_right_eq_some.mp staged
    cases hstaged
    rfl
  | closeSender | cancel | closeLog =>
    obtain ⟨hstage, hstaged⟩ := Option.ite_none_right_eq_some.mp staged
    cases hstaged
    rw [hstage]
    rfl
  | session | worker | dispatch | elapse | append | request | equip | start | reroute | setMode
  | setDelay =>
    cases staged
    rfl

/-- The log is closed at the end only. -/
theorem ne_closed_of_move? {stage stage' : ShutdownStage} {r : Relay} {m : RelayMove}
    (staged : stage.move? r m = some stage') (hstage' : stage' ≠ .closed) :
    stage ≠ .closed ∧ m ≠ .closeLog := by
  cases m with
  | takeHandle i =>
    obtain ⟨hstage, -⟩ := Option.ite_none_right_eq_some.mp staged
    exact ⟨by rw [hstage]; nofun, nofun⟩
  | hire | closeSender | cancel =>
    obtain ⟨hstage, -⟩ := Option.ite_none_right_eq_some.mp staged
    exact ⟨by rw [hstage]; nofun, nofun⟩
  | closeLog =>
    obtain ⟨-, hstaged⟩ := Option.ite_none_right_eq_some.mp staged
    exact (hstage' (Option.some.inj hstaged).symm).elim
  | session | worker | dispatch | elapse | append | request | equip | start | reroute | setMode
  | setDelay =>
    cases staged
    exact ⟨hstage', nofun⟩

end ShutdownStage

namespace Settings

/-- A provider that settings ask for, whatever it draws. -/
def Provides (s : Settings) (p : Provider) : Prop :=
  ∃ draw, p = .simulated s.sender.successRate draw s.sender.delay

/-- What a server does to its relay. It hires its own consumers only, requests come as long as it
serves, the provider draws what it draws, and nothing keeps events from being published. -/
def Permits (s : Settings) (stage : ShutdownStage) : RelayMove → Prop
  | .hire _ settings _ => settings = s.consumer
  | .request .. => stage = .serving
  | .equip provider _ _ publishFault => s.Provides provider ∧ publishFault = none
  | _ => True

/-- A relay in the service of a server, from its beginning `r₀` to the end of its shutdown. -/
inductive Service (s : Settings) (r₀ : Relay) : ShutdownStage → Relay → List RelayEvent → Prop
  | start (fresh : r₀.Fresh) : Service s r₀ .serving r₀ []
  | move {stage stage' : ShutdownStage} {r r' : Relay} {h : List RelayEvent} {m : RelayMove}
      (service : Service s r₀ stage r h) (permitted : s.Permits stage m)
      (staged : stage.move? r m = some stage') (moved : r.move? m = some r') :
      Service s r₀ stage' r' (h ++ r.events m r')
  | await {stage stage' : ShutdownStage} {r : Relay} {h : List RelayEvent}
      (service : Service s r₀ stage r h) (awaited : stage.await? r = some stage') :
      Service s r₀ stage' r h

theorem Service.shutdown {s : Settings} {r₀ r : Relay} {stage : ShutdownStage}
    {h : List RelayEvent} (service : s.Service r₀ stage r h) : Shutdown r₀ stage r h := by
  induction service with
  | start fresh => exact .start fresh
  | move service permitted staged moved ih => exact ih.move staged moved
  | await service awaited ih => exact ih.await awaited

/-- The relay is as the settings say. -/
structure Fits (s : Settings) (stage : ShutdownStage) (r : Relay) : Prop where
  isOpen : stage ≠ .closed → r.log.closed = false
  topics : ∀ topic ∈ s.topics, ∃ t, r.log.find? topic = some t ∧ t.size = s.log.partitions
  consumers : ∀ c ∈ r.consumers, c.settings = s.consumer
  topic : r.sender.topic = s.sender.topic
  publishes : r.sender.publishFault = none
  provider : s.Provides r.sender.provider
  dispatched : stage.hasDispatched → ∀ d ∈ r.sender.dispatches, d.outcome? ≠ none

variable {s : Settings} {stage stage' : ShutdownStage} {r r' : Relay} {m : RelayMove}

/-- What a move permits the sender. -/
theorem Fits.sender (h : s.Fits stage r) (permitted : s.Permits stage m)
    (moved : r.move? m = some r') : r'.sender.publishFault = none ∧ s.Provides r'.sender.provider ∧
      (stage.hasDispatched → ∀ d ∈ r'.sender.dispatches, d.outcome? ≠ none) := by
  have hsame : r'.sender = r.sender → r'.sender.publishFault = none ∧
      s.Provides r'.sender.provider ∧
      (stage.hasDispatched → ∀ d ∈ r'.sender.dispatches, d.outcome? ≠ none) := by
    intro hsender
    rw [hsender]
    exact ⟨h.publishes, h.provider, h.dispatched⟩
  cases m with
  | session => exact hsame (Relay.sender_of_session moved)
  | worker => exact hsame (Relay.sender_of_worker moved)
  | start | cancel | takeHandle | reroute => exact hsame (Relay.sender_of_adjust moved)
  | request q id timestamp =>
    have hserving : stage = .serving := permitted
    simp only [Relay.move?] at moved
    split at moved
    · obtain ⟨⟨reply, s'⟩, hdecide, rfl⟩ := Option.map_eq_some_iff.mp moved
      have hok : r.sender.decide q id timestamp = .ok (reply, s') := by
        cases hd : r.sender.decide q id timestamp <;> rw [hd] at hdecide <;> cases hdecide
        rfl
      obtain rfl := Sender.eq_of_decide hok
      refine ⟨h.publishes, h.provider, fun hdispatched => ?_⟩
      rw [hserving] at hdispatched
      cases hdispatched
    · cases moved
  | dispatch n =>
    obtain ⟨⟨l', s'⟩, hstep, rfl⟩ := Option.map_eq_some_iff.mp moved
    -- a step is taken by a dispatch that has not ended
    cases Sender.effect_of_step? hstep with
    | goOn found pending | publish found pending =>
      exact ⟨h.publishes, h.provider, fun hdispatched =>
        (h.dispatched hdispatched _ (List.mem_of_getElem? found) pending).elim⟩
  | equip provider blockList guardFault publishFault =>
    cases moved
    exact ⟨permitted.2, permitted.1, h.dispatched⟩
  | closeSender =>
    cases moved
    exact ⟨h.publishes, h.provider, h.dispatched⟩
  | elapse | append | hire | closeLog | setMode | setDelay =>
    cases moved
    exact hsame rfl

/-- **A move of the server** leaves the relay as the settings say. -/
theorem Fits.move (h : s.Fits stage r) (hr : r.Sound) (permitted : s.Permits stage m)
    (staged : stage.move? r m = some stage') (moved : r.move? m = some r') :
    s.Fits stage' r' := by
  have heffect := Relay.effect_of_move? moved
  obtain ⟨hpublishes, hprovider, hdispatched⟩ := h.sender permitted moved
  refine ⟨fun hstage' => ?_, fun topic htopic => ?_, heffect.settings ?_ h.consumers,
    (Relay.senderShift_of_move? moved).1.trans h.topic, hpublishes, hprovider, fun hstage' => ?_⟩
  · obtain ⟨hstage, hm⟩ := ShutdownStage.ne_closed_of_move? staged hstage'
    exact (heffect.closed hr hm).trans (h.isOpen hstage)
  · obtain ⟨t, ht, hsize⟩ := h.topics topic htopic
    obtain ⟨t', ht', hsize'⟩ := heffect.find? hr ht
    exact ⟨t', ht', hsize'.trans hsize⟩
  · rintro name other transport rfl
    exact permitted
  · exact hdispatched (ShutdownStage.hasDispatched_of_move? staged ▸ hstage')

/-- The server goes on when what it waits for has happened. -/
theorem Fits.await (h : s.Fits stage r) (awaited : stage.await? r = some stage') :
    s.Fits stage' r := by
  cases stage with
  | serving | closed => cases awaited
  | closing =>
    obtain ⟨hidle, hstaged⟩ := Option.ite_none_right_eq_some.mp awaited
    cases hstaged
    refine ⟨fun _ => h.isOpen nofun, h.topics, h.consumers, h.topic, h.publishes, h.provider,
      fun _ d hd hnone => ?_⟩
    have hnobody := List.filter_eq_nil_iff.mp (List.length_eq_zero_iff.mp hidle) d hd
    rw [hnone] at hnobody
    exact hnobody rfl
  | stopping n stop =>
    have hdispatched := h.dispatched rfl
    cases stop with
    | running | cancelled | stopped => cases awaited
    | waiting waits =>
      obtain ⟨-, hstaged⟩ := Option.ite_none_right_eq_some.mp awaited
      cases hstaged
      exact ⟨fun _ => h.isOpen nofun, h.topics, h.consumers, h.topic, h.publishes, h.provider,
        fun _ => hdispatched⟩

variable {log : Log} {store : Store}

/-- The relay of a server that has its log and its store, and no consumer yet. -/
def base (s : Settings) (log : Log) (store : Store) (draw : Binary64) : Relay :=
  { log := log, link := { store := store }, sender := s.openSender draw }

theorem fresh_base (hnumbered : log.Numbered) (hunused : log.Unused) (hgroups : log.groups = [])
    (draw : Binary64) : (s.base log store draw).Fresh where
  numbered := hnumbered
  records := List.flatMap_eq_nil_iff.mpr fun t ht => List.flatMap_eq_nil_iff.mpr fun p hp =>
    (hunused t ht p hp).1
  watermarks topic i p hp := by
    obtain ⟨t, ht, hp⟩ := Option.bind_eq_some_iff.mp hp
    exact (hunused t (Log.mem_of_find? ht) p (List.mem_of_getElem? hp)).2
  groups := hgroups
  consumers := rfl
  dispatches := rfl
  handed := rfl

theorem fits_base (hopen : log.closed = false)
    (htopics : ∀ topic ∈ s.topics, ∃ t, log.find? topic = some t ∧ t.size = s.log.partitions)
    (draw : Binary64) : s.Fits .serving (s.base log store draw) where
  isOpen _ := hopen
  topics := htopics
  consumers := List.forall_mem_nil _
  topic := rfl
  publishes := rfl
  provider := ⟨draw, rfl⟩
  dispatched := nofun

variable {r₀ : Relay} {h : List RelayEvent}

/-- **In service** the relay stays as the settings say. -/
theorem Service.fits (hfits : s.Fits .serving r₀) (service : s.Service r₀ stage r h) :
    s.Fits stage r := by
  induction service with
  | start => exact hfits
  | move service permitted staged moved ih =>
    exact ih.move service.shutdown.course.sound permitted staged moved
  | await service awaited ih => exact ih.await awaited

/-- Everybody in the relay finds what the settings promise: a consumer that joins its group finds
its topic, a dispatch publishes its event, and the provider succeeds as often as it is set to. -/
structure Supplies (s : Settings) (r : Relay) : Prop where
  joins : ∀ c ∈ r.consumers, (∃ due, c.phase = .joining due) →
    ∃ t, r.log.topic? c.settings.topic = .ok t ∧ t.size = s.log.partitions
  publishes : ∀ d ∈ r.sender.dispatches, d.outcome? = none → ∀ status, ∃ t place l',
    r.log.topic? r.sender.topic = .ok t ∧ t.size = s.log.partitions ∧
    place.partition < s.log.partitions ∧
    r.sender.publish r.log d status = (.published status place, l')
  provider : ∃ draw : Binary64, r.sender.provider = fun _ _ =>
    ⟨s.sender.delay, some (if draw.lt s.sender.successRate then .success else .fail)⟩

theorem Fits.topic? (hfits : s.Fits stage r) (hstage : stage ≠ .closed) {topic : String}
    (htopic : topic ∈ s.topics) : ∃ t, r.log.find? topic = some t ∧
      r.log.topic? topic = .ok t ∧ t.size = s.log.partitions := by
  obtain ⟨t, ht, hsize⟩ := hfits.topics topic htopic
  exact ⟨t, ht, Log.topic?_of_find? (hfits.isOpen hstage) ht, hsize⟩

/-- **Nobody in service is left without** what the settings promise. -/
theorem Service.supplies (hvalid : s.violation? = none) (hfits : s.Fits .serving r₀)
    (service : s.Service r₀ stage r h) : s.Supplies r := by
  obtain ⟨hpositive, -, hsender⟩ := of_violation? hvalid
  have hnow := service.fits hfits
  refine ⟨fun c hc ⟨due, hjoining⟩ => ?_, fun d hd hpending status => ?_, ?_⟩
  · -- a consumer that is still joining has not been stopped, so the log is open
    have hstage : stage ≠ .closed := by
      rintro rfl
      obtain ⟨i, hi⟩ := List.getElem?_of_mem hc
      have hrest : c.AtRest := service.shutdown.expects i c hi
      rcases hrest.phase with hphase | hphase <;> rw [hjoining] at hphase <;> cases hphase
    obtain ⟨t, -, htopic, hsize⟩ := hnow.topic? hstage s.mem_topics.1
    exact ⟨t, hnow.consumers c hc ▸ htopic, hsize⟩
  · have hstage : stage ≠ .closed := by
      rintro rfl
      exact hnow.dispatched rfl d hd hpending
    obtain ⟨t, ht, htopic, hsize⟩ := hnow.topic? hstage s.mem_topics.2
    rw [← hnow.topic] at ht htopic
    have hpartition := Log.partition_append ht d.request.phone (d.event status).encode
    refine ⟨t, _, _, htopic, hsize, ?_, by rw [Sender.publish, hnow.publishes, Log.send, htopic]⟩
    rw [hpartition, hsize]
    exact partitionFor_lt _ (Nat.pos_of_ne_zero hpositive)
  · obtain ⟨draw, hprovider⟩ := hnow.provider
    exact ⟨draw, hprovider.trans (simulated_eq hsender draw)⟩

end Settings

/-! ### The start of a server -/

namespace Relay

variable {s : Settings}

/-- **A consumer is added and started.** -/
theorem join_eq (hconsumer : s.consumer.violation? = none) (r : Relay) (n : ℕ) :
    r.join s n = .ok { r with consumers := r.consumers ++ [s.startedConsumer n] } := by
  have hfound : (r.addConsumer (s.newConsumer n)).consumers[r.consumers.length]? =
      some (s.newConsumer n) := List.getElem?_concat_length
  rw [join, startConsumer, hfound]
  dsimp only
  rw [Settings.start_newConsumer hconsumer]
  simp [addConsumer, setConsumer, Except.map]

theorem foldlM_join (hconsumer : s.consumer.violation? = none) (r : Relay) (ns : List ℕ) :
    ns.foldlM (join s) r = .ok { r with consumers := r.consumers ++ ns.map s.startedConsumer } := by
  induction ns generalizing r with
  | nil =>
    rw [List.map_nil, List.append_nil]
    rfl
  | cons n rest ih =>
    rw [List.foldlM_cons, join_eq hconsumer]
    refine (ih _).trans ?_
    rw [List.append_assoc, List.map_cons, List.singleton_append]

end Relay

namespace Settings

variable {s : Settings} {r₀ r : Relay} {h : List RelayEvent}

/-- The server adds a consumer and starts it. -/
theorem Service.join (hconsumer : s.consumer.violation? = none)
    (service : s.Service r₀ .serving r h) (n : ℕ) : ∃ h',
      s.Service r₀ .serving { r with consumers := r.consumers ++ [s.startedConsumer n] } h' := by
  have hired : s.Service r₀ .serving (r.addConsumer (s.newConsumer n)) _ :=
    service.move (m := .hire (s.newConsumer n).name s.consumer {}) rfl rfl rfl
  refine ⟨_, hired.move (m := .start r.consumers.length) trivial rfl ?_⟩
  have hfound : (r.addConsumer (s.newConsumer n)).consumers[r.consumers.length]? =
      some (s.newConsumer n) := List.getElem?_concat_length
  rw [Relay.move?, Relay.adjust?, hfound, Option.bind_some, start_newConsumer hconsumer]
  simp [Relay.addConsumer, Relay.setConsumer, Except.toOption]

theorem Service.joinAll (hconsumer : s.consumer.violation? = none)
    (service : s.Service r₀ .serving r h) (ns : List ℕ) : ∃ h',
      s.Service r₀ .serving { r with consumers := r.consumers ++ ns.map s.startedConsumer } h' := by
  induction ns generalizing r h with
  | nil =>
    rw [List.map_nil, List.append_nil]
    exact ⟨h, service⟩
  | cons n rest ih =>
    obtain ⟨h₁, hjoined⟩ := service.join hconsumer n
    obtain ⟨h', hall⟩ := ih hjoined
    rw [List.append_assoc] at hall
    exact ⟨h', hall⟩

end Settings

namespace Relay

variable {s : Settings} {d : Disk}

/-- A store that cannot be loaded keeps the server from starting. -/
theorem assemble_of_unloaded {e : StoreError} (hload : (s.store.store d).load.1 = .error e)
    (draw : Binary64) : assemble s d draw = .error (.store e) := by
  rw [assemble]
  generalize (s.store.store d).load = loading at hload
  obtain ⟨loaded, store⟩ := loading
  obtain rfl : loaded = .error e := hload
  rfl

/-- **A store that is loaded** is all that a server needs. -/
theorem assemble_eq {log : Log} (hconsumer : s.consumer.violation? = none)
    (hopened : s.openLog = .ok log) (hload : (s.store.store d).load.1 = .ok ())
    (draw : Binary64) : assemble s d draw = .ok
      { s.base log (s.store.store d).load.2 draw with
        consumers := (List.range s.consumers).map s.startedConsumer } := by
  rw [assemble]
  generalize (s.store.store d).load = loading at hload
  obtain ⟨loaded, store⟩ := loading
  obtain rfl : loaded = .ok () := hload
  rw [hopened]
  show ((s.base log store draw).joinAll s).mapError ServerError.consumer = _
  rw [joinAll, foldlM_join hconsumer]
  rfl

end Relay

namespace Server

variable {w : Surroundings} {path : String} {port : Option ℕ} {s : Settings} {r : Relay}

theorem run_of_unassembled {e : ServerError}
    (hgather : Settings.gather path w.document w.lookup? port = .ok s)
    (hassembled : Relay.assemble s w.disk .zero = .error e) : run w path port = .error e := by
  rw [run, start, hgather]
  show ((Relay.assemble s w.disk .zero).bind _).bind _ = _
  rw [hassembled]
  rfl

theorem run_of_assembled (hgather : Settings.gather path w.document w.lookup? port = .ok s)
    (hassembled : Relay.assemble s w.disk .zero = .ok r) :
    run w path port = finish w s r.settle := by
  rw [run, start, hgather]
  show ((Relay.assemble s w.disk .zero).bind _).bind _ = _
  rw [hassembled]
  rfl

/-- A server that has started fails with its address only. -/
theorem finish_eq_error_iff {e : ServerError} : finish w s r = .error e ↔
    ∃ cause, w.addressFault = some cause ∧ e = .listen (.bind s.port cause) := by
  rw [finish]
  cases w.addressFault <;> simp [eq_comm]

end Server

namespace Settings

/-- What settings promise to a server that starts with them: all that can go wrong is that the store
cannot be loaded and that the address is taken. -/
structure Starts (s : Settings) (log : Log) : Prop where
  /-- The log is opened with both topics. -/
  opened : s.openLog = .ok log
  topics : ∀ topic, topic = s.consumer.topic ∨ topic = s.sender.topic →
    ∃ t, log.topic? topic = .ok t ∧ t.size = s.log.partitions
  consumers : ∀ n, ∃ c, (s.newConsumer n).start = .ok c
  /-- Without its store the server does not start. -/
  unloaded : ∀ d draw e, (s.store.store d).load.1 = .error e →
    Relay.assemble s d draw = .error (.store e)
  /-- With its store it does, and all its consumers with it. -/
  loaded : ∀ d draw, (s.store.store d).load.1 = .ok () →
    ∃ r h, Relay.assemble s d draw = .ok r ∧ r.consumers.length = s.consumers ∧
      (∀ c ∈ r.consumers, c.settings = s.consumer ∧ c.hasHandle = true ∧ c.phase = .beginning) ∧
      s.Service (s.base log (s.store.store d).load.2 draw) .serving r h
  /-- In service nobody is left without what the settings promise. -/
  supplies : ∀ store draw stage r h, s.Service (s.base log store draw) stage r h → s.Supplies r
  /-- The end of a server that has gathered these settings. -/
  ends : ∀ (w : Server.Surroundings) path port,
    gather path w.document w.lookup? port = .ok s → ∀ e, Server.run w path port = .error e ↔
      (∃ f, (s.store.store w.disk).load.1 = .error f ∧ e = .store f) ∨
      ((s.store.store w.disk).load.1 = .ok () ∧
        ∃ cause, w.addressFault = some cause ∧ e = .listen (.bind s.port cause))

/-- **Valid settings start.** -/
theorem starts_of_valid {s : Settings} (hvalid : s.violation? = none) : ∃ log, s.Starts log := by
  obtain ⟨hpositive, hconsumer, -⟩ := of_violation? hvalid
  obtain ⟨log, hopened, hnumbered, hunused, hopen, hgroups, htopics⟩ := exists_openLog hpositive
  refine ⟨log, hopened, fun topic htopic => ?_, fun n => ⟨_, start_newConsumer hconsumer n⟩,
    fun d draw e hload => Relay.assemble_of_unloaded hload draw, fun d draw hload => ?_,
    fun store draw stage r h service => service.supplies hvalid (fits_base hopen htopics draw),
    fun w path port hgather e => ?_⟩
  · have hmem : topic ∈ s.topics := by
      rcases htopic with rfl | rfl
      · exact s.mem_topics.1
      · exact s.mem_topics.2
    obtain ⟨t, ht, hsize⟩ := htopics topic hmem
    exact ⟨t, Log.topic?_of_find? hopen ht, hsize⟩
  · have hbase : s.Service (s.base log (s.store.store d).load.2 draw) .serving _ [] :=
      .start (fresh_base hnumbered hunused hgroups draw)
    obtain ⟨h, service⟩ := hbase.joinAll hconsumer (List.range s.consumers)
    refine ⟨_, h, Relay.assemble_eq hconsumer hopened hload draw, ?_, fun c hc => ?_, service⟩
    · rw [List.length_map, List.length_range]
    · obtain ⟨n, -, rfl⟩ := List.mem_map.mp hc
      exact ⟨rfl, rfl, rfl⟩
  · cases hload : (s.store.store w.disk).load.1 with
    | error f =>
      rw [Server.run_of_unassembled hgather (Relay.assemble_of_unloaded hload .zero)]
      simp [eq_comm]
    | ok =>
      rw [Server.run_of_assembled hgather (Relay.assemble_eq hconsumer hopened hload .zero)]
      simp [Server.finish_eq_error_iff]

/-- A server that publishes to a topic of its own can start. -/
theorem starts_of_valid_two_topics :
    ∃ s : Settings, s.sender.topic ≠ s.consumer.topic ∧ s.violation? = none ∧
      ∃ log, s.Starts log :=
  ⟨{ sender := { topic := "sms-replies" } }, by decide, by decide, starts_of_valid (by decide)⟩

end Settings

end SmsRelay
