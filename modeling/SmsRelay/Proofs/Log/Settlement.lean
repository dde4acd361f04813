import SmsRelay.Proofs.Log.Numbering

/-!
# What lies below committed offsets

A group tells its members to read from where it has committed, or from the oldest record kept. So
whatever holds of every offset below what has been committed and below the bases also holds of every
offset below the claims that are granted.

## Implementation notes

The property is a parameter: `Q g t i o` speaks of the offset `o` of the partition `i` of the topic
`t`, as the group `g` sees it. `SettledBelow Q` says that it holds below committed offsets and below
the claims that members have been told of.

## Main results

* `Log.SettledBelow.join`, `Log.SettledBelow.leave`, `Log.SettledBelow.nextEvent`,
  `Log.SettledBelow.mark`, `Log.SettledBelow.close`: every operation on groups keeps it.
-/

namespace SmsRelay

/-- A property of offsets as groups see them. -/
abbrev OffsetProperty := String → String → ℕ → ℕ → Prop

/-- The claims that an event grants. -/
def SessionEvent.claims : SessionEvent → List Claim
  | granted _ claims => claims
  | _ => []

variable {Q : OffsetProperty}

/-- The property holds below the position of a claim. -/
def Claim.SettledBelow (Q : OffsetProperty) (c : Claim) : Prop :=
  ∀ o < c.position, Q c.group c.topic c.partition o

/-- The property holds below what a group has committed and below the claims in its events. -/
structure Group.SettledBelow (Q : OffsetProperty) (g : Group) : Prop where
  committed : ∀ i, ∀ o < g.committed.getD i 0, Q g.name g.topic i o
  told : ∀ s ∈ g.sessions, ∀ e ∈ s.waiting, ∀ c ∈ e.claims, c.SettledBelow Q

/-- The property holds below what the groups of a log have committed and told their members. -/
def Log.SettledBelow (Q : OffsetProperty) (l : Log) : Prop := ∀ g ∈ l.groups, g.SettledBelow Q

/-- The property holds below the bases of the partitions of a topic. -/
def BasesSettled (Q : OffsetProperty) (group topic : String) (bases : List ℕ) : Prop :=
  ∀ i, ∀ o < bases.getD i 0, Q group topic i o

/-! ### Groups -/

namespace Group

/-- A change of sessions that adds no grants but settled ones. -/
theorem SettledBelow.congr {g g' : Group} (h : g.SettledBelow Q) (hname : g'.name = g.name)
    (htopic : g'.topic = g.topic) (hcommitted : g'.committed = g.committed)
    (htold : ∀ s' ∈ g'.sessions, ∀ e ∈ s'.waiting,
      (∀ c ∈ e.claims, c.SettledBelow Q) ∨ ∃ s ∈ g.sessions, e ∈ s.waiting) :
    g'.SettledBelow Q where
  committed := by
    rw [hname, htopic, hcommitted]
    exact h.committed
  told s' hs' e he := by
    rcases htold s' hs' e he with hsettled | ⟨s, hs, he⟩
    · exact hsettled
    · exact h.told s hs e he

theorem SettledBelow.updateSession {g : Group} (h : g.SettledBelow Q) {number : ℕ}
    {f : Session → Session} (hf : ∀ s ∈ g.sessions, ∀ e ∈ (f s).waiting,
      (∀ c ∈ e.claims, c.SettledBelow Q) ∨ e ∈ s.waiting) :
    (g.updateSession number f).SettledBelow Q := by
  refine h.congr rfl rfl rfl fun s' hs' e he => ?_
  obtain ⟨s, hs, rfl⟩ := List.mem_map.mp hs'
  split at he
  · exact (hf s hs e he).imp_right fun he => ⟨s, hs, he⟩
  · exact .inr ⟨s, hs, he⟩

theorem SettledBelow.tell {g : Group} (h : g.SettledBelow Q) {e : SessionEvent}
    (he : ∀ c ∈ e.claims, c.SettledBelow Q) (number : ℕ) : (g.tell number e).SettledBelow Q := by
  refine h.updateSession fun s _ e' he' => ?_
  split at he'
  · rcases List.mem_append.mp he' with he' | he'
    · exact .inr he'
    · rw [List.mem_singleton.mp he']
      exact .inl he
  · exact .inr he'

theorem SettledBelow.tellAll {g : Group} (h : g.SettledBelow Q) {events : List (ℕ × SessionEvent)}
    (he : ∀ p ∈ events, ∀ c ∈ p.2.claims, c.SettledBelow Q) :
    (g.tellAll events).SettledBelow Q := by
  induction events generalizing g with
  | nil => exact h
  | cons p rest ih =>
    exact ih (h.tell (he p List.mem_cons_self) p.1) fun q hq => he q (List.mem_cons_of_mem _ hq)

/-- Telling members changes sessions only. -/
theorem tellAll_eq (g : Group) (events : List (ℕ × SessionEvent)) :
    (g.tellAll events).name = g.name ∧ (g.tellAll events).topic = g.topic := by
  induction events generalizing g with
  | nil => exact ⟨rfl, rfl⟩
  | cons p rest ih => exact ih (g.tell p.1 p.2)

theorem SettledBelow.revoke {g : Group} (h : g.SettledBelow Q) : g.revoke.SettledBelow Q := by
  have hdetached : Group.SettledBelow Q { g with
      endedLeases := g.lease :: g.endedLeases
      members := g.members.filter g.isListening
      sessions := g.sessions.map fun s =>
        if (g.members.filter g.isListening).contains s.number then s
        else { s with attached := false } } := by
    refine h.congr rfl rfl rfl fun s' hs' e he => ?_
    obtain ⟨s, hs, rfl⟩ := List.mem_map.mp hs'
    refine .inr ⟨s, hs, ?_⟩
    split at he <;> exact he
  rw [Group.revoke]
  split
  · exact hdetached
  · refine hdetached.tellAll fun p hp c hc => ?_
    obtain ⟨n, -, rfl⟩ := List.mem_map.mp hp
    cases hc

theorem revoke_eq (g : Group) : g.revoke.name = g.name ∧ g.revoke.topic = g.topic := by
  rw [Group.revoke]
  split
  · exact ⟨rfl, rfl⟩
  · exact tellAll_eq _ _

/-- Claims begin where the group has committed or at the base. -/
theorem SettledBelow.share {g : Group} (h : g.SettledBelow Q) {bases : List ℕ}
    (hbases : BasesSettled Q g.name g.topic bases) {count place : ℕ} {c : Claim}
    (hc : c ∈ g.share bases count place) : c.SettledBelow Q := by
  obtain ⟨i, -, hi⟩ := List.mem_filterMap.mp hc
  split at hi
  · cases hi
    intro o (ho : o < max (g.committed.getD i 0) (bases.getD i 0))
    rcases Nat.lt_or_ge o (g.committed.getD i 0) with hlt | hge
    · exact h.committed i o hlt
    · exact hbases i o (by omega)
  · cases hi

theorem SettledBelow.assign {g : Group} (h : g.SettledBelow Q) {bases : List ℕ}
    (hbases : BasesSettled Q g.name g.topic bases) : (g.assign bases).SettledBelow Q := by
  have hnext : Group.SettledBelow Q
      { g with generation := g.generation + 1, lease := g.lease + 1 } :=
    h.congr rfl rfl rfl fun s hs e he => .inr ⟨s, hs, he⟩
  refine hnext.tellAll fun p hp c hc => ?_
  obtain ⟨⟨n, place⟩, -, rfl⟩ := List.mem_map.mp hp
  exact hnext.share hbases hc

theorem assign_eq (g : Group) (bases : List ℕ) :
    (g.assign bases).name = g.name ∧ (g.assign bases).topic = g.topic :=
  tellAll_eq _ _

theorem SettledBelow.join {g g' : Group} (h : g.SettledBelow Q) {bases : List ℕ} {number : ℕ}
    (hbases : BasesSettled Q g.name g.topic bases) (hj : g.join bases = .ok (number, g')) :
    g'.SettledBelow Q ∧ g'.name = g.name ∧ g'.topic = g.topic := by
  obtain ⟨hname, htopic⟩ := g.revoke_eq
  rw [Group.join] at hj
  split at hj
  · cases hj
  · cases hj
    have hjoined : Group.SettledBelow Q { g.revoke with
        joined := g.revoke.joined + 1
        members := g.revoke.members ++ [g.revoke.joined + 1]
        sessions := g.revoke.sessions ++ [({ number := g.revoke.joined + 1 } : Session)] } := by
      refine h.revoke.congr rfl rfl rfl fun s hs e he => ?_
      rcases List.mem_append.mp hs with hs | hs
      · exact .inr ⟨s, hs, he⟩
      · rw [List.mem_singleton.mp hs] at he
        cases he
    refine ⟨hjoined.assign ?_, (assign_eq _ _).1.trans hname, (assign_eq _ _).2.trans htopic⟩
    show BasesSettled Q g.revoke.name g.revoke.topic bases
    rwa [hname, htopic]

theorem SettledBelow.drop {g : Group} (h : g.SettledBelow Q) (number : ℕ) :
    (g.drop number).SettledBelow Q :=
  h.updateSession fun _ _ _ he => .inr he

theorem SettledBelow.leave {g : Group} (h : g.SettledBelow Q) {bases : List ℕ}
    (hbases : BasesSettled Q g.name g.topic bases) (number : ℕ) :
    (g.leave bases number).SettledBelow Q := by
  have hquiet : Group.SettledBelow Q { (g.updateSession number fun s =>
      { s with attached := false }).drop number with
        members := g.members.filter (· ≠ number) } := by
    have hdetached :
        (g.updateSession number fun s => { s with attached := false }).SettledBelow Q :=
      h.updateSession fun _ _ _ he => .inr he
    exact (hdetached.drop number).congr rfl rfl rfl fun s hs e he => .inr ⟨s, hs, he⟩
  rw [Group.leave]
  split
  · exact hquiet
  · refine hquiet.revoke.assign ?_
    rw [(revoke_eq _).1, (revoke_eq _).2]
    exact hbases

theorem SettledBelow.close {g : Group} (h : g.SettledBelow Q) : g.close.SettledBelow Q := by
  have htold : (g.tellAll (g.members.map (·, .closed))).SettledBelow Q := by
    refine h.tellAll fun p hp c hc => ?_
    obtain ⟨n, -, rfl⟩ := List.mem_map.mp hp
    cases hc
  refine htold.congr rfl rfl rfl fun s' hs' e he => ?_
  obtain ⟨s, hs, rfl⟩ := List.mem_map.mp hs'
  exact .inr ⟨s, hs, he⟩

theorem SettledBelow.nextEvent {g g' : Group} (h : g.SettledBelow Q) {number : ℕ}
    {e : Option SessionEvent} (hn : g.nextEvent number = (e, g')) :
    g'.SettledBelow Q ∧ g'.name = g.name ∧ g'.topic = g.topic ∧
      ∀ e' ∈ e, ∀ c ∈ e'.claims, c.SettledBelow Q := by
  rw [Group.nextEvent] at hn
  split at hn
  · cases hn
    refine ⟨h, rfl, rfl, ?_⟩
    rintro _ ⟨⟩ c hc
    cases hc
  · rename_i s hs
    have hmem : s ∈ g.sessions := List.mem_of_find?_eq_some hs
    split at hn
    · rename_i e' rest hwaiting
      cases hn
      refine ⟨h.updateSession fun _ _ e he => .inl ?_, rfl, rfl, ?_⟩
      · exact h.told s hmem e (hwaiting ▸ List.mem_cons_of_mem _ he)
      · rintro _ ⟨⟩
        exact h.told s hmem e' (hwaiting ▸ List.mem_cons_self)
    · cases hn
      refine ⟨h, rfl, rfl, ?_⟩
      intro e' he' c hc
      split at he'
      · cases he'
      · cases he'
        cases hc

theorem SettledBelow.commit {g : Group} (h : g.SettledBelow Q) {partition generation offset : ℕ}
    (hoffset : ∀ o ≤ offset, Q g.name g.topic partition o) :
    (g.commit partition generation offset).SettledBelow Q := by
  rw [Group.commit]
  split
  · refine ⟨fun i o ho => ?_, h.told⟩
    have hi := h.committed i o
    simp only [List.getD_eq_getElem?_getD, List.getElem?_modify] at ho hi
    cases hc : g.committed[i]? with
    | none => simp [hc] at ho
    | some n =>
      simp only [hc, Option.map_eq_map, Option.map_some, Option.getD_some] at ho hi
      split at ho
      · rename_i hpartition
        rcases Nat.lt_or_ge o n with hlt | hge
        · exact hi hlt
        · rw [← hpartition]
          exact hoffset o (by omega)
      · exact hi ho
  · exact h

/-- A property that holds of more offsets. -/
theorem SettledBelow.mono {Q' : OffsetProperty} {g : Group} (h : g.SettledBelow Q)
    (hQ : ∀ n t i o, Q n t i o → Q' n t i o) : g.SettledBelow Q' :=
  ⟨fun i o ho => hQ _ _ _ _ (h.committed i o ho),
    fun s hs e he c hc o ho => hQ _ _ _ _ (h.told s hs e he c hc o ho)⟩

end Group

/-! ### The log -/

namespace Log

theorem mem_of_group? {l : Log} {name topic : String} {g : Group}
    (h : l.group? name topic = some g) : g ∈ l.groups ∧ g.name = name ∧ g.topic = topic := by
  refine ⟨List.mem_of_find?_eq_some h, ?_⟩
  simpa using List.find?_some h

theorem SettledBelow.setGroup {l : Log} (h : l.SettledBelow Q) {g : Group}
    (hg : g.SettledBelow Q) : (l.setGroup g).SettledBelow Q := by
  intro g' hg'
  obtain ⟨u, hu, rfl⟩ := List.mem_map.mp hg'
  split
  · exact hg
  · exact h u hu

theorem SettledBelow.updateGroup {l : Log} (h : l.SettledBelow Q) {name topic : String}
    {f : Group → Group} (hf : ∀ g, g.name = name → g.topic = topic → g.SettledBelow Q →
      (f g).SettledBelow Q) : (l.updateGroup name topic f).SettledBelow Q := by
  rw [Log.updateGroup]
  split
  · rename_i g hg
    obtain ⟨hmem, hname, htopic⟩ := mem_of_group? hg
    exact h.setGroup (hf g hname htopic (h g hmem))
  · exact h

theorem settledBelow_create (name : String) (t : Topic) :
    (Group.create name t).SettledBelow Q where
  committed i o ho := by
    have hzero : (List.replicate t.size 0).getD i 0 = 0 := by
      rw [List.getD_eq_getElem?_getD, List.getElem?_replicate]
      split <;> rfl
    exact absurd (hzero ▸ ho) (Nat.not_lt_zero o)
  told := nofun

theorem SettledBelow.withGroup {l : Log} (h : l.SettledBelow Q) (name : String) (t : Topic) :
    (l.withGroup name t).1.SettledBelow Q ∧ (l.withGroup name t).2.SettledBelow Q ∧
      (l.withGroup name t).2.name = name ∧ (l.withGroup name t).2.topic = t.name := by
  rw [Log.withGroup]
  split
  · rename_i g hg
    obtain ⟨hmem, hname, htopic⟩ := mem_of_group? hg
    exact ⟨h, h g hmem, hname, htopic⟩
  · refine ⟨fun g hg => ?_, settledBelow_create name t, rfl, rfl⟩
    rcases List.mem_append.mp hg with hg | hg
    · exact h g hg
    · rw [List.mem_singleton.mp hg]
      exact settledBelow_create name t

theorem SettledBelow.join {l l' : Log} (h : l.SettledBelow Q) {name topic : String} {number : ℕ}
    (hbases : BasesSettled Q name topic (l.bases topic))
    (hj : l.join name topic = .ok (number, l')) : l'.SettledBelow Q := by
  rw [Log.join] at hj
  split at hj
  · rename_i t ht
    have htname : t.name = topic := by
      rw [Log.topic?] at ht
      split at ht
      · cases ht
      · split at ht
        · rename_i u hfind
          cases ht
          exact name_of_find? hfind
        · cases ht
    obtain ⟨hlog, hgroup, hname, htopic⟩ := h.withGroup name t
    have htopics := l.topics_withGroup name t
    rw [Log.enrol] at hj
    rcases hwith : l.withGroup name t with ⟨l₁, g⟩
    rw [hwith] at hlog hgroup htopics hname htopic hj
    have hbases₁ : l₁.bases t.name = l.bases topic := by
      rw [htname, Log.bases, Log.bases, Log.find?, Log.find?, htopics]
    simp only [hbases₁] at hj
    split at hj
    · rename_i number' g' hjoin
      cases hj
      have hg : BasesSettled Q g.name g.topic (l.bases topic) := by
        rwa [hname, htopic, htname]
      exact hlog.setGroup (hgroup.join hg hjoin).1
    · cases hj
  · cases hj

theorem SettledBelow.leave {l : Log} (h : l.SettledBelow Q) {name topic : String}
    (hbases : BasesSettled Q name topic (l.bases topic)) (number : ℕ) :
    (l.leave name topic number).SettledBelow Q := by
  refine h.updateGroup fun g hname htopic hg => hg.leave ?_ number
  rwa [hname, htopic]

theorem SettledBelow.nextEvent {l l' : Log} (h : l.SettledBelow Q) {name topic : String}
    {number : ℕ} {e : SessionEvent} (hn : l.nextEvent name topic number = (some e, l')) :
    l'.SettledBelow Q ∧ ∀ c ∈ e.claims, c.SettledBelow Q := by
  rw [Log.nextEvent] at hn
  split at hn
  · rename_i g hg
    obtain ⟨hmem, hname, htopic⟩ := mem_of_group? hg
    rcases hnext : g.nextEvent number with ⟨e', g'⟩
    rw [hnext] at hn
    cases hn
    obtain ⟨hg', -, -, he⟩ := (h g hmem).nextEvent hnext
    exact ⟨h.setGroup hg', he e rfl⟩
  · cases hn
    exact ⟨h, List.forall_mem_nil _⟩

theorem SettledBelow.mark {l : Log} (h : l.SettledBelow Q) {c : Claim} {offset : ℕ}
    (hoffset : ∀ o ≤ offset, Q c.group c.topic c.partition o) :
    (l.mark c offset).SettledBelow Q := by
  refine h.updateGroup fun g hname htopic hg => hg.commit ?_
  rwa [hname, htopic]

theorem SettledBelow.close {l : Log} (h : l.SettledBelow Q) : l.close.SettledBelow Q := by
  intro g hg
  obtain ⟨u, hu, rfl⟩ := List.mem_map.mp hg
  exact (h u hu).close

theorem SettledBelow.mono {Q' : OffsetProperty} {l : Log} (h : l.SettledBelow Q)
    (hQ : ∀ g t i o, Q g t i o → Q' g t i o) : l.SettledBelow Q' :=
  fun g hg => (h g hg).mono hQ

end Log

end SmsRelay
