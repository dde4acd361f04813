import SmsRelay.Proofs.Log.Readership

/-!
# Runs of a log

A run of a log and its readers, with what is seen of it. When it begins with an empty log, what is
seen of one group is a run of that group, and a claim that is read has been granted by its group.

## Implementation notes

Runs have a parameter that says which moves are allowed when; without it, all moves are.

## Main results

* `Readership.Run.group`: what happens to a group is a run of the group.
* `Readership.Run.placed`: where the claims of readers come from.
* `Readership.Effect.grows`: partitions only grow, and their bases only move on.
-/

namespace SmsRelay

/-! ### Topics -/

/-- Partitions stay. Their bases and watermarks move on. -/
def Log.Grows (l l' : Log) : Prop := ∀ topic i p, l.partitionAt topic i = some p →
  ∃ p', l'.partitionAt topic i = some p' ∧ p.base ≤ p'.base ∧ p.watermark ≤ p'.watermark

namespace Log

variable {l l' : Log}

/-- The partitions of a topic are there. -/
theorem partitionAt_of_lt {topic : String} {t : Topic} (ht : l.find? topic = some t) {i : ℕ}
    (hi : i < t.size) : ∃ p, l.partitionAt topic i = some p :=
  ⟨_, by rw [partitionAt, ht]; exact List.getElem?_eq_getElem hi⟩

/-- What it is to create a topic. -/
theorem of_createTopic {name : String} {partitions : ℕ}
    (h : l.createTopic name partitions = .ok l') : partitions ≠ 0 ∧ l.find? name = none ∧
      l' = { l with topics := l.topics ++ [Topic.create name partitions l.retention] } := by
  rw [createTopic] at h
  split at h
  · cases h
  · rename_i hpartitions
    split at h
    · cases h
    · rename_i hnone
      cases h
      exact ⟨hpartitions, by simpa using hnone, rfl⟩

theorem find?_createTopic {name : String} {partitions : ℕ}
    (h : l.createTopic name partitions = .ok l') (topic : String) :
    l'.find? topic = (l.find? topic).or
      (if name = topic then some (Topic.create name partitions l.retention) else none) := by
  obtain ⟨-, -, rfl⟩ := of_createTopic h
  rw [find?, List.find?_append, ← find?, List.find?_singleton]
  by_cases hname : name = topic <;> simp [Topic.create, hname]

theorem partitionAt_createTopic {name : String} {partitions : ℕ}
    (h : l.createTopic name partitions = .ok l') {topic : String} {i : ℕ} {p : Partition}
    (hp : l.partitionAt topic i = some p) : l'.partitionAt topic i = some p := by
  obtain ⟨t, ht, hp⟩ := Option.bind_eq_some_iff.mp hp
  rw [partitionAt, find?_createTopic h, ht]
  exact hp

/-- An append leaves names and sizes alone. -/
theorem find?_append {topic : String} {t : Topic} (ht : l.find? topic = some t)
    (topic' key : String) (value : Bytes) : ∃ t',
      (l.append topic' key value).1.find? topic = some t' ∧ t'.name = t.name ∧
        t'.size = t.size := by
  rw [append]
  split
  · rename_i u hu
    have hname : (u.append key value).1.name = u.name := by
      rw [Topic.append]
      split <;> rfl
    show ∃ t', (l.setTopic _).find? topic = some t' ∧ _
    rw [find?_setTopic, ht, Option.map_some]
    split
    · rename_i hsame
      refine ⟨_, rfl, hsame.symm, ?_⟩
      rw [hname, name_of_find? ht, name_of_find? hu] at hsame
      rw [← hsame, ht] at hu
      cases hu
      exact Topic.size_append t key value
    · exact ⟨t, rfl, rfl, rfl⟩
  · exact ⟨t, ht, rfl, rfl⟩

theorem find?_append_of_none {topic : String} (ht : l.find? topic = none) (topic' key : String)
    (value : Bytes) : (l.append topic' key value).1.find? topic = none := by
  rw [append]
  split
  · exact (find?_setTopic _ _ _).trans (by rw [ht]; rfl)
  · exact ht

theorem retention_append (l : Log) (topic key : String) (value : Bytes) :
    (l.append topic key value).1.retention = l.retention := by
  rw [append]
  split <;> rfl

/-- The key of a record chooses its partition. -/
theorem partition_append {topic : String} {t : Topic} (ht : l.find? topic = some t) (key : String)
    (value : Bytes) : (l.append topic key value).2.partition = partitionFor key t.size := by
  simp only [append, ht]
  rw [Topic.append]
  split <;> rfl

theorem grows_of_topics (h : l'.topics = l.topics) : l.Grows l' := fun topic i p hp =>
  ⟨p, (partitionAt_of_topics h topic i).trans hp, Nat.le_refl _, Nat.le_refl _⟩

theorem Numbered.grows_append (hn : l.Numbered) (topic key : String) (value : Bytes) :
    l.Grows (l.append topic key value).1 := by
  intro topic' i' p' hp'
  have happended := hn.appended topic key value
  generalize l.append topic key value = e at happended
  cases happended with
  | ignored => exact ⟨p', hp', Nat.le_refl _, Nat.le_refl _⟩
  | @grown i p l' place here elsewhere _ _ =>
    by_cases hsame : (topic', i') = (topic, i)
    · cases hsame
      obtain rfl := Option.some.inj (place.symm.trans hp')
      refine ⟨_, here, Nat.le_add_right _ _, ?_⟩
      rw [Partition.watermark_append, (hn.of_partitionAt hp').1.watermark]
      exact Nat.le_succ _
    · exact ⟨p', (elsewhere topic' i' hsame).trans hp', Nat.le_refl _, Nat.le_refl _⟩

end Log

namespace LogEvent

/-- The claims that an event grants. -/
def claims : LogEvent → List Claim
  | heard _ _ e => e.claims
  | _ => []

/-- What is heard of a group. -/
def heard? (group topic : String) : LogEvent → Option GroupEvent
  | heard g t e => if g = group ∧ t = topic then some e else none
  | _ => none

end LogEvent

namespace Readership

/-- What has been heard of a group. -/
def groupEvents (h : List LogEvent) (group topic : String) : List GroupEvent :=
  h.filterMap (·.heard? group topic)

/-- A log without topics, and without readers. -/
def empty (retention : ℕ) : Readership := { log := { retention := retention } }

/-- A run from `r₀`, with what is seen of it, oldest first. Only moves that are allowed are made. -/
inductive Run (allowed : Readership → List LogEvent → LogMove → Prop) (r₀ : Readership) :
    Readership → List LogEvent → Prop
  | start : Run allowed r₀ r₀ []
  | move {r r' : Readership} {h : List LogEvent} {m : LogMove} (run : Run allowed r₀ r h)
      (permitted : allowed r h m) (moved : r.move? m = some r') :
      Run allowed r₀ r' (h ++ r.events m r')

variable {allowed : Readership → List LogEvent → LogMove → Prop} {retention : ℕ}
  {r r' : Readership} {h h' : List LogEvent} {m : LogMove} {es : List LogEvent}

/-! ### What moves keep -/

theorem Effect.grows (heffect : Effect r m r' es) (hn : r.log.Numbered) : r.log.Grows r'.log := by
  cases heffect with
  | create created =>
    exact fun topic i p hp =>
      ⟨p, Log.partitionAt_createTopic created hp, Nat.le_refl _, Nat.le_refl _⟩
  | append => exact hn.grows_append _ _ _
  | regroup _ step => exact Log.grows_of_topics step.topics
  | read | shut | closeGroups | idle => exact Log.grows_of_topics rfl

theorem Effect.numbered (heffect : Effect r m r' es) (hn : r.log.Numbered) : r'.log.Numbered := by
  cases heffect with
  | create created => exact hn.createTopic created
  | append => exact hn.append _ _ _
  | regroup _ step => exact hn.of_topics step.topics
  | read | shut | closeGroups | idle => exact hn.of_topics rfl

/-- Topics stay, with their sizes. -/
theorem Effect.find? (heffect : Effect r m r' es) {topic : String} {t : Topic}
    (ht : r.log.find? topic = some t) :
    ∃ t', r'.log.find? topic = some t' ∧ t'.name = t.name ∧ t'.size = t.size := by
  cases heffect with
  | create created => exact ⟨t, by rw [Log.find?_createTopic created, ht]; rfl, rfl, rfl⟩
  | append => exact Log.find?_append ht _ _ _
  | regroup _ step => exact ⟨t, (Log.find?_of_topics step.topics topic).trans ht, rfl, rfl⟩
  | read | shut | closeGroups | idle => exact ⟨t, ht, rfl, rfl⟩

theorem Run.numbered (run : Run allowed (empty retention) r h) : r.log.Numbered := by
  induction run with
  | start => exact Log.numbered_of_nil rfl
  | move run permitted moved ih => exact (effect_of_move? moved).numbered ih

/-! ### Groups -/

theorem groupEvents_append (h h' : List LogEvent) (group topic : String) :
    groupEvents (h ++ h') group topic = groupEvents h group topic ++ groupEvents h' group topic :=
  List.filterMap_append

theorem groupEvents_map (es : List GroupEvent) (group topic group' topic' : String) :
    groupEvents (es.map (.heard group topic)) group' topic' =
      if group = group' ∧ topic = topic' then es else [] := by
  rw [groupEvents, List.filterMap_map]
  split
  · rename_i hsame
    simp [LogEvent.heard?, hsame]
  · rename_i hother
    simp [Function.comp_def, LogEvent.heard?, hother]

theorem mem_groupEvents {group topic : String} {e : GroupEvent} :
    e ∈ groupEvents h group topic ↔ .heard group topic e ∈ h := by
  refine List.mem_filterMap.trans ⟨?_, fun he => ⟨_, he, if_pos ⟨rfl, rfl⟩⟩⟩
  rintro ⟨e', he', heq⟩
  cases e' with
  | heard group' topic' e' =>
    obtain ⟨⟨rfl, rfl⟩, hsame⟩ := Option.ite_none_right_eq_some.mp heq
    cases hsame
    exact he'
  | created | sent | returned => cases heq

theorem claims_heard (es : List GroupEvent) (group topic : String) :
    (es.map (.heard group topic)).flatMap LogEvent.claims = es.flatMap GroupEvent.claims := by
  rw [List.flatMap_map]
  rfl

/-- A group has had a run, or there is none and nothing has been heard of it. -/
def Grouped (r : Readership) (h : List LogEvent) (group topic : String) : Prop :=
  (r.log.group? group topic = none ∧ groupEvents h group topic = []) ∨
    ∃ g t, r.log.group? group topic = some g ∧ r.log.find? topic = some t ∧
      Group.Run (Group.create group t) g (groupEvents h group topic)

/-- **What a move does to a group**: nothing, or the group makes a move, which is that of the log or
the end of all groups. -/
theorem Effect.group (heffect : Effect r m r' es) (group topic : String) :
    (r'.log.group? group topic = r.log.group? group topic ∧ groupEvents es group topic = []) ∨
      ∃ m' g g', r.log.seat? group topic = some g ∧ g.move? m' = some g' ∧
        r'.log.group? group topic = some g' ∧ groupEvents es group topic = g.events m' g' ∧
        (m' = .close ∨ r.groupMove? m = some (group, topic, m')) := by
  cases heffect with
  | @regroup _ group' topic' m' g g' l concerns step =>
    rw [groupEvents_map]
    by_cases hsame : (group, topic) = (group', topic')
    · cases hsame
      rw [if_pos ⟨rfl, rfl⟩]
      exact .inr ⟨m', g, g', step.before, step.moved, step.after, rfl, .inr concerns⟩
    · rw [if_neg]
      · exact .inl ⟨step.others _ _ hsame, rfl⟩
      · rintro ⟨rfl, rfl⟩
        exact hsame rfl
  | closeGroups =>
    rw [Log.group?_closeGroups]
    cases hg : r.log.group? group topic with
    | none => exact .inl ⟨rfl, rfl⟩
    | some g =>
      refine .inr ⟨.close, g, g.close, ?_, rfl, rfl, ?_, .inl rfl⟩
      · rw [Log.seat?, hg, Option.some_or]
      · exact (Group.events_of_same .close (Group.generation_close g)).symm
  | create created =>
    obtain ⟨-, -, rfl⟩ := Log.of_createTopic created
    exact .inl ⟨rfl, rfl⟩
  | append => exact .inl ⟨by rw [Log.group?, Log.group?, Log.groups_append], rfl⟩
  | @read i m x x' a => exact .inl ⟨rfl, by cases a <;> rfl⟩
  | shut | idle => exact .inl ⟨rfl, rfl⟩

/-- A commit comes of a mark. -/
theorem mark_of_groupMove? {group topic : String} {partition generation offset : ℕ}
    (concerns : r.groupMove? m = some (group, topic, .commit partition generation offset)) :
    ∃ i x, m = .mark i offset ∧ r.readers[i]? = some x ∧ x.claim.group = group ∧
      x.claim.topic = topic ∧ x.claim.partition = partition := by
  cases m with
  | mark i o =>
    obtain ⟨x, hx, heq⟩ := Option.map_eq_some_iff.mp concerns
    cases heq
    exact ⟨i, x, rfl, hx, rfl, rfl, rfl⟩
  | _ => cases concerns

/-- The group that is about to make a move has had a run. -/
theorem Grouped.seat {group topic : String} (hr : r.Grouped h group topic) {g : Group}
    (hg : r.log.seat? group topic = some g) : ∃ t, r.log.find? topic = some t ∧
      Group.Run (Group.create group t) g (groupEvents h group topic) := by
  rw [Log.seat?] at hg
  rcases hr with ⟨hnone, hevents⟩ | ⟨g₀, t, hg₀, ht, run⟩
  · rw [hnone, Option.none_or] at hg
    obtain ⟨t, ht, rfl⟩ := Option.map_eq_some_iff.mp hg
    exact ⟨t, ht, hevents ▸ .start⟩
  · rw [hg₀, Option.some_or] at hg
    cases hg
    exact ⟨t, ht, run⟩

theorem Grouped.move {group topic : String} (hr : r.Grouped h group topic)
    (heffect : Effect r m r' es) : r'.Grouped (h ++ es) group topic := by
  rw [Grouped, groupEvents_append]
  rcases heffect.group group topic with ⟨hgroup, hes⟩ | ⟨m', g, g', hseat, moved, hgroup, hes, -⟩
  · rw [hgroup, hes, List.append_nil]
    refine hr.imp_right ?_
    rintro ⟨g, t, hg, ht, run⟩
    obtain ⟨t', ht', hname, hsize⟩ := heffect.find? ht
    exact ⟨g, t', hg, ht', by rwa [Group.create, hname, hsize]⟩
  · obtain ⟨t, ht, run⟩ := hr.seat hseat
    obtain ⟨t', ht', hname, hsize⟩ := heffect.find? ht
    rw [hes]
    refine .inr ⟨g', t', hgroup, ht', ?_⟩
    rw [Group.create, hname, hsize]
    exact run.move moved

theorem Run.grouped (run : Run allowed (empty retention) r h) (group topic : String) :
    r.Grouped h group topic := by
  induction run with
  | start => exact .inl ⟨rfl, rfl⟩
  | move run permitted moved ih => exact ih.move (effect_of_move? moved)

/-- **What happens to a group** in a run of its log is a run of the group. -/
theorem Run.group (run : Run allowed (empty retention) r h) {group topic : String} {g : Group}
    (hg : r.log.group? group topic = some g) : ∃ t, r.log.find? topic = some t ∧
      Group.Run (Group.create group t) g (groupEvents h group topic) := by
  rcases run.grouped group topic with ⟨hnone, -⟩ | ⟨g', t, hg', ht, run'⟩
  · rw [hg] at hnone
    cases hnone
  · rw [hg] at hg'
    cases hg'
    exact ⟨t, ht, run'⟩

/-! ### Readers -/

theorem Effect.claims (heffect : Effect r m r' es) :
    r'.readers.map (·.claim) = r.readers.map (·.claim) ++ es.flatMap (·.claims) := by
  cases heffect with
  | @regroup _ name topic m' g g' l concerns step =>
    rw [List.map_append, List.map_map, claims_heard]
    congr 1
    exact List.map_id _
  | @read i m x x' a found effect =>
    have hnone : (a.map (LogEvent.returned i)).toList.flatMap (·.claims) = [] := by
      cases a <;> rfl
    obtain ⟨hi, rfl⟩ := List.getElem?_eq_some_iff.mp found
    rw [hnone, List.append_nil, List.map_set, effect.claim]
    have hself := List.set_getElem_self
      (show i < (r.readers.map (·.claim)).length by simpa using hi)
    rwa [List.getElem_map] at hself
  | create | append | shut | closeGroups | idle => exact (List.append_nil _).symm

/-- What a move does to a reader: nothing, or the reader takes a step. -/
theorem Effect.reader (heffect : Effect r m r' es) {i : ℕ} {x : Reader}
    (hx : r.readers[i]? = some x) :
    (r'.readers[i]? = some x ∧ ∀ a, .returned i a ∉ es) ∨
      ∃ rm x' a, m = .read i rm ∧ x.Effect r.log rm x' a ∧ r'.log = r.log ∧
        r'.readers[i]? = some x' ∧ es = (a.map (.returned i)).toList := by
  cases heffect with
  | regroup =>
    exact .inl ⟨List.getElem?_append_left (List.getElem?_eq_some_iff.mp hx).1 ▸ hx, by simp⟩
  | @read j rm y y' a found effect =>
    by_cases hj : j = i
    · subst hj
      obtain rfl := Option.some.inj (found.symm.trans hx)
      exact .inr ⟨rm, y', a, rfl, effect, rfl,
        List.getElem?_set_self (List.getElem?_eq_some_iff.mp hx).1, rfl⟩
    · refine .inl ⟨(List.getElem?_set_ne hj).trans hx, fun a' ha' => ?_⟩
      cases a with
      | none => cases ha'
      | some a => exact hj (LogEvent.returned.inj (List.mem_singleton.mp ha')).1.symm
  | create | append => exact .inl ⟨hx, by simp⟩
  | shut | closeGroups | idle => exact .inl ⟨hx, nofun⟩

/-- Each reader has a claim that its group has granted, in the order in which sessions answered. -/
theorem Run.claims (run : Run allowed (empty retention) r h) :
    r.readers.map (·.claim) = h.flatMap (·.claims) := by
  induction run with
  | start => rfl
  | move run permitted moved ih =>
    rw [(effect_of_move? moved).claims, ih, List.flatMap_append]

/-- A session of a group has answered with a grant of a claim. -/
def Granted (h : List LogEvent) (c : Claim) (number : ℕ) (claims : List Claim) : Prop :=
  .answered number (.granted c.generation claims) ∈ groupEvents h c.group c.topic ∧ c ∈ claims

/-- Claims are granted in the answers of sessions. -/
theorem mem_claims {c : Claim} (hc : c ∈ h.flatMap (·.claims)) : ∃ group topic number γ claims,
    .heard group topic (.answered number (.granted γ claims)) ∈ h ∧ c ∈ claims := by
  obtain ⟨e, he, hc⟩ := List.mem_flatMap.mp hc
  rcases e with _ | _ | ⟨group, topic, _ | ⟨number, ⟨γ, claims⟩ | _ | _⟩ | _⟩ | _
  case heard.answered.granted => exact ⟨group, topic, number, γ, claims, he, hc⟩
  all_goals exact absurd hc List.not_mem_nil

/-- A grant that has been answered. -/
theorem mem_answers {h : List GroupEvent} {γ number : ℕ} {claims : List Claim}
    (hanswered : .answered number (.granted γ claims) ∈ h) :
    claims ∈ (Group.answers h number).filterMap (·.granted? γ) :=
  List.mem_filterMap.mpr
    ⟨.granted γ claims, List.mem_filterMap.mpr ⟨_, hanswered, if_pos rfl⟩, if_pos rfl⟩

theorem mem_grants_of_answered {g : Group} {h : List GroupEvent} {γ number : ℕ}
    {claims : List Claim} (hanswered : .answered number (.granted γ claims) ∈ h) :
    claims ∈ g.grants h γ number := by
  rw [Group.grants, Group.stream, List.filterMap_append]
  exact List.mem_append_left _ (mem_answers hanswered)

/-- A claim says of itself who has granted it. -/
theorem Run.granted_of_mem (run : Run allowed (empty retention) r h) (hes : es ⊆ h) {c : Claim}
    (hc : c ∈ es.flatMap (·.claims)) : ∃ number claims, Granted es c number claims := by
  obtain ⟨group, topic, number, γ, claims, he, hc⟩ := mem_claims hc
  obtain ⟨hnone, hevents⟩ | ⟨g, t, hg, ht, hrun⟩ := run.grouped group topic
  · have hany := mem_groupEvents.mpr (hes he)
    rw [hevents] at hany
    cases hany
  · obtain ⟨-, rfl, rfl⟩ := Log.mem_of_group? hg
    obtain ⟨hgroup, htopic, hgeneration, -⟩ :=
      hrun.dealt.claims γ number claims (mem_grants_of_answered (mem_groupEvents.mpr (hes he))) c hc
    refine ⟨number, claims, ?_, hc⟩
    rw [hgroup, htopic, hgeneration]
    exact mem_groupEvents.mpr he

/-- What the group of a claim says about it. -/
structure Placed (r : Readership) (h : List LogEvent) (c : Claim) (g : Group) (t : Topic) :
    Prop where
  group : r.log.group? c.group c.topic = some g
  topic : r.log.find? c.topic = some t
  run : Group.Run (Group.create c.group t) g (groupEvents h c.group c.topic)
  lease : c.lease = c.generation
  generation : c.generation ≤ g.generation
  partition : c.partition < t.size

/-- A session of its group has been told of a grant of the claim. -/
def Claimed (r : Readership) (h : List LogEvent) (c : Claim) : Prop :=
  ∃ g number claims, r.log.group? c.group c.topic = some g ∧
    claims ∈ g.grants (groupEvents h c.group c.topic) c.generation number ∧ c ∈ claims

theorem Run.placed_of_claimed (run : Run allowed (empty retention) r h) {c : Claim}
    (hc : r.Claimed h c) : ∃ g t, r.Placed h c g t := by
  obtain ⟨g, number, claims, hg, hgrants, hc⟩ := hc
  obtain ⟨t, ht, hrun⟩ := run.group hg
  have hd := hrun.dealt
  obtain ⟨-, -, -, hlease⟩ := hd.claims c.generation number claims hgrants c hc
  obtain ⟨members, hbegan, hmember⟩ : ∃ members,
      .began c.generation members ∈ groupEvents h c.group c.topic ∧ number ∈ members := by
    by_contra hnone
    push Not at hnone
    rw [hd.others _ _ hnone] at hgrants
    cases hgrants
  obtain ⟨k, hk⟩ := List.getElem?_of_mem hmember
  have hpartition : c.partition ∈ residues t.size members.length k := by
    have hin : claims.map (·.partition) ∈ g.granted (groupEvents h c.group c.topic) c.generation
        number := List.mem_map_of_mem hgrants
    rw [hd.granted _ _ hbegan k number hk, List.mem_singleton] at hin
    exact hin ▸ List.mem_map_of_mem hc
  exact ⟨g, t, hg, ht, hrun, hlease, (hd.begun _ _ hbegan).1, (mem_residues.mp hpartition).1⟩

/-- The partition of a claim is there. -/
theorem Placed.partitionAt {c : Claim} {g : Group} {t : Topic} (hc : r.Placed h c g t) :
    ∃ p, r.log.partitionAt c.topic c.partition = some p :=
  Log.partitionAt_of_lt hc.topic hc.partition

/-- A claim that a session has answered with. -/
theorem Run.claimed_of_mem (run : Run allowed (empty retention) r h) {c : Claim}
    (hc : c ∈ h.flatMap (·.claims)) : r.Claimed h c := by
  obtain ⟨number, claims, hanswered, hc⟩ := run.granted_of_mem (List.Subset.refl h) hc
  obtain ⟨hnone, hevents⟩ | ⟨g, t, hg, -, -⟩ := run.grouped c.group c.topic
  · rw [hevents] at hanswered
    cases hanswered
  · exact ⟨g, number, claims, hg, mem_grants_of_answered hanswered, hc⟩

theorem Run.claimed (run : Run allowed (empty retention) r h) {x : Reader} (hx : x ∈ r.readers) :
    r.Claimed h x.claim :=
  run.claimed_of_mem (run.claims ▸ List.mem_map_of_mem hx)

/-- **Where the claims of readers come from.** -/
theorem Run.placed (run : Run allowed (empty retention) r h) {x : Reader} (hx : x ∈ r.readers) :
    ∃ g t, r.Placed h x.claim g t :=
  run.placed_of_claimed (run.claimed hx)

/-! ### Claims of one generation -/

/-- Claims of one generation of a group are of different partitions. -/
def Apart (c c' : Claim) : Prop := c.group = c'.group → c.topic = c'.topic →
  c.generation = c'.generation → c.partition ≠ c'.partition

/-- The claims of one answer. -/
theorem apart_of_answered {g : Group} {size : ℕ} {hs : List GroupEvent} (hd : g.Dealt size hs)
    {γ number : ℕ} {claims : List Claim} (hanswered : .answered number (.granted γ claims) ∈ hs) :
    claims.Pairwise Apart := by
  have hnodup := hd.nodup γ number
  rw [Group.granted, List.nodup_flatten] at hnodup
  have hpartitions : (claims.map (·.partition)).Nodup :=
    hnodup.1 _ (List.mem_map_of_mem (mem_grants_of_answered hanswered))
  exact (List.pairwise_map.mp hpartitions).imp fun hne _ _ _ => hne

/-- Claims of two answers, of which one comes later. -/
theorem ne_of_answered {g : Group} {size : ℕ} {hs hs' : List GroupEvent}
    (hd : g.Dealt size (hs ++ hs')) {γ number number' : ℕ} {claims claims' : List Claim}
    (hanswered : .answered number (.granted γ claims) ∈ hs)
    (hanswered' : .answered number' (.granted γ claims') ∈ hs') {c c' : Claim} (hc : c ∈ claims)
    (hc' : c' ∈ claims') : c.partition ≠ c'.partition := by
  have hmem : ∀ {grants : List (List Claim)} {claims : List Claim} {c : Claim}, claims ∈ grants →
      c ∈ claims → c.partition ∈ (grants.map (·.map (·.partition))).flatten := fun hclaims hc =>
    List.mem_flatten.mpr ⟨_, List.mem_map_of_mem hclaims, List.mem_map_of_mem hc⟩
  by_cases hne : number = number'
  · subst hne
    have hnodup := hd.nodup γ number
    rw [Group.granted, Group.grants, Group.stream, Group.answers_append, List.filterMap_append,
      List.filterMap_append, List.map_append, List.map_append, List.flatten_append,
      List.flatten_append] at hnodup
    exact (List.nodup_append.mp hnodup.of_append_left).2.2 _ (hmem (mem_answers hanswered) hc) _
      (hmem (mem_answers hanswered') hc')
  · exact hd.ne hne (hmem (mem_grants_of_answered (List.mem_append_left _ hanswered)) hc)
      (hmem (mem_grants_of_answered (List.mem_append_right _ hanswered')) hc')

/-- The claims that one move grants. -/
theorem Run.apart_events (run : Run allowed (empty retention) r' (h ++ es))
    (heffect : Effect r m r' es) : (es.flatMap (·.claims)).Pairwise Apart := by
  cases heffect with
  | @regroup _ group topic m' g g' l concerns step =>
    obtain ⟨t, -, hrun⟩ := run.group step.after
    have hd := hrun.dealt
    rw [groupEvents_append, groupEvents_map, if_pos ⟨rfl, rfl⟩] at hd
    rw [claims_heard, Group.claims_events]
    cases m' with
    | ask number =>
      simp only
      cases hnext : (g.nextEvent number).1 with
      | none => exact List.Pairwise.nil
      | some e =>
        cases e with
        | granted γ claims =>
          have hanswered : .answered number (.granted γ claims) ∈ g.events (.ask number) g' := by
            rw [Group.events, Group.replies, hnext]
            exact List.mem_cons_self
          exact apart_of_answered hd (List.mem_append_right _ hanswered)
        | revoked | closed => exact List.Pairwise.nil
    | join | leave | drop | commit | close => exact List.Pairwise.nil
  | @read i m x x' a => cases a <;> exact List.Pairwise.nil
  | create | append | shut | closeGroups | idle => exact List.Pairwise.nil

/-- **The claims of one generation** are of different partitions, whenever they are answered. -/
theorem Run.apart (run : Run allowed (empty retention) r h) :
    (h.flatMap (·.claims)).Pairwise Apart := by
  induction run with
  | start => exact List.Pairwise.nil
  | @move r r' h m run permitted moved ih =>
    have run' := run.move permitted moved
    have heffect := effect_of_move? moved
    generalize r.events m r' = es at run' heffect
    rw [List.flatMap_append]
    -- A generation may have been answered in part before this move, so new claims are compared with
    -- old ones as well.
    refine List.pairwise_append.mpr ⟨ih, run'.apart_events heffect,
      fun c hc c' hc' hgroup htopic hgeneration => ?_⟩
    obtain ⟨number, claims, hanswered, hc⟩ :=
      run'.granted_of_mem (List.subset_append_left h es) hc
    obtain ⟨number', claims', hanswered', hc''⟩ :=
      run'.granted_of_mem (List.subset_append_right h es) hc'
    rw [hgroup, htopic, hgeneration] at hanswered
    obtain ⟨g, t, hplaced⟩ := run'.placed_of_claimed (run'.claimed_of_mem (by
      rw [List.flatMap_append]
      exact List.mem_append_right _ hc'))
    have hd := hplaced.run.dealt
    rw [groupEvents_append] at hd
    exact ne_of_answered hd hanswered hanswered' hc hc''

theorem Run.readers_apart (run : Run allowed (empty retention) r h) :
    r.readers.Pairwise fun x y => Apart x.claim y.claim := by
  have hapart := run.apart
  rwa [← run.claims, List.pairwise_map] at hapart

end Readership

end SmsRelay
