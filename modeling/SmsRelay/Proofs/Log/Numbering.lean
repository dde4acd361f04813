import Mathlib.Algebra.GroupWithZero.Nat
import Mathlib.Data.List.Nodup
import SmsRelay.Log.Basic
import SmsRelay.Proofs.Places

/-!
# Offsets

In a log each record knows its place: its topic, its partition, and its offset, which counts the
records that the partition has ever taken. Retention takes records away at the front and leaves the
offsets of the others alone.

## Implementation notes

`Numbered` is what the operations of a log keep. Groups do not take part in it: operations on groups
leave the topics as they are, and so keep it by `Numbered.of_topics`.

## Main results

* `Numbered.appended`: an append puts a record at the watermark of one partition.
* `total_append`: a topic takes one record at a time.
* `Numbered.poll`: a claim reads the first record kept at or after its position and moves behind it.
-/

namespace SmsRelay

/-- Records of a partition know their place. -/
structure Partition.Numbered (topic : String) (p : Partition) : Prop where
  retention : 0 < p.retention
  watermark : p.watermark = p.base + p.records.length
  records : ∀ (k : ℕ) (r : Record), p.records[k]? = some r →
    r.topic = topic ∧ r.partition = p.id ∧ r.offset = p.base + k

/-- Partitions of a topic, of which there is at least one, know their place. -/
structure Topic.Numbered (t : Topic) : Prop where
  size : 0 < t.size
  ids : ∀ (i : ℕ) (p : Partition), t.partitions[i]? = some p → p.id = i
  partitions : ∀ p ∈ t.partitions, p.Numbered t.name

/-- Topics have names of their own and know the places of their records. -/
structure Log.Numbered (l : Log) : Prop where
  names : (l.topics.map (·.name)).Nodup
  topics : ∀ t ∈ l.topics, t.Numbered

/-! ### Partitions -/

namespace Partition

/-- The record that an append puts at the end. -/
def next (p : Partition) (topic key : String) (value : Bytes) : Record :=
  ⟨topic, p.id, p.base + p.records.length, key, value⟩

theorem Numbered.bounds {p : Partition} {topic : String} (h : p.Numbered topic) {r : Record}
    (hr : r ∈ p.records) : p.base ≤ r.offset ∧ r.offset < p.watermark := by
  obtain ⟨k, hk, rfl⟩ := List.getElem_of_mem hr
  obtain ⟨-, -, ho⟩ := h.records k _ (List.getElem?_eq_getElem hk)
  rw [ho, h.watermark]
  omega

theorem Numbered.append {p : Partition} {topic : String} (h : p.Numbered topic) (key : String)
    (value : Bytes) : (p.append topic key value).1.Numbered topic where
  retention := h.retention
  watermark := by
    have := h.retention
    simp only [Partition.append, trimmed, List.length_drop, List.length_append,
      List.length_singleton]
    omega
  records k r hr := by
    rw [records_append, List.getElem?_drop] at hr
    have hbase : (p.append topic key value).1.base
        = p.base + (p.records.length + 1 - p.retention) := by
      simp [Partition.append, trimmed]
    have hid : (p.append topic key value).1.id = p.id := rfl
    rw [hbase, hid]
    rcases Nat.lt_trichotomy (p.records.length + 1 - p.retention + k) p.records.length with
      hlt | heq | hgt
    · rw [List.getElem?_append_left hlt] at hr
      obtain ⟨htopic, hpart, hoffset⟩ := h.records _ _ hr
      exact ⟨htopic, hpart, by omega⟩
    · rw [heq, List.getElem?_concat_length] at hr
      cases hr
      exact ⟨rfl, rfl, by simp only; omega⟩
    · rw [List.getElem?_eq_none (by simp; omega)] at hr
      cases hr

theorem mem_append {p : Partition} {topic key : String} {value : Bytes} {r : Record}
    (h : r ∈ (p.append topic key value).1.records) :
    r ∈ p.records ∨ r = p.next topic key value := by
  rw [records_append] at h
  have h := List.mem_of_mem_drop h
  rw [List.mem_append, List.mem_singleton] at h
  exact h

theorem next_mem_append {p : Partition} {topic : String} (h : p.Numbered topic) (key : String)
    (value : Bytes) : p.next topic key value ∈ (p.append topic key value).1.records := by
  have hret := h.retention
  rw [records_append, List.drop_append_of_le_length (by omega)]
  exact List.mem_append_right _ (List.mem_singleton_self _)

end Partition

/-! ### Topics -/

namespace Topic

theorem numbered_create (name : String) {count : ℕ} (hcount : 0 < count) (retention : ℕ) :
    (create name count retention).Numbered where
  size := by rwa [size_create]
  ids i p h := by
    simp only [create, List.getElem?_map, Option.map_eq_some_iff] at h
    obtain ⟨id, hid, rfl⟩ := h
    obtain ⟨hlt, hid⟩ := List.getElem?_eq_some_iff.mp hid
    rw [List.getElem_range] at hid
    exact hid.symm
  partitions p h := by
    simp only [create, List.mem_map] at h
    obtain ⟨id, -, rfl⟩ := h
    exact ⟨by simp only; omega, rfl, by simp⟩

/-- A record goes to the end of the partition of its key. -/
theorem Numbered.append_eq {t : Topic} (h : t.Numbered) (key : String) (value : Bytes) :
    ∃ i p, t.partitions[i]? = some p ∧ t.append key value =
      ({ t with partitions := t.partitions.set i (p.append t.name key value).1 },
        ⟨i, p.base + p.records.length⟩) := by
  have hlt : partitionFor key t.size < t.partitions.length := partitionFor_lt key h.size
  have hp := List.getElem?_eq_getElem hlt
  refine ⟨_, _, hp, ?_⟩
  rw [Topic.append, hp]
  rfl

theorem Numbered.set {t : Topic} (h : t.Numbered) {i : ℕ} {p : Partition}
    (hp : t.partitions[i]? = some p) (key : String) (value : Bytes) :
    Topic.Numbered { t with partitions := t.partitions.set i (p.append t.name key value).1 } where
  size := by
    have := h.size
    rwa [Topic.size, List.length_set]
  ids j q hq := by
    rw [List.getElem?_set] at hq
    split at hq
    · rename_i hij
      split at hq
      · cases hq
        exact (h.ids i p hp).trans hij
      · cases hq
    · exact h.ids j q hq
  partitions q hq := by
    rcases List.mem_or_eq_of_mem_set hq with hq | rfl
    · exact h.partitions q hq
    · exact (h.partitions p (List.mem_of_getElem? hp)).append key value

end Topic

/-! ### The log -/

namespace Log

theorem Numbered.of_topics {l l' : Log} (h : l.Numbered) (heq : l'.topics = l.topics) :
    l'.Numbered :=
  ⟨heq ▸ h.names, heq ▸ h.topics⟩

theorem find?_of_topics {l l' : Log} (h : l'.topics = l.topics) (topic : String) :
    l'.find? topic = l.find? topic := by
  rw [find?, find?, h]

theorem mem_of_find? {l : Log} {name : String} {t : Topic} (h : l.find? name = some t) :
    t ∈ l.topics :=
  List.mem_of_find?_eq_some h

theorem name_of_find? {l : Log} {name : String} {t : Topic} (h : l.find? name = some t) :
    t.name = name := by
  simpa using List.find?_some h

theorem find?_of_mem {l : Log} (h : l.Numbered) {t : Topic} (ht : t ∈ l.topics) :
    l.find? t.name = some t := by
  cases hfind : l.find? t.name with
  | none => simpa using List.find?_eq_none.mp hfind t ht
  | some u =>
    have hname := name_of_find? hfind
    rw [List.inj_on_of_nodup_map h.names (mem_of_find? hfind) ht hname]

/-- A partition by its topic and number. -/
def partitionAt (l : Log) (topic : String) (i : ℕ) : Option Partition :=
  (l.find? topic).bind (·.partitions[i]?)

theorem partitionAt_of_topics {l l' : Log} (h : l'.topics = l.topics) (topic : String) (i : ℕ) :
    l'.partitionAt topic i = l.partitionAt topic i := by
  rw [partitionAt, partitionAt, find?_of_topics h]

theorem Numbered.of_partitionAt {l : Log} (h : l.Numbered) {topic : String} {i : ℕ} {p : Partition}
    (hp : l.partitionAt topic i = some p) : p.Numbered topic ∧ p.id = i := by
  obtain ⟨t, ht, hp⟩ := Option.bind_eq_some_iff.mp hp
  have hnumbered := h.topics t (mem_of_find? ht)
  have hpart := hnumbered.partitions p (List.mem_of_getElem? hp)
  rw [name_of_find? ht] at hpart
  exact ⟨hpart, hnumbered.ids i p hp⟩

/-- The records that a log keeps. -/
def records (l : Log) : List Record := l.topics.flatMap fun t => t.partitions.flatMap (·.records)

theorem Numbered.mem_records_iff {l : Log} (h : l.Numbered) {r : Record} :
    r ∈ l.records ↔ ∃ p, l.partitionAt r.topic r.partition = some p ∧ r ∈ p.records := by
  constructor
  · intro hr
    simp only [records, List.mem_flatMap] at hr
    obtain ⟨t, ht, p, hp, hr⟩ := hr
    obtain ⟨i, hi⟩ := List.getElem?_of_mem hp
    obtain ⟨k, hk⟩ := List.getElem?_of_mem hr
    obtain ⟨htopic, hpart, -⟩ := ((h.topics t ht).partitions p hp).records k r hk
    rw [(h.topics t ht).ids i p hi] at hpart
    refine ⟨p, ?_, hr⟩
    rw [Log.partitionAt, htopic, find?_of_mem h ht, hpart]
    exact hi
  · rintro ⟨p, hp, hr⟩
    obtain ⟨t, ht, hp⟩ := Option.bind_eq_some_iff.mp hp
    simp only [records, List.mem_flatMap]
    exact ⟨t, mem_of_find? ht, p, List.mem_of_getElem? hp, hr⟩

theorem Numbered.setTopic {l : Log} (h : l.Numbered) {t : Topic} (ht : t.Numbered) :
    (l.setTopic t).Numbered where
  names := by
    have : (l.setTopic t).topics.map (·.name) = l.topics.map (·.name) := by
      simp only [Log.setTopic, List.map_map, List.map_inj_left, Function.comp_apply]
      intro u _
      split
      · rename_i hu
        exact hu.symm
      · rfl
    rw [this]
    exact h.names
  topics u hu := by
    simp only [Log.setTopic, List.mem_map] at hu
    obtain ⟨v, hv, rfl⟩ := hu
    split
    · exact ht
    · exact h.topics v hv

theorem find?_setTopic (l : Log) (t : Topic) (name : String) :
    (l.setTopic t).find? name = (l.find? name).map fun u => if u.name = t.name then t else u := by
  rw [find?, setTopic, List.find?_map]
  congr 1
  refine congrArg (List.find? · l.topics) (funext fun u => ?_)
  simp only [Function.comp_apply]
  split
  · rename_i hu
    rw [hu]
  · rfl

theorem partitionAt_setTopic {l : Log} {topic : String} {t u : Topic}
    (ht : l.find? topic = some t) (hu : u.name = t.name) (topic' : String) (i : ℕ) :
    (l.setTopic u).partitionAt topic' i
      = if topic' = topic then u.partitions[i]? else l.partitionAt topic' i := by
  rw [partitionAt, find?_setTopic, hu, name_of_find? ht]
  split
  · rename_i htopic
    rw [htopic, ht, Option.map_some, Option.bind_some, if_pos (name_of_find? ht)]
  · rename_i htopic
    cases hfind : l.find? topic' with
    | none => rw [partitionAt, hfind]; rfl
    | some v =>
      have hv : v.name ≠ topic := fun hv => htopic ((name_of_find? hfind).symm.trans hv)
      rw [Option.map_some, Option.bind_some, if_neg hv, partitionAt, hfind, Option.bind_some]

/-- What an append does to a log. -/
inductive Appended (l : Log) (topic key : String) (value : Bytes) : Log × Placement → Prop
  | ignored (missing : l.find? topic = none) : Appended l topic key value (l, ⟨0, 0⟩)
  /-- One partition grows. -/
  | grown {i : ℕ} {p : Partition} {l' : Log} (place : l.partitionAt topic i = some p)
      (here : l'.partitionAt topic i = some (p.append topic key value).1)
      (elsewhere : ∀ topic' i', (topic', i') ≠ (topic, i) →
        l'.partitionAt topic' i' = l.partitionAt topic' i') (groups : l'.groups = l.groups)
      (numbered : l'.Numbered) :
      Appended l topic key value (l', ⟨i, p.base + p.records.length⟩)

/-- **An append** puts a record at the end of one partition, if the topic exists. -/
theorem Numbered.appended {l : Log} (h : l.Numbered) (topic key : String) (value : Bytes) :
    Appended l topic key value (l.append topic key value) := by
  rw [append]
  split
  · rename_i t ht
    obtain ⟨i, p, hp, heq⟩ := (h.topics t (mem_of_find? ht)).append_eq key value
    have hplace : l.partitionAt topic i = some p := by
      rw [partitionAt, ht]
      exact hp
    obtain ⟨hlt, -⟩ := List.getElem?_eq_some_iff.mp hp
    have hset := partitionAt_setTopic
      (u := { t with partitions := t.partitions.set i (p.append t.name key value).1 }) ht rfl
    rw [heq]
    refine .grown hplace ?_ (fun topic' i' hne => ?_) rfl
      (h.setTopic ((h.topics t (mem_of_find? ht)).set hp key value))
    · rw [hset, if_pos rfl, List.getElem?_set_self hlt, name_of_find? ht]
    · rw [hset]
      split
      · rename_i htopic
        have hi : i ≠ i' := fun hi => hne (by rw [htopic, hi])
        rw [List.getElem?_set_ne hi, htopic, partitionAt, ht, Option.bind_some]
      · rfl
  · rename_i hmissing
    exact .ignored hmissing

theorem Numbered.append {l : Log} (h : l.Numbered) (topic key : String) (value : Bytes) :
    (l.append topic key value).1.Numbered := by
  have happended := h.appended topic key value
  generalize l.append topic key value = e at happended ⊢
  cases happended with
  | ignored => exact h
  | grown place here elsewhere groups numbered => exact numbered

/-- An append concerns no groups. -/
theorem groups_append (l : Log) (topic key : String) (value : Bytes) :
    (l.append topic key value).1.groups = l.groups := by
  rw [append]
  split <;> rfl

/-- How many records a topic has ever taken. -/
def total (l : Log) (topic : String) : ℕ :=
  (l.find? topic).elim 0 fun t => (t.partitions.map (·.watermark)).sum

theorem total_of_topics {l l' : Log} (h : l'.topics = l.topics) (topic : String) :
    l'.total topic = l.total topic := by
  rw [total, total, find?_of_topics h]

/-- A topic takes one record at a time. -/
theorem total_append {l : Log} (hl : l.Numbered) {topic : String} (known : l.find? topic ≠ none)
    (key : String) (value : Bytes) :
    (l.append topic key value).1.total topic = l.total topic + 1 := by
  obtain ⟨t, ht⟩ := Option.ne_none_iff_exists'.mp known
  have hnumbered := hl.topics t (mem_of_find? ht)
  obtain ⟨i, p, hp, happend⟩ := hnumbered.append_eq key value
  have hwatermark := (hnumbered.partitions p (List.mem_of_getElem? hp)).watermark
  have hsum := sum_map_set (fun p : Partition => p.watermark) (p.append t.name key value).1 hp
  have hnext : (p.append t.name key value).1.watermark = p.watermark + 1 := by
    rw [hwatermark]
    rfl
  have hfind : (l.append topic key value).1.find? topic = some { t with
      partitions := t.partitions.set i (p.append t.name key value).1 } := by
    rw [append, ht]
    dsimp only
    rw [happend, find?_setTopic, ht, Option.map_some, if_pos rfl]
  rw [total, total, hfind, ht]
  simp only [Option.elim_some]
  omega

/-- The records of another topic do not count. -/
theorem total_append_of_ne (l : Log) {topic other : String} (hne : other ≠ topic) (key : String)
    (value : Bytes) : (l.append other key value).1.total topic = l.total topic := by
  rw [append]
  split
  · rename_i t ht
    have hname : (t.append key value).1.name = other := by
      rw [← name_of_find? ht, Topic.append]
      split <;> rfl
    have hfind : (l.setTopic (t.append key value).1).find? topic = l.find? topic := by
      rw [find?_setTopic, hname]
      cases hu : l.find? topic with
      | none => rfl
      | some u => rw [Option.map_some, if_neg fun heq => hne (heq.symm.trans (name_of_find? hu))]
    show ((l.setTopic (t.append key value).1).find? topic).elim 0 _ = _
    rw [hfind, total]
  · rfl

theorem numbered_of_nil {l : Log} (h : l.topics = []) : l.Numbered :=
  ⟨by rw [h]; exact List.nodup_nil, by rw [h]; nofun⟩

theorem Numbered.createTopic {l l' : Log} (h : l.Numbered) {name : String} {partitions : ℕ}
    (hc : l.createTopic name partitions = .ok l') : l'.Numbered := by
  rw [Log.createTopic] at hc
  split at hc
  · cases hc
  · rename_i hpartitions
    split at hc
    · cases hc
    · rename_i hfind
      cases hc
      have hnone : l.find? name = none := by simpa using hfind
      constructor
      · rw [List.map_append, List.nodup_append]
        refine ⟨h.names, List.nodup_singleton _, fun x hx y hy => ?_⟩
        obtain ⟨t, ht, rfl⟩ := List.mem_map.mp hx
        rw [List.mem_singleton.mp hy]
        show t.name ≠ name
        simpa using List.find?_eq_none.mp hnone t ht
      · intro t ht
        rcases List.mem_append.mp ht with ht | ht
        · exact h.topics t ht
        · rw [List.mem_singleton.mp ht]
          exact Topic.numbered_create name (Nat.pos_of_ne_zero hpartitions) l.retention

/-- **What a claim reads.** It comes at or after the position of the claim, which moves behind it,
and what lies between has been dropped. -/
theorem Numbered.poll {l : Log} (h : l.Numbered) {c c' : Claim} {r : Record}
    (hpoll : l.poll c = (.record r, c')) :
    c' = { c with position := r.offset + 1 } ∧ r.topic = c.topic ∧ r.partition = c.partition ∧
      ∃ p, l.partitionAt c.topic c.partition = some p ∧ r ∈ p.records ∧
        r.offset = max c.position p.base := by
  rw [Log.poll] at hpoll
  split at hpoll
  · cases hpoll
  · cases hp : l.partitionAt c.topic c.partition with
    | none =>
      rw [show (l.find? c.topic).bind (·.partitions[c.partition]?) = none from hp] at hpoll
      cases hpoll
    | some p =>
      rw [show (l.find? c.topic).bind (·.partitions[c.partition]?) = some p from hp] at hpoll
      cases hr : p.records[max c.position p.base - p.base]? with
      | none => simp [Partition.readAt, hr] at hpoll
      | some r' =>
        simp only [Partition.readAt, hr, Prod.mk.injEq, Polled.record.injEq] at hpoll
        obtain ⟨rfl, rfl⟩ := hpoll
        obtain ⟨hnumbered, hid⟩ := h.of_partitionAt hp
        obtain ⟨htopic, hpart, hoffset⟩ := hnumbered.records _ _ hr
        have hmax : p.base + (max c.position p.base - p.base) = max c.position p.base := by omega
        rw [hmax] at hoffset
        refine ⟨?_, htopic, hpart.trans hid, p, rfl, List.mem_of_getElem? hr, hoffset⟩
        rw [hoffset]

/-! ### Operations on groups -/

theorem topics_updateGroup (l : Log) (name topic : String) (f : Group → Group) :
    (l.updateGroup name topic f).topics = l.topics := by
  rw [updateGroup]
  split <;> rfl

theorem topics_withGroup (l : Log) (name : String) (t : Topic) :
    (l.withGroup name t).1.topics = l.topics := by
  rw [withGroup]
  split <;> rfl

theorem topics_join {l l' : Log} {name topic : String} {number : ℕ}
    (h : l.join name topic = .ok (number, l')) : l'.topics = l.topics := by
  rw [join] at h
  split at h
  · rename_i t _
    rw [enrol] at h
    have htopics := l.topics_withGroup name t
    rcases l.withGroup name t with ⟨l₁, g⟩
    simp only at h htopics
    split at h <;> cases h
    exact htopics
  · cases h

theorem topics_nextEvent {l l' : Log} {name topic : String} {number : ℕ} {e : Option SessionEvent}
    (h : l.nextEvent name topic number = (e, l')) : l'.topics = l.topics := by
  rw [nextEvent] at h
  split at h <;> cases h <;> rfl

theorem topics_marks (c : Claim) (offsets : List ℕ) (l : Log) :
    (offsets.foldl (·.mark c ·) l).topics = l.topics := by
  induction offsets generalizing l with
  | nil => rfl
  | cons o rest ih => exact (ih _).trans (topics_updateGroup _ _ _ _)

end Log

end SmsRelay
