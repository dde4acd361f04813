import SmsRelay.Proofs.Log.Run
import SmsRelay.Proofs.Moves

/-!
# Contents of a log

A partition numbers the records that are sent to it, from 0, and keeps the last of them. The key of
a record chooses its partition.

## Implementation notes

What was sent is read off what has been seen of the run: `sentTo` lists the records of one partition
with the offsets that the senders were told. `Partition.Holds` compares a partition with such a
list.

## Main results

* `Readership.Run.held`: partitions hold what was sent to them.
* `Readership.Run.contents`: offsets, retention and partitioning along a run.
-/

namespace SmsRelay

namespace LogEvent

/-- The record that was sent, as its sender knows it. -/
def record? : LogEvent → Option Record
  | sent topic key value place => some ⟨topic, place.partition, place.offset, key, value⟩
  | _ => none

end LogEvent

/-- The records that were sent, oldest first. -/
def sends (h : List LogEvent) : List Record := h.filterMap (·.record?)

/-- Those that were sent to one partition. -/
def sentTo (h : List LogEvent) (topic : String) (i : ℕ) : List Record :=
  (sends h).filter fun a => a.topic = topic ∧ a.partition = i

theorem sends_append (h h' : List LogEvent) : sends (h ++ h') = sends h ++ sends h' :=
  List.filterMap_append

theorem sentTo_append (h h' : List LogEvent) (topic : String) (i : ℕ) :
    sentTo (h ++ h') topic i = sentTo h topic i ++ sentTo h' topic i := by
  rw [sentTo, sends_append, List.filter_append]
  rfl

theorem sentTo_sent (topic key : String) (value : Bytes) (place : Placement) (topic' : String)
    (i : ℕ) : sentTo [.sent topic key value place] topic' i =
      if topic = topic' ∧ place.partition = i then
        [⟨topic, place.partition, place.offset, key, value⟩] else [] := by
  by_cases hsame : topic = topic' ∧ place.partition = i <;>
    simp [sentTo, sends, LogEvent.record?, hsame]

theorem sends_heard (es : List GroupEvent) (group topic : String) :
    sends (es.map (.heard group topic)) = [] := by
  rw [sends, List.filterMap_map]
  exact List.filterMap_eq_nil_iff.mpr fun _ _ => rfl

theorem sends_returned (i : ℕ) (a : Option (Option Record)) :
    sends (a.map (.returned i)).toList = [] := by
  cases a <;> rfl

theorem mem_sentTo {h : List LogEvent} {topic : String} {i : ℕ} {a : Record} :
    a ∈ sentTo h topic i ↔ a ∈ sends h ∧ a.topic = topic ∧ a.partition = i := by
  simp [sentTo]

/-! ### Partitions -/

/-- A partition keeps the last of the records that were sent to it, under their offsets. -/
structure Partition.Holds (p : Partition) (retention : ℕ) (sent : List Record) : Prop where
  bound : p.retention = max retention 1
  base : p.base = sent.length - max retention 1
  records : p.records = sent.drop p.base
  watermark : p.watermark = sent.length
  offsets : ∀ (n : ℕ) (a : Record), sent[n]? = some a → a.offset = n

namespace Partition

variable {p : Partition} {retention : ℕ} {sent : List Record}

theorem Holds.length (hp : p.Holds retention sent) : p.base + p.records.length = sent.length := by
  have hbase := hp.base
  rw [hp.records, List.length_drop]
  omega

/-- **An append** holds one more record. -/
theorem Holds.append (hp : p.Holds retention sent) (topic key : String) (value : Bytes) :
    (p.append topic key value).1.Holds retention (sent ++ [p.next topic key value]) := by
  have hlength := hp.length
  have hbase := hp.base
  have hbound := hp.bound
  have hgrown : (p.append topic key value).1.base
      = p.base + (p.records.length + 1 - p.retention) := by
    simp [Partition.append, trimmed]
  refine ⟨hbound, ?_, ?_, ?_, fun n a ha => ?_⟩
  · rw [hgrown, List.length_append, List.length_singleton]
    omega
  · have hle : p.base ≤ sent.length := hlength ▸ Nat.le_add_right _ _
    rw [records_append, hgrown, ← List.drop_drop, List.drop_append_of_le_length hle, ← hp.records]
    rfl
  · rw [watermark_append, List.length_append, List.length_singleton, ← hlength]
    rfl
  · rcases Nat.lt_trichotomy n sent.length with hlt | rfl | hgt
    · rw [List.getElem?_append_left hlt] at ha
      exact hp.offsets n a ha
    · rw [List.getElem?_concat_length] at ha
      cases ha
      exact hlength
    · rw [List.getElem?_eq_none (by simp; omega)] at ha
      cases ha

/-- A record that is kept has the offset of its place. -/
theorem Holds.offset (hp : p.Holds retention sent) {k : ℕ} {a : Record}
    (ha : p.records[k]? = some a) : a.offset = p.base + k := by
  rw [hp.records, List.getElem?_drop] at ha
  exact hp.offsets _ a ha

theorem holds_new (i retention : ℕ) :
    Partition.Holds { id := i, retention := max retention 1 } retention [] :=
  ⟨rfl, (Nat.zero_sub _).symm, rfl, rfl, nofun⟩

end Partition

/-! ### Runs -/

namespace Readership

variable {allowed : Readership → List LogEvent → LogMove → Prop} {retention : ℕ}
  {r r' : Readership} {h : List LogEvent} {m : LogMove} {es : List LogEvent}

/-- The partitions of a log hold what was sent to them, and nothing was sent elsewhere. -/
structure Held (r : Readership) (h : List LogEvent) (retention : ℕ) : Prop where
  bound : r.log.retention = retention
  holds : ∀ topic i p, r.log.partitionAt topic i = some p → p.Holds retention (sentTo h topic i)
  nowhere : ∀ topic i, r.log.partitionAt topic i = none → sentTo h topic i = []
  /-- Topics have the number of partitions that they were created with, at least one. -/
  created : ∀ topic n, .created topic n ∈ h → 0 < n ∧ ∃ t, r.log.find? topic = some t ∧ t.size = n
  known : ∀ topic t, r.log.find? topic = some t → .created topic t.size ∈ h

/-- A move that sends nothing and creates nothing. -/
theorem Held.frame (hr : r.Held h retention) (htopics : r'.log.topics = r.log.topics)
    (hretention : r'.log.retention = r.log.retention) (hsent : sends es = [])
    (hcreated : ∀ topic n, .created topic n ∉ es) : r'.Held (h ++ es) retention := by
  have hmem : ∀ topic n, .created topic n ∈ h ++ es ↔ .created topic n ∈ h := by
    intro topic n
    rw [List.mem_append, or_iff_left (hcreated topic n)]
  have hsentTo : ∀ topic i, sentTo (h ++ es) topic i = sentTo h topic i := by
    intro topic i
    rw [sentTo, sends_append, hsent, List.append_nil]
    rfl
  refine ⟨hretention.trans hr.bound, fun topic i p hp => ?_, fun topic i hp => ?_,
    fun topic n hn => ?_, fun topic t ht => ?_⟩
  · rw [Log.partitionAt_of_topics htopics] at hp
    rw [hsentTo]
    exact hr.holds topic i p hp
  · rw [Log.partitionAt_of_topics htopics] at hp
    rw [hsentTo]
    exact hr.nowhere topic i hp
  · rw [Log.find?_of_topics htopics]
    exact hr.created topic n ((hmem topic n).mp hn)
  · rw [Log.find?_of_topics htopics] at ht
    exact (hmem topic _).mpr (hr.known topic t ht)

theorem Held.create (hr : r.Held h retention) {name : String} {partitions : ℕ} {l : Log}
    (created : r.log.createTopic name partitions = .ok l) :
    Held { r with log := l } (h ++ [.created name partitions]) retention := by
  obtain ⟨hpos, hnone, heq⟩ := Log.of_createTopic created
  have hfind := Log.find?_createTopic created
  have hsentTo : ∀ topic i,
      sentTo (h ++ [.created name partitions]) topic i = sentTo h topic i := by
    intro topic i
    rw [sentTo, sends_append]
    simp [sends, LogEvent.record?, sentTo]
  -- Nothing was sent to the topic before it was there.
  have hnew : ∀ i, sentTo h name i = [] := fun i =>
    hr.nowhere name i (by rw [Log.partitionAt, hnone]; rfl)
  have hold : ∀ topic, name ≠ topic → l.find? topic = r.log.find? topic := by
    intro topic hne
    rw [hfind, if_neg hne, Option.or_none]
  have hself : l.find? name = some (Topic.create name partitions r.log.retention) := by
    rw [hfind, hnone, if_pos rfl, Option.none_or]
  refine ⟨by rw [heq]; exact hr.bound, fun topic i p hp => ?_, fun topic i hp => ?_,
    fun topic n hn => ?_, fun topic t ht => ?_⟩
  · rw [hsentTo]
    by_cases hne : name = topic
    · subst hne
      rw [Log.partitionAt, hself, Option.bind_some] at hp
      obtain ⟨id, -, rfl⟩ := List.mem_map.mp (List.mem_of_getElem? hp)
      rw [hnew, hr.bound]
      exact Partition.holds_new id retention
    · rw [Log.partitionAt, hold topic hne] at hp
      exact hr.holds topic i p hp
  · rw [hsentTo]
    by_cases hne : name = topic
    · subst hne
      exact hnew i
    · rw [Log.partitionAt, hold topic hne] at hp
      exact hr.nowhere topic i hp
  · rcases List.mem_append.mp hn with hn | hn
    · obtain ⟨hnpos, t, ht, hsize⟩ := hr.created topic n hn
      have hne : name ≠ topic := by
        rintro rfl
        rw [hnone] at ht
        cases ht
      exact ⟨hnpos, t, (hold topic hne).trans ht, hsize⟩
    · cases List.mem_singleton.mp hn
      exact ⟨Nat.pos_of_ne_zero hpos, _, hself, Topic.size_create _ _ _⟩
  · by_cases hne : name = topic
    · subst hne
      obtain rfl := Option.some.inj (hself.symm.trans ht)
      rw [Topic.size_create]
      exact List.mem_append_right _ (List.mem_singleton_self _)
    · rw [show l.find? topic = r.log.find? topic from hold topic hne] at ht
      exact List.mem_append_left _ (hr.known topic t ht)

theorem Held.append (hr : r.Held h retention) (hn : r.log.Numbered) {topic : String} {t : Topic}
    (found : r.log.find? topic = some t) (key : String) (value : Bytes) :
    Held { r with log := (r.log.append topic key value).1 }
      (h ++ [.sent topic key value (r.log.append topic key value).2]) retention := by
  have hbound := r.log.retention_append topic key value
  have hfind := fun topic' t' (ht' : r.log.find? topic' = some t') =>
    Log.find?_append ht' topic key value
  have hnone := fun topic' (ht' : r.log.find? topic' = none) =>
    Log.find?_append_of_none ht' topic key value
  have happended := hn.appended topic key value
  -- From here on only what is known of the new log matters, and no longer how it was made.
  generalize r.log.append topic key value = e at hbound hfind hnone happended ⊢
  cases happended with
  | ignored missing =>
    rw [found] at missing
    cases missing
  | @grown i p l' place here elsewhere groups numbered =>
    obtain ⟨-, hid⟩ := hn.of_partitionAt place
    have hsent : ∀ topic' i', sentTo (h ++ [.sent topic key value ⟨i, p.base + p.records.length⟩])
        topic' i' = sentTo h topic' i' ++
          if (topic', i') = (topic, i) then [p.next topic key value] else [] := by
      intro topic' i'
      rw [sentTo_append, sentTo_sent]
      congr 1
      by_cases hsame : (topic', i') = (topic, i)
      · cases hsame
        simp [Partition.next, hid]
      · rw [if_neg hsame, if_neg]
        rintro ⟨rfl, rfl⟩
        exact hsame rfl
    refine ⟨hbound.trans hr.bound, fun topic' i' p' hp' => ?_, fun topic' i' hp' => ?_,
      fun topic' n hcreated => ?_, fun topic' t' ht' => ?_⟩
    · rw [hsent]
      by_cases hsame : (topic', i') = (topic, i)
      · cases hsame
        obtain rfl := Option.some.inj (here.symm.trans hp')
        rw [if_pos rfl]
        exact (hr.holds topic i p place).append topic key value
      · rw [if_neg hsame, List.append_nil]
        exact hr.holds topic' i' p' ((elsewhere topic' i' hsame).symm.trans hp')
    · rw [hsent]
      by_cases hsame : (topic', i') = (topic, i)
      · cases hsame
        exact absurd (here.symm.trans hp') nofun
      · rw [if_neg hsame, List.append_nil]
        exact hr.nowhere topic' i' ((elsewhere topic' i' hsame).symm.trans hp')
    · obtain ⟨hpos, t', ht', hsize⟩ := hr.created topic' n (by simpa using hcreated)
      obtain ⟨t'', ht'', -, hsize'⟩ := hfind topic' t' ht'
      exact ⟨hpos, t'', ht'', hsize'.trans hsize⟩
    · cases hold : r.log.find? topic' with
      | none => exact absurd ((hnone topic' hold).symm.trans ht') nofun
      | some t₀ =>
        obtain ⟨t'', ht'', -, hsize⟩ := hfind topic' t₀ hold
        obtain rfl := Option.some.inj (ht''.symm.trans ht')
        rw [hsize]
        exact List.mem_append_left _ (hr.known topic' t₀ hold)

/-- **One move** keeps track of what was sent. -/
theorem Held.move (hr : r.Held h retention) (hn : r.log.Numbered) (heffect : Effect r m r' es) :
    r'.Held (h ++ es) retention := by
  cases heffect with
  | create created => exact hr.create created
  | append found => exact hr.append hn found _ _
  | regroup concerns step =>
    exact hr.frame step.topics step.retention (sends_heard _ _ _) (by simp)
  | @read i m x x' a => exact hr.frame rfl rfl (sends_returned i a) (by cases a <;> simp)
  | shut | closeGroups | idle => exact hr.frame rfl rfl rfl nofun

/-- **Partitions hold what was sent to them**, along a run. -/
theorem Run.held (run : Run allowed (empty retention) r h) : r.Held h retention := by
  induction run with
  | start => exact ⟨rfl, nofun, fun _ _ _ => rfl, nofun, nofun⟩
  | move run permitted moved ih => exact ih.move run.numbered (effect_of_move? moved)

/-! ### Order -/

/-- Only appends send. -/
theorem Effect.sends (heffect : Effect r m r' es) : sends es = [] ∨ ∃ topic key value t,
    r.log.find? topic = some t ∧ sends es = [⟨topic, (r.log.append topic key value).2.partition,
      (r.log.append topic key value).2.offset, key, value⟩] := by
  cases heffect with
  | append found => exact .inr ⟨_, _, _, _, found, rfl⟩
  | regroup => exact .inl (sends_heard _ _ _)
  | @read i m x x' a => exact .inl (sends_returned i a)
  | create | shut | closeGroups | idle => exact .inl rfl

/-- What is sent to a partition comes after what was sent to it before. -/
theorem Held.lt_offset (hr : r.Held h retention) (hn : r.log.Numbered) {topic : String} {t : Topic}
    (found : r.log.find? topic = some t) (key : String) (value : Bytes) {a : Record}
    (ha : a ∈ sentTo h topic (r.log.append topic key value).2.partition) :
    a.offset < (r.log.append topic key value).2.offset := by
  have happended := hn.appended topic key value
  generalize r.log.append topic key value = e at happended ha
  cases happended with
  | ignored missing =>
    rw [found] at missing
    cases missing
  | @grown i p l' place here elsewhere groups numbered =>
    have hholds := hr.holds topic i p place
    obtain ⟨n, hn⟩ := List.getElem?_of_mem ha
    rw [hholds.offsets n a hn]
    show n < p.base + p.records.length
    rw [hholds.length]
    exact (List.getElem?_eq_some_iff.mp hn).1

/-- Offsets of a partition increase in the order of sending. -/
theorem Run.ascending (run : Run allowed (empty retention) r h) : (sends h).Pairwise fun a b =>
    a.topic = b.topic → a.partition = b.partition → a.offset < b.offset := by
  induction run with
  | start => exact List.Pairwise.nil
  | move run permitted moved ih =>
    rw [sends_append]
    rcases (effect_of_move? moved).sends with hsends | ⟨topic, key, value, t, found, hsends⟩
    · rwa [hsends, List.append_nil]
    · rw [hsends]
      refine List.pairwise_append.mpr ⟨ih, List.pairwise_singleton _ _, fun a ha b hb => ?_⟩
      cases List.mem_singleton.mp hb
      exact fun htopic hpartition =>
        run.held.lt_offset run.numbered found key value (mem_sentTo.mpr ⟨ha, htopic, hpartition⟩)

/-- The key of a record has chosen its partition. -/
theorem Run.partitioned (run : Run allowed (empty retention) r h) : ∀ a ∈ sends h, ∃ n,
    .created a.topic n ∈ h ∧ a.partition = partitionFor a.key n := by
  induction run with
  | start => nofun
  | move run permitted moved ih =>
    intro a ha
    rw [sends_append] at ha
    rcases List.mem_append.mp ha with ha | ha
    · obtain ⟨n, hcreated, hpartition⟩ := ih a ha
      exact ⟨n, List.mem_append_left _ hcreated, hpartition⟩
    · rcases (effect_of_move? moved).sends with hsends | ⟨topic, key, value, t, found, hsends⟩
      · rw [hsends] at ha
        cases ha
      · rw [hsends] at ha
        cases List.mem_singleton.mp ha
        exact ⟨t.size, List.mem_append_left _ (run.held.known topic t found),
          Log.partition_append found key value⟩

/-! ### The contents -/

/-- A send is an append, and changes one partition. -/
theorem send_eq (hn : r.log.Numbered) {topic key : String} {value : Bytes} {l : Log}
    {place : Placement} (hsend : r.log.send topic key value = .ok (l, place)) :
    r.move? (.append topic key value) = some { r with log := l } ∧
      r.events (.append topic key value) { r with log := l } = [.sent topic key value place] ∧
      ∀ topic' i, (topic', i) ≠ (topic, place.partition) →
        l.partitionAt topic' i = r.log.partitionAt topic' i := by
  rw [Log.send] at hsend
  split at hsend
  · rename_i t ht
    have found : r.log.find? topic = some t := by
      rw [Log.topic?] at ht
      split at ht
      · cases ht
      · split at ht <;> cases ht
        assumption
    have happend : r.log.append topic key value = (l, place) := Except.ok.inj hsend
    rw [move?, events, found, happend]
    refine ⟨rfl, rfl, fun topic' i hne => ?_⟩
    have happended := hn.appended topic key value
    rw [happend] at happended
    cases happended with
    | ignored => rfl
    | grown _ _ elsewhere => exact elsewhere topic' i hne
  · cases hsend

/-- **The contents of a log**, along any run. A topic has the partitions that it was created with,
and takes what is sent to it while the log is open. The record that is sent to a partition as number
`n`, from 0, gets the offset `n`. The watermark is the number of records sent, and the base and the
number of records kept together; those kept are the last ones that were sent, as many as retention
allows, under consecutive offsets from the base. The hash of its key chooses the partition of a
record, so records of one topic with one key are in one partition, in the order of sending. A send
changes no other partition. -/
theorem Run.contents (run : Run allowed (empty retention) r h) :
    (∀ topic n, .created topic n ∈ h →
      0 < n ∧ (∀ i, (r.log.partitionAt topic i).isSome ↔ i < n) ∧
      (r.log.closed = false → ∀ key value, ∃ e, r.log.send topic key value = .ok e)) ∧
    (∀ topic i p, r.log.partitionAt topic i = some p →
      (∀ (n : ℕ) (a : Record), (sentTo h topic i)[n]? = some a → a.offset = n) ∧
      p.watermark = p.base + p.records.length ∧ p.watermark = (sentTo h topic i).length ∧
      p.records.length = min (sentTo h topic i).length (max retention 1) ∧
      p.records <:+ sentTo h topic i ∧
      ∀ (k : ℕ) (a : Record), p.records[k]? = some a → a.offset = p.base + k) ∧
    (∀ a ∈ sends h, ∃ n, .created a.topic n ∈ h ∧ a.partition = (keyHash a.key).toNat % n) ∧
    ((sends h).Pairwise fun a b => a.topic = b.topic → a.key = b.key →
      a.partition = b.partition ∧ a.offset < b.offset) ∧
    ∀ topic key value l place, r.log.send topic key value = .ok (l, place) →
      r.move? (.append topic key value) = some { r with log := l } ∧
      r.events (.append topic key value) { r with log := l } = [.sent topic key value place] ∧
      ∀ topic' i, (topic', i) ≠ (topic, place.partition) →
        l.partitionAt topic' i = r.log.partitionAt topic' i := by
  have hr := run.held
  have hpartition : ∀ a ∈ sends h, ∃ n, .created a.topic n ∈ h ∧
      a.partition = (keyHash a.key).toNat % n := by
    intro a ha
    obtain ⟨n, hcreated, hpartition⟩ := run.partitioned a ha
    rw [partitionFor, if_neg (Nat.ne_of_gt (hr.created _ _ hcreated).1)] at hpartition
    exact ⟨n, hcreated, hpartition⟩
  refine ⟨fun topic n hcreated => ?_, fun topic i p hp => ?_, hpartition, ?_,
    fun topic key value l place => send_eq run.numbered⟩
  · obtain ⟨hpos, t, ht, hsize⟩ := hr.created topic n hcreated
    refine ⟨hpos, fun i => ?_, fun hopen key value => ?_⟩
    · rw [Log.partitionAt, ht, Option.bind_some, isSome_getElem?, ← hsize]
      rfl
    · refine ⟨r.log.append topic key value, ?_⟩
      simp only [Log.send, Log.topic?, hopen, ht, Bool.false_eq_true, if_false]
  · have hp := hr.holds topic i p hp
    have hlength := hp.length
    have hbase := hp.base
    refine ⟨hp.offsets, hp.watermark.trans hlength.symm, hp.watermark, by omega, ?_,
      fun k a => hp.offset⟩
    rw [hp.records]
    exact List.drop_suffix _ _
  · refine run.ascending.imp_of_mem fun {a b} ha hb hoffset htopic hkey => ?_
    have hsame : a.partition = b.partition := by
      obtain ⟨n, hcreated, hn⟩ := hpartition a ha
      obtain ⟨n', hcreated', hn'⟩ := hpartition b hb
      obtain ⟨-, t, ht, hsize⟩ := hr.created _ _ hcreated
      obtain ⟨-, t', ht', hsize'⟩ := hr.created _ _ hcreated'
      rw [← htopic, ht] at ht'
      cases ht'
      rw [hn, hn', hkey, ← hsize, ← hsize']
    exact ⟨hsame, hoffset htopic hsame⟩

/-- A log keeps one record of each partition, although none was asked for. -/
theorem contents_trimmed : ∃ r h, Run (fun _ _ _ => True) (empty 0) r h ∧ ∃ i p,
    r.log.partitionAt "t" i = some p ∧ (sentTo h "t" i).length = 2 ∧ p.watermark = 2 ∧
      p.records.length = 1 ∧ p.records <:+ sentTo h "t" i ∧ (sends h).length = 3 := by
  obtain ⟨r, h, run, hsome, hsent, hlength⟩ :=
    exists_of_recording move? events (Run _ _) (empty 0)
      [.createTopic "t" 2, .append "t" "a" [1], .append "t" "b" [2], .append "t" "a" [3]]
      (fun _ run => run.move trivial) .start
      (fun r h => (r.log.partitionAt "t" 0).isSome ∧ (sentTo h "t" 0).length = 2 ∧
        (sends h).length = 3) (by decide +kernel)
  obtain ⟨p, hp⟩ := Option.isSome_iff_exists.mp hsome
  obtain ⟨-, hpartitions, -, -, -⟩ := run.contents
  obtain ⟨-, -, hwatermark, hkept, hsuffix, -⟩ := hpartitions "t" 0 p hp
  rw [hsent] at hwatermark hkept
  exact ⟨r, h, run, 0, p, hp, hsent, hwatermark, hkept, hsuffix, hlength⟩

end Readership

end SmsRelay
