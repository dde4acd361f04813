import Mathlib.Data.List.Perm.Subperm
import SmsRelay.Proofs.Relay.Coverage
import SmsRelay.Proofs.Store.Basic

/-!
# What the store of a relay holds

What the store holds has been handed over to it, and a message that has been handed over is stored,
or its batch is still on its way. With what is known of offers and of committed offsets this tells
which records are in the store.

## Implementation notes

A record that is read twice, by the old owner of a partition and by the new one, is handed over
twice. That it is stored once is the work of the store, which takes a correlation id once.

## Main results

* `Course.stocked`: what the store holds and what is on its way.
* `Course.stored_once`: the store holds no message twice, and each one that has been appended below
  a committed offset once when the workers are done.
-/

namespace SmsRelay

/-- The message of a record that is appended. -/
def RelayEvent.message? : RelayEvent → Option Message
  | appended a => a.message?
  | _ => none

/-- The record that is trimmed. -/
def RelayEvent.trimmed? : RelayEvent → Option Record
  | trimmed a => some a
  | _ => none

/-- The messages of the records that have been appended. -/
def appendedMessages (h : List RelayEvent) : List Message := h.filterMap (·.message?)

theorem mem_appendedMessages {h : List RelayEvent} {x : Message} :
    x ∈ appendedMessages h ↔ ∃ a, .appended a ∈ h ∧ a.message? = some x := by
  rw [appendedMessages, List.mem_filterMap]
  constructor
  · rintro ⟨e, he, hx⟩
    cases e with
    | appended a => exact ⟨a, he, hx⟩
    | trimmed | deed => cases hx
  · rintro ⟨a, ha, hx⟩
    exact ⟨_, ha, hx⟩

/-- The messages that come have pairwise distinct correlation ids, none of them empty, the store can
take messages of their phone numbers, and there are at most `n` of them. -/
structure Storable (s : Store) (n : ℕ) (xs : List Message) : Prop where
  distinct : (xs.map (·.correlationId)).Nodup
  named : ∀ x ∈ xs, x.correlationId ≠ ""
  accepted : ∀ x ∈ xs, s.Accepts x.phone
  room : xs.length ≤ n

theorem Storable.of_append {s : Store} {n : ℕ} {h es : List RelayEvent}
    (hs : Storable s n (appendedMessages (h ++ es))) : Storable s n (appendedMessages h) := by
  have happend : appendedMessages (h ++ es) = appendedMessages h ++ appendedMessages es :=
    List.filterMap_append
  have hmem : ∀ x ∈ appendedMessages h, x ∈ appendedMessages (h ++ es) := fun x hx =>
    happend ▸ List.mem_append_left _ hx
  refine ⟨?_, fun x hx => hs.named x (hmem x hx), fun x hx => hs.accepted x (hmem x hx), ?_⟩
  · have hdistinct := hs.distinct
    rw [happend, List.map_append] at hdistinct
    exact hdistinct.of_append_left
  · have hroom := hs.room
    rw [happend, List.length_append] at hroom
    omega

/-- Messages that come and have the same id are the same. -/
theorem Storable.inj {s : Store} {n : ℕ} {xs : List Message} (hs : Storable s n xs) {x y : Message}
    (hx : x ∈ xs) (hy : y ∈ xs) (heq : x.correlationId = y.correlationId) : x = y :=
  List.inj_on_of_nodup_map hs.distinct hx hy heq

/-- There is room for all that has come. -/
theorem Storable.fits {s : Store} {n : ℕ} {xs ms : List Message} (hs : Storable s n xs)
    (hnodup : (ms.map (·.correlationId)).Nodup) (hms : ∀ x ∈ ms, x ∈ xs) : ms.length ≤ n :=
  le_trans (hnodup.of_map.subperm hms).length_le hs.room

namespace StoreLink

theorem answer_through {l : StoreLink} {c : StoreCall} (h : c.mode = .through) :
    (l.answer c).2 = { l with
      running := l.running - 1, store := (l.store.insertBatch c.batch).2 } := by
  rw [answer, h]

end StoreLink

namespace Relay

variable {r r' : Relay} {m : RelayMove} {es : List RelayEvent}

/-- The message is in a batch that the store has not answered yet. -/
def OnItsWay (r : Relay) (x : Message) : Prop :=
  ∃ w ∈ r.workers, ∃ c, w.batch.flushing = some c ∧ x ∈ c.batch

/-- The store holds the messages `ms`, which have been handed over to it; what has been handed over
and is not stored is on its way. -/
structure Stocked (r : Relay) (s : Store) (n : ℕ) (ms : List Message) : Prop where
  holds : r.link.store.Holds n ms
  accepts : ∀ phone, s.Accepts phone → r.link.store.Accepts phone
  through : r.link.mode = .through
  unique : (ms.map (·.correlationId)).Nodup
  stored : ∀ x ∈ ms, x ∈ r.link.handed.flatten
  calls : ∀ w ∈ r.workers, ∀ c, w.batch.flushing = some c →
    c.mode = .through ∧ ∀ x ∈ c.batch, x ∈ r.link.handed.flatten
  kept : ∀ x ∈ r.link.handed.flatten,
    x.correlationId ∈ ms.map (·.correlationId) ∨ r.OnItsWay x

/-- What is on its way stays on its way when another worker takes a step. -/
theorem OnItsWay.of_others {x : Message} {w : ClaimWorker} (h : r.OnItsWay x)
    (before : ∀ u ∈ r.workers, u = w ∨ u ∈ r'.workers) :
    (∃ c, w.batch.flushing = some c ∧ x ∈ c.batch) ∨ r'.OnItsWay x := by
  obtain ⟨u, hu, c, hc, hx⟩ := h
  rcases before u hu with rfl | hu
  · exact .inl ⟨c, hc, hx⟩
  · exact .inr ⟨u, hu, c, hc, hx⟩

variable {s : Store} {n : ℕ} {ms : List Message}

/-- **A worker** hands a batch over, or the store answers it, or neither. -/
theorem Stocked.use (h : r.Stocked s n ms) {xs : List Message} (hs : Storable s n xs)
    (hxs : ∀ x ∈ r.link.handed.flatten, x ∈ xs ∧ x.createdAt.isValid) {w w' : ClaimWorker}
    (found : w ∈ r.workers) (left : w' ∈ r'.workers)
    (before : ∀ u ∈ r.workers, u = w ∨ u ∈ r'.workers)
    (after : ∀ u ∈ r'.workers, u = w' ∨ u ∈ r.workers)
    (use : r.link.Use w.batch.flushing r'.link w'.batch.flushing) : ∃ ms', r'.Stocked s n ms' := by
  generalize hl' : r'.link = l', hc' : w'.batch.flushing = c', hc : w.batch.flushing = c at use
  cases use with
  | none c =>
    refine ⟨ms, hl' ▸ h.holds, hl' ▸ h.accepts, hl' ▸ h.through, h.unique, hl' ▸ h.stored, ?_, ?_⟩
    · intro u hu d hd
      rw [hl']
      rcases after u hu with rfl | hu
      · exact h.calls w found d (hc.trans (hc'.symm.trans hd))
      · exact h.calls u hu d hd
    · intro x hx
      rw [hl'] at hx
      refine (h.kept x hx).imp_right fun hway => ?_
      rcases hway.of_others before with ⟨d, hd, hx⟩ | hway
      · exact ⟨w', left, d, hc'.trans (hc.symm.trans hd), hx⟩
      · exact hway
  | hand now batch =>
    have hhanded : r'.link.handed = r.link.handed ++ [batch] := by rw [hl']; rfl
    have hmem : ∀ x, x ∈ r'.link.handed.flatten ↔ x ∈ r.link.handed.flatten ∨ x ∈ batch := by
      intro x
      rw [hhanded, List.flatten_append, List.mem_append, List.flatten_singleton]
    refine ⟨ms, hl' ▸ h.holds, hl' ▸ h.accepts, hl' ▸ h.through, h.unique,
      fun x hx => (hmem x).mpr (.inl (h.stored x hx)), ?_, ?_⟩
    · intro u hu d hd
      rcases after u hu with rfl | hu
      · cases hc'.symm.trans hd
        exact ⟨h.through, fun x hx => (hmem x).mpr (.inr hx)⟩
      · exact (h.calls u hu d hd).imp_right fun hd x hx => (hmem x).mpr (.inl (hd x hx))
    · intro x hx
      rcases (hmem x).mp hx with hx | hx
      · refine (h.kept x hx).imp_right fun hway => ?_
        rcases hway.of_others before with ⟨d, hd, -⟩ | hway
        · cases hc.symm.trans hd
        · exact hway
      · exact .inr ⟨w', left, _, hc', hx⟩
  | answer c =>
    obtain ⟨hmode, hbatch⟩ := h.calls w found c hc
    rw [StoreLink.answer_through hmode] at hl'
    have hhanded : r'.link.handed = r.link.handed := by rw [hl']
    have hsuits : ∀ x ∈ c.batch, x ∈ xs ∧ x.createdAt.isValid := fun x hx => hxs x (hbatch x hx)
    have hunique := nodup_foldl_collect h.unique c.batch
    have hstored : ∀ x ∈ c.batch.foldl collect ms, x ∈ r.link.handed.flatten := fun x hx =>
      (mem_or_mem_of_mem_foldl_collect hx).elim (h.stored x) (hbatch x)
    obtain ⟨hholds, haccepts⟩ := h.holds.insertBatch
      (fun x hx => h.accepts _ (hs.accepted x (hsuits x hx).1)) (fun x hx => (hsuits x hx).2)
      (fun x hx => hs.named x (hsuits x hx).1)
      (hs.fits hunique fun x hx => (hxs x (hstored x hx)).1)
    refine ⟨c.batch.foldl collect ms, hl' ▸ hholds,
      fun phone hphone => hl' ▸ haccepts phone (h.accepts phone hphone), hl' ▸ h.through, hunique,
      hhanded ▸ hstored, ?_, ?_⟩
    · intro u hu d hd
      rw [hhanded]
      rcases after u hu with rfl | hu
      · cases hc'.symm.trans hd
      · exact h.calls u hu d hd
    · intro x hx
      rw [hhanded] at hx
      rcases h.kept x hx with hid | hway
      · obtain ⟨y, hy, heq⟩ := List.mem_map.mp hid
        exact .inl (List.mem_map.mpr ⟨y, mem_foldl_collect_of_mem c.batch hy, heq⟩)
      · rcases hway.of_others before with ⟨d, hd, hx⟩ | hway
        · cases hc.symm.trans hd
          exact .inl (List.mem_map.mpr (exists_mem_foldl_collect hx))
        · exact .inr hway

theorem Stocked.move (h : r.Stocked s n ms) (hr : r.Sound) {xs : List Message}
    (hs : Storable s n xs) (hxs : ∀ x ∈ r.link.handed.flatten, x ∈ xs ∧ x.createdAt.isValid)
    (hm : m.keepsMode) (hshift : Shift r m es r') : ∃ ms', r'.Stocked s n ms' := by
  cases hshift with
  | work found left before after effect log link log' link' =>
    have huse := effect.use
    rw [link, link'] at huse
    exact h.use hs hxs found left before after huse
  | rest before after handed store mode =>
    refine ⟨ms, store ▸ h.holds, store ▸ h.accepts, (mode hm).trans h.through, h.unique,
      handed ▸ h.stored, fun u hu c hc => ?_, fun x hx => ?_⟩
    · rw [handed]
      rcases after u hu with hu | ⟨claim, workers, size, timeout, rfl⟩
      · exact h.calls u hu c hc
      · cases hc
    · rw [handed] at hx
      refine (h.kept x hx).imp_right ?_
      rintro ⟨u, hu, c, hc, hx⟩
      rcases before u hu with hu' | hfinished
      · exact ⟨u, hu', c, hc, hx⟩
      · rw [((hr.worker hu).nothing_left hfinished).2.2] at hc
        cases hc

theorem Fresh.stocked (h : r.Fresh) (opened : Store.Opened n r.link.store)
    (through : r.link.mode = .through) : r.Stocked r.link.store n [] where
  holds := opened.holds
  accepts _ hphone := hphone
  through := through
  unique := List.nodup_nil
  stored x hx := absurd hx List.not_mem_nil
  calls w hw := by
    rw [h.workers] at hw
    exact absurd hw List.not_mem_nil
  kept x hx := by
    rw [h.handed] at hx
    exact absurd hx List.not_mem_nil

end Relay

namespace Relay.Sample

/-- The message of a record. -/
def message (id : String) : Message := ⟨messageId ⟨0, 0⟩, id, "1", "hello", "SUCCESS", ⟨0, 0⟩⟩

theorem message?_record (offset : ℕ) (id : String) :
    (record offset id).message? = some (message id) := by
  have hlow : -(pow2 63 : ℤ) ≤ 0 := by decide
  have hhigh : (0 : ℤ) < pow2 63 := by decide
  have htime : Instant.ofMillis? 0 = some ⟨0, 0⟩ := by decide
  have hread : (⟨id, "1", "hello", "SUCCESS", 0⟩ : Event).toMessage = .ok (message id) :=
    Event.toMessage_ok_iff.mpr ⟨by simp, by simp, by simp, ⟨0, 0⟩, htime, rfl⟩
  rw [Record.message?, record, Event.decode_encode hlow hhigh, hread]
  rfl

theorem opened_relay (retention : ℕ) : Store.Opened 10 (relay retention).link.store :=
  .memory (Nat.le_refl 10)

theorem storable_messages (retention : ℕ) {ids : List String} (distinct : ids.Nodup)
    (named : "" ∉ ids) (room : ids.length ≤ 10) :
    Storable (relay retention).link.store 10 (ids.map message) := by
  refine ⟨?_, fun x hx => ?_, fun x hx => ?_, by rwa [List.length_map]⟩
  · rw [List.map_map]
    exact (List.map_id ids).symm ▸ distinct
  · obtain ⟨id, hid, rfl⟩ := List.mem_map.mp hx
    exact fun hempty => named (hempty ▸ hid)
  · obtain ⟨id, -, rfl⟩ := List.mem_map.mp hx
    exact (by decide : "1" ≠ "")

end Relay.Sample

namespace Course

variable {r₀ r : Relay} {h : List RelayEvent} {n : ℕ}

/-- What has been handed over are messages of records that have been appended. -/
theorem handed_appended {allowed : RelayMove → Prop} (course : Course allowed r₀ r h) {x : Message}
    (hx : x ∈ r.link.handed.flatten) : x ∈ appendedMessages h ∧ x.createdAt.isValid := by
  obtain ⟨a, ha, hmessage⟩ := course.delivery.origin x (.inl hx)
  refine ⟨mem_appendedMessages.mpr ⟨a, ha, hmessage⟩, ?_⟩
  rw [Record.message?] at hmessage
  cases hdecode : Event.decode a.value with
  | ok y =>
    rw [hdecode] at hmessage
    cases hmessage
    exact Event.isValid_of_decode hdecode
  | error e =>
    rw [hdecode] at hmessage
    cases hmessage

/-- **What the store holds** has been handed over, and the rest is on its way. -/
theorem stocked (course : Course (·.keepsMode) r₀ r h)
    (opened : Store.Opened n r₀.link.store) (through : r₀.link.mode = .through)
    (storable : Storable r₀.link.store n (appendedMessages h)) :
    ∃ ms, r.Stocked r₀.link.store n ms := by
  induction course with
  | start fresh => exact ⟨[], fresh.stocked opened through⟩
  | move course permitted moved ih =>
    obtain ⟨ms, hstocked⟩ := ih storable.of_append
    exact hstocked.move course.sound storable.of_append (fun x hx => course.handed_appended hx)
      permitted (Relay.shift_of_move? course.sound moved)

/-- When all workers are done, each record below a committed offset has been handed over, unless it
was trimmed before it got a slot. -/
theorem handed_of_finished {allowed : RelayMove → Prop} (course : Course allowed r₀ r h)
    (finished : ∀ w ∈ r.workers, w.isFinished) {g : Group} (hg : g ∈ r.log.groups) {a : Record}
    {x : Message} (ha : .appended a ∈ h) (hx : a.message? = some x) (htopic : a.topic = g.topic)
    (hbelow : a.offset < g.committed.getD a.partition 0)
    (hread : .trimmed a ∈ h → .deed g.name (.received a) ∈ h) : x ∈ r.link.handed.flatten := by
  have hreceived : .deed g.name (.received a) ∈ h := by
    by_contra hmissed
    exact hmissed (hread (course.trimmed_of_missed hg ha htopic hbelow hmissed))
  rcases course.fate_of_received hreceived with hoffered | hdropped | ⟨w, hw, hrunning, -⟩
  · obtain ⟨y, hy, hkeeps⟩ := course.delivery.offered g.name a hoffered
    obtain rfl : y = x := Option.some.inj (hy.symm.trans hx)
    refine hkeeps.resolve_right ?_
    rintro ⟨w, hw, hin⟩
    rw [((course.sound.worker hw).nothing_left (finished w hw)).2.1] at hin
    exact absurd hin List.not_mem_nil
  · rw [course.delivery.dropped g.name a hdropped] at hx
    cases hx
  · exact (hrunning (finished w hw)).elim

/-- **Exactly once.** A store that keeps correlation ids unique and answers every batch holds no
message twice and nothing but messages of records that have been appended. When no worker is at work
it holds, once, the message of each record below an offset that a group has committed, unless the
record was trimmed before it got a slot. -/
theorem stored_once (course : Course (·.keepsMode) r₀ r h)
    (opened : Store.Opened n r₀.link.store) (through : r₀.link.mode = .through)
    (storable : Storable r₀.link.store n (appendedMessages h)) :
    ∃ l, r.link.store.list = .ok l ∧ (l.map (·.correlationId)).Nodup ∧
      (∀ x ∈ l, ∃ a, .appended a ∈ h ∧ a.message? = some x) ∧
      ((∀ w ∈ r.workers, w.isFinished) → ∀ g ∈ r.log.groups, ∀ a x, .appended a ∈ h →
        a.message? = some x → a.topic = g.topic → a.offset < g.committed.getD a.partition 0 →
        (.trimmed a ∈ h → .deed g.name (.received a) ∈ h) → l.count x = 1) := by
  obtain ⟨ms, hstocked⟩ := course.stocked opened through storable
  obtain ⟨l, hlist, hperm⟩ := hstocked.holds.list
  have hnodup : (l.map (·.correlationId)).Nodup :=
    (hperm.map (·.correlationId)).nodup_iff.mpr hstocked.unique
  have hcame : ∀ x ∈ ms, x ∈ appendedMessages h := fun x hx =>
    (course.handed_appended (hstocked.stored x hx)).1
  refine ⟨l, hlist, hnodup, fun x hx => mem_appendedMessages.mp (hcame x (hperm.mem_iff.mp hx)), ?_⟩
  intro finished g hg a x ha hx htopic hbelow hread
  have hhanded := course.handed_of_finished finished hg ha hx htopic hbelow hread
  have hstored : x ∈ ms := by
    rcases hstocked.kept x hhanded with hid | ⟨w, hw, c, hc, -⟩
    · obtain ⟨y, hy, heq⟩ := List.mem_map.mp hid
      have hsame : y = x := storable.inj (hcame y hy) (course.handed_appended hhanded).1 heq
      rwa [← hsame]
    · rw [((course.sound.worker hw).nothing_left (finished w hw)).2.2] at hc
      cases hc
  exact List.count_eq_one_of_mem hnodup.of_map (hperm.mem_iff.mpr hstored)

/-! ### Courses that fill a store -/

open Relay.Sample

/-- The worker of a consumer is told to end and ends, when it has nothing left to flush. -/
def finish (i : ℕ) : List RelayMove :=
  [.cancel i, receive i, receive i, tick i, tick i, tick i, receive i, receive i]

/-- A consumer loses its claim to a rebalance while its batch is on its way. The mark of the record
comes too late, and the consumer reads the record once more. -/
def rereading : List RelayMove :=
  join 0 1 1 ++ [append "m0", receive 0, receive 0, work 0 0, work 0 0] ++ join 1 1 1 ++
    [.session 0 true, receive 0, work 0 0, work 0 0, receive 0, tick 0, tick 0, tick 0, receive 0,
      receive 0, .session 0 true, .session 0 true, receive 0, receive 0, work 0 0, work 0 0,
      work 0 0, work 0 0] ++ finish 0

/-- A record is handed over by the worker that lost its claim and by the one that came after it. The
store holds its message once. -/
theorem stored_once_reread : ∃ r h, Course (·.keepsMode) (relay 3) r h ∧
    r.link.handed = [[message "m0"], [message "m0"]] ∧
    ∃ l, r.link.store.list = .ok l ∧ l.count (message "m0") = 1 := by
  have hkeeps : ∀ m ∈ rereading, m.keepsMode := by decide
  obtain ⟨r, h, course, hcame, hhanded, hfinished, g, hg, happended, htopic, hbelow, htrimmed⟩ :=
    exists_of_recording Relay.move? Relay.events (Course (·.keepsMode) _) (relay 3) rereading
      (fun hm course => course.move (hkeeps _ hm)) (.start (fresh_relay 3))
      (fun r h => appendedMessages h = ["m0"].map message ∧
        r.link.handed = [[message "m0"], [message "m0"]] ∧ (∀ w ∈ r.workers, w.isFinished) ∧
        ∃ g ∈ r.log.groups, .appended (record 0 "m0") ∈ h ∧ (record 0 "m0").topic = g.topic ∧
          0 < g.committed.getD 0 0 ∧ .trimmed (record 0 "m0") ∉ h) (by decide +kernel)
  have hstorable : Storable (relay 3).link.store 10 (appendedMessages h) := by
    rw [hcame]
    exact storable_messages 3 (by decide) (by decide) (by decide)
  obtain ⟨l, hlist, -, -, honce⟩ := course.stored_once (opened_relay 3) rfl hstorable
  exact ⟨r, h, course, hhanded, l, hlist, honce hfinished g hg (record 0 "m0") _ happended
    (message?_record 0 "m0") htopic hbelow fun h => (htrimmed h).elim⟩

/-- A worker lets go of a record that it has read. The record is trimmed, and another worker commits
past it and ends. -/
def trimming : List RelayMove := lettingGo ++ finish 1 ++ [.elapse 100, receive 1]

/-- A record that was read and then let go, since its worker was cancelled before it got a slot, may
be trimmed before another worker comes. It lies below the committed offset and is not in the
store. -/
theorem stored_once_missed : ∃ r h, Course (·.keepsMode) (relay 2) r h ∧
    Store.Opened 10 (relay 2).link.store ∧ (relay 2).link.mode = .through ∧
    Storable (relay 2).link.store 10 (appendedMessages h) ∧
    (∀ a, .trimmed a ∈ h → .deed "g" (.read a) ∈ h.takeWhile (· ≠ .trimmed a)) ∧
    (∀ w ∈ r.workers, w.isFinished) ∧ ∃ g ∈ r.log.groups, g.name = "g" ∧ ∃ a x,
      .appended a ∈ h ∧ a.message? = some x ∧ a.topic = g.topic ∧
      a.offset < g.committed.getD a.partition 0 ∧
      ∃ l, r.link.store.list = .ok l ∧ l.count x = 0 := by
  have hkeeps : ∀ m ∈ trimming, m.keepsMode := by decide
  obtain ⟨r, h, course, hcame, hread, hfinished, hlist, g, hg, hname, happended, htopic, hbelow⟩ :=
    exists_of_recording Relay.move? Relay.events (Course (·.keepsMode) _) (relay 2) trimming
      (fun hm course => course.move (hkeeps _ hm)) (.start (fresh_relay 2))
      (fun r h => appendedMessages h = ["m0", "m1", "m2", "m3"].map message ∧
        (∀ a ∈ h.filterMap (·.trimmed?), .deed "g" (.read a) ∈ h.takeWhile (· ≠ .trimmed a)) ∧
        (∀ w ∈ r.workers, w.isFinished) ∧
        r.link.store.list = .ok (["m0", "m2"].map message) ∧ ∃ g ∈ r.log.groups, g.name = "g" ∧
          .appended (record 1 "m1") ∈ h ∧ (record 1 "m1").topic = g.topic ∧
          1 < g.committed.getD 0 0) (by decide +kernel)
  have hstorable : Storable (relay 2).link.store 10 (appendedMessages h) := by
    rw [hcame]
    exact storable_messages 2 (by decide) (by decide) (by decide)
  refine ⟨r, h, course, opened_relay 2, rfl, hstorable, fun a ha => ?_, hfinished, g, hg, hname,
    record 1 "m1", _, happended, message?_record 1 "m1", htopic, hbelow, _, hlist, by decide⟩
  exact hread a (List.mem_filterMap.mpr ⟨_, ha, rfl⟩)

end Course

end SmsRelay
