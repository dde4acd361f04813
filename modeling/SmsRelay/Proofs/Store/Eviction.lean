import Mathlib.Data.List.DropRight
import SmsRelay.Proofs.Store.Operation

/-!
# What a store in memory has room for

A store in memory keeps the last messages that it has accepted, as many as it has room for. If it
keeps correlation ids unique, the ids that are taken are those of the messages in it; the id of a
message that has made room for another is free again.

## Implementation notes

When the oldest message goes, its id is taken out of the index. That this leaves the ids of the
others in it is due to `Apart`: no other message has the same one.

## Main results

* `Retains.put`: what becomes of a message.
* `Retains.perform`: what the store has accepted, and still has, after an operation.
-/

namespace SmsRelay

/-- No two of the messages share a correlation id, but for the empty one. -/
def Apart (ms : List Message) : Prop :=
  ms.Pairwise fun a b => a.correlationId ≠ "" → b.correlationId ≠ a.correlationId

/-- The ids of the others when the first message has gone. -/
theorem Taken.tail {ids : List String} {m : Message} {ms : List Message} (h : Taken ids (m :: ms))
    (hapart : Apart (m :: ms)) : Taken (ids.filter (· ≠ m.correlationId)) ms := by
  obtain ⟨hfirst, -⟩ := List.pairwise_cons.mp hapart
  intro id
  rw [List.mem_filter, h id, List.map_cons, List.mem_cons, decide_eq_true_iff]
  constructor
  · rintro ⟨⟨hne, hid⟩, hother⟩
    exact ⟨hne, hid.resolve_left hother⟩
  · rintro ⟨hne, hid⟩
    refine ⟨⟨hne, .inr hid⟩, ?_⟩
    rintro rfl
    obtain ⟨k, hk, heq⟩ := List.mem_map.mp hid
    exact hfirst k hk hne heq

theorem Apart.concat {ms : List Message} (h : Apart ms) {m : Message}
    (hfree : m.correlationId ≠ "" → m.correlationId ∉ ms.map (·.correlationId)) :
    Apart (ms ++ [m]) := by
  refine List.pairwise_append.mpr ⟨h, List.pairwise_singleton _ _, fun a ha b hb hne heq => ?_⟩
  obtain rfl := List.mem_singleton.mp hb
  exact hfree (heq ▸ hne) (List.mem_map.mpr ⟨a, ha, heq.symm⟩)

/-- The last messages but the oldest of them. -/
theorem rtake_of_rtake_eq_cons {n : ℕ} {ms rest : List Message} {m : Message}
    (h : ms.rtake n = m :: rest) (hn : rest.length + 1 = n) : ms.rtake (n - 1) = rest := by
  have htail : (ms.rtake n).tail = rest := by rw [h]; rfl
  have hlength : (ms.rtake n).length = rest.length + 1 := by rw [h]; rfl
  rw [List.rtake, List.length_drop] at hlength
  rw [← htail, List.rtake, List.rtake, List.tail_drop]
  congr 1
  omega

namespace MemoryStore

/-- Of the messages that it has accepted the store keeps the last `n`. -/
structure Keeps (s : MemoryStore) (n : ℕ) (accepted : List Message) : Prop where
  messages : s.messages = accepted.rtake n
  taken : s.unique → Taken s.ids s.messages
  apart : s.unique → Apart s.messages
  untracked : s.unique = false → s.ids = []

/-- The store keeps as many as it has room for. -/
structure Retains (s : MemoryStore) (accepted : List Message) : Prop where
  positive : 0 < s.capacity
  keeps : s.Keeps s.capacity accepted

/-- An empty store. -/
theorem retains_nil {s : MemoryStore} (hcapacity : 0 < s.capacity) :
    ({ s with messages := [], ids := [] } : MemoryStore).Retains [] :=
  ⟨hcapacity, (List.rtake_nil _).symm, fun _ => taken_nil, fun _ => .nil, fun _ => rfl⟩

/-- A new store. -/
theorem retains_create (capacity : ℕ) (unique : Bool) : (create capacity unique).Retains [] :=
  retains_nil (s := create capacity unique) (Nat.le_max_right capacity 1)

variable {s : MemoryStore} {n : ℕ} {accepted : List Message} {m : Message}

theorem Retains.length_le (h : s.Retains accepted) : s.messages.length ≤ s.capacity := by
  rw [h.keeps.messages, List.rtake, List.length_drop]
  omega

@[simp] theorem unique_makeRoom (s : MemoryStore) : s.makeRoom.unique = s.unique := by
  unfold makeRoom
  split
  · rfl
  · split <;> rfl

/-- **Room is made** for one more message. -/
theorem Retains.makeRoom (h : s.Retains accepted) :
    s.makeRoom.Keeps (s.capacity - 1) accepted := by
  have hmessages := h.keeps.messages
  have hlength := h.length_le
  rw [MemoryStore.makeRoom]
  split
  · rename_i hroom
    refine ⟨?_, h.keeps.taken, h.keeps.apart, h.keeps.untracked⟩
    rw [hmessages, List.rtake, List.length_drop] at hroom
    rw [hmessages, List.rtake, List.rtake]
    congr 1
    omega
  · rename_i hfull
    have htaken := h.keeps.taken
    have hapart := h.keeps.apart
    split
    · rename_i hempty
      rw [hempty] at hfull
      exact (hfull h.positive).elim
    · rename_i oldest rest hcases
      rw [hcases] at htaken hapart hmessages hfull hlength
      rw [List.length_cons] at hfull hlength
      refine ⟨(rtake_of_rtake_eq_cons hmessages.symm (by omega)).symm,
        fun hu => (htaken hu).tail (hapart hu), fun hu => (List.pairwise_cons.mp (hapart hu)).2,
        fun hu => ?_⟩
      show s.ids.filter _ = []
      rw [h.keeps.untracked hu]
      rfl

/-- Nothing comes in when room is made. -/
theorem mem_of_mem_makeRoom {k : Message} (h : k ∈ s.makeRoom.messages) : k ∈ s.messages := by
  rw [makeRoom] at h
  split at h
  · exact h
  · split at h
    · exact h
    · rename_i hcases
      rw [hcases]
      exact List.mem_cons_of_mem _ h

/-- **A message comes in** whose id is free. -/
theorem Keeps.accept (h : s.Keeps n accepted) (hfree : s.unique → m.correlationId ≠ "" →
    m.correlationId ∉ s.messages.map (·.correlationId)) :
    (s.accept m).Keeps (n + 1) (accepted ++ [m]) := by
  refine ⟨?_, fun hu => ?_, fun hu => (h.apart hu).concat (hfree hu), fun hu => ?_⟩
  · rw [List.rtake_concat_succ, ← h.messages]
    rfl
  · have hu : s.unique = true := hu
    rw [MemoryStore.accept, isTracked, hu, Bool.true_and]
    exact (h.taken hu).record m
  · have hu : s.unique = false := hu
    rw [MemoryStore.accept, isTracked, hu, Bool.false_and]
    exact h.untracked hu

/-- **What the store says** to a message with a phone number. -/
theorem Keeps.verdict_eq (h : s.Keeps n accepted) (hphone : m.phone ≠ "") : s.verdict m =
    if s.unique ∧ m.correlationId ≠ "" ∧ m.correlationId ∈ s.messages.map (·.correlationId) then
      .duplicate ("duplicate correlationId '" ++ m.correlationId ++ "'") else .stored := by
  have hempty : m.phone.isEmpty = false := by simpa using hphone
  rw [verdict, hempty, if_neg Bool.false_ne_true, isTracked]
  refine if_congr ?_ rfl rfl
  cases hu : s.unique with
  | false => simp
  | true => simp [h.taken hu m.correlationId]

theorem phone_of_stored (h : s.verdict m = .stored) : m.phone ≠ "" := by
  intro hempty
  rw [verdict, hempty] at h
  cases h

/-- **What becomes of a message.** -/
theorem Retains.put (h : s.Retains accepted) (m : Message) : (s.put m).2.Retains
    (if (s.put m).1 = .stored then accepted ++ [m] else accepted) := by
  rw [MemoryStore.put]
  by_cases hstored : s.verdict m = .stored
  · rw [if_pos hstored, if_pos rfl]
    have hcapacity : s.makeRoom.capacity = s.capacity := capacity_makeRoom s
    refine ⟨?_, ?_⟩
    · show 0 < s.makeRoom.capacity
      rw [hcapacity]
      exact h.positive
    · show Keeps (s.makeRoom.accept m) s.makeRoom.capacity _
      rw [hcapacity, ← Nat.sub_add_cancel h.positive]
      refine h.makeRoom.accept fun hu hne hid => ?_
      obtain ⟨k, hk, heq⟩ := List.mem_map.mp hid
      have htaken : m.correlationId ∈ s.messages.map (·.correlationId) :=
        List.mem_map.mpr ⟨k, mem_of_mem_makeRoom hk, heq⟩
      rw [h.keeps.verdict_eq (phone_of_stored hstored),
        if_pos ⟨(unique_makeRoom s).symm.trans hu, hne, htaken⟩] at hstored
      cases hstored
  · rw [if_neg hstored, if_neg hstored]
    exact h

theorem put_settings (s : MemoryStore) (m : Message) :
    (s.put m).2.capacity = s.capacity ∧ (s.put m).2.unique = s.unique := by
  rw [MemoryStore.put]
  split
  · exact ⟨capacity_makeRoom s, unique_makeRoom s⟩
  · exact ⟨rfl, rfl⟩

/-- **What becomes of a batch.** -/
theorem Retains.insertBatch (h : s.Retains accepted) (b : List Message) :
    ∃ s', ((Store.memory s).insertBatch b).2 = .memory s' ∧ s'.capacity = s.capacity ∧
      s'.unique = s.unique ∧ s'.Retains (accepted ++ (Store.memory s).added b) := by
  rw [Store.insertBatch_eq]
  induction b generalizing s accepted with
  | nil => exact ⟨s, rfl, rfl, rfl, by rwa [show (Store.memory s).added [] = [] from rfl,
      List.append_nil]⟩
  | cons m b ih =>
    obtain ⟨s', hstore, hcapacity, hunique, hretains⟩ := ih (h.put m)
    obtain ⟨hcapacity', hunique'⟩ := put_settings s m
    refine ⟨s', hstore, hcapacity.trans hcapacity', hunique.trans hunique', ?_⟩
    rw [Store.added_cons, Store.put]
    split at hretains <;> rename_i hv
    · rwa [if_pos hv, List.append_cons]
    · rwa [if_neg hv]

/-- **An operation** leaves in the store the last of the messages that have been added since it was
last emptied. -/
theorem Retains.perform (h : s.Retains accepted) (op : StoreOp) :
    ∃ s', ((Store.memory s).perform op).2 = .memory s' ∧ s'.capacity = s.capacity ∧
      s'.unique = s.unique ∧ s'.Retains ((Store.memory s).outcome accepted op) := by
  cases op with
  | insert m => exact h.insertBatch [m]
  | insertBatch b => exact h.insertBatch b
  | findByPhone | list => exact ⟨s, rfl, rfl, rfl, h⟩
  | deleteAll => exact ⟨_, rfl, rfl, rfl, retains_nil h.positive⟩

end MemoryStore

end SmsRelay
