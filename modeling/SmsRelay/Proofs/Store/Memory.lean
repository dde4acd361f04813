import Mathlib.Data.Nat.Notation
import SmsRelay.Proofs.Store.Tally
import SmsRelay.Store.Memory

/-!
# What a store in memory holds

A store in memory collects the messages that come to it as long as there is room for them.

## Main results

* `Holds.insertBatch`: what becomes of a batch.
-/

namespace SmsRelay

namespace MemoryStore

/-- The store keeps correlation ids unique, has room for `n` messages and holds the messages. -/
structure Holds (s : MemoryStore) (n : ℕ) (ms : List Message) : Prop where
  unique : s.unique
  room : n ≤ s.capacity
  messages : s.messages = ms
  ids : Taken s.ids ms

/-- A new store. -/
theorem holds_create {n capacity : ℕ} (h : n ≤ capacity) : (create capacity true).Holds n [] where
  unique := rfl
  room := Nat.le_trans h (Nat.le_max_left capacity 1)
  messages := rfl
  ids := taken_nil

variable {s : MemoryStore} {n : ℕ} {ms : List Message}

theorem Holds.isTracked (h : s.Holds n ms) {m : Message} (hid : m.correlationId ≠ "") :
    s.isTracked m := by
  simp [MemoryStore.isTracked, h.unique, hid]

/-- The store refuses a message only if its id is taken. -/
theorem Holds.verdict_iff (h : s.Holds n ms) {m : Message} (hphone : m.phone ≠ "")
    (hid : m.correlationId ≠ "") :
    s.verdict m = .stored ↔ m.correlationId ∉ ms.map (·.correlationId) := by
  have hids := h.ids m.correlationId
  have hempty : m.phone.isEmpty = false := by simpa using hphone
  rw [verdict, hempty, h.isTracked hid]
  simp only [Bool.false_eq_true, if_false, Bool.true_and, List.contains_iff_mem]
  split
  · rename_i htaken
    exact ⟨nofun, fun hfree => (hfree (hids.mp htaken).2).elim⟩
  · rename_i hfree
    exact ⟨fun _ htaken => hfree (hids.mpr ⟨hid, htaken⟩), fun _ => rfl⟩

/-- **A message** is collected. -/
theorem Holds.put (h : s.Holds n ms) {m : Message} (hphone : m.phone ≠ "")
    (hid : m.correlationId ≠ "") (hroom : (collect ms m).length ≤ n) :
    (s.put m).2.Holds n (collect ms m) := by
  have hverdict := h.verdict_iff hphone hid
  by_cases htaken : m.correlationId ∈ ms.map (·.correlationId)
  · rw [MemoryStore.put, if_neg fun hstored => hverdict.mp hstored htaken, collect_taken htaken]
    exact h
  · rw [collect_free htaken, List.length_append, List.length_singleton] at hroom
    have hfits : s.messages.length < s.capacity := by
      rw [h.messages]
      exact Nat.lt_of_lt_of_le hroom h.room
    rw [MemoryStore.put, if_pos (hverdict.mpr htaken), makeRoom, if_pos hfits, collect_free htaken,
      accept, if_pos (h.isTracked hid)]
    exact ⟨h.unique, h.room, congrArg (· ++ [m]) h.messages, h.ids.append hid⟩

/-- **A batch** is collected. -/
theorem Holds.insertBatch (h : s.Holds n ms) {b : List Message} (hphone : ∀ m ∈ b, m.phone ≠ "")
    (hid : ∀ m ∈ b, m.correlationId ≠ "") (hroom : (b.foldl collect ms).length ≤ n) :
    (s.insertBatch b).2.Holds n (b.foldl collect ms) :=
  putEach_collect MemoryStore.put (fun s ms => s.Holds n ms)
    (fun m hm _ _ hholds hroom => hholds.put (hphone m hm) (hid m hm) hroom) h hroom {}

end MemoryStore

end SmsRelay
