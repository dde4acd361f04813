import Mathlib.Data.List.Nodup
import SmsRelay.Message.Basic
import SmsRelay.Store.Tally

/-!
# What is stored of a batch

A store that keeps correlation ids unique takes, of the messages that come to it, the first with
each correlation id.

## Main results

* `putEach_collect`: what each message keeps true of the store, a batch keeps true.
* `exists_mem_foldl_collect`: each correlation id of a batch is taken in the end.
* `nodup_foldl_collect`: no correlation id is taken twice.
-/

namespace SmsRelay

/-- What is stored after a further message has come. -/
def collect (ms : List Message) (m : Message) : List Message :=
  if m.correlationId ∈ ms.map (·.correlationId) then ms else ms ++ [m]

theorem collect_taken {ms : List Message} {m : Message}
    (h : m.correlationId ∈ ms.map (·.correlationId)) : collect ms m = ms :=
  if_pos h

theorem collect_free {ms : List Message} {m : Message}
    (h : m.correlationId ∉ ms.map (·.correlationId)) : collect ms m = ms ++ [m] :=
  if_neg h

theorem mem_collect_of_mem {ms : List Message} {x : Message} (m : Message) (h : x ∈ ms) :
    x ∈ collect ms m := by
  rw [collect]
  split
  · exact h
  · exact List.mem_append_left _ h

theorem mem_or_eq_of_mem_collect {ms : List Message} {m x : Message} (h : x ∈ collect ms m) :
    x ∈ ms ∨ x = m := by
  rw [collect] at h
  split at h
  · exact .inl h
  · exact (List.mem_append.mp h).imp_right List.mem_singleton.mp

theorem id_mem_collect (ms : List Message) (m : Message) :
    m.correlationId ∈ (collect ms m).map (·.correlationId) := by
  rw [collect]
  split
  · assumption
  · simp

theorem nodup_collect {ms : List Message} (h : (ms.map (·.correlationId)).Nodup) (m : Message) :
    ((collect ms m).map (·.correlationId)).Nodup := by
  rw [collect]
  split
  · exact h
  · rename_i hfree
    rw [List.map_append, List.map_singleton, ← List.concat_eq_append]
    exact h.concat hfree

theorem length_le_collect (ms : List Message) (m : Message) :
    ms.length ≤ (collect ms m).length := by
  rw [collect]
  split
  · exact Nat.le_refl _
  · simp

/-- The ids that are taken are those of the messages, but for the empty one. -/
def Taken (ids : List String) (ms : List Message) : Prop :=
  ∀ id, id ∈ ids ↔ id ≠ "" ∧ id ∈ ms.map (·.correlationId)

theorem taken_nil : Taken [] [] := fun id => by simp

/-- A further id is taken. -/
theorem Taken.append {ids : List String} {ms : List Message} (h : Taken ids ms) {m : Message}
    (hid : m.correlationId ≠ "") : Taken (m.correlationId :: ids) (ms ++ [m]) := by
  intro id
  rw [List.mem_cons, h id, List.map_append, List.mem_append, List.map_singleton,
    List.mem_singleton]
  constructor
  · rintro (rfl | ⟨hne, hin⟩)
    · exact ⟨hid, .inr rfl⟩
    · exact ⟨hne, .inl hin⟩
  · rintro ⟨hne, hin | rfl⟩
    · exact .inr ⟨hne, hin⟩
    · exact .inl rfl

/-- A message without an id takes none. -/
theorem Taken.append_empty {ids : List String} {ms : List Message} (h : Taken ids ms) {m : Message}
    (hid : m.correlationId = "") : Taken ids (ms ++ [m]) := by
  intro id
  rw [h id, List.map_append, List.mem_append, List.map_singleton, List.mem_singleton, hid]
  exact and_congr_right fun hne => (or_iff_left hne).symm

/-- A message takes its id, if it has one. -/
theorem Taken.record {ids : List String} {ms : List Message} (h : Taken ids ms) (m : Message) :
    Taken (if !m.correlationId.isEmpty then m.correlationId :: ids else ids) (ms ++ [m]) := by
  by_cases hid : m.correlationId = ""
  · rw [hid]
    exact h.append_empty hid
  · rw [if_pos (by simpa using hid)]
    exact h.append hid

/-- Ids that are taken alike turn a message away alike. -/
theorem contains_congr {ids ids' : List String} {tracked : Bool}
    (h : tracked → ∀ id, id ∈ ids ↔ id ∈ ids') (id : String) :
    (tracked && ids.contains id) = (tracked && ids'.contains id) := by
  cases tracked with
  | false => rfl
  | true =>
    rw [Bool.eq_iff_iff]
    simpa using h rfl id

/-! ### Batches -/

theorem mem_foldl_collect_of_mem {ms : List Message} {x : Message} (b : List Message) (h : x ∈ ms) :
    x ∈ b.foldl collect ms := by
  induction b generalizing ms with
  | nil => exact h
  | cons m b ih => exact ih (mem_collect_of_mem m h)

theorem mem_or_mem_of_mem_foldl_collect {ms b : List Message} {x : Message}
    (h : x ∈ b.foldl collect ms) : x ∈ ms ∨ x ∈ b := by
  induction b generalizing ms with
  | nil => exact .inl h
  | cons m b ih =>
    rcases ih h with h | h
    · exact (mem_or_eq_of_mem_collect h).imp_right fun heq => by
        rw [heq]
        exact List.mem_cons_self
    · exact .inr (List.mem_cons_of_mem m h)

/-- **Each id of a batch is taken** in the end. -/
theorem exists_mem_foldl_collect {ms b : List Message} {x : Message} (h : x ∈ b) :
    ∃ y ∈ b.foldl collect ms, y.correlationId = x.correlationId := by
  induction b generalizing ms with
  | nil => cases h
  | cons m b ih =>
    rcases List.mem_cons.mp h with rfl | h
    · obtain ⟨y, hy, heq⟩ := List.mem_map.mp (id_mem_collect ms x)
      exact ⟨y, mem_foldl_collect_of_mem b hy, heq⟩
    · exact ih h

/-- **No id is taken twice.** -/
theorem nodup_foldl_collect {ms : List Message} (h : (ms.map (·.correlationId)).Nodup)
    (b : List Message) : ((b.foldl collect ms).map (·.correlationId)).Nodup := by
  induction b generalizing ms with
  | nil => exact h
  | cons m b ih => exact ih (nodup_collect h m)

theorem length_le_foldl_collect (ms b : List Message) :
    ms.length ≤ (b.foldl collect ms).length := by
  induction b generalizing ms with
  | nil => exact Nat.le_refl _
  | cons m b ih => exact Nat.le_trans (length_le_collect ms m) (ih _)

/-- **A batch** keeps what each of its messages keeps, as long as there is room for `n` messages. -/
theorem putEach_collect {σ : Type} (put : σ → Message → Verdict × σ) (R : σ → List Message → Prop)
    {n : ℕ} {b : List Message}
    (hput : ∀ m ∈ b, ∀ s ms, R s ms → (collect ms m).length ≤ n → R (put s m).2 (collect ms m))
    {s : σ} {ms : List Message} (h : R s ms) (hroom : (b.foldl collect ms).length ≤ n) (t : Tally) :
    R (putEach put s b t).2 (b.foldl collect ms) := by
  induction b generalizing s ms t with
  | nil => exact h
  | cons m b ih =>
    have hfirst := Nat.le_trans (length_le_foldl_collect (collect ms m) b) hroom
    exact ih (fun k hk => hput k (List.mem_cons_of_mem m hk))
      (hput m List.mem_cons_self s ms h hfirst) hroom _

end SmsRelay
