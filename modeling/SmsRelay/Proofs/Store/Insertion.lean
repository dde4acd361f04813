import Mathlib.Data.List.Induction
import SmsRelay.Store.Basic

/-!
# What becomes of a batch

A store adds some of the messages of a batch and turns the others away: because a message with the
same correlation id has been stored before, or because the message is no message for it, or because
the disk fails. The answer counts those that were added and those that had been stored before.

## Implementation notes

`fates` tells for each message of a batch what the store said to it at its turn, so a message that
repeats the correlation id of an earlier one of its own batch is turned away like any other. `grow`
adds a message and asks nothing.

## Main results

* `Store.counted_insertBatch`: the answer counts what was added and what had been stored before.
* `Store.insertBatch_snd`: what a batch does to a store is to add the messages that `added` lists.
* `Store.id_of_mem_known`: what had been stored before shares its correlation id with a message that
  the store knew or that came earlier in the batch.
-/

namespace SmsRelay

/-- The message was turned away because its correlation id is taken. -/
def Verdict.isDuplicate : Verdict → Bool
  | duplicate _ => true
  | _ => false

/-- The message was accepted, but could not be written. -/
def Verdict.isFailure : Verdict → Bool
  | failed _ => true
  | _ => false

/-- How many messages of a batch count as stored after an answer, and how many as stored before. -/
def StoreError.counted : Except StoreError ℕ → ℕ × ℕ
  | .ok written => (written, 0)
  | .error e => (e.written, e.duplicates)

namespace Tally

/-- The tally of some verdicts. -/
def ofVerdicts (vs : List Verdict) : Tally := vs.foldl count {}

theorem ofVerdicts_concat (vs : List Verdict) (v : Verdict) :
    ofVerdicts (vs ++ [v]) = (ofVerdicts vs).count v := by
  rw [ofVerdicts, List.foldl_append]
  rfl

variable (vs : List Verdict)

theorem written_ofVerdicts : (ofVerdicts vs).written = vs.countP (· = .stored) := by
  induction vs using List.reverseRecOn with
  | nil => rfl
  | append_singleton vs v ih =>
    rw [ofVerdicts_concat, List.countP_append, ← ih, List.countP_singleton]
    simp [count]

theorem duplicates_ofVerdicts : (ofVerdicts vs).duplicates = vs.countP (·.isDuplicate) := by
  induction vs using List.reverseRecOn with
  | nil => rfl
  | append_singleton vs v ih =>
    rw [ofVerdicts_concat, List.countP_append, ← ih, List.countP_singleton]
    cases v <;> simp [count, Verdict.isDuplicate]

theorem anyFailed_ofVerdicts : (ofVerdicts vs).anyFailed = vs.any (·.isFailure) := by
  induction vs using List.reverseRecOn with
  | nil => rfl
  | append_singleton vs v ih =>
    rw [ofVerdicts_concat, List.any_append, ← ih]
    cases v <;> simp [count, Verdict.isFailure]

/-- Without a refusal no message had been stored before. -/
theorem duplicates_of_refusal (h : (ofVerdicts vs).refusal = none) :
    (ofVerdicts vs).duplicates = 0 := by
  induction vs using List.reverseRecOn with
  | nil => rfl
  | append_singleton vs v ih =>
    rw [ofVerdicts_concat] at h ⊢
    obtain ⟨hbefore, hv⟩ := Option.or_eq_none_iff.mp (Option.orElse_eq_or.symm.trans h)
    cases v with
    | stored => exact ih hbefore
    | invalid | duplicate | failed => cases hv

/-- A message is not stored and turned away at once. -/
theorem countP_le_length : vs.countP (· = .stored) + vs.countP (·.isDuplicate) ≤ vs.length := by
  induction vs with
  | nil => exact Nat.le_refl 0
  | cons v vs ih =>
    have hv : (if decide (v = .stored) then 1 else 0) + (if v.isDuplicate then 1 else 0) ≤ 1 := by
      cases v <;> simp [Verdict.isDuplicate]
    rw [List.countP_cons, List.countP_cons, List.length_cons]
    omega

/-- **The answer** counts what was stored, and what had been stored before unless nothing was stored
and writing failed. -/
theorem counted_result : StoreError.counted (ofVerdicts vs).result =
    (vs.countP (· = .stored),
      if vs.countP (· = .stored) = 0 ∧ vs.any (·.isFailure) then 0
      else vs.countP (·.isDuplicate)) := by
  have hwritten := written_ofVerdicts vs
  have hduplicates := duplicates_ofVerdicts vs
  have hfailed := anyFailed_ofVerdicts vs
  rw [result, ← hwritten, ← hduplicates, ← hfailed]
  cases hrefusal : (ofVerdicts vs).refusal with
  | none =>
    have hzero := duplicates_of_refusal vs hrefusal
    simp [StoreError.counted, hzero]
  | some reason =>
    by_cases hfatal : (ofVerdicts vs).written = 0 ∧ (ofVerdicts vs).anyFailed = true
    · simp [StoreError.counted, StoreError.written, StoreError.duplicates, hfatal]
    · simp [StoreError.counted, StoreError.written, StoreError.duplicates, hfatal]

end Tally

/-! ### Messages one by one -/

namespace Store

/-- A message comes to the store. -/
def put : Store → Message → Verdict × Store
  | memory s, m => ((s.put m).1, memory (s.put m).2)
  | files s d, m =>
    ((FileStore.put (s, d) m).1, files (FileStore.put (s, d) m).2.1 (FileStore.put (s, d) m).2.2)

/-- What the store says to the messages of a batch, each at its turn. -/
def fates (s : Store) : List Message → List (Message × Verdict)
  | [] => []
  | m :: rest => (m, (s.put m).1) :: (s.put m).2.fates rest

/-- The messages of a batch that are added. -/
def added (s : Store) (ms : List Message) : List Message :=
  ((s.fates ms).filter (·.2 = .stored)).map Prod.fst

/-- The messages of a batch that are turned away because their correlation ids are taken. -/
def known (s : Store) (ms : List Message) : List Message :=
  ((s.fates ms).filter (·.2.isDuplicate)).map Prod.fst

/-- No message of a batch fails to be written. -/
def Withstands (s : Store) (ms : List Message) : Prop :=
  ∀ fate ∈ s.fates ms, fate.2.isFailure = false

instance (s : Store) (ms : List Message) : Decidable (s.Withstands ms) :=
  inferInstanceAs (Decidable (∀ fate ∈ s.fates ms, fate.2.isFailure = false))

/-- The correlation ids that are taken. -/
def ids : Store → List String
  | memory s => s.ids
  | files s _ => s.ids

/-- Adds a message and asks nothing. -/
def grow : Store → Message → Store
  | memory s, m => memory (s.makeRoom.accept m)
  | files s d, m => files (s.accept m) (d.append (s.path m.phone) (FileStore.line m)).2

variable {s : Store} {m : Message} {ms : List Message}

/-- A batch comes to a store message by message. -/
theorem putEach_eq {σ : Type} (make : σ → Store) (step : σ → Message → Verdict × σ)
    (hstep : ∀ s m, (make s).put m = ((step s m).1, make (step s m).2)) (s : σ)
    (ms : List Message) (t : Tally) :
    (putEach step s ms t).1 = (((make s).fates ms).map Prod.snd).foldl Tally.count t ∧
      make (putEach step s ms t).2 = ms.foldl (fun s m => (s.put m).2) (make s) := by
  induction ms generalizing s t with
  | nil => exact ⟨rfl, rfl⟩
  | cons m rest ih =>
    obtain ⟨htally, hstore⟩ := ih (step s m).2 (t.count (step s m).1)
    rw [putEach, htally, hstore, fates, List.foldl_cons, hstep]
    exact ⟨rfl, rfl⟩

theorem insertBatch_eq (s : Store) (ms : List Message) :
    s.insertBatch ms = ((Tally.ofVerdicts ((s.fates ms).map Prod.snd)).result,
      ms.foldl (fun s m => (s.put m).2) s) := by
  cases s with
  | memory s =>
    obtain ⟨htally, hstore⟩ :=
      putEach_eq memory MemoryStore.put (fun _ _ => rfl) s ms {}
    show ((putEach MemoryStore.put s ms {}).1.result,
      memory (putEach MemoryStore.put s ms {}).2) = _
    rw [htally, hstore]
    rfl
  | files s d =>
    obtain ⟨htally, hstore⟩ :=
      putEach_eq (fun p => files p.1 p.2) FileStore.put (fun _ _ => rfl) (s, d) ms {}
    show ((putEach FileStore.put (s, d) ms {}).1.result, files _ _) = _
    rw [htally, hstore]
    rfl

/-- A batch of one does to the store what its message does. -/
theorem insertBatch_singleton_snd (s : Store) (m : Message) :
    (s.insertBatch [m]).2 = (s.put m).2 := by
  rw [insertBatch_eq]
  rfl

theorem map_fst_fates (s : Store) (ms : List Message) : (s.fates ms).map Prod.fst = ms := by
  induction ms generalizing s with
  | nil => rfl
  | cons m rest ih => rw [fates, List.map_cons, ih]

theorem length_fates (s : Store) (ms : List Message) : (s.fates ms).length = ms.length := by
  rw [← List.length_map Prod.fst, map_fst_fates]

/-- What is added comes from the batch. -/
theorem added_sublist : (s.added ms).Sublist ms := by
  have hsublist := (List.filter_sublist (p := (·.2 = .stored)) (l := s.fates ms)).map Prod.fst
  rwa [map_fst_fates] at hsublist

theorem length_added (s : Store) (ms : List Message) :
    (s.added ms).length = ((s.fates ms).map Prod.snd).countP (· = .stored) := by
  rw [added, List.length_map, List.countP_map, List.countP_eq_length_filter]
  rfl

theorem length_known (s : Store) (ms : List Message) :
    (s.known ms).length = ((s.fates ms).map Prod.snd).countP (·.isDuplicate) := by
  rw [known, List.length_map, List.countP_map, List.countP_eq_length_filter]
  rfl

/-- A message is not both added and turned away. -/
theorem length_added_add_length_known_le (s : Store) (ms : List Message) :
    (s.added ms).length + (s.known ms).length ≤ ms.length := by
  have hle := Tally.countP_le_length ((s.fates ms).map Prod.snd)
  rwa [List.length_map, length_fates, ← length_added, ← length_known] at hle

/-- **The answer** counts what was added. -/
theorem counted_insertBatch (s : Store) (ms : List Message) :
    (StoreError.counted (s.insertBatch ms).1).1 = (s.added ms).length := by
  rw [insertBatch_eq, Tally.counted_result, length_added]

/-- It counts what had been stored before as long as nothing fails to be written. -/
theorem Withstands.counted_insertBatch (h : s.Withstands ms) :
    (StoreError.counted (s.insertBatch ms).1).2 = (s.known ms).length := by
  have hnone : ((s.fates ms).map Prod.snd).any (·.isFailure) = false := by
    refine List.any_eq_false.mpr fun v hv => ?_
    obtain ⟨fate, hfate, rfl⟩ := List.mem_map.mp hv
    rw [h fate hfate]
    exact Bool.false_ne_true
  rw [insertBatch_eq, Tally.counted_result, if_neg (fun hfatal => ?_), length_known]
  rw [hnone] at hfatal
  exact Bool.false_ne_true hfatal.2

/-- It does not count more messages than there are. -/
theorem counted_insertBatch_le (s : Store) (ms : List Message) :
    (StoreError.counted (s.insertBatch ms).1).1 + (StoreError.counted (s.insertBatch ms).1).2
      ≤ ms.length := by
  have hle := s.length_added_add_length_known_le ms
  have hknown : (StoreError.counted (s.insertBatch ms).1).2 ≤ (s.known ms).length := by
    rw [insertBatch_eq, Tally.counted_result, length_known]
    split
    · exact Nat.zero_le _
    · exact Nat.le_refl _
  rw [counted_insertBatch]
  omega

/-! ### What a message does -/

theorem withstands_cons :
    s.Withstands (m :: ms) ↔ (s.put m).1.isFailure = false ∧ (s.put m).2.Withstands ms :=
  List.forall_mem_cons

theorem added_cons (s : Store) (m : Message) (ms : List Message) : s.added (m :: ms) =
    if (s.put m).1 = .stored then m :: (s.put m).2.added ms else (s.put m).2.added ms := by
  rw [added, fates, List.filter_cons]
  by_cases hv : (s.put m).1 = .stored
  · simp [hv, added]
  · simp [hv, added]

theorem known_cons (s : Store) (m : Message) (ms : List Message) : s.known (m :: ms) =
    if (s.put m).1.isDuplicate then m :: (s.put m).2.known ms else (s.put m).2.known ms := by
  rw [known, fates, List.filter_cons]
  cases (s.put m).1.isDuplicate <;> simp [known]

/-- A store in memory does not fail. -/
theorem withstands_memory (s : MemoryStore) (ms : List Message) : (memory s).Withstands ms := by
  induction ms generalizing s with
  | nil => exact fun _ h => absurd h List.not_mem_nil
  | cons m rest ih =>
    refine withstands_cons.mpr ⟨?_, ih _⟩
    show (s.put m).1.isFailure = false
    rw [MemoryStore.put, MemoryStore.verdict]
    split
    · rfl
    · split
      · rfl
      · split <;> rfl

/-- A message that is stored is added, and one that is turned away changes nothing. -/
theorem put_snd (h : (s.put m).1.isFailure = false) :
    (s.put m).2 = if (s.put m).1 = .stored then s.grow m else s := by
  cases s with
  | memory s =>
    show memory (s.put m).2 = if (s.put m).1 = .stored then _ else _
    rw [MemoryStore.put]
    by_cases hv : s.verdict m = .stored
    · rw [if_pos hv, if_pos rfl]
      rfl
    · rw [if_neg hv, if_neg hv]
  | files s d =>
    show files (FileStore.put (s, d) m).2.1 (FileStore.put (s, d) m).2.2
      = if (FileStore.put (s, d) m).1 = .stored then _ else _
    have hfailure : (FileStore.put (s, d) m).1.isFailure = false := h
    rw [FileStore.put] at hfailure ⊢
    by_cases hv : s.verdict m = .stored
    · rw [if_pos hv] at hfailure ⊢
      split at hfailure
      · rename_i d' happend
        rw [if_pos rfl, grow, happend]
      · cases hfailure
    · rw [if_neg hv, if_neg hv]

/-- **What a batch does** to a store that does not fail is to add some of its messages. -/
theorem Withstands.insertBatch_snd (h : s.Withstands ms) :
    (s.insertBatch ms).2 = (s.added ms).foldl grow s := by
  rw [insertBatch_eq]
  show ms.foldl (fun s m => (s.put m).2) s = _
  induction ms generalizing s with
  | nil => rfl
  | cons m rest ih =>
    obtain ⟨hm, hrest⟩ := withstands_cons.mp h
    rw [List.foldl_cons, ih hrest, added_cons, put_snd hm]
    split <;> rfl

theorem put_memory_fst (s : MemoryStore) (m : Message) : (s.put m).1 = s.verdict m := by
  rw [MemoryStore.put]
  split
  · rename_i hv
    exact hv.symm
  · rfl

theorem isDuplicate_put_files {s : FileStore} {d : Disk}
    (h : (FileStore.put (s, d) m).1.isDuplicate) : (s.verdict m).isDuplicate := by
  rw [FileStore.put] at h
  split at h
  · split at h <;> cases h
  · exact h

/-- A message is turned away for its correlation id because that is taken. -/
theorem id_of_isDuplicate (h : (s.put m).1.isDuplicate) :
    m.correlationId ≠ "" ∧ m.correlationId ∈ s.ids := by
  have htaken : ∀ {unique : Bool} {ids : List String} {v : Verdict}, v.isDuplicate = false →
      (if (unique && !m.correlationId.isEmpty) && ids.contains m.correlationId then
        .duplicate ("duplicate correlationId '" ++ m.correlationId ++ "'") else v).isDuplicate →
      m.correlationId ≠ "" ∧ m.correlationId ∈ ids := by
    intro unique ids v hv hduplicate
    split at hduplicate
    · rename_i hid
      simpa using And.imp_left And.right (by simpa using hid)
    · rw [hv] at hduplicate
      cases hduplicate
  cases s with
  | memory s =>
    have hv : (s.verdict m).isDuplicate := put_memory_fst s m ▸ h
    rw [MemoryStore.verdict] at hv
    split at hv
    · cases hv
    · exact htaken rfl hv
  | files s d =>
    have hv := isDuplicate_put_files h
    rw [FileStore.verdict] at hv
    split at hv
    · cases hv
    · exact htaken rfl hv

theorem ids_makeRoom_accept (s : MemoryStore) (m : Message) :
    ∀ id ∈ (s.makeRoom.accept m).ids, id ∈ s.ids ∨ id = m.correlationId := by
  have hroom : ∀ id ∈ s.makeRoom.ids, id ∈ s.ids := by
    intro id hid
    rw [MemoryStore.makeRoom] at hid
    split at hid
    · exact hid
    · split at hid
      · exact hid
      · exact (List.mem_filter.mp hid).1
  intro id hid
  rw [MemoryStore.accept] at hid
  split at hid
  · exact (List.mem_cons.mp hid).symm.imp_left (hroom id)
  · exact .inl (hroom id hid)

theorem ids_accept (s : FileStore) (m : Message) :
    ∀ id ∈ (s.accept m).ids, id ∈ s.ids ∨ id = m.correlationId := by
  intro id hid
  rw [FileStore.accept] at hid
  split at hid
  · exact (List.mem_cons.mp hid).symm
  · exact .inl hid

/-- Only what is added takes a correlation id. -/
theorem ids_put (s : Store) (m : Message) : ∀ id ∈ (s.put m).2.ids,
    id ∈ s.ids ∨ (s.put m).1 = .stored ∧ id = m.correlationId := by
  intro id hid
  cases s with
  | memory s =>
    have hid : id ∈ (s.put m).2.ids := hid
    show id ∈ s.ids ∨ (s.put m).1 = .stored ∧ id = m.correlationId
    rw [MemoryStore.put] at hid ⊢
    split at hid
    · rw [if_pos ‹_›]
      exact (ids_makeRoom_accept s m id hid).imp_right fun heq => ⟨rfl, heq⟩
    · exact .inl hid
  | files s d =>
    have hid : id ∈ (FileStore.put (s, d) m).2.1.ids := hid
    show id ∈ s.ids ∨ (FileStore.put (s, d) m).1 = .stored ∧ id = m.correlationId
    rw [FileStore.put] at hid ⊢
    split at hid
    · rw [if_pos ‹_›]
      split at hid
      · exact (ids_accept s m id hid).imp_right fun heq => ⟨rfl, heq⟩
      · exact .inl hid
    · exact .inl hid

/-- **What had been stored before** shares its correlation id with a message that the store knew or
that came in the same batch and was added. -/
theorem id_of_mem_known (s : Store) {ms : List Message} {x : Message} (hx : x ∈ s.known ms) :
    x.correlationId ≠ "" ∧
      (x.correlationId ∈ s.ids ∨ x.correlationId ∈ (s.added ms).map (·.correlationId)) := by
  induction ms generalizing s with
  | nil => cases hx
  | cons m rest ih =>
    rw [known_cons] at hx
    have hrest : x ∈ (s.put m).2.known rest → x.correlationId ≠ "" ∧ (x.correlationId ∈ s.ids ∨
        x.correlationId ∈ (s.added (m :: rest)).map (·.correlationId)) := by
      intro hx
      obtain ⟨hne, hid⟩ := ih _ hx
      refine ⟨hne, ?_⟩
      rw [added_cons]
      rcases hid with hid | hid
      · rcases s.ids_put m _ hid with hid | ⟨hstored, heq⟩
        · exact .inl hid
        · right
          rw [if_pos hstored, heq]
          exact List.mem_cons_self
      · right
        split
        · exact List.mem_cons_of_mem _ hid
        · exact hid
    split at hx
    · rename_i hduplicate
      rcases List.mem_cons.mp hx with rfl | hx
      · exact (id_of_isDuplicate hduplicate).imp_right .inl
      · exact hrest hx
    · exact hrest hx

end Store

end SmsRelay
