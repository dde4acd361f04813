import SmsRelay.Proofs.Store.Operation

/-!
# Stores in memory and in files agree

A store in memory and a store in files that are asked for the same things give the same answers, as
long as both can take the phone numbers, nothing fails to be written and there is room in memory.
Only the order of a list may differ: files are listed in the order of creation.

## Implementation notes

The room that a batch needs is known when it is through. Since a batch only adds, there has been
room for each of its messages then.

## Main results

* `Mirror.perform`: an answer of both stores.
* `FileStore.Vacant.answers_agree`: all answers of two new stores.
-/

namespace SmsRelay

/-- Answers that differ at most in the order of a list, which is the order of creation on the right
side. -/
inductive StoreAnswer.Agrees : StoreAnswer → StoreAnswer → Prop
  | inserted (r : Except StoreError Unit) : Agrees (inserted r) (inserted r)
  | counted (r : Except StoreError ℕ) : Agrees (counted r) (counted r)
  | found (r : Except StoreError (List Message)) : Agrees (found r) (found r)
  | listed {l l' : List Message} (perm : l'.Perm l)
      (sorted : l'.Pairwise fun a b => a.createdAt.le b.createdAt) :
      Agrees (listed (.ok l)) (listed (.ok l'))
  | removed (r : Except StoreError ℕ) : Agrees (removed r) (removed r)

namespace Store

/-- The number of messages in the store. -/
def size : Store → ℕ
  | memory s => s.messages.length
  | files s d =>
    match FileStore.readAll d (s.keyFiles d) with
    | .ok l => l.length
    | .error _ => 0

/-- The store never holds more than `n` messages. -/
def Within (n : ℕ) (s : Store) : List StoreOp → Prop
  | [] => s.size ≤ n
  | op :: ops => s.size ≤ n ∧ (s.perform op).2.Within n ops

/-- No message fails to be written. -/
def Unharmed (s : Store) : List StoreOp → Prop
  | [] => True
  | op :: ops => s.Withstands op.messages ∧ (s.perform op).2.Unharmed ops

instance decidableWithin (n : ℕ) : (s : Store) → (ops : List StoreOp) → Decidable (s.Within n ops)
  | s, [] => inferInstanceAs (Decidable (s.size ≤ n))
  | s, op :: ops => @instDecidableAnd _ _ _ (decidableWithin n (s.perform op).2 ops)

instance decidableUnharmed : (s : Store) → (ops : List StoreOp) → Decidable (s.Unharmed ops)
  | _, [] => instDecidableTrue
  | s, op :: ops => @instDecidableAnd _ _ _ (decidableUnharmed (s.perform op).2 ops)

theorem Within.size_le {n : ℕ} {s : Store} {ops : List StoreOp} (h : s.Within n ops) :
    s.size ≤ n := by
  cases ops with
  | nil => exact h
  | cons op ops => exact h.1

/-- A store in memory for `n` messages that holds what the files of the other store carry. -/
inductive Mirror (n : ℕ) : Store → Store → Prop
  | mk {m : MemoryStore} {s : FileStore} {d : Disk} (capacity : m.capacity = n)
      (unique : m.unique = s.unique) (ids : m.unique → Taken m.ids m.messages)
      (carries : s.Carries d m.messages) : Mirror n (memory m) (files s d)

end Store

theorem FileStore.put_fst {s : FileStore} {d : Disk} {x : Message}
    (h : (put (s, d) x).1.isFailure = false) : (put (s, d) x).1 = s.verdict x := by
  rw [put] at h ⊢
  split at h
  · rename_i hstored
    rw [if_pos hstored, hstored]
    split at h
    · rfl
    · cases h
  · rename_i hrefused
    rw [if_neg hrefused]

namespace MemoryStore

variable {m : MemoryStore} {x : Message}

/-- Both stores say the same to a message that both can take. -/
theorem verdict_eq {s : FileStore} (hunique : m.unique = s.unique)
    (hids : m.unique → ∀ id, id ∈ m.ids ↔ id ∈ s.ids) (hkey : FileStore.isKey x.phone) :
    m.verdict x = s.verdict x := by
  have hphone : x.phone.isEmpty = false := by
    simpa using (FileStore.isKey_iff.mp hkey).1
  have htracked : s.isTracked x = m.isTracked x := by
    rw [FileStore.isTracked, MemoryStore.isTracked, hunique]
  have htaken : (m.isTracked x && m.ids.contains x.correlationId) =
      (m.isTracked x && s.ids.contains x.correlationId) :=
    contains_congr (fun htracked => hids (Bool.and_eq_true_iff.mp htracked).1) _
  rw [verdict, FileStore.verdict, hphone, hkey, htracked, htaken]
  rfl

end MemoryStore

namespace Store

variable {n : ℕ} {s t : Store}

theorem size_of_carries {s : FileStore} {d : Disk} {ms : List Message} (h : s.Carries d ms) :
    (files s d).size = ms.length := by
  obtain ⟨l, hread, hperm⟩ := h.readAll
  rw [size, hread]
  exact hperm.length_eq

theorem Mirror.size_put (h : Mirror n s t) {x : Message} (hcreated : x.createdAt.isValid) :
    (t.put x).2.size = t.size + if (t.put x).1 = .stored then 1 else 0 := by
  obtain @⟨m, s, d, -, -, -, hcarries⟩ := h
  rw [size_of_carries hcarries, Store.put, size_of_carries (hcarries.put hcreated)]
  split <;> simp

/-- **A message** meets with the same fate if there is room for it. -/
theorem Mirror.put (h : Mirror n s t) {x : Message} (hkey : FileStore.isKey x.phone)
    (hcreated : x.createdAt.isValid) (hwritten : (t.put x).1.isFailure = false)
    (hroom : (t.put x).1 = .stored → t.size < n) :
    (s.put x).1 = (t.put x).1 ∧ Mirror n (s.put x).2 (t.put x).2 := by
  obtain @⟨m, s, d, hcapacity, hunique, hids, hcarries⟩ := h
  rw [size_of_carries hcarries] at hroom
  have hverdict : m.verdict x = s.verdict x := by
    refine MemoryStore.verdict_eq hunique (fun hm id => ?_) hkey
    exact (hids hm id).trans (hcarries.ids (hunique ▸ hm) id).symm
  have hafter := hcarries.put hcreated
  obtain ⟨-, hunique'⟩ := FileStore.put_settings s d x
  have hfate : (FileStore.put (s, d) x).1 = s.verdict x := FileStore.put_fst hwritten
  show (m.put x).1 = (FileStore.put (s, d) x).1 ∧ Mirror n (memory (m.put x).2)
    (files (FileStore.put (s, d) x).2.1 (FileStore.put (s, d) x).2.2)
  by_cases hstored : m.verdict x = .stored
  · have hfits : m.messages.length < m.capacity := by
      rw [hcapacity]
      exact hroom (hfate.trans (hverdict.symm.trans hstored))
    rw [hfate, if_pos (hverdict.symm.trans hstored)] at hafter
    rw [MemoryStore.put, if_pos hstored, MemoryStore.makeRoom, if_pos hfits]
    refine ⟨(hfate.trans (hverdict.symm.trans hstored)).symm, .mk hcapacity ?_ ?_ hafter⟩
    · exact hunique.trans hunique'.symm
    · intro hm
      have hrecord := (hids hm).record x
      rw [MemoryStore.accept, MemoryStore.isTracked, show m.unique = true from hm, Bool.true_and]
      exact hrecord
  · rw [hfate, if_neg (hverdict ▸ hstored)] at hafter
    rw [MemoryStore.put, if_neg hstored]
    exact ⟨hverdict.trans hfate.symm, .mk hcapacity (hunique.trans hunique'.symm) hids hafter⟩

/-- Two stores before some messages that both can take and for which there is room. -/
structure Room (n : ℕ) (b : List Message) (s t : Store) : Prop where
  mirror : Mirror n s t
  key : ∀ x ∈ b, FileStore.isKey x.phone
  created : ∀ x ∈ b, x.createdAt.isValid
  written : t.Withstands b
  room : t.size + (t.added b).length ≤ n

/-- There is room for each of the messages. -/
theorem Room.put {x : Message} {b : List Message} (h : Room n (x :: b) s t) :
    (s.put x).1 = (t.put x).1 ∧ Room n b (s.put x).2 (t.put x).2 := by
  obtain ⟨hkey, hkeys⟩ := List.forall_mem_cons.mp h.key
  obtain ⟨hcreated, hcreateds⟩ := List.forall_mem_cons.mp h.created
  obtain ⟨hfirst, hrest⟩ := withstands_cons.mp h.written
  have hroom := h.room
  have hsize := h.mirror.size_put hcreated
  rw [added_cons] at hroom
  by_cases hstored : (t.put x).1 = .stored
  · rw [if_pos hstored, List.length_cons] at hroom
    rw [if_pos hstored] at hsize
    have hfits : t.size < n := by omega
    obtain ⟨hverdict, hmirror⟩ := h.mirror.put hkey hcreated hfirst fun _ => hfits
    exact ⟨hverdict, hmirror, hkeys, hcreateds, hrest, by omega⟩
  · rw [if_neg hstored] at hroom hsize
    obtain ⟨hverdict, hmirror⟩ := h.mirror.put hkey hcreated hfirst fun h => absurd h hstored
    exact ⟨hverdict, hmirror, hkeys, hcreateds, hrest, by omega⟩

/-- **A batch** gets the same answer. -/
theorem Room.insertBatch {b : List Message} (h : Room n b s t) :
    (s.insertBatch b).1 = (t.insertBatch b).1 ∧
      Mirror n (s.insertBatch b).2 (t.insertBatch b).2 :=
  (insertBatch_agree (fun _ _ _ _ hroom => hroom.put) h).imp_right Room.mirror

/-- **Both stores** give the same answer, but for the order of a list. -/
theorem Mirror.perform (h : Mirror n s t) {op : StoreOp}
    (hkey : ∀ x ∈ op.messages, FileStore.isKey x.phone)
    (hcreated : ∀ x ∈ op.messages, x.createdAt.isValid) (hwritten : t.Withstands op.messages)
    (hroom : (t.perform op).2.size ≤ n) :
    (s.perform op).1.Agrees (t.perform op).1 ∧ Mirror n (s.perform op).2 (t.perform op).2 := by
  -- a batch takes the room that it takes in files
  have hbatch : ∀ b : List Message, (t.insertBatch b).2.size ≤ n →
      (∀ x ∈ b, FileStore.isKey x.phone) → (∀ x ∈ b, x.createdAt.isValid) → t.Withstands b →
      Room n b s t := by
    intro b hsize hkey hcreated hwritten
    refine ⟨h, hkey, hcreated, hwritten, ?_⟩
    obtain @⟨m, s, d, -, -, -, hcarries⟩ := h
    obtain ⟨s', d', hstore, hcarries', -⟩ := hcarries.insertBatch hcreated
    rw [hstore, size_of_carries hcarries', List.length_append] at hsize
    rwa [size_of_carries hcarries]
  cases op with
  | insert x =>
    obtain ⟨hanswer, hmirror⟩ := (hbatch [x] hroom hkey hcreated hwritten).insertBatch
    refine ⟨?_, hmirror⟩
    rw [perform_insert, perform_insert, hanswer]
    exact .inserted _
  | insertBatch b =>
    obtain ⟨hanswer, hmirror⟩ := (hbatch b hroom hkey hcreated hwritten).insertBatch
    refine ⟨?_, hmirror⟩
    rw [Store.perform, Store.perform, hanswer]
    exact .counted _
  | findByPhone phone =>
    obtain @⟨m, s, d, hcapacity, hunique, hids, hcarries⟩ := h
    refine ⟨?_, .mk hcapacity hunique hids hcarries⟩
    rw [Store.perform, Store.perform, Store.findByPhone, Store.findByPhone, hcarries.findByPhone]
    exact .found _
  | list =>
    obtain @⟨m, s, d, hcapacity, hunique, hids, hcarries⟩ := h
    obtain ⟨l, hlist, hperm, hsorted⟩ := hcarries.list
    refine ⟨?_, .mk hcapacity hunique hids hcarries⟩
    rw [Store.perform, Store.perform, Store.list, Store.list, hlist]
    exact .listed hperm hsorted
  | deleteAll =>
    obtain @⟨m, s, d, hcapacity, hunique, hids, hcarries⟩ := h
    obtain ⟨d', hdelete, hcarries'⟩ := hcarries.deleteAll
    rw [Store.perform, Store.perform, Store.deleteAll, Store.deleteAll, hdelete]
    exact ⟨.removed _, .mk hcapacity hunique (fun _ => taken_nil) hcarries'⟩

/-- **All answers** agree. -/
theorem Mirror.answers (h : Mirror n s t) {ops : List StoreOp}
    (hkey : ∀ op ∈ ops, ∀ x ∈ op.messages, FileStore.isKey x.phone)
    (hcreated : ∀ op ∈ ops, ∀ x ∈ op.messages, x.createdAt.isValid)
    (hwritten : t.Unharmed ops) (hroom : t.Within n ops) :
    List.Forall₂ StoreAnswer.Agrees (s.answers ops) (t.answers ops) := by
  induction ops generalizing s t with
  | nil => exact .nil
  | cons op ops ih =>
    obtain ⟨hkey, hkeys⟩ := List.forall_mem_cons.mp hkey
    obtain ⟨hcreated, hcreateds⟩ := List.forall_mem_cons.mp hcreated
    obtain ⟨hanswer, hmirror⟩ := h.perform hkey hcreated hwritten.1 hroom.2.size_le
    exact .cons hanswer (ih hmirror hkeys hcreateds hwritten.2 hroom.2)

end Store

/-- **Stores in memory and in files are interchangeable.** -/
theorem FileStore.Vacant.answers_agree {s : FileStore} {d : Disk} (h : s.Vacant d) {capacity : ℕ}
    {ops : List StoreOp} (hkey : ∀ op ∈ ops, ∀ x ∈ op.messages, isKey x.phone)
    (hcreated : ∀ op ∈ ops, ∀ x ∈ op.messages, x.createdAt.isValid)
    (hwritten : (Store.files s d).load.2.Unharmed ops)
    (hroom : (Store.files s d).load.2.Within (MemoryStore.create capacity s.unique).capacity ops) :
    List.Forall₂ StoreAnswer.Agrees
      ((Store.memory (.create capacity s.unique)).load.2.answers ops)
      ((Store.files s d).load.2.answers ops) :=
  Store.Mirror.answers
    (.mk rfl (load_settings s d).2.symm (fun _ => taken_nil) h.carries) hkey hcreated hwritten hroom

/-- Room for two messages: the batch repeats an id, and the later message is the older one. -/
theorem FileStore.answers_agree_full :
    let late : Message := { Message.blank with
      correlationId := "a", phone := "+7", createdAt := ⟨60, 0⟩ }
    let early : Message := { Message.blank with phone := "+7", text := "\n" }
    let ops : List StoreOp := [.insertBatch [late, late, early], .list, .deleteAll, .insert late]
    FileStore.Vacant ⟨"data", true, []⟩ .blank ∧
      (Store.files ⟨"data", true, []⟩ .blank).load.2.Unharmed ops ∧
      (Store.files ⟨"data", true, []⟩ .blank).load.2.Within 2 ops ∧
      List.Forall₂ StoreAnswer.Agrees ((Store.memory (.create 2 true)).load.2.answers ops)
        ((Store.files ⟨"data", true, []⟩ .blank).load.2.answers ops) := by
  intro late early ops
  have hvacant : FileStore.Vacant ⟨"data", true, []⟩ .blank :=
    ⟨by decide +kernel, [], by decide +kernel, fun _ h => absurd h List.not_mem_nil⟩
  have hwritten : (Store.files ⟨"data", true, []⟩ .blank).load.2.Unharmed ops := by
    decide +kernel
  have hroom : (Store.files ⟨"data", true, []⟩ .blank).load.2.Within 2 ops := by
    decide +kernel
  exact ⟨hvacant, hwritten, hroom,
    hvacant.answers_agree (by decide +kernel) (by decide +kernel) hwritten hroom⟩

end SmsRelay
