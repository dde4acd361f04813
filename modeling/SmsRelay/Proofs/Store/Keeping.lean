import SmsRelay.Proofs.Store.Eviction

/-!
# What stores keep

A store keeps the messages that it has accepted since it was last emptied, or the last of them if it
has room for no more. What is asked of it is answered from these messages.

## Main results

* `Keeps.insertBatch`, `Keeps.deleteAll`: what is kept after a change.
* `Keeps.list`, `Keeps.findByPhone`: what the store answers.
* `unchanged_of_refused`: a message that is refused changes none of this.
-/

namespace SmsRelay

/-- What has gone makes no difference to the last messages. -/
theorem rtake_rtake_append {n : ℕ} (ms more : List Message) :
    (ms.rtake n ++ more).rtake n = (ms ++ more).rtake n := by
  simp only [List.rtake_eq_reverse_take_reverse, List.reverse_append, List.reverse_reverse,
    List.take_append, List.take_take, Nat.min_eq_left (Nat.sub_le _ _)]

/-- A message is among the last ones if not too many have come after it. -/
theorem mem_rtake_append_cons {n : ℕ} {ms more : List Message} (m : Message)
    (h : more.length < n) : m ∈ (ms ++ m :: more).rtake n := by
  rw [List.rtake, List.drop_append_of_le_length]
  · exact List.mem_append_right _ List.mem_cons_self
  · rw [List.length_append, List.length_cons]
    omega

/-! ### Faults to come -/

section Faults

variable (d : Disk) (faults : List (Option DiskError))

/-- What is to come on the disk leads nowhere else. -/
theorem Disk.walk_faults (p : Place) (names : List String) :
    { d with faults := faults }.walk p names = d.walk p names := by
  induction names generalizing p with
  | nil => rfl
  | cons name rest ih =>
    simp only [Disk.walk, ih]
    rfl

theorem Disk.resolve_faults (path : String) :
    { d with faults := faults }.resolve path = d.resolve path := by
  rw [Disk.resolve, Disk.resolve, Disk.walk_faults]
  rfl

theorem Disk.find_faults (path : String) :
    { d with faults := faults }.find path = d.find path := by
  rw [Disk.find, Disk.find, Disk.resolve_faults]
  rfl

namespace FileStore

theorem readFile_faults (path : String) :
    readFile { d with faults := faults } path = readFile d path := by
  rw [readFile, readFile, Disk.find_faults]

theorem readAll_faults (paths : List String) :
    readAll { d with faults := faults } paths = readAll d paths := by
  induction paths with
  | nil => rfl
  | cons path paths ih => rw [readAll, readAll, readFile_faults, ih]

/-- **What is to come on the disk** is not seen by those who list. -/
theorem list_faults (s : FileStore) : s.list { d with faults := faults } = s.list d := by
  have hnames : { d with faults := faults }.names s.directory = d.names s.directory := by
    rw [Disk.names, Disk.names, Disk.resolve_faults]
    rfl
  rw [FileStore.list, FileStore.list, readAll_faults, keyFiles, keyFiles, hnames]

/-- **What is to come on the disk** is not seen by those who look for a phone number. -/
theorem findByPhone_faults (s : FileStore) (phone : String) :
    s.findByPhone { d with faults := faults } phone = s.findByPhone d phone := by
  rw [FileStore.findByPhone, FileStore.findByPhone, readFile_faults, Disk.isPresent, Disk.isPresent,
    Disk.find_faults]

end FileStore

end Faults

/-! ### What is kept -/

namespace Store

/-- How many messages the store has room for, if there is a bound. -/
def room? : Store → Option ℕ
  | memory s => some s.capacity
  | files _ _ => none

/-- The last messages, as many as the store has room for. -/
def latest (s : Store) (ms : List Message) : List Message := s.room?.elim ms ms.rtake

/-- Of the messages `ms` the store keeps the last, as many as it has room for. -/
def Keeps : Store → List Message → Prop
  | memory s, ms => s.Retains ms
  | files s d, ms => s.Carries d ms

/-- A new store; one in files has found none in its directory. -/
inductive New : Store → Prop
  | memory (capacity : ℕ) (unique : Bool) : New (.memory (.create capacity unique))
  | files {s : FileStore} {d : Disk} (vacant : s.Vacant d) : New (Store.files s d).load.2

theorem New.keeps {s : Store} (h : s.New) : s.Keeps [] := by
  cases h with
  | memory capacity unique => exact MemoryStore.retains_create capacity unique
  | files vacant => exact vacant.carries

variable {s : Store} {ms : List Message}

/-! ### Answers -/

/-- **All messages are listed.** -/
theorem Keeps.list (h : s.Keeps ms) : ∃ l, s.list = .ok l ∧ l.Perm (s.latest ms) := by
  cases s with
  | memory s =>
    have hretains : s.Retains ms := h
    exact ⟨s.messages, rfl, .of_eq hretains.keeps.messages⟩
  | files s d =>
    have hcarries : s.Carries d ms := h
    obtain ⟨l, hlist, hperm, -⟩ := hcarries.list
    exact ⟨l, hlist, hperm⟩

/-- What has been listed and one more message are what is kept when this message has come. -/
theorem Keeps.latest_concat (h : s.Keeps ms) {l : List Message} (hl : s.list = .ok l)
    (m : Message) : (s.latest (l ++ [m])).Perm (s.latest (ms ++ [m])) := by
  obtain ⟨l', hl', hperm⟩ := h.list
  obtain rfl := Except.ok.inj (hl.symm.trans hl')
  cases s with
  | memory s =>
    have hretains : s.Retains ms := h
    obtain rfl := Except.ok.inj hl
    rw [hretains.keeps.messages]
    exact .of_eq (rtake_rtake_append ms [m])
  | files s d => exact hperm.append_right [m]

/-- **The messages of a phone number are found.** -/
theorem Keeps.findByPhone (h : s.Keeps ms) (phone : String) :
    s.findByPhone phone = .ok ((s.latest ms).filter (·.phone = phone)) := by
  cases s with
  | memory s =>
    have hretains : s.Retains ms := h
    rw [Store.findByPhone, MemoryStore.findByPhone, hretains.keeps.messages]
    rfl
  | files s d =>
    have hcarries : s.Carries d ms := h
    exact hcarries.findByPhone phone

/-! ### Changes -/

theorem latest_congr {s' : Store} (h : s'.room? = s.room?) (ms : List Message) :
    s'.latest ms = s.latest ms := by
  rw [latest, latest, h]

@[simp] theorem latest_nil (s : Store) : s.latest [] = [] := by
  cases s with
  | memory s => exact List.rtake_nil s.capacity
  | files s d => rfl

/-- A message is kept as long as there is room for those that have come after it. -/
theorem mem_latest {m : Message} {more : List Message}
    (h : ∀ n, s.room? = some n → more.length < n) : m ∈ s.latest (ms ++ m :: more) := by
  cases s with
  | memory s => exact mem_rtake_append_cons m (h s.capacity rfl)
  | files s d => exact List.mem_append_right _ List.mem_cons_self

/-- **A batch** is added, as far as it is stored. -/
theorem Keeps.insertBatch (h : s.Keeps ms) {b : List Message}
    (hcreated : ∀ m ∈ b, m.createdAt.isValid) :
    (s.insertBatch b).2.Keeps (ms ++ s.added b) ∧ (s.insertBatch b).2.room? = s.room? := by
  cases s with
  | memory s =>
    have hretains : s.Retains ms := h
    obtain ⟨s', hs', hcapacity, -, hretains'⟩ := hretains.insertBatch b
    rw [hs']
    exact ⟨hretains', congrArg some hcapacity⟩
  | files s d =>
    have hcarries : s.Carries d ms := h
    obtain ⟨s', d', hs', hcarries', -⟩ := hcarries.insertBatch hcreated
    rw [hs']
    exact ⟨hcarries', rfl⟩

/-- **All messages are removed**, and counted. -/
theorem Keeps.deleteAll (h : s.Keeps ms) :
    s.deleteAll.1 = .ok (s.latest ms).length ∧ s.deleteAll.2.Keeps [] := by
  cases s with
  | memory s =>
    have hretains : s.Retains ms := h
    refine ⟨?_, MemoryStore.retains_nil hretains.positive⟩
    show Except.ok s.messages.length = _
    rw [hretains.keeps.messages]
    rfl
  | files s d =>
    have hcarries : s.Carries d ms := h
    obtain ⟨d', hdelete, hcarries'⟩ := hcarries.deleteAll
    rw [Store.deleteAll, hdelete]
    exact ⟨rfl, hcarries'⟩

/-! ### A single message -/

/-- A batch of one succeeds if its message is stored. -/
theorem insertBatch_singleton (s : Store) (m : Message) :
    s.added [m] = (if (s.put m).1 = .stored then [m] else []) ∧
      ((∃ n, (s.insertBatch [m]).1 = .ok n) ↔ (s.put m).1 = .stored) := by
  refine ⟨by rw [added_cons]; rfl, ?_⟩
  rw [insertBatch_eq, fates, fates]
  show (∃ n, (Tally.ofVerdicts [(s.put m).1]).result = .ok n) ↔ _
  cases (s.put m).1 with
  | stored => exact iff_of_true ⟨1, rfl⟩ rfl
  | invalid | duplicate | failed => exact iff_of_false (by rintro ⟨n, hn⟩; cases hn) (by simp)

/-- **A message that is refused** changes nothing of what is kept. -/
theorem unchanged_of_refused {m : Message} (h : (s.put m).1 ≠ .stored) :
    (s.put m).2.list = s.list ∧ ∀ phone, (s.put m).2.findByPhone phone = s.findByPhone phone := by
  cases s with
  | memory s =>
    have hsame : (s.put m).2 = s := by
      have hverdict : s.verdict m ≠ .stored := fun hstored =>
        h ((put_memory_fst s m).trans hstored)
      rw [MemoryStore.put, if_neg hverdict]
    rw [put, hsame]
    exact ⟨rfl, fun _ => rfl⟩
  | files s d =>
    rcases FileStore.put_cases s d m with ⟨-, faults, hput⟩ | ⟨-, q, content, -, -, hput⟩
    · rw [put, hput]
      exact ⟨FileStore.list_faults d faults s, FileStore.findByPhone_faults d faults s⟩
    · rw [put, hput] at h
      exact (h rfl).elim

end Store

end SmsRelay
