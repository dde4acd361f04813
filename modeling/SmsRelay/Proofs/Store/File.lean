import SmsRelay.Proofs.Store.Filing

/-!
# What a store in files holds

A store in files that keeps correlation ids unique and whose disk does not fail collects the
messages that come to it: a message is added to its file, and one whose correlation id is taken
changes nothing.

## Main results

* `Holds.list`: all messages are listed.
* `Holds.insertBatch`: what becomes of a batch.
-/

namespace SmsRelay

namespace FileStore

/-! ### The store -/

/-- The store keeps correlation ids unique and holds the messages. -/
structure Holds (s : FileStore) (d : Disk) (ms : List Message) : Prop where
  unique : s.unique
  ids : Taken s.ids ms
  faultless : d.faults = []
  filed : ∃ p, d.IsDirectory s.directory p ∧ Filed d p ms
  accepted : ∀ m ∈ ms, s.Accepts m.phone
  created : ∀ m ∈ ms, m.createdAt.isValid

theorem Holds.carries {s : FileStore} {d : Disk} {ms : List Message} (h : s.Holds d ms) :
    s.Carries d ms :=
  ⟨fun _ => h.ids, h.filed, h.accepted, h.created⟩

/-- A store over an empty directory. -/
theorem holds_nil {s : FileStore} {d : Disk} (hunique : s.unique) (hids : s.ids = [])
    (hfaults : d.faults = []) {names : List String} (hnames : d.names s.directory = .ok names)
    (hnone : ∀ name ∈ names, ¬ isKeyFile name) : s.Holds d [] := by
  obtain ⟨p, hp, rfl⟩ := Disk.names_eq_ok_iff.mp hnames
  exact ⟨hunique, hids ▸ taken_nil, hfaults, ⟨p, hp, filed_nil hnone⟩, nofun, nofun⟩

/-- **All messages are listed.** -/
theorem Holds.list {s : FileStore} {d : Disk} {ms : List Message} (h : s.Holds d ms) :
    ∃ l, s.list d = .ok l ∧ l.Perm ms := by
  obtain ⟨l, hlist, hperm, -⟩ := h.carries.list
  exact ⟨l, hlist, hperm⟩

/-! ### Storing -/

theorem isTracked_iff {s : FileStore} (hunique : s.unique) {m : Message} :
    s.isTracked m ↔ m.correlationId ≠ "" := by
  simp [isTracked, hunique]

/-- The store refuses a message only if its id is taken. -/
theorem Holds.verdict_iff {s : FileStore} {d : Disk} {ms : List Message} (h : s.Holds d ms)
    {m : Message} (haccepts : s.Accepts m.phone) (hid : m.correlationId ≠ "") :
    s.verdict m = .stored ↔ m.correlationId ∉ ms.map (·.correlationId) := by
  have htracked : s.isTracked m = true := (isTracked_iff h.unique).mpr hid
  have hids := h.ids m.correlationId
  rw [verdict, haccepts.key, htracked]
  simp only [Bool.not_true, Bool.false_eq_true, if_false, Bool.true_and, List.contains_iff_mem]
  split
  · rename_i htaken
    refine ⟨fun hstored => ?_, fun hfree => (hfree (hids.mp htaken).2).elim⟩
    cases hstored
  · rename_i hfree
    exact ⟨fun _ htaken => hfree (hids.mpr ⟨hid, htaken⟩), fun _ => rfl⟩

/-- **A message whose id is taken** changes nothing. -/
theorem Holds.put_taken {s : FileStore} {d : Disk} {ms : List Message} (h : s.Holds d ms)
    {m : Message} (haccepts : s.Accepts m.phone) (hid : m.correlationId ≠ "")
    (htaken : m.correlationId ∈ ms.map (·.correlationId)) : (put (s, d) m).2 = (s, d) := by
  have hverdict : s.verdict m ≠ .stored := fun hstored =>
    (h.verdict_iff haccepts hid).mp hstored htaken
  rw [put, if_neg hverdict]

/-- **A message whose id is free** is stored. -/
theorem Holds.put_free {s : FileStore} {d : Disk} {ms : List Message} (h : s.Holds d ms)
    {m : Message} (haccepts : s.Accepts m.phone) (hcreated : m.createdAt.isValid)
    (hid : m.correlationId ≠ "") (hfree : m.correlationId ∉ ms.map (·.correlationId)) :
    ∃ d', put (s, d) m = (.stored, s.accept m, d') ∧ (s.accept m).Holds d' (ms ++ [m]) := by
  obtain ⟨p, hp, hfiled⟩ := h.filed
  have hresolve := hp.resolve_join haccepts.fits
  have hholds := hfiled.holds (isKeyFile_of_isKey haccepts.key)
  have hcarries := h.carries.accept haccepts.key hcreated hresolve hholds
  have hunique : (s.accept m).unique := (unique_accept s m).trans h.unique
  have hverdict := (h.verdict_iff haccepts hid).mpr hfree
  have happend := Disk.append_eq h.faultless hresolve hholds (line m)
  refine ⟨d.put (p ++ [m.phone ++ suffix]) _, ?_, hunique, hcarries.ids hunique, h.faultless,
    hcarries.filed, hcarries.accepted, hcarries.created⟩
  rw [put, if_pos hverdict, path, happend]

/-- **A message** is collected. -/
theorem Holds.put {s : FileStore} {d : Disk} {ms : List Message} (h : s.Holds d ms)
    {m : Message} (haccepts : s.Accepts m.phone) (hcreated : m.createdAt.isValid)
    (hid : m.correlationId ≠ "") : (put (s, d) m).2.1.Holds (put (s, d) m).2.2 (collect ms m) ∧
      (put (s, d) m).2.1.directory = s.directory := by
  by_cases htaken : m.correlationId ∈ ms.map (·.correlationId)
  · rw [h.put_taken haccepts hid htaken, collect_taken htaken]
    exact ⟨h, rfl⟩
  · obtain ⟨d', hput, hholds⟩ := h.put_free haccepts hcreated hid htaken
    rw [hput, collect_free htaken]
    exact ⟨hholds, directory_accept s m⟩

/-- **A batch** is collected. -/
theorem Holds.insertBatch {s : FileStore} {d : Disk} {ms b : List Message} (h : s.Holds d ms)
    (haccepts : ∀ m ∈ b, s.Accepts m.phone) (hcreated : ∀ m ∈ b, m.createdAt.isValid)
    (hid : ∀ m ∈ b, m.correlationId ≠ "") :
    (s.insertBatch d b).2.1.Holds (s.insertBatch d b).2.2 (b.foldl collect ms) ∧
      (s.insertBatch d b).2.1.directory = s.directory := by
  refine putEach_collect FileStore.put (fun p ms => p.1.Holds p.2 ms ∧
    p.1.directory = s.directory) ?_ (s := (s, d)) ⟨h, rfl⟩ (Nat.le_refl _) {}
  rintro m hm ⟨s', d'⟩ ms' ⟨hholds, hdirectory⟩ -
  have hput := hholds.put ((haccepts m hm).of_directory hdirectory) (hcreated m hm) (hid m hm)
  exact hput.imp_right fun heq => heq.trans hdirectory

end FileStore

end SmsRelay
