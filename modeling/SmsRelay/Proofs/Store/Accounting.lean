import SmsRelay.Proofs.Batch.Conservation
import SmsRelay.Proofs.Store.Acceptance
import SmsRelay.Proofs.Store.Growth

/-!
# What is reported of a batch when writing fails

A store in files answers for a batch of which some messages are no messages for it, some have been
stored before, some cannot be written and the others are written. The answer is to tell how many
were written and how many had been stored before, and what is neither is lost.

It does so with one exception. When nothing was written and writing failed, the answer names the
failure alone, and the messages that had been stored before count as lost.

## Implementation notes

`Serving` leaves the disk open at each step, so anything may happen to it in between: files may come
and go, and any choice of the coming additions may fail.

## Main results

* `exists_written`: what a batch does to the files and to the index.
* `verdict_spec`: what the store says to a message.
* `Serving.reported_iff`: what a batch does to a store in use, and exactly which batches are
  accounted for.
-/

namespace SmsRelay

namespace Store

/-- The messages of a batch that cannot be written. -/
def failed (s : Store) (ms : List Message) : List Message :=
  ((s.fates ms).filter (·.2.isFailure)).map Prod.fst

/-- The messages of a batch that are not stored: neither now nor before. -/
def missed (s : Store) (ms : List Message) : List Message :=
  ((s.fates ms).filter fun fate => fate.2 ≠ .stored ∧ ¬ fate.2.isDuplicate).map Prod.fst

variable {s : Store} {m : Message} {ms : List Message}

theorem missed_cons (s : Store) (m : Message) (ms : List Message) : s.missed (m :: ms) =
    if (s.put m).1 ≠ .stored ∧ ¬ (s.put m).1.isDuplicate then m :: (s.put m).2.missed ms
    else (s.put m).2.missed ms := by
  rw [missed, fates, List.filter_cons]
  split <;> simp_all [missed]

/-- Each message of a batch is stored now, or was stored before, or is not stored. -/
theorem length_added_known_missed (s : Store) (ms : List Message) :
    (s.added ms).length + (s.known ms).length + (s.missed ms).length = ms.length := by
  induction ms generalizing s with
  | nil => rfl
  | cons m ms ih =>
    have hrest := ih (s.put m).2
    rw [added_cons, known_cons, missed_cons, List.length_cons]
    cases (s.put m).1 <;> simp [Verdict.isDuplicate] <;> omega

theorem mem_failed : m ∈ s.failed ms ↔ ∃ v, (m, v) ∈ s.fates ms ∧ v.isFailure := by
  simp [failed]

/-- **What the store says to a message** it says after the messages before it. -/
theorem fates_getElem? {i : ℕ} {v : Verdict} (h : (s.fates ms)[i]? = some (m, v)) :
    ((s.insertBatch (ms.take i)).2.put m).1 = v := by
  rw [insertBatch_eq]
  induction ms generalizing s i with
  | nil => cases h
  | cons n ms ih =>
    cases i with
    | zero =>
      cases h
      rfl
    | succ i => exact ih h

/-- A batch that succeeds is stored. -/
theorem added_of_ok {n : ℕ} (h : (s.insertBatch ms).1 = .ok n) :
    n = ms.length ∧ s.added ms = ms := by
  rw [insertBatch_eq, Tally.result_eq_ok_iff] at h
  rcases Tally.refusal_ofVerdicts ((s.fates ms).map Prod.snd) with
    ⟨hstored, -⟩ | ⟨_, _, _, _, -, -, -, hsome⟩
  · have hadded : s.added ms = ms := by
      rw [added, List.filter_eq_self.mpr fun fate hfate =>
        decide_eq_true (hstored _ (List.mem_map_of_mem hfate)), map_fst_fates]
    refine ⟨?_, hadded⟩
    rw [← h.2, Tally.written_ofVerdicts, ← length_added, hadded]
  · cases h.1.symm.trans hsome

end Store

namespace FileStore

/-! ### What a batch does -/

/-- The lines of some messages have been added to their files, one after the other, and nothing else
has changed but what the coming additions run into. -/
inductive Written (directory : String) : Disk → List Message → Disk → Prop
  | nil (d : Disk) (faults : List (Option DiskError)) :
      Written directory d [] { d with faults := faults }
  | cons {d d' : Disk} {m : Message} {ms : List Message} {q : Place} {content : Bytes}
      (faults : List (Option DiskError))
      (place : d.resolve (Disk.join directory (fileName m)) = .ok q) (held : d.Holds q content)
      (rest : Written directory
        (({ d with faults := faults } : Disk).put q (.file (content ++ line m))) ms d') :
      Written directory d (m :: ms) d'

variable {s : FileStore} {d : Disk} {m : Message} {b held : List Message}

theorem Written.of_faults {directory : String} {d' : Disk} {faults : List (Option DiskError)}
    {ms : List Message} (h : Written directory { d with faults := faults } ms d') :
    Written directory d ms d' := by
  cases h with
  | nil => exact .nil d _
  | cons faults place held rest =>
    refine .cons faults (Disk.resolve_mono ?_ ?_ place) held rest
    · rfl
    · exact fun _ hq => hq

/-- A message with the same id is stored, as far as the store knows. -/
def Knows (s : FileStore) (m : Message) : Prop :=
  s.unique ∧ m.correlationId ≠ "" ∧ m.correlationId ∈ s.ids

/-- The id of a message that is written is taken, if ids are unique and it has one. -/
theorem mem_ids_accept {id : String} : id ∈ (s.accept m).ids ↔
    id ∈ s.ids ∨ s.unique ∧ id ≠ "" ∧ id = m.correlationId := by
  rw [accept, isTracked]
  by_cases hid : m.correlationId = ""
  · simp [hid]
  · cases s.unique with
    | false => simp
    | true =>
      simp [hid]
      grind

/-- **What a batch does**: the messages that are added are written to their files, and their ids are
taken. -/
theorem exists_written (s : FileStore) (d : Disk) (b : List Message) :
    ∃ s' d', ((Store.files s d).insertBatch b).2 = .files s' d' ∧ s'.unique = s.unique ∧
      (∀ id, id ∈ s'.ids ↔ id ∈ s.ids ∨
        s.unique ∧ id ≠ "" ∧ id ∈ ((Store.files s d).added b).map (·.correlationId)) ∧
      Written s.directory d ((Store.files s d).added b) d' := by
  rw [Store.insertBatch_eq]
  induction b generalizing s d with
  | nil => exact ⟨s, d, rfl, rfl, fun id => by simp [Store.added, Store.fates], .nil d d.faults⟩
  | cons m b ih =>
    rw [List.foldl_cons, Store.added_cons, Store.put]
    rcases put_cases s d m with ⟨hnot, faults, hput⟩ | ⟨hkey, q, content, hresolve, hholds, hput⟩
    · rw [hput, if_neg hnot]
      obtain ⟨s', d', hstore, hunique, hids, hrest⟩ := ih s { d with faults := faults }
      exact ⟨s', d', hstore, hunique, hids, hrest.of_faults⟩
    · rw [hput, if_pos rfl]
      obtain ⟨s', d', hstore, hunique, hids, hrest⟩ := ih (s.accept m)
        (({ d with faults := d.faults.tail } : Disk).put q (.file (content ++ line m)))
      rw [unique_accept] at hunique hids
      rw [directory_accept] at hrest
      refine ⟨s', d', hstore, hunique, fun id => ?_, .cons _ hresolve hholds hrest⟩
      rw [hids, mem_ids_accept, List.map_cons, List.mem_cons, or_assoc]
      refine or_congr_right ?_
      rw [← and_or_left, ← and_or_left]

/-- **The turn of a message** of a batch: the ids of the messages before it are taken. -/
theorem exists_before {i : ℕ} {v : Verdict} (h : ((Store.files s d).fates b)[i]? = some (m, v)) :
    ∃ t d', (FileStore.put (t, d') m).1 = v ∧ t.unique = s.unique ∧
      ∀ id, id ∈ t.ids ↔ id ∈ s.ids ∨ s.unique ∧ id ≠ "" ∧
        id ∈ ((Store.files s d).added (b.take i)).map (·.correlationId) := by
  obtain ⟨t, d', ht, hunique, hids, -⟩ := exists_written s d (b.take i)
  have hsaid := Store.fates_getElem? h
  rw [ht] at hsaid
  exact ⟨t, d', hsaid, hunique, hids⟩

/-- What the store says to a message: its phone number comes first, its id second. -/
theorem verdict_spec (s : FileStore) (m : Message) :
    (¬ isKey m.phone ∧ ∃ reason, s.verdict m = .invalid reason) ∨
      isKey m.phone ∧ ((s.Knows m ∧ ∃ reason, s.verdict m = .duplicate reason) ∨
        (¬ s.Knows m ∧ s.verdict m = .stored)) := by
  have hknows : (s.isTracked m && s.ids.contains m.correlationId) = true ↔ s.Knows m := by
    simp [isTracked, Knows, and_assoc]
  rw [verdict]
  cases hkey : isKey m.phone with
  | false => exact .inl ⟨Bool.false_ne_true, _, if_pos rfl⟩
  | true =>
    rw [if_neg (by simp)]
    refine .inr ⟨rfl, ?_⟩
    split
    · exact .inl ⟨hknows.mp ‹_›, _, rfl⟩
    · exact .inr ⟨mt hknows.mpr ‹_›, rfl⟩

theorem verdict_eq_stored_iff : s.verdict m = .stored ↔ isKey m.phone ∧ ¬ s.Knows m := by
  rcases s.verdict_spec m with
    ⟨hkey, reason, hsaid⟩ | ⟨hkey, ⟨hknown, reason, hsaid⟩ | ⟨hnew, hsaid⟩⟩
  · simp [hsaid, hkey]
  · simp [hsaid, hknown]
  · simp [hsaid, hkey, hnew]

/-- A message that the store takes may fail to be written; besides, it stays with what was said. -/
theorem put_verdict (s : FileStore) (d : Disk) (m : Message) :
    (FileStore.put (s, d) m).1 = s.verdict m ∨
      s.verdict m = .stored ∧ ∃ reason, (FileStore.put (s, d) m).1 = .failed reason := by
  rw [FileStore.put]
  split
  · rename_i hstored
    split
    · exact .inl hstored.symm
    · exact .inr ⟨hstored, _, rfl⟩
  · exact .inl rfl

/-- A message is turned away as stored before exactly if its id is taken. -/
theorem isDuplicate_put_iff :
    (FileStore.put (s, d) m).1.isDuplicate ↔ isKey m.phone ∧ s.Knows m := by
  rcases put_verdict s d m with hput | ⟨hstored, reason, hput⟩
  · rw [hput]
    rcases s.verdict_spec m with
      ⟨hkey, reason, hsaid⟩ | ⟨hkey, ⟨hknown, reason, hsaid⟩ | ⟨hnew, hsaid⟩⟩
    · simp [hsaid, hkey, Verdict.isDuplicate]
    · simp [hsaid, hkey, hknown, Verdict.isDuplicate]
    · simp [hsaid, hnew, Verdict.isDuplicate]
  · simp [hput, (verdict_eq_stored_iff.mp hstored).2, Verdict.isDuplicate]

/-- It is refused for its form exactly if its phone number cannot name a file. -/
theorem isInvalid_put_iff : (FileStore.put (s, d) m).1.isInvalid ↔ ¬ isKey m.phone := by
  rcases put_verdict s d m with hput | ⟨hstored, reason, hput⟩
  · rw [hput]
    rcases s.verdict_spec m with
      ⟨hkey, reason, hsaid⟩ | ⟨hkey, ⟨hknown, reason, hsaid⟩ | ⟨hnew, hsaid⟩⟩
    · simp [hsaid, hkey, Verdict.isInvalid]
    · simp [hsaid, hkey, Verdict.isInvalid]
    · simp [hsaid, hkey, Verdict.isInvalid]
  · simp [hput, (verdict_eq_stored_iff.mp hstored).1, Verdict.isInvalid]

/-- What fails to be written was not refused. -/
theorem verdict_of_isFailure (h : (FileStore.put (s, d) m).1.isFailure) :
    s.verdict m = .stored := by
  rcases put_verdict s d m with hput | ⟨hstored, -⟩
  · rw [hput] at h
    rcases s.verdict_spec m with ⟨-, reason, hsaid⟩ | ⟨-, ⟨-, reason, hsaid⟩ | ⟨-, hsaid⟩⟩
    · rw [hsaid] at h
      cases h
    · rw [hsaid] at h
      cases h
    · exact hsaid
  · exact hstored

/-! ### A store in use -/

/-- The store has been opened, and these are the messages that it has found or added since it was
last emptied. -/
inductive Serving : FileStore → List Message → Prop
  | load {s : FileStore} {d : Disk} {held : List Message} (loaded : (s.load d).1 = .ok ())
      (found : readAll (s.load d).2.2 (s.keyFiles (s.load d).2.2) = .ok held) :
      Serving (s.load d).2.1 held
  | insertBatch {s : FileStore} {held : List Message} (h : Serving s held) (d : Disk)
      (b : List Message) : Serving (s.insertBatch d b).2.1 (held ++ (Store.files s d).added b)
  | deleteAll {s : FileStore} {held : List Message} {n : ℕ} (h : Serving s held) (d : Disk)
      (emptied : (s.deleteAll d).1 = .ok n) : Serving (s.deleteAll d).2.1 []

theorem deleteAll_ok {n : ℕ} (h : (s.deleteAll d).1 = .ok n) :
    (s.deleteAll d).2.1 = { s with ids := [] } := by
  rw [deleteAll] at h ⊢
  split at h
  · rfl
  · cases h

/-- **The index** of a store in use: the ids of the messages that it has found or added. -/
theorem Serving.taken (h : Serving s held) : s.unique → Taken s.ids held := by
  induction h with
  | load loaded found =>
    obtain ⟨l, hread, hids⟩ := read_of_load loaded
    cases hread.symm.trans found
    intro _
    rw [hids]
    exact taken_idsOf (.refl _)
  | @insertBatch s held h d b ih =>
    obtain ⟨s', d', hstore, hunique, hids, -⟩ := exists_written s d b
    obtain rfl : (s.insertBatch d b).2.1 = s' := (Store.files.inj hstore).1
    intro huse id
    rw [hunique] at huse
    rw [hids, ih huse id, List.map_append, List.mem_append]
    tauto
  | deleteAll h d emptied ih =>
    intro _
    rw [deleteAll_ok emptied]
    exact taken_nil

/-- What a batch does to a store in use, whatever fails. -/
structure Ledger (s : FileStore) (held : List Message) (d : Disk) (b : List Message) : Prop where
  /-- What is written goes to the files, and what fails leaves nothing there. -/
  written : Written s.directory d ((Store.files s d).added b) (s.insertBatch d b).2.2
  /-- A message is refused for its phone number or for an id that is stored, be it from before or
  from earlier in the batch. -/
  ruled : ∀ (i : ℕ) (m : Message) (v : Verdict), ((Store.files s d).fates b)[i]? = some (m, v) →
    (v.isInvalid ↔ ¬ isKey m.phone) ∧ (v.isDuplicate ↔
      isKey m.phone ∧ s.unique ∧ m.correlationId ≠ "" ∧ m.correlationId ∈
        (held ++ (Store.files s d).added (b.take i)).map (·.correlationId))
  /-- An id whose message could not be written is free, unless another message brought it. -/
  released : ∀ m ∈ (Store.files s d).failed b,
    m.correlationId ∉ ((Store.files s d).added b).map (·.correlationId) →
      (s.unique → m.correlationId ∉ (s.insertBatch d b).2.1.ids) ∧
      ∀ again : Message, isKey again.phone → again.correlationId = m.correlationId →
        (s.insertBatch d b).2.1.verdict again = .stored

/-- The answer about a batch and the counters tell what has become of it. -/
structure Accounted (s : FileStore) (d : Disk) (b : List Message) : Prop where
  complete : ∀ n, (s.insertBatch d b).1 = .ok n →
    n = b.length ∧ (Store.files s d).added b = b
  written : ∀ e, (s.insertBatch d b).1 = .error e →
    e.written = ((Store.files s d).added b).length
  duplicates : ∀ e, (s.insertBatch d b).1 = .error e →
    e.duplicates = ((Store.files s d).known b).length
  /-- The flush that has passed the batch on counts as lost what is not stored. -/
  lost : ∀ (κ : Type) (a : Accumulator κ) (o : Outlet) (c : StoreCall), c.mode = .through →
    c.batch = b → o.link.store = .files s d → (a.endFlush o c).outlet.metrics.lost =
      o.metrics.lost + ((Store.files s d).missed b).length

/-- Nothing of a batch is written, writing fails, and some of it had been stored before. -/
def Overshadowed (s : FileStore) (d : Disk) (b : List Message) : Prop :=
  (Store.files s d).added b = [] ∧ (Store.files s d).failed b ≠ [] ∧ (Store.files s d).known b ≠ []

/-- **What the answer counts.** -/
theorem counted_insertBatch (s : FileStore) (d : Disk) (b : List Message) :
    StoreError.counted (s.insertBatch d b).1 = (((Store.files s d).added b).length,
      if (Store.files s d).added b = [] ∧ (Store.files s d).failed b ≠ [] then 0
      else ((Store.files s d).known b).length) := by
  have hfailed : ((Store.files s d).fates b |>.map Prod.snd).any (·.isFailure) = true ↔
      (Store.files s d).failed b ≠ [] := by
    simp [Store.failed]
  show StoreError.counted ((Store.files s d).insertBatch b).1 = _
  rw [Store.insertBatch_eq, Tally.counted_result, ← Store.length_added, ← Store.length_known]
  simp only [List.length_eq_zero_iff, hfailed]

/-- The counters of a flush that has passed a batch on. -/
theorem lost_endFlush {κ : Type} (a : Accumulator κ) {o : Outlet} {c : StoreCall}
    (hmode : c.mode = .through) (hbatch : c.batch = b) (hstore : o.link.store = .files s d) :
    (a.endFlush o c).outlet.metrics.lost = o.metrics.lost + (b.length -
      (StoreError.counted (s.insertBatch d b).1).1 -
        (StoreError.counted (s.insertBatch d b).1).2) := by
  have hanswer : (o.link.answer c).1 = (s.insertBatch d b).1 := by
    rw [StoreLink.answer, hmode, hbatch, hstore]
    rfl
  rw [Accumulator.endFlush_eq, hanswer, hbatch]
  rfl

/-- **A batch is accounted for** unless a failure overshadows what had been stored before. -/
theorem accounted_iff (s : FileStore) (d : Disk) (b : List Message) :
    s.Accounted d b ↔ ¬ s.Overshadowed d b := by
  have hcounted := counted_insertBatch s d b
  have htotal := (Store.files s d).length_added_known_missed b
  constructor
  · rintro h ⟨hadded, hfailed, hknown⟩
    have hpos := List.length_pos_iff.mpr hknown
    rw [if_pos ⟨hadded, hfailed⟩] at hcounted
    cases hanswer : (s.insertBatch d b).1 with
    | ok n =>
      obtain ⟨-, hall⟩ := h.complete n hanswer
      rw [hadded] at hall
      subst hall
      exact hknown rfl
    | error e =>
      have hduplicates := h.duplicates e hanswer
      rw [hanswer] at hcounted
      have hzero : e.duplicates = 0 := congrArg Prod.snd hcounted
      omega
  · intro h
    have hsecond : (StoreError.counted (s.insertBatch d b).1).2
        = ((Store.files s d).known b).length := by
      rw [hcounted]
      split
      · rename_i hfailure
        have hnone : (Store.files s d).known b = [] := by
          by_contra hknown
          exact h ⟨hfailure.1, hfailure.2, hknown⟩
        rw [hnone]
        rfl
      · rfl
    have hfirst : (StoreError.counted (s.insertBatch d b).1).1
        = ((Store.files s d).added b).length := by rw [hcounted]
    refine ⟨fun n hn => Store.added_of_ok hn, fun e he => ?_, fun e he => ?_,
      fun κ a o c hmode hbatch hstore => ?_⟩
    · rwa [he] at hfirst
    · rwa [he] at hsecond
    · rw [lost_endFlush a hmode hbatch hstore]
      omega

/-- **What a batch does** to a store in use. -/
theorem Serving.ledger (h : s.Serving held) (d : Disk) (b : List Message) :
    s.Ledger held d b := by
  obtain ⟨s', d', hstore, hunique, hids, hwritten⟩ := exists_written s d b
  obtain ⟨rfl, rfl⟩ : (s.insertBatch d b).2.1 = s' ∧ (s.insertBatch d b).2.2 = d' :=
    Store.files.inj hstore
  refine ⟨hwritten, fun i m v hfate => ?_, fun m hfailed hother => ?_⟩
  · obtain ⟨t, d₁, rfl, hunique₁, hids₁⟩ := exists_before hfate
    refine ⟨isInvalid_put_iff, ?_⟩
    rw [isDuplicate_put_iff, Knows, hunique₁, hids₁, List.map_append, List.mem_append]
    refine and_congr_right fun _ => and_congr_right fun huse => and_congr_right fun hne => ?_
    rw [h.taken huse m.correlationId]
    exact or_congr (and_iff_right hne) ⟨fun hin => hin.2.2, fun hin => ⟨huse, hne, hin⟩⟩
  · obtain ⟨v, hfate, hv⟩ := Store.mem_failed.mp hfailed
    obtain ⟨i, hi⟩ := List.mem_iff_getElem?.mp hfate
    obtain ⟨t, d₁, rfl, hunique₁, hids₁⟩ := exists_before hi
    -- the id was free at its turn, and nobody has taken it since
    obtain ⟨-, hfree⟩ := verdict_eq_stored_iff.mp (verdict_of_isFailure hv)
    have hfree' : s.unique → m.correlationId ∉ (s.insertBatch d b).2.1.ids := by
      intro huse hin
      rcases (hids _).mp hin with hin | ⟨-, -, hin⟩
      · refine hfree ⟨hunique₁ ▸ huse, ?_, (hids₁ _).mpr (.inl hin)⟩
        exact ((h.taken huse _).mp hin).1
      · exact hother hin
    refine ⟨hfree', fun again hkey hid => verdict_eq_stored_iff.mpr ⟨hkey, ?_⟩⟩
    rintro ⟨huse, -, hin⟩
    exact hfree' (hunique ▸ huse) (hid ▸ hin)

/-- **What is reported of a batch.** Whatever a store in use is given and whichever additions fail,
the files and the index hold what was written and nothing else; and the answer and the counters tell
it exactly unless nothing was written, writing failed, and some messages had been stored before. -/
theorem Serving.reported_iff (h : s.Serving held) (d : Disk) (b : List Message) :
    s.Ledger held d b ∧ (s.Accounted d b ↔ ¬ s.Overshadowed d b) :=
  ⟨h.ledger d b, accounted_iff s d b⟩

namespace Sample

/-- A message that is stored. -/
def first : Message := { Message.blank with correlationId := "a", phone := "1" }

/-- A message to another phone number. -/
def second : Message := { Message.blank with correlationId := "b", phone := "2" }

/-- A store that has been opened on an empty directory and has stored the message. -/
theorem serving_first : Serving ⟨"data", true, ["a"]⟩ [first] := by
  have hload : Serving (FileStore.load ⟨"data", true, []⟩ .blank).2.1 [] :=
    .load (by decide +kernel) (by decide +kernel)
  have hinsert := hload.insertBatch (FileStore.load ⟨"data", true, []⟩ .blank).2.2 [first]
  have hstore : ((FileStore.load ⟨"data", true, []⟩ .blank).2.1.insertBatch
      (FileStore.load ⟨"data", true, []⟩ .blank).2.2 [first]).2.1 = ⟨"data", true, ["a"]⟩ := by
    decide +kernel
  have hadded : (Store.files (FileStore.load ⟨"data", true, []⟩ .blank).2.1
      (FileStore.load ⟨"data", true, []⟩ .blank).2.2).added [first] = [first] := by
    decide +kernel
  rwa [hstore, hadded] at hinsert

/-- The disk on which the message is stored. A directory has taken the place of a file. -/
def obstructed : Disk where
  home := ["home"]
  entries := [(["home"], .directory), (["home", "data"], .directory),
    (["home", "data", "1.jsonl"], .file (line first)), (["home", "data", "2.jsonl"], .directory)]

end Sample

/-- A batch of which messages are refused for their form, had been stored before, fail to be
written and are written, in any order. -/
theorem reported_mixed :
    let s : FileStore := ⟨"data", true, ["a"]⟩
    let retry : Message := { Sample.second with phone := "3" }
    let b : List Message := [Sample.second, { Sample.second with phone := "../etc" }, Sample.first,
      retry, Sample.second]
    s.Serving [Sample.first] ∧ (s.insertBatch Sample.obstructed b).1 =
        .error (.partly 1 5 2 "index 0: Is a directory (os error 21)") ∧
      s.Ledger [Sample.first] Sample.obstructed b ∧ s.Accounted Sample.obstructed b := by
  intro s retry b
  have hreported := Sample.serving_first.reported_iff Sample.obstructed b
  refine ⟨Sample.serving_first, by decide +kernel, hreported.1, hreported.2.mpr fun h => ?_⟩
  have hadded : (Store.files s Sample.obstructed).added b = [retry] := by decide +kernel
  cases hadded.symm.trans h.1

/-- **A message that had been stored before counts as lost**: the one message beside it could not be
written. -/
theorem unreported_duplicate :
    let s : FileStore := ⟨"data", true, ["a"]⟩
    let b : List Message := [Sample.first, Sample.second]
    s.Serving [Sample.first] ∧ (s.insertBatch Sample.obstructed b).1 =
        .error (.io "index 0: duplicate correlationId 'a'") ∧
      (Store.files s Sample.obstructed).known b = [Sample.first] ∧
      (Store.files s Sample.obstructed).missed b = [Sample.second] ∧
      (∀ (κ : Type) (a : Accumulator κ) (o : Outlet) (c : StoreCall), c.mode = .through →
        c.batch = b → o.link.store = .files s Sample.obstructed →
        (a.endFlush o c).outlet.metrics.lost = o.metrics.lost + 2) ∧
      ¬ s.Accounted Sample.obstructed b := by
  intro s b
  have hanswer : (s.insertBatch Sample.obstructed b).1 =
      .error (.io "index 0: duplicate correlationId 'a'") := by
    decide +kernel
  have hknown : (Store.files s Sample.obstructed).known b = [Sample.first] := by decide +kernel
  refine ⟨Sample.serving_first, hanswer, hknown, by decide +kernel,
    fun κ a o c hmode hbatch hstore => ?_, fun h => ?_⟩
  · rw [lost_endFlush a hmode hbatch hstore, hanswer]
    rfl
  · have hduplicates := h.duplicates _ hanswer
    rw [hknown] at hduplicates
    cases hduplicates

end FileStore

end SmsRelay
