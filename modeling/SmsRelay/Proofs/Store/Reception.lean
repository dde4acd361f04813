import SmsRelay.Proofs.Sender.Dispatch
import SmsRelay.Proofs.Store.Agreement
import SmsRelay.Proofs.Store.Eviction
import SmsRelay.Proofs.Store.Order

/-!
# Accepted requests can be stored

What the sender accepts, the stores can take: the event of an accepted request is a message,
neither store refuses this message for its form, and once it has been stored it is the last one that
is found under its phone number.

## Implementation notes

A store in files is opened on a directory in order. On one whose file of the phone number ends in an
open line the message is written into this very line; the run of such a store stands at the end.

## Main results

* `Store.Tidy.admits`: what a store does with a message to ten digits.
* `Dispatch.Valid.storable`: the way of an accepted request into a store.
-/

namespace SmsRelay

namespace Store

/-- The store keeps correlation ids unique. -/
def isUnique : Store → Bool
  | memory s => s.unique
  | files s _ => s.unique

/-- The store after it has been asked for one thing after the other. -/
def after (s : Store) (ops : List StoreOp) : Store := ops.foldl (fun s op => (s.perform op).2) s

/-- A store that has just been made ready for use. -/
inductive Prepared : Store → Prop
  | memory (capacity : ℕ) (unique : Bool) : Prepared (.memory (.create capacity unique))
  | files {s : FileStore} {d : Disk} (ready : s.Ready d) : Prepared (Store.files s d).load.2

/-- A store that keeps what it should and takes for taken the ids of what it keeps. -/
inductive Tidy : Store → Prop
  | memory {s : MemoryStore} {accepted : List Message} (retains : s.Retains accepted) :
      Tidy (.memory s)
  | files {s : FileStore} {d : Disk} {p : Place} (order : s.InOrder d p) : Tidy (.files s d)

theorem Prepared.tidy {s : Store} (h : s.Prepared) : s.Tidy := by
  cases h with
  | memory capacity unique => exact .memory (MemoryStore.retains_create capacity unique)
  | files ready =>
    obtain ⟨p, horder⟩ := ready.inOrder
    exact .files horder

/-- **Each operation** leaves a tidy store. -/
theorem Tidy.perform {s : Store} (h : s.Tidy) {op : StoreOp}
    (hcreated : ∀ m ∈ op.messages, m.createdAt.isValid) : (s.perform op).2.Tidy := by
  cases h with
  | memory retains =>
    obtain ⟨s', hs', -, -, hretains⟩ := retains.perform op
    rw [hs']
    exact .memory hretains
  | files order =>
    obtain ⟨s', d', hs', horder, -⟩ := order.perform hcreated
    rw [hs']
    exact .files horder

theorem Tidy.after {s : Store} (h : s.Tidy) {ops : List StoreOp}
    (hcreated : ∀ op ∈ ops, ∀ m ∈ op.messages, m.createdAt.isValid) : (s.after ops).Tidy := by
  induction ops generalizing s with
  | nil => exact h
  | cons op ops ih =>
    obtain ⟨hop, hops⟩ := List.forall_mem_cons.mp hcreated
    exact ih (h.perform hop) hops

/-! ### One message -/

/-- The reason for which a message is turned away whose correlation id is taken. -/
def duplicateReason (id : String) : String := "duplicate correlationId '" ++ id ++ "'"

/-- What is answered about a single message is what the store said to it. -/
theorem insert_fst (s : Store) (m : Message) : (s.insert m).1 =
    match (s.put m).1 with
    | .stored => .ok ()
    | .failed reason => .error (.io ("index 0: " ++ reason))
    | .invalid reason | .duplicate reason => .error (.format ("index 0: " ++ reason)) := by
  rw [insert, insertBatch_eq, fates, fates]
  show single (Tally.ofVerdicts [(s.put m).1]).result = _
  cases (s.put m).1 <;> rfl

theorem insert_snd (s : Store) (m : Message) : (s.insert m).2 = (s.put m).2 := by
  rw [insert]
  exact s.insertBatch_singleton_snd m

/-- What a store does with a message: it is stored, and found as the last one of its phone number,
unless ids are unique and a stored message has its id; then it is turned away for this reason. -/
structure Admits (s : Store) (m : Message) (stored : List Message) : Prop where
  listed : s.list = .ok stored
  refused : s.isUnique → m.correlationId ∈ stored.map (·.correlationId) →
    (s.insert m).1 = .error (.format ("index 0: " ++ duplicateReason m.correlationId))
  accepted : (s.insert m).1 = .ok () ↔
    ¬ (s.isUnique ∧ m.correlationId ∈ stored.map (·.correlationId))
  found : (s.insert m).1 = .ok () →
    ∃ l, (s.insert m).2.findByPhone m.phone = .ok l ∧ l.getLast? = some m

/-- What a store says decides what it does. -/
theorem admits_of_put {s : Store} {m : Message} {stored : List Message}
    (hlisted : s.list = .ok stored)
    (hput : (s.put m).1 = if s.isUnique ∧ m.correlationId ∈ stored.map (·.correlationId) then
      .duplicate (duplicateReason m.correlationId) else .stored)
    (hfound : (s.put m).1 = .stored →
      ∃ l, (s.put m).2.findByPhone m.phone = .ok l ∧ l.getLast? = some m) : s.Admits m stored := by
  have hinsert := s.insert_fst m
  by_cases htaken : s.isUnique ∧ m.correlationId ∈ stored.map (·.correlationId)
  · rw [if_pos htaken] at hput
    rw [hput] at hinsert
    have hrefused : (s.insert m).1 ≠ .ok () := by
      rw [hinsert]
      nofun
    exact ⟨hlisted, fun _ _ => hinsert, iff_of_false hrefused (not_not_intro htaken),
      fun hstored => (hrefused hstored).elim⟩
  · rw [if_neg htaken] at hput
    rw [hput] at hinsert
    refine ⟨hlisted, fun hu hin => (htaken ⟨hu, hin⟩).elim, iff_of_true hinsert htaken, fun _ => ?_⟩
    rw [insert_snd]
    exact hfound hput

end Store

/-- **A store in memory** admits a message with a phone number and an id. -/
theorem MemoryStore.Retains.admits {s : MemoryStore} {accepted : List Message}
    (h : s.Retains accepted) {m : Message} (hphone : m.phone ≠ "") (hid : m.correlationId ≠ "") :
    (Store.memory s).Admits m s.messages := by
  have hverdict := h.keeps.verdict_eq hphone
  simp only [ne_eq, hid, not_false_eq_true, true_and] at hverdict
  refine Store.admits_of_put rfl ((Store.put_memory_fst s m).trans hverdict) fun hstored => ?_
  have hafter : (s.put m).2 = s.makeRoom.accept m := by
    rw [MemoryStore.put, if_pos ((Store.put_memory_fst s m).symm.trans hstored)]
  refine ⟨(s.put m).2.findByPhone m.phone, rfl, ?_⟩
  rw [hafter, MemoryStore.findByPhone, MemoryStore.accept]
  simp

namespace FileStore

/-- Files that grow in a directory in order were finished. -/
theorem InOrder.finishedFor {s : FileStore} {d : Disk} {p : Place} (h : s.InOrder d p)
    {ms : List Message} (hnames : Nameable s.directory ms) : FinishedFor s.directory d ms := by
  intro m hm content hcontent
  obtain ⟨hkey, hfits⟩ := hnames m hm
  have hfile := (mem_read_iff h.directory hfits).mp hcontent
  exact (h.file (isKeyFile_of_isKey hkey) (.inl hfile)).1

/-- **A store in files** admits a message whose phone number makes a file's name. -/
theorem InOrder.admits {s : FileStore} {d : Disk} {p : Place} (h : s.InOrder d p) {m : Message}
    (hkey : isKey m.phone) (hcreated : m.createdAt.isValid) (hid : m.correlationId ≠ "")
    (hwritten : (Store.files s d).Withstands [m]) :
    ∃ stored, (Store.files s d).Admits m stored := by
  obtain ⟨stored, hlist, hperm⟩ := h.list
  obtain ⟨hwritten, -⟩ := Store.withstands_cons.mp hwritten
  have hverdict : s.verdict m =
      if s.unique ∧ m.correlationId ∈ stored.map (·.correlationId) then
        .duplicate (Store.duplicateReason m.correlationId) else .stored := by
    rw [verdict, hkey, Bool.not_true, if_neg Bool.false_ne_true, isTracked]
    refine if_congr ?_ rfl rfl
    cases hu : s.unique with
    | false => simp
    | true =>
      have htaken := h.taken hu m.correlationId
      rw [← (hperm.map _).mem_iff] at htaken
      simp [hid, htaken]
  have hput : (FileStore.put (s, d) m).1 = s.verdict m := FileStore.put_fst hwritten
  refine ⟨stored, Store.admits_of_put hlist (hput.trans hverdict) fun hstored => ?_⟩
  -- the file of the phone number grows by the message
  obtain ⟨s', d', hstore, hdirectory, hgrown, hnames⟩ := exists_grown h.directory [m]
  have hadded : (Store.files s d).added [m] = [m] := by
    rw [Store.added_cons, if_pos hstored]
    rfl
  rw [hadded] at hgrown hnames
  have hread : ∃ l, readAll d (s.keyFiles d) = .ok l :=
    list_eq_ok_iff.mp ⟨stored, hlist⟩
  obtain ⟨old, -, hfound⟩ := hgrown.findByPhone h.directory hnames
    (List.forall_mem_singleton.mpr hcreated) hread (h.finishedFor hnames) m.phone
  have hafter : ((Store.files s d).put m).2 = .files s' d' := by
    rw [← hstore, Store.insertBatch_singleton_snd]
  refine ⟨old ++ [m], ?_, List.getLast?_concat⟩
  rw [hafter]
  show s'.findByPhone d' m.phone = _
  rw [FileStore.findByPhone, path, hdirectory]
  rw [FileStore.findByPhone, path] at hfound
  rw [hfound]
  simp

/-- Ten digits make the name of a file. -/
theorem isKey_of_isPhone {phone : String} (h : SendRequest.isPhone phone) : isKey phone := by
  rw [SendRequest.isPhone, Bool.and_eq_true, beq_iff_eq, List.all_eq_true] at h
  obtain ⟨hlength, hdigits⟩ := h
  refine isKey_iff.mpr ⟨?_, fun c hc => ?_⟩
  · rintro rfl
    cases hlength
  · simp [isKeyChar, Char.isAlphanum, hdigits c hc]

end FileStore

/-- **A tidy store** admits a message that has an id and a phone number of ten digits. -/
theorem Store.Tidy.admits {s : Store} (h : s.Tidy) {m : Message}
    (hphone : SendRequest.isPhone m.phone) (hcreated : m.createdAt.isValid)
    (hid : m.correlationId ≠ "") (hwritten : s.Withstands [m]) :
    ∃ stored, s.Admits m stored := by
  have hkey := FileStore.isKey_of_isPhone hphone
  cases h with
  | memory retains => exact ⟨_, retains.admits (FileStore.isKey_iff.mp hkey).1 hid⟩
  | files order => exact order.admits hkey hcreated hid hwritten

theorem Store.unharmed_append {s : Store} {ops more : List StoreOp} :
    s.Unharmed (ops ++ more) ↔ s.Unharmed ops ∧ (s.after ops).Unharmed more := by
  induction ops generalizing s with
  | nil => exact (and_iff_right trivial).symm
  | cons op ops ih =>
    rw [List.cons_append, Unharmed, Unharmed, ih, and_assoc]
    rfl

/-- **The way of an accepted request into a store.** The event that tells of its outcome, whatever
that is, is a message. A store in memory, or one in files that has been opened on a directory in
order, whatever has been asked of it since without a failure of the disk, stores this message unless
it keeps ids unique and a stored message has the same id, and turns it away for no other reason.
When it has been stored, it is the last message that is found under the phone number of the
request. -/
theorem Dispatch.Valid.storable {x : Dispatch} (valid : x.Valid) (named : x.correlationId ≠ "")
    (status : DeliveryStatus) {s : Store} (prepared : s.Prepared) {ops : List StoreOp}
    (created : ∀ op ∈ ops, ∀ m ∈ op.messages, m.createdAt.isValid) :
    ∃ m, Event.decode (x.event status).encode = .ok m ∧ m.correlationId = x.correlationId ∧
      m.phone = x.request.phone ∧ (s.Unharmed (ops ++ [.insert m]) →
        ∃ stored, (s.after ops).Admits m stored) := by
  obtain ⟨t, ht, hdecode⟩ := valid.decode_event status
  refine ⟨_, hdecode, rfl, rfl, fun hunharmed => ?_⟩
  obtain ⟨-, hwritten, -⟩ := Store.unharmed_append.mp hunharmed
  exact (prepared.tidy.after created).admits valid.isPhone (Event.isValid_of_decode hdecode) named
    hwritten

namespace Dispatch.Sample

/-- An accepted request. -/
def accepted : Dispatch where
  correlationId := "2"
  request := ⟨"1234567890", "а"⟩
  timestamp := 0

theorem accepted_valid : accepted.Valid := ⟨by decide +kernel, by decide +kernel⟩

/-- The message that tells that it has been delivered. -/
def delivered : Message where
  id := "msg-19700101000000.000000000"
  correlationId := "2"
  phone := "1234567890"
  text := "а"
  status := "SUCCESS"
  createdAt := ⟨0, 0⟩

/-- A store in files that is opened on a directory in which the file of its phone number holds a
message of an earlier request. -/
def opened (lineEnd : String) : Except StoreError Unit × Store :=
  let earlier : Message := { Message.blank with correlationId := "1", phone := "1234567890" }
  (Store.files ⟨"data", true, []⟩
    { home := ["home"]
      entries := [(["home"], .directory), (["home", "data"], .directory),
        (["home", "data", "1234567890.jsonl"],
          .file (utf8 (earlier.toJson.render ++ lineEnd)))] }).load

theorem decode_delivered : Event.decode (accepted.event .success).encode = .ok delivered := by
  decide +kernel

/-- The message of the earlier request. -/
def earlier : Message := { Message.blank with correlationId := "1", phone := "1234567890" }

/-- The disk on which this store is opened. -/
def disk (lineEnd : String) : Disk where
  home := ["home"]
  entries := [(["home"], .directory), (["home", "data"], .directory),
    (["home", "data", "1234567890.jsonl"], .file (utf8 (earlier.toJson.render ++ lineEnd)))]

/-- A store that can read its file takes over what it finds there. -/
theorem load_disk {lineEnd : String} {ms : List Message}
    (hread : FileStore.readAll (disk lineEnd) ["data/1234567890.jsonl"] = .ok ms) :
    FileStore.load ⟨"data", true, []⟩ (disk lineEnd) =
      (.ok (), ⟨"data", true, FileStore.idsOf ms⟩, disk lineEnd) := by
  have hdirectory : (disk lineEnd).IsDirectory "data" ["home", "data"] := ⟨rfl, rfl⟩
  have hkeys : (⟨"data", true, []⟩ : FileStore).keyFiles (disk lineEnd) =
      ["data/1234567890.jsonl"] := by
    have hnames : (disk lineEnd).names "data" = .ok ["1234567890.jsonl"] := rfl
    rw [FileStore.keyFiles, hnames]
    decide +kernel
  exact FileStore.load_of_readAll hdirectory (hkeys ▸ hread)

theorem opened_of_load {lineEnd : String} {s : FileStore}
    (hload : FileStore.load ⟨"data", true, []⟩ (disk lineEnd) = (.ok (), s, disk lineEnd)) :
    opened lineEnd = (.ok (), .files s (disk lineEnd)) := by
  have hopened : opened lineEnd = (Store.files ⟨"data", true, []⟩ (disk lineEnd)).load := rfl
  rw [hopened, Store.load, hload]

end Dispatch.Sample

/-- A store in memory has the message already, a store in files has an earlier one. -/
theorem Dispatch.Valid.storable_delivered :
    Event.decode (Sample.accepted.event .success).encode = .ok Sample.delivered ∧
      (∃ stored, ((Store.memory (.create 2 true)).after [.insert Sample.delivered]).Admits
        Sample.delivered stored) ∧
      ∃ stored, (Sample.opened "\n").2.Admits Sample.delivered stored := by
  have hread : FileStore.readAll (Sample.disk "\n") ["data/1234567890.jsonl"] =
      .ok [Sample.earlier] := by
    decide +kernel
  have hload : FileStore.load ⟨"data", true, []⟩ (Sample.disk "\n") =
      (.ok (), ⟨"data", true, ["1"]⟩, Sample.disk "\n") := Sample.load_disk hread
  have hready : FileStore.Ready ⟨"data", true, []⟩ (Sample.disk "\n") := by
    refine ⟨congrArg Prod.fst hload, ?_⟩
    rw [hload]
    refine ⟨["1234567890.jsonl"], rfl, List.nodup_singleton _, fun name hname hkey => ?_⟩
    obtain rfl := List.mem_singleton.mp hname
    have hphone : FileStore.isKey "1234567890" := by decide
    exact ⟨FileStore.isName_of_isKey hphone, by decide +kernel⟩
  have hunharmed : (Sample.opened "\n").2.Unharmed [.insert Sample.delivered] := by
    rw [Sample.opened_of_load hload]
    decide +kernel
  have hcreated : ∀ op ∈ [StoreOp.insert Sample.delivered], ∀ m ∈ op.messages,
      m.createdAt.isValid := by decide
  refine ⟨Sample.decode_delivered, ?_, ?_⟩
  · obtain ⟨m, hm, -, -, hadmits⟩ := Dispatch.Valid.storable Sample.accepted_valid (by decide)
      .success (Store.Prepared.memory 2 true) hcreated
    cases Sample.decode_delivered.symm.trans hm
    exact hadmits (by decide +kernel)
  · obtain ⟨m, hm, -, -, hadmits⟩ := Dispatch.Valid.storable Sample.accepted_valid (by decide)
      .success (Store.Prepared.files hready) (List.forall_mem_nil _)
    cases Sample.decode_delivered.symm.trans hm
    exact hadmits hunharmed

/-- **A line without a line feed**: the store takes the message, which is not found afterwards. -/
theorem Dispatch.Valid.unfound_open_line :
    Sample.accepted.Valid ∧
      Event.decode (Sample.accepted.event .success).encode = .ok Sample.delivered ∧
      (Sample.opened "").1 = .ok () ∧
      ((Sample.opened "").2.insert Sample.delivered).1 = .ok () ∧
      ((Sample.opened "").2.insert Sample.delivered).2.findByPhone "1234567890" =
        .error (.format "data/1234567890.jsonl: malformed text") := by
  have hread : FileStore.readAll (Sample.disk "") ["data/1234567890.jsonl"] =
      .ok [Sample.earlier] := by
    decide +kernel
  have hload : FileStore.load ⟨"data", true, []⟩ (Sample.disk "") =
      (.ok (), ⟨"data", true, ["1"]⟩, Sample.disk "") := Sample.load_disk hread
  rw [Sample.opened_of_load hload]
  exact ⟨Sample.accepted_valid, Sample.decode_delivered, rfl, by decide +kernel,
    by decide +kernel⟩

end SmsRelay
