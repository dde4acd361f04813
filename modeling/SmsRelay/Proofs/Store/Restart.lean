import SmsRelay.Proofs.Store.Operation

/-!
# Opening a store anew

A program may give its store up at any time and open another one in its place, with the same
settings and, if the store keeps its messages in files, on the same directory. Whoever asks a store
in files cannot tell: the new store finds the messages in the files and their correlation ids with
them.

## Implementation notes

The ids that a store remembers while it goes on and those that it reads from the files come in
different orders, and an id may be listed twice. `Alike` compares them as sets.

## Main results

* `Twin.perform`: two stores on the same files that take the same ids for taken answer alike.
* `Twin.reopen`: a store that is opened anew takes the ids for taken that the old one took.
* `FileStore.Vacant.replies_restarted`: with and without restarts, a store gives the same answers.
-/

namespace SmsRelay

/-- What a program does with a store: it asks it, or opens another one in its place. -/
inductive StoreStep where
  | call (op : StoreOp)
  | reopen
  deriving DecidableEq, Repr

/-- What the program is asked for. -/
def StoreStep.op? : StoreStep → Option StoreOp
  | call op => some op
  | reopen => none

/-- What a program hears. -/
inductive StoreReply where
  | answered (a : StoreAnswer)
  | reopened (r : Except StoreError Unit)
  deriving DecidableEq, Repr

/-- The answer that a program hears. -/
def StoreReply.answer? : StoreReply → Option StoreAnswer
  | answered a => some a
  | reopened _ => none

namespace Store

/-- A new store with the settings of another one. Files stay, memory does not. -/
def renew : Store → Store
  | memory s => memory (.create s.capacity s.unique)
  | files s d => files { s with ids := [] } d

/-- Gives the store up and makes a new one ready for use. -/
def reopen (s : Store) : Except StoreError Unit × Store := s.renew.load

/-- What a program hears of its stores. -/
def replies (s : Store) : List StoreStep → List StoreReply
  | [] => []
  | .call op :: steps => .answered (s.perform op).1 :: (s.perform op).2.replies steps
  | .reopen :: steps => .reopened s.reopen.1 :: s.reopen.2.replies steps

end Store

namespace FileStore

/-- Two stores on the same directory that take the same ids for taken. -/
structure Alike (s t : FileStore) : Prop where
  directory : s.directory = t.directory
  unique : s.unique = t.unique
  ids : t.unique → ∀ id, id ∈ s.ids ↔ id ∈ t.ids

variable {s t : FileStore}

theorem Alike.isTracked (h : s.Alike t) (m : Message) : s.isTracked m = t.isTracked m := by
  rw [FileStore.isTracked, FileStore.isTracked, h.unique]

theorem Alike.path (h : s.Alike t) (phone : String) : s.path phone = t.path phone := by
  rw [FileStore.path, FileStore.path, h.directory]

theorem Alike.keyFiles (h : s.Alike t) (d : Disk) : s.keyFiles d = t.keyFiles d := by
  rw [FileStore.keyFiles, FileStore.keyFiles, h.directory]

theorem Alike.verdict (h : s.Alike t) (m : Message) : s.verdict m = t.verdict m := by
  have htaken : (t.isTracked m && s.ids.contains m.correlationId) =
      (t.isTracked m && t.ids.contains m.correlationId) :=
    contains_congr (fun htracked => h.ids (Bool.and_eq_true_iff.mp htracked).1) _
  rw [FileStore.verdict, FileStore.verdict, h.isTracked, htaken]

theorem Alike.accept (h : s.Alike t) (m : Message) : (s.accept m).Alike (t.accept m) := by
  refine ⟨?_, ?_, ?_⟩
  · rw [directory_accept, directory_accept, h.directory]
  · rw [unique_accept, unique_accept, h.unique]
  · intro hunique id
    rw [unique_accept] at hunique
    rw [FileStore.accept, FileStore.accept, h.isTracked]
    split
    · rw [List.mem_cons, List.mem_cons, h.ids hunique]
    · exact h.ids hunique id

/-- **A message** meets with the same fate. -/
theorem Alike.put (h : s.Alike t) (d : Disk) (m : Message) :
    (put (s, d) m).1 = (put (t, d) m).1 ∧ (put (s, d) m).2.2 = (put (t, d) m).2.2 ∧
      (put (s, d) m).2.1.Alike (put (t, d) m).2.1 := by
  rw [FileStore.put, FileStore.put, h.verdict, h.path]
  split
  · split
    · exact ⟨rfl, rfl, h.accept m⟩
    · exact ⟨rfl, rfl, h⟩
  · exact ⟨rfl, rfl, h⟩

theorem Alike.findByPhone (h : s.Alike t) (d : Disk) (phone : String) :
    s.findByPhone d phone = t.findByPhone d phone := by
  rw [FileStore.findByPhone, FileStore.findByPhone, h.path]

theorem Alike.list (h : s.Alike t) (d : Disk) : s.list d = t.list d := by
  rw [FileStore.list, FileStore.list, h.keyFiles]

theorem Alike.deleteAll (h : s.Alike t) (d : Disk) :
    (s.deleteAll d).1 = (t.deleteAll d).1 ∧ (s.deleteAll d).2.2 = (t.deleteAll d).2.2 ∧
      (s.deleteAll d).2.1.Alike (t.deleteAll d).2.1 := by
  rw [FileStore.deleteAll, FileStore.deleteAll, h.keyFiles]
  split
  · exact ⟨rfl, rfl, h.directory, h.unique, fun _ _ => Iff.rfl⟩
  · exact ⟨rfl, rfl, h⟩

theorem Alike.carries (h : s.Alike t) {d : Disk} {ms : List Message} (ht : t.Carries d ms) :
    s.Carries d ms := by
  refine ⟨fun hunique id => ?_, ?_, fun m hm => ?_, ht.created⟩
  · rw [h.unique] at hunique
    exact (h.ids hunique id).trans (ht.ids hunique id)
  · rw [h.directory]
    exact ht.filed
  · exact (ht.accepted m hm).of_directory h.directory

end FileStore

namespace Store

/-- Two stores on the same files that take the same ids for taken. The files carry messages. -/
inductive Twin : Store → Store → Prop
  | mk {s t : FileStore} {d : Disk} {ms : List Message} (alike : s.Alike t)
      (carries : t.Carries d ms) : Twin (files s d) (files t d)

variable {s t : Store}

theorem Twin.put (h : s.Twin t) {m : Message} (hcreated : m.createdAt.isValid) :
    (s.put m).1 = (t.put m).1 ∧ (s.put m).2.Twin (t.put m).2 := by
  obtain @⟨s, t, d, ms, halike, hcarries⟩ := h
  obtain ⟨hverdict, hdisk, halike'⟩ := halike.put d m
  refine ⟨hverdict, ?_⟩
  rw [Store.put, Store.put, hdisk]
  exact .mk halike' (hcarries.put hcreated)

/-- **They give the same answer.** -/
theorem Twin.perform (h : s.Twin t) {op : StoreOp}
    (hcreated : ∀ m ∈ op.messages, m.createdAt.isValid) :
    (s.perform op).1 = (t.perform op).1 ∧ (s.perform op).2.Twin (t.perform op).2 := by
  have hbatch : ∀ b : List Message, (∀ m ∈ b, m.createdAt.isValid) →
      (s.insertBatch b).1 = (t.insertBatch b).1 ∧
        (s.insertBatch b).2.Twin (t.insertBatch b).2 := by
    intro b hb
    refine (insertBatch_agree (R := fun b s t => s.Twin t ∧ ∀ m ∈ b, m.createdAt.isValid)
      ?_ ⟨h, hb⟩).imp_right And.left
    rintro m rest s t ⟨htwin, hvalid⟩
    obtain ⟨hm, hrest⟩ := List.forall_mem_cons.mp hvalid
    exact (htwin.put hm).imp_right fun hnext => ⟨hnext, hrest⟩
  cases op with
  | insert m =>
    obtain ⟨hanswer, hnext⟩ := hbatch [m] hcreated
    rw [perform_insert, perform_insert, hanswer]
    exact ⟨rfl, hnext⟩
  | insertBatch b =>
    obtain ⟨hanswer, hnext⟩ := hbatch b hcreated
    exact ⟨congrArg StoreAnswer.counted hanswer, hnext⟩
  | findByPhone phone =>
    obtain ⟨halike, hcarries⟩ := h
    exact ⟨congrArg StoreAnswer.found (halike.findByPhone _ phone), .mk halike hcarries⟩
  | list =>
    obtain ⟨halike, hcarries⟩ := h
    exact ⟨congrArg StoreAnswer.listed (halike.list _), .mk halike hcarries⟩
  | deleteAll =>
    obtain @⟨s, t, d, ms, halike, hcarries⟩ := h
    obtain ⟨hanswer, hdisk, halike'⟩ := halike.deleteAll d
    obtain ⟨d', hdelete, hcarries'⟩ := hcarries.deleteAll
    refine ⟨congrArg StoreAnswer.removed hanswer, ?_⟩
    show (files (s.deleteAll d).2.1 (s.deleteAll d).2.2).Twin
      (files (t.deleteAll d).2.1 (t.deleteAll d).2.2)
    rw [hdisk]
    rw [hdelete] at halike' ⊢
    exact .mk halike' hcarries'

/-- **A store that is opened anew** takes the ids for taken that the old one took. -/
theorem Twin.reopen (h : s.Twin t) : s.reopen.1 = .ok () ∧ s.reopen.2.Twin t := by
  obtain @⟨s, t, d, ms, halike, hcarries⟩ := h
  obtain ⟨ids, hload, htaken⟩ := (halike.carries hcarries).reload
  rw [Store.reopen, renew, load, hload]
  refine ⟨rfl, .mk ⟨halike.directory, halike.unique, fun hunique id => ?_⟩ hcarries⟩
  exact (htaken id).trans (hcarries.ids hunique id).symm

/-- **With and without restarts** a program hears the same. -/
theorem Twin.replies (h : s.Twin t) {steps : List StoreStep}
    (hcreated : ∀ op ∈ steps.filterMap StoreStep.op?, ∀ m ∈ op.messages, m.createdAt.isValid) :
    (s.replies steps).filterMap StoreReply.answer? = t.answers (steps.filterMap StoreStep.op?) ∧
      ∀ r, .reopened r ∈ s.replies steps → r = .ok () := by
  induction steps generalizing s t with
  | nil => exact ⟨rfl, nofun⟩
  | cons step steps ih =>
    cases step with
    | call op =>
      obtain ⟨hanswer, hnext⟩ := h.perform (hcreated op List.mem_cons_self)
      obtain ⟨hrest, hopened⟩ := ih hnext fun op' hop => hcreated op' (List.mem_cons_of_mem op hop)
      refine ⟨?_, fun r hr => ?_⟩
      · show (s.perform op).1 :: ((s.perform op).2.replies steps).filterMap StoreReply.answer? = _
        rw [hanswer, hrest]
        rfl
      · rcases List.mem_cons.mp hr with hr | hr
        · cases hr
        · exact hopened r hr
    | reopen =>
      obtain ⟨hopen, hnext⟩ := h.reopen
      obtain ⟨hrest, hopened⟩ := ih hnext hcreated
      refine ⟨hrest, fun r hr => ?_⟩
      rcases List.mem_cons.mp hr with hr | hr
      · cases hr
        exact hopen
      · exact hopened r hr

end Store

/-- **Restarts do not show.** -/
theorem FileStore.Vacant.replies_restarted {s : FileStore} {d : Disk} (h : s.Vacant d)
    {steps : List StoreStep}
    (hcreated : ∀ op ∈ steps.filterMap StoreStep.op?, ∀ m ∈ op.messages, m.createdAt.isValid) :
    ((Store.files s d).load.2.replies steps).filterMap StoreReply.answer? =
        (Store.files s d).load.2.answers (steps.filterMap StoreStep.op?) ∧
      ∀ r, .reopened r ∈ (Store.files s d).load.2.replies steps → r = .ok () :=
  Store.Twin.replies (.mk ⟨rfl, rfl, fun _ _ => Iff.rfl⟩ h.carries) hcreated

/-- A message is refused for its correlation id after a restart, one without an id is stored again,
and what is removed may come again. -/
theorem FileStore.replies_restarted_duplicate :
    let m : Message := { Message.blank with correlationId := "a", phone := "+7" }
    let anonymous : Message := { Message.blank with phone := "+7", text := "\n" }
    let steps : List StoreStep := [.call (.insertBatch [m, anonymous]), .reopen,
      .call (.insertBatch [anonymous, m]), .call .deleteAll, .reopen, .call (.insert m)]
    FileStore.Vacant ⟨"data", true, []⟩ .blank ∧
      ((Store.files ⟨"data", true, []⟩ .blank).load.2.replies steps).filterMap
          StoreReply.answer? =
        [.counted (.ok 2),
          .counted (.error (.partly 1 2 1 "index 1: duplicate correlationId 'a'")),
          .removed (.ok 3), .inserted (.ok ())] := by
  intro m anonymous steps
  have hvacant : FileStore.Vacant ⟨"data", true, []⟩ .blank :=
    ⟨by decide +kernel, [], by decide +kernel, fun _ h => absurd h List.not_mem_nil⟩
  refine ⟨hvacant, ?_⟩
  rw [(hvacant.replies_restarted (by decide +kernel)).1]
  decide +kernel

end SmsRelay
