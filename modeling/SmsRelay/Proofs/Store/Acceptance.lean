import SmsRelay.Proofs.Store.Reception

/-!
# What a store in memory stands for

A store in memory is asked for one thing after the other. All that it answers follows from the
messages that it has accepted since it was last emptied: it holds the last of them, as many as it
has room for, and it turns a message away for its form or because one that it still holds has the
same correlation id.

## Implementation notes

`Admission` states the rules by the history alone, the store asks its index. The two agree as long
as the index has the ids of the messages that are held, no more and no less, which each eviction in
the midst of a batch has to keep up.

## Main results

* `Tally.reported_result`: the answer about a batch follows from what was said to its messages.
* `Retains.batch`: in a batch each message is judged by what has been accepted before it.
* `create_represents`: a new store stands for its history, whatever it is asked for.
-/

namespace SmsRelay

/-! ### Answers about a batch -/

/-- The message cannot be stored. -/
def Verdict.isInvalid : Verdict → Bool
  | invalid _ => true
  | _ => false

/-- The answer about a batch to whose messages a store has said these things. The reason of a
refusal names the place of the first message that was refused. -/
inductive Reported (vs : List Verdict) : Except StoreError ℕ → Prop
  | complete (stored : ∀ v ∈ vs, v = .stored) : Reported vs (.ok vs.length)
  | partly {before rest : List Verdict} {v : Verdict} {reason : String}
      (split : vs = before ++ v :: rest) (stored : ∀ w ∈ before, w = .stored)
      (refused : v.reason? = some reason)
      (total : vs.countP (· = .stored) + vs.countP (·.isDuplicate) + vs.countP (·.isInvalid)
        = vs.length) :
      Reported vs (.error (.partly (vs.countP (· = .stored)) vs.length
        (vs.countP (·.isDuplicate)) ("index " ++ natText before.length ++ ": " ++ reason)))

namespace Tally

variable {vs : List Verdict}

theorem attempted_ofVerdicts (vs : List Verdict) : (ofVerdicts vs).attempted = vs.length := by
  induction vs using List.reverseRecOn with
  | nil => rfl
  | append_singleton vs v ih =>
    rw [ofVerdicts_concat, attempted_count, ih, List.length_append, List.length_singleton]

theorem refusal_count (t : Tally) (v : Verdict) : (t.count v).refusal = (t.refusal <|>
    v.reason?.map fun reason => "index " ++ natText t.attempted ++ ": " ++ reason) := rfl

/-- **The first refusal**: all before it were stored. -/
theorem refusal_ofVerdicts (vs : List Verdict) :
    (∀ v ∈ vs, v = .stored) ∧ (ofVerdicts vs).refusal = none ∨
      ∃ before v rest reason, vs = before ++ v :: rest ∧ (∀ w ∈ before, w = .stored) ∧
        v.reason? = some reason ∧
        (ofVerdicts vs).refusal = some ("index " ++ natText before.length ++ ": " ++ reason) := by
  induction vs using List.reverseRecOn with
  | nil => exact .inl ⟨nofun, rfl⟩
  | append_singleton vs v ih =>
    rw [ofVerdicts_concat, refusal_count]
    rcases ih with ⟨hstored, hnone⟩ | ⟨before, w, rest, reason, rfl, hstored, hreason, hsome⟩
    · cases hv : v.reason? with
      | none =>
        have hv : v = .stored := by cases v <;> first | rfl | cases hv
        refine .inl ⟨?_, ?_⟩
        · intro w hw
          rcases List.mem_append.mp hw with hw | hw
          · exact hstored w hw
          · rw [List.mem_singleton.mp hw, hv]
        · rw [hnone]
          rfl
      | some reason =>
        refine .inr ⟨vs, v, [], reason, rfl, hstored, hv, ?_⟩
        rw [hnone, attempted_ofVerdicts]
        rfl
    · refine .inr ⟨before, w, rest ++ [v], reason, by simp, hstored, hreason, ?_⟩
      rw [hsome]
      rfl

/-- **The answer about a batch** of which no message failed to be written. -/
theorem reported_result (hwritten : ∀ v ∈ vs, v.isFailure = false) :
    Reported vs (ofVerdicts vs).result := by
  have htotal : vs.countP (· = .stored) + vs.countP (·.isDuplicate) + vs.countP (·.isInvalid)
      = vs.length := by
    induction vs with
    | nil => rfl
    | cons v vs ih =>
      obtain ⟨hv, hvs⟩ := List.forall_mem_cons.mp hwritten
      have hone : (if decide (v = .stored) then 1 else 0) + (if v.isDuplicate then 1 else 0)
          + (if v.isInvalid then 1 else 0) = 1 := by
        cases v <;> first | rfl | cases hv
      have hrest := ih hvs
      rw [List.countP_cons, List.countP_cons, List.countP_cons, List.length_cons]
      omega
  rw [result]
  rcases refusal_ofVerdicts vs with ⟨hstored, hnone⟩ | ⟨before, v, rest, reason, hsplit, hbefore,
    hreason, hsome⟩
  · rw [hnone]
    dsimp only
    rw [written_ofVerdicts, List.countP_eq_length.mpr fun v hv => by simpa using hstored v hv]
    exact .complete hstored
  · have hfailed : (ofVerdicts vs).anyFailed = false := by
      rw [anyFailed_ofVerdicts]
      refine List.any_eq_false.mpr fun v hv => ?_
      rw [hwritten v hv]
      exact Bool.false_ne_true
    rw [hsome]
    dsimp only
    rw [hfailed, if_neg (fun h => Bool.false_ne_true h.2), written_ofVerdicts,
      duplicates_ofVerdicts, attempted_ofVerdicts]
    exact .partly hsplit hbefore hreason htotal

end Tally

/-! ### The rules -/

/-- The rules of a store: for how many messages it has room and whether their correlation ids are
unique. -/
structure Admission where
  room : ℕ
  unique : Bool

namespace Admission

/-- A message may not come in because one that is still held has its id. -/
def Clashes (a : Admission) (accepted : List Message) (m : Message) : Prop :=
  a.unique ∧ m.correlationId ≠ "" ∧ m.correlationId ∈ (accepted.rtake a.room).map (·.correlationId)

instance (a : Admission) (accepted : List Message) (m : Message) :
    Decidable (a.Clashes accepted m) :=
  inferInstanceAs (Decidable (_ ∧ _ ∧ _))

/-- What is said to a message when these have been accepted. -/
def ruling (a : Admission) (accepted : List Message) (m : Message) : Verdict :=
  if m.phone = "" then .invalid "empty phoneNumber"
  else if a.Clashes accepted m then .duplicate (Store.duplicateReason m.correlationId)
  else .stored

/-- What has been accepted when a further message has come. -/
def enter (a : Admission) (accepted : List Message) (m : Message) : List Message :=
  if a.ruling accepted m = .stored then accepted ++ [m] else accepted

/-- What is said to the messages of a batch, each at its turn. -/
def rulings (a : Admission) (accepted : List Message) : List Message → List Verdict
  | [] => []
  | m :: rest => a.ruling accepted m :: a.rulings (a.enter accepted m) rest

/-- What has been accepted, since the store was last emptied, when a further thing has been asked
for. -/
def record (a : Admission) (accepted : List Message) : StoreOp → List Message
  | .insert m => a.enter accepted m
  | .insertBatch b => b.foldl a.enter accepted
  | .deleteAll => []
  | .findByPhone _ | .list => accepted

/-- What has been accepted since the store was last emptied. -/
def history (a : Admission) (ops : List StoreOp) : List Message := ops.foldl a.record []

/-- **A message is turned away** for want of a phone number or for an id that is still held. -/
theorem ruling_eq_stored_iff {a : Admission} {accepted : List Message} {m : Message} :
    a.ruling accepted m = .stored ↔ m.phone ≠ "" ∧ ¬ a.Clashes accepted m := by
  rw [ruling]
  by_cases hphone : m.phone = ""
  · simp [hphone]
  · by_cases hclash : a.Clashes accepted m
    · simp [hphone, hclash]
    · simp [hphone, hclash]

end Admission

namespace MemoryStore

/-- The rules by which a store goes. -/
def admission (s : MemoryStore) : Admission := ⟨s.capacity, s.unique⟩

/-- A store in memory stands for the messages that it has accepted since it was last emptied. -/
structure Represents (s : MemoryStore) (accepted : List Message) : Prop where
  bounded : s.messages.length ≤ s.capacity
  listed : (Store.memory s).list = .ok (accepted.rtake s.capacity)
  index : ∀ id, id ∈ s.ids ↔ s.unique ∧ id ≠ "" ∧ id ∈ s.messages.map (·.correlationId)
  apart : s.unique → Apart s.messages
  inserted : ∀ m, ((Store.memory s).insert m).1 = .ok () ↔
    m.phone ≠ "" ∧ ¬ s.admission.Clashes accepted m
  judged : ∀ b, ((Store.memory s).fates b).map Prod.snd = s.admission.rulings accepted b
  reported : ∀ b, Reported (s.admission.rulings accepted b) ((Store.memory s).insertBatch b).1

variable {s : MemoryStore} {accepted : List Message}

theorem Retains.put_fst (h : s.Retains accepted) (m : Message) :
    (s.put m).1 = s.admission.ruling accepted m := by
  have hfst : (s.put m).1 = s.verdict m := Store.put_memory_fst s m
  rw [hfst, Admission.ruling]
  by_cases hphone : m.phone = ""
  · rw [if_pos hphone, verdict, hphone]
    rfl
  · rw [if_neg hphone, h.keeps.verdict_eq hphone, h.keeps.messages]
    rfl

/-- **A message** comes in by the rules. -/
theorem Retains.enter (h : s.Retains accepted) (m : Message) :
    (s.put m).2.Retains (s.admission.enter accepted m) := by
  have hput := h.put m
  rwa [h.put_fst m] at hput

theorem admission_put (s : MemoryStore) (m : Message) : (s.put m).2.admission = s.admission := by
  obtain ⟨hcapacity, hunique⟩ := put_settings s m
  rw [admission, hcapacity, hunique]
  rfl

/-- **A batch** is judged message by message, by what has been accepted before. -/
theorem Retains.batch (h : s.Retains accepted) (b : List Message) :
    ((Store.memory s).fates b).map Prod.snd = s.admission.rulings accepted b ∧
      accepted ++ (Store.memory s).added b = b.foldl s.admission.enter accepted := by
  induction b generalizing s accepted with
  | nil => exact ⟨rfl, List.append_nil _⟩
  | cons m b ih =>
    have hfirst := h.put_fst m
    obtain ⟨hjudged, hadded⟩ := ih (h.enter m)
    rw [admission_put] at hjudged hadded
    constructor
    · rw [Store.fates, List.map_cons, Admission.rulings, ← hfirst, ← hjudged]
      rfl
    · rw [List.foldl_cons, ← hadded, Admission.enter, Store.added_cons, Store.put, hfirst]
      split
      · rw [List.append_cons]
      · rfl

/-- What a store has accepted decides all that it answers. -/
theorem Retains.represents (h : s.Retains accepted) : s.Represents accepted where
  bounded := h.length_le
  listed := by rw [Store.list, h.keeps.messages]
  index id := by
    cases hu : s.unique with
    | false => simp [h.keeps.untracked hu]
    | true => simp [h.keeps.taken hu id]
  apart := h.keeps.apart
  inserted m := by
    rw [Store.insert_fst, ← Admission.ruling_eq_stored_iff, ← h.put_fst m, Store.put]
    dsimp only
    cases (s.put m).1 <;> simp
  judged b := (h.batch b).1
  reported b := by
    rw [Store.insertBatch_eq, (h.batch b).1]
    refine Tally.reported_result fun v hv => ?_
    rw [← (h.batch b).1] at hv
    obtain ⟨fate, hfate, rfl⟩ := List.mem_map.mp hv
    exact Store.withstands_memory s b fate hfate

/-- **An operation** leaves a store whose history has been carried on by the rules. -/
theorem Retains.perform_record (h : s.Retains accepted) (op : StoreOp) :
    ∃ s', ((Store.memory s).perform op).2 = .memory s' ∧ s'.capacity = s.capacity ∧
      s'.unique = s.unique ∧ s'.Retains (s.admission.record accepted op) := by
  obtain ⟨s', hstore, hcapacity, hunique, hretains⟩ := h.perform op
  refine ⟨s', hstore, hcapacity, hunique, ?_⟩
  have hrecord : s.admission.record accepted op = (Store.memory s).outcome accepted op := by
    cases op with
    | insert m => exact (h.batch [m]).2.symm
    | insertBatch b => exact (h.batch b).2.symm
    | findByPhone | list | deleteAll => rfl
  rwa [hrecord]

/-- **A run** carries the history on by all that is asked for. -/
theorem Retains.after (h : s.Retains accepted) (ops : List StoreOp) :
    ∃ s', (Store.memory s).after ops = .memory s' ∧ s'.capacity = s.capacity ∧
      s'.unique = s.unique ∧ s'.Retains (ops.foldl s.admission.record accepted) := by
  induction ops generalizing s accepted with
  | nil => exact ⟨s, rfl, rfl, rfl, h⟩
  | cons op ops ih =>
    obtain ⟨s₁, hstore₁, hcapacity₁, hunique₁, hretains₁⟩ := h.perform_record op
    obtain ⟨s', hstore, hcapacity, hunique, hretains⟩ := ih hretains₁
    have hsame : s₁.admission = s.admission := by rw [admission, hcapacity₁, hunique₁]; rfl
    refine ⟨s', ?_, hcapacity.trans hcapacity₁, hunique.trans hunique₁, hsame ▸ hretains⟩
    rw [Store.after, List.foldl_cons, hstore₁]
    exact hstore

/-- **A new store stands for its history**, whatever it is asked for. -/
theorem create_represents (capacity : ℕ) (unique : Bool) (ops : List StoreOp) :
    ∃ s, (Store.memory (create capacity unique)).after ops = .memory s ∧
      s.capacity = max capacity 1 ∧ s.unique = unique ∧
      s.Represents (s.admission.history ops) := by
  obtain ⟨s, hstore, hcapacity, hunique, hretains⟩ := (retains_create capacity unique).after ops
  have hsame : (create capacity unique).admission = s.admission := by
    rw [admission, admission, hcapacity, hunique]
  refine ⟨s, hstore, hcapacity, hunique, Retains.represents ?_⟩
  rwa [← hsame]

end MemoryStore

end SmsRelay
