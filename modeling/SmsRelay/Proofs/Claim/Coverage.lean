import SmsRelay.Proofs.Claim.Conservation
import SmsRelay.Proofs.Log.Settlement

/-!
# What a claim worker has covered

The records that a claim worker has at hand come from the partition of its claim. Whatever holds of
the offsets below its claim, of the bases of the log and of each record that gets a slot holds of
every offset up to the last one that has a task, and so of every offset below a mark.

## Implementation notes

A worker that takes no further records may let one go that it has read, and its claim stands behind
that record nevertheless. So what the worker has reached means something only while it is
receiving; the offsets of its tasks keep their meaning.

## Main results

* `Effect.claim`: a move leaves the place of the claim alone.
* `Effect.records`: a record at hand was at hand before or has been read from the claim.
* `Effect.settledBelow`: what holds below the offsets of the tasks still holds after a move, and
  below what the move commits.
-/

namespace SmsRelay

namespace ClaimWorker

/-- The records that the worker has at hand. -/
def records (w : ClaimWorker) : List Record := w.phase.current?.toList ++ w.tasks.map (·.record)

/-- A record stands in the partition of a claim. -/
structure InClaim (c : Claim) (r : Record) : Prop where
  topic : r.topic = c.topic
  partition : r.partition = c.partition

/-- Two claims of one group on one partition, granted together. -/
structure SameClaim (c c' : Claim) : Prop where
  group : c'.group = c.group
  topic : c'.topic = c.topic
  partition : c'.partition = c.partition
  generation : c'.generation = c.generation

theorem SameClaim.rfl {c : Claim} : SameClaim c c := ⟨Eq.refl _, Eq.refl _, Eq.refl _, Eq.refl _⟩

theorem SameClaim.trans {c c₁ c₂ : Claim} (h : SameClaim c c₁) (h' : SameClaim c₁ c₂) :
    SameClaim c c₂ :=
  ⟨h'.group.trans h.group, h'.topic.trans h.topic, h'.partition.trans h.partition,
    h'.generation.trans h.generation⟩

/-- **The claim stays** where it is, but for its position. -/
theorem Effect.claim {w w' : ClaimWorker} {cancelled : Bool} {s s' : Site} {ds : List Deed}
    (hlog : s.log.Numbered) (h : Effect w cancelled s ds s' w') : SameClaim w.claim w'.claim := by
  cases h with
  | read phase polled =>
    obtain ⟨rfl, -⟩ := hlog.poll polled
    exact ⟨rfl, rfl, rfl, rfl⟩
  | stop | queue | start | drained | lastFlush | flush | decode | drop | finish | tick =>
    exact .rfl
  | @offer t reply => cases reply <;> exact .rfl

theorem mem_records {w : ClaimWorker} {r : Record} :
    r ∈ w.records ↔ w.phase.current? = some r ∨ ∃ t ∈ w.tasks, t.record = r := by
  rw [records, List.mem_append, List.mem_map, Option.mem_toList]

/-- What the tasks have come to is no matter of their records. -/
theorem map_record_setPhase (w : ClaimWorker) (offset : ℕ) (phase : TaskPhase) :
    (w.setPhase offset phase).tasks.map (·.record) = w.tasks.map (·.record) := by
  simp only [setPhase, List.map_map, List.map_inj_left, Function.comp_apply]
  intro t _
  split <;> rfl

theorem records_setPhase (w : ClaimWorker) (offset : ℕ) (phase : TaskPhase) :
    (w.setPhase offset phase).records = w.records := by
  rw [records, records, map_record_setPhase]
  rfl

/-- A worker that has no record without a slot has at hand what its tasks have. -/
theorem mem_records_of_tasks {w w' : ClaimWorker} {r : Record} (h : r ∈ w'.records)
    (hcurrent : w'.phase.current? = none) (htasks : w'.tasks = w.tasks) : r ∈ w.records := by
  rw [mem_records, hcurrent, htasks] at h
  exact mem_records.mpr (.inr (h.resolve_left nofun))

/-- **Where records come from.** -/
theorem Effect.records {w w' : ClaimWorker} {cancelled : Bool} {s s' : Site} {ds : List Deed}
    (hlog : s.log.Numbered) (h : Effect w cancelled s ds s' w') {r : Record}
    (hr : r ∈ w'.records) : r ∈ w.records ∨ r ∈ s.log.records ∧ InClaim w.claim r := by
  cases h with
  | stop => exact .inl (mem_records_of_tasks hr rfl rfl)
  | @read r' c phase polled =>
    obtain ⟨-, htopic, hpart, p, hplace, hmem, -⟩ := hlog.poll polled
    rcases mem_records.mp hr with hcurrent | htask
    · cases hcurrent
      refine .inr ⟨hlog.mem_records_iff.mpr ⟨p, ?_, hmem⟩, htopic, hpart⟩
      rw [htopic, hpart, hplace]
    · exact .inl (mem_records.mpr (.inr htask))
  | @queue r' p phase =>
    rcases mem_records.mp hr with hcurrent | htask
    · cases hcurrent
      exact .inl (mem_records.mpr (.inl (by rw [phase]; rfl)))
    · exact .inl (mem_records.mpr (.inr htask))
  | @start r' p current =>
    obtain ⟨t, ht, rfl⟩ := (mem_records.mp hr).resolve_left nofun
    rcases List.mem_append.mp ht with ht | ht
    · exact .inl (mem_records.mpr (.inr ⟨t, ht, rfl⟩))
    · rw [List.mem_singleton.mp ht]
      exact .inl (mem_records.mpr (.inl current))
  | drained | lastFlush => exact .inl (mem_records_of_tasks hr rfl rfl)
  | @flush reply => cases reply <;> exact .inl (mem_records_of_tasks hr rfl rfl)
  | decode | drop =>
    rw [records_setPhase] at hr
    exact .inl hr
  | @offer t reply =>
    cases reply with
    | none => exact .inl hr
    | some reply =>
      refine .inl ?_
      rwa [if_pos (Option.isSome_some), records_setPhase] at hr
  | @finish t task phase =>
    rcases mem_records.mp hr with hcurrent | ⟨u, hu, rfl⟩
    · exact .inl (mem_records.mpr (.inl hcurrent))
    · exact .inl (mem_records.mpr (.inr ⟨u, List.mem_of_mem_filter hu, rfl⟩))
  | tick => exact .inl hr

/-- A record about which nothing has been decided is at hand. -/
theorem mem_records_of_undecided {w : ClaimWorker} {r : Record} (h : r ∈ w.undecided) :
    r ∈ w.records := by
  obtain ⟨t, ht, rfl⟩ := List.mem_map.mp h
  exact mem_records.mpr (.inr ⟨t, List.mem_of_mem_filter ht, rfl⟩)

/-- A record that gets a slot is at hand. -/
theorem Effect.received_mem {w w' : ClaimWorker} {cancelled : Bool} {s s' : Site} {ds : List Deed}
    (h : Effect w cancelled s ds s' w') {r : Record} (hr : r ∈ ds.filterMap Deed.received?) :
    w.phase.current? = some r := by
  cases h with
  | start current =>
    rw [List.mem_singleton.mp hr]
    exact current
  | stop | read | queue | drained | lastFlush | decode | drop | finish => cases hr
  | flush | tick => simp at hr
  | offer =>
    rw [List.filterMap_append, Deed.filterMap_offered rfl] at hr
    simp at hr

/-! ### What holds below the offsets of a worker -/

variable {Q : OffsetProperty}

/-- The property holds of the offsets that the worker has reached and of those up to its tasks. -/
structure SettledBelow (Q : OffsetProperty) (w : ClaimWorker) : Prop where
  reached : w.isReceiving → ∀ o < w.reach, Q w.claim.group w.claim.topic w.claim.partition o
  tasks : ∀ offset ∈ w.offsets, ∀ o ≤ offset, Q w.claim.group w.claim.topic w.claim.partition o

theorem settledBelow_create {c : Claim} (h : c.SettledBelow Q) (workers size timeout : ℕ) :
    (create c workers size timeout).SettledBelow Q where
  reached _ := h
  tasks _ ho := absurd ho List.not_mem_nil

/-- A move that reaches nothing new and adds no task. -/
theorem SettledBelow.keep {w w' : ClaimWorker} (h : w.SettledBelow Q)
    (hclaim : SameClaim w.claim w'.claim)
    (hreach : w'.isReceiving → w.isReceiving ∧ w'.reach = w.reach)
    (hoffsets : w'.offsets ⊆ w.offsets) : w'.SettledBelow Q where
  reached hr := by
    obtain ⟨hbefore, hsame⟩ := hreach hr
    rw [hclaim.group, hclaim.topic, hclaim.partition, hsame]
    exact h.reached hbefore
  tasks offset ho := by
    rw [hclaim.group, hclaim.topic, hclaim.partition]
    exact h.tasks offset (hoffsets ho)

/-- A move into a phase in which the worker takes no records. -/
theorem SettledBelow.stay {w w' : ClaimWorker} (h : w.SettledBelow Q) (hclaim : w'.claim = w.claim)
    (htasks : w'.tasks = w.tasks) (hstage : 0 < w'.phase.stage) : w'.SettledBelow Q := by
  refine h.keep (hclaim ▸ .rfl) (fun hr => ?_) fun offset ho => ?_
  · rw [isReceiving_iff.mp hr] at hstage
    exact (Nat.lt_irrefl 0 hstage).elim
  · rwa [offsets, htasks] at ho

/-- A move that leaves the phase and the offsets alone. -/
theorem SettledBelow.frame {w w' : ClaimWorker} (h : w.SettledBelow Q) (hclaim : w'.claim = w.claim)
    (hphase : w'.phase = w.phase) (hoffsets : w'.offsets = w.offsets) : w'.SettledBelow Q := by
  refine h.keep (hclaim ▸ .rfl) (fun hr => ⟨?_, ?_⟩) fun offset ho => hoffsets ▸ ho
  · rwa [isReceiving, hphase] at hr
  · rw [reach, reach, hphase, hclaim]

theorem SettledBelow.mono {Q' : OffsetProperty} {w : ClaimWorker} (h : w.SettledBelow Q)
    (hQ : ∀ g t i o, Q g t i o → Q' g t i o) : w.SettledBelow Q' where
  reached hr o ho := hQ _ _ _ _ (h.reached hr o ho)
  tasks offset ho o hle := hQ _ _ _ _ (h.tasks offset ho o hle)

/-- The property holds of the offsets of a partition that have been dropped. -/
def BaseSettled (Q : OffsetProperty) (l : Log) (c : Claim) : Prop :=
  ∀ p, l.partitionAt c.topic c.partition = some p → ∀ o < p.base, Q c.group c.topic c.partition o

/-- **What holds below a worker** holds after a move, if it holds of the record that gets a slot. -/
theorem Effect.settledBelow {w w' : ClaimWorker} {cancelled : Bool} {s s' : Site} {ds : List Deed}
    (hlog : s.log.Numbered) (h : Effect w cancelled s ds s' w') (hw : w.SettledBelow Q)
    (hbase : BaseSettled Q s.log w.claim)
    (hreceived : ∀ r ∈ ds.filterMap Deed.received?,
      Q w.claim.group w.claim.topic w.claim.partition r.offset) (hslotted : w.Slotted) :
    w'.SettledBelow Q := by
  cases h with
  | stop | drained | lastFlush => exact hw.stay rfl rfl (Nat.succ_pos _)
  | @read r c phase polled =>
    obtain ⟨rfl, -, -, p, hplace, -, hoffset⟩ := hlog.poll polled
    have hreceiving : w.isReceiving := by rw [isReceiving, phase]
    have hreach : w.reach = w.claim.position := reach_of_none (by rw [phase]; rfl)
    refine ⟨fun _ o (ho : o < r.offset) => ?_, hw.tasks⟩
    rcases Nat.lt_or_ge o w.claim.position with hlt | hge
    · exact hw.reached hreceiving o (hreach ▸ hlt)
    · exact hbase p hplace o (by omega)
  | @queue r p phase =>
    refine hw.keep .rfl (fun _ => ⟨?_, ?_⟩) (List.Subset.refl _)
    · rw [isReceiving, phase]
    · rw [reach_of_some (r := r) rfl, reach_of_some (r := r) (by rw [phase]; rfl)]
  | @start r p current =>
    have hreach : w.reach = r.offset := reach_of_some current
    have hreceiving := isReceiving_iff.mpr (stage_of_current current)
    have hbelow : ∀ o < r.offset + 1, Q w.claim.group w.claim.topic w.claim.partition o := by
      intro o ho
      rcases Nat.lt_or_ge o r.offset with hlt | hge
      · exact hw.reached hreceiving o (hreach ▸ hlt)
      · obtain rfl : o = r.offset := by omega
        exact hreceived r (List.mem_singleton_self r)
    refine ⟨fun _ o ho => hbelow o ?_, fun offset ho o hle => ?_⟩
    · rwa [reach_of_none rfl, hslotted.ahead r current] at ho
    · rw [ClaimWorker.offsets, List.map_append, List.mem_append] at ho
      rcases ho with ho | ho
      · exact hw.tasks offset ho o hle
      · rw [List.mem_singleton.mp ho] at hle
        exact hbelow o (Nat.lt_succ_of_le hle)
  | @flush reply => cases reply <;> exact hw.stay rfl rfl (Nat.succ_pos _)
  | decode | drop => exact hw.frame rfl rfl (offsets_setPhase _ _ _)
  | @offer t reply =>
    cases reply with
    | none => exact hw.frame rfl rfl rfl
    | some reply => exact hw.frame rfl rfl (offsets_setPhase _ _ _)
  | finish =>
    refine hw.keep .rfl (fun hr => ⟨hr, rfl⟩) fun offset ho => ?_
    obtain ⟨t, ht, rfl⟩ := List.mem_map.mp ho
    exact List.mem_map_of_mem (List.mem_of_mem_filter ht)
  | tick => exact hw.frame rfl rfl rfl

/-- **What holds below a worker holds below what it commits.** -/
theorem Effect.settledBelow_log {w w' : ClaimWorker} {cancelled : Bool} {s s' : Site}
    {ds : List Deed} (h : Effect w cancelled s ds s' w') (hw : w.SettledBelow Q)
    (hlog : s.log.SettledBelow Q) : s'.log.SettledBelow Q := by
  cases h with
  | @finish t task phase =>
    exact hlog.mark (hw.tasks _ (List.mem_map_of_mem (mem_of_task? task)))
  | stop | read | queue | start | drained | lastFlush | flush | decode | drop | offer | tick =>
    exact hlog

end ClaimWorker

end SmsRelay
