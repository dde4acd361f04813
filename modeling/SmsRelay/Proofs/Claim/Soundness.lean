import Mathlib.Data.List.Nodup
import SmsRelay.Proofs.Claim.Deeds
import SmsRelay.Proofs.Log.Numbering

/-!
# Invariants of a claim worker

Every task of a claim worker holds a slot of the pool; every call in the queue of the accumulator
belongs to a task, to the timer or to the last flush; and the worker goes through its stages one
after the other, so that nothing is left when it has finished.

## Implementation notes

The three invariants are separate because they have different reasons: `Slotted` is about the pool
and the offsets, `Queued` about the turn of the accumulator, `Staged` about the end. Each is kept by
every move, which is shown from `Effect` and not from the definitions of the moves.

## Main results

* `Effect.sound`: a move keeps the invariants.
* `Sound.length_held_le`: no more slots are in use than there are.
-/

namespace SmsRelay

/-- The stages of a claim worker, in order. -/
def WorkerPhase.stage : WorkerPhase → ℕ
  | receiving | acquiring _ | queued _ => 0
  | draining => 1
  | stoppingTimer => 2
  | flushing => 3
  | finished => 4

/-- The call that a task has in the queue. -/
def RecordTask.call? (t : RecordTask) : Option BatchCall :=
  match t.phase with
  | .offering => t.record.message?.map .offer
  | _ => none

namespace ClaimWorker

/-- The offsets of the tasks. -/
def offsets (w : ClaimWorker) : List ℕ := w.tasks.map (·.record.offset)

/-- The first offset that has not got a slot. -/
def reach (w : ClaimWorker) : ℕ :=
  match w.phase.current? with
  | some r => r.offset
  | none => w.claim.position

/-- The call that one of the actors has in the queue. -/
def call? (w : ClaimWorker) : WorkCaller → Option BatchCall
  | .task offset => (w.task? offset).bind (·.call?)
  | .timer => w.timer.call?
  | .drain => if w.phase.stage = 3 then some .flush else none

/-- The tasks hold the slots. -/
structure Slotted (w : ClaimWorker) : Prop where
  held : w.pool.held = w.offsets
  slots : w.pool.slots = w.pool.size
  opened : w.isReceiving → w.pool.closed = false
  order : w.offsets.Pairwise (· < ·)
  below : ∀ offset ∈ w.offsets, offset < w.reach
  ahead : ∀ r, w.phase.current? = some r → w.claim.position = r.offset + 1

/-- The calls in the queue belong to the actors. -/
structure Queued (w : ClaimWorker) : Prop where
  batch : w.batch.Sound
  callers : (w.batch.turn.map Prod.fst).Nodup
  calls : ∀ e ∈ w.batch.turn, w.call? e.1 = some e.2

/-- Nothing is left behind when the worker goes on. -/
structure Staged (w : ClaimWorker) : Prop where
  tasks : 2 ≤ w.phase.stage → w.tasks = []
  timer : 3 ≤ w.phase.stage → w.timer = .stopped
  records : 4 ≤ w.phase.stage → w.batch.records = []
  turn : 4 ≤ w.phase.stage → w.batch.turn = []

/-- The invariants of a claim worker. -/
structure Sound (w : ClaimWorker) : Prop where
  slotted : w.Slotted
  queued : w.Queued
  staged : w.Staged

theorem isReceiving_iff {w : ClaimWorker} : w.isReceiving ↔ w.phase.stage = 0 := by
  cases hphase : w.phase <;> simp [isReceiving, WorkerPhase.stage, hphase]

theorem stage_of_finished {w : ClaimWorker} (h : w.isFinished) : w.phase.stage = 4 := by
  cases hphase : w.phase <;> simp_all [isFinished, WorkerPhase.stage]

theorem stage_of_current {w : ClaimWorker} {r : Record} (h : w.phase.current? = some r) :
    w.phase.stage = 0 := by
  simp only [WorkerPhase.current?] at h
  split at h
  · rename_i hp
    rw [hp]
    rfl
  · rename_i hp
    rw [hp]
    rfl
  · cases h

theorem Slotted.nodup {w : ClaimWorker} (h : w.Slotted) : w.offsets.Nodup :=
  h.order.imp Nat.ne_of_lt

/-! ### The tasks -/

theorem map_of_ne {ts : List RecordTask} {offset : ℕ} (f : RecordTask → RecordTask)
    (h : ∀ u ∈ ts, u.record.offset ≠ offset) :
    (ts.map fun t => if t.record.offset = offset then f t else t) = ts := by
  refine (List.map_congr_left fun u hu => ?_).trans (List.map_id ts)
  exact if_neg (h u hu)

theorem filter_of_ne {ts : List RecordTask} {offset : ℕ}
    (h : ∀ u ∈ ts, u.record.offset ≠ offset) : ts.filter (·.record.offset ≠ offset) = ts := by
  rw [List.filter_eq_self]
  intro u hu
  simpa using h u hu

/-- The task of an offset stands alone. -/
theorem tasks_split {w : ClaimWorker} (hnodup : w.offsets.Nodup) {offset : ℕ} {t : RecordTask}
    (h : w.task? offset = some t) : ∃ before after, w.tasks = before ++ t :: after ∧
      (∀ u ∈ before ++ after, u.record.offset ≠ offset) ∧
      (∀ phase, (w.setPhase offset phase).tasks = before ++ { t with phase := phase } :: after) ∧
      w.tasks.filter (·.record.offset ≠ offset) = before ++ after := by
  obtain ⟨before, after, hsplit⟩ := List.append_of_mem (mem_of_task? h)
  have hothers : ∀ u ∈ before ++ after, u.record.offset ≠ offset := by
    intro u hu
    rw [offsets, hsplit, List.map_append, List.map_cons, List.nodup_middle, List.nodup_cons,
      ← List.map_append] at hnodup
    rw [← task?_offset h]
    exact fun heq => hnodup.1 (heq ▸ List.mem_map_of_mem hu)
  have hbefore : ∀ u ∈ before, u.record.offset ≠ offset :=
    fun u hu => hothers u (List.mem_append_left _ hu)
  have hafter : ∀ u ∈ after, u.record.offset ≠ offset :=
    fun u hu => hothers u (List.mem_append_right _ hu)
  refine ⟨before, after, hsplit, hothers, fun phase => ?_, ?_⟩
  · rw [setPhase, hsplit]
    simp only [List.map_append, List.map_cons, map_of_ne _ hbefore, map_of_ne _ hafter]
    rw [if_pos (task?_offset h)]
  · rw [hsplit, List.filter_append, List.filter_cons_of_neg (by simp [task?_offset h]),
      filter_of_ne hbefore, filter_of_ne hafter]

theorem offsets_setPhase (w : ClaimWorker) (offset : ℕ) (phase : TaskPhase) :
    (w.setPhase offset phase).offsets = w.offsets := by
  simp only [offsets, setPhase, List.map_map, List.map_inj_left, Function.comp_apply]
  intro t _
  split <;> rfl

theorem task?_setPhase (w : ClaimWorker) (offset : ℕ) (phase : TaskPhase) (offset' : ℕ) :
    (w.setPhase offset phase).task? offset' = (w.task? offset').map fun t =>
      if t.record.offset = offset then { t with phase := phase } else t := by
  rw [task?, setPhase, List.find?_map]
  congr 1
  refine congrArg (List.find? · w.tasks) (funext fun t => ?_)
  simp only [Function.comp_apply]
  split <;> rfl

theorem task?_setPhase_ne {w : ClaimWorker} {offset offset' : ℕ} (phase : TaskPhase)
    (h : offset' ≠ offset) : (w.setPhase offset phase).task? offset' = w.task? offset' := by
  rw [task?_setPhase]
  cases ht : w.task? offset' with
  | none => rfl
  | some t => rw [Option.map_some, if_neg fun heq => h ((task?_offset ht).symm.trans heq)]

theorem task?_setPhase_self {w : ClaimWorker} {offset : ℕ} {t : RecordTask} (phase : TaskPhase)
    (h : w.task? offset = some t) :
    (w.setPhase offset phase).task? offset = some { t with phase := phase } := by
  rw [task?_setPhase, h, Option.map_some, if_pos (task?_offset h)]

/-! ### Slots -/

theorem reach_of_none {w : ClaimWorker} (h : w.phase.current? = none) :
    w.reach = w.claim.position := by
  rw [reach, h]

theorem reach_of_some {w : ClaimWorker} {r : Record} (h : w.phase.current? = some r) :
    w.reach = r.offset := by
  rw [reach, h]

theorem Slotted.reach_le {w : ClaimWorker} (h : w.Slotted) : w.reach ≤ w.claim.position := by
  cases hcurrent : w.phase.current? with
  | none => exact Nat.le_of_eq (reach_of_none hcurrent)
  | some r =>
    rw [reach_of_some hcurrent, h.ahead r hcurrent]
    exact Nat.le_succ _

theorem Slotted.congr {w w' : ClaimWorker} (h : w.Slotted) (hheld : w'.pool.held = w.pool.held)
    (hslots : w'.pool.slots = w.pool.slots) (hsize : w'.pool.size = w.pool.size)
    (hopened : w'.isReceiving → w'.pool.closed = false) (hoffsets : w'.offsets = w.offsets)
    (hreach : w.reach ≤ w'.reach)
    (hahead : ∀ r, w'.phase.current? = some r → w'.claim.position = r.offset + 1) :
    w'.Slotted where
  held := by rw [hheld, h.held, hoffsets]
  slots := by rw [hslots, hsize, h.slots]
  opened := hopened
  order := by rw [hoffsets]; exact h.order
  below offset ho := by
    rw [hoffsets] at ho
    exact Nat.lt_of_lt_of_le (h.below offset ho) hreach
  ahead := hahead

/-- A move within the same phase that only changes what the tasks have come to. -/
theorem Slotted.frame {w w' : ClaimWorker} (h : w.Slotted) (hpool : w'.pool = w.pool)
    (hoffsets : w'.offsets = w.offsets) (hphase : w'.phase = w.phase)
    (hclaim : w'.claim = w.claim) : w'.Slotted := by
  have hreach : w'.reach = w.reach := by rw [reach, reach, hphase, hclaim]
  refine h.congr (by rw [hpool]) (by rw [hpool]) (by rw [hpool]) (fun hr => ?_) hoffsets
    (Nat.le_of_eq hreach.symm) fun r hr => ?_
  · rw [isReceiving, hphase] at hr
    rw [hpool]
    exact h.opened hr
  · rw [hclaim, h.ahead r (hphase ▸ hr)]

/-- A move into a phase in which the worker takes no records. -/
theorem Slotted.stay {w w' : ClaimWorker} (h : w.Slotted) (hheld : w'.pool.held = w.pool.held)
    (hslots : w'.pool.slots = w.pool.slots) (hsize : w'.pool.size = w.pool.size)
    (htasks : w'.tasks = w.tasks) (hclaim : w'.claim = w.claim) (hstage : 0 < w'.phase.stage) :
    w'.Slotted := by
  have hreceiving : ¬ w'.isReceiving := fun hr => by
    rw [isReceiving_iff.mp hr] at hstage
    exact Nat.lt_irrefl 0 hstage
  have hcurrent : ∀ r, w'.phase.current? ≠ some r := fun r hr =>
    hreceiving (isReceiving_iff.mpr (stage_of_current hr))
  refine h.congr hheld hslots hsize (fun hr => (hreceiving hr).elim)
    (by rw [offsets, offsets, htasks]) ?_ fun r hr => (hcurrent r hr).elim
  rw [reach_of_none (Option.eq_none_iff_forall_ne_some.mpr hcurrent), hclaim]
  exact h.reach_le

theorem Slotted.start {w : ClaimWorker} (h : w.Slotted) {r : Record} {p : WorkerPool}
    (hcurrent : w.phase.current? = some r) (htook : Took w.pool r.offset p) :
    Slotted { w with pool := p, phase := .receiving, tasks := w.tasks ++ [{ record := r }] } := by
  have hoffsets : offsets { w with
      pool := p, phase := .receiving, tasks := w.tasks ++ [{ record := r }] }
      = w.offsets ++ [r.offset] := by
    simp [offsets]
  have hopen : w.pool.closed = false :=
    h.opened (isReceiving_iff.mpr (stage_of_current hcurrent))
  have hbelow : ∀ offset ∈ w.offsets, offset < r.offset := by
    intro offset ho
    have := h.below offset ho
    rwa [reach_of_some hcurrent] at this
  refine ⟨?_, ?_, fun _ => htook.closed.trans hopen, ?_, ?_, fun r' hr' => by cases hr'⟩
  · rw [htook.held, h.held, hoffsets]
  · rw [htook.slots, htook.size, h.slots]
  · rw [hoffsets, List.pairwise_append]
    refine ⟨h.order, List.pairwise_singleton _ _, fun o ho o' ho' => ?_⟩
    rw [List.mem_singleton.mp ho']
    exact hbelow o ho
  · intro o ho
    rw [reach_of_none rfl]
    show o < w.claim.position
    rw [h.ahead r hcurrent]
    rw [hoffsets, List.mem_append, List.mem_singleton] at ho
    rcases ho with ho | rfl
    · exact Nat.lt_succ_of_lt (hbelow o ho)
    · exact Nat.lt_succ_self _

theorem held_release (p : WorkerPool) (who : ℕ) :
    (p.release who).held = p.held.erase who ∧ (p.release who).size = p.size ∧
      (p.release who).closed = p.closed := by
  rw [WorkerPool.release]
  split
  · exact samePool_handOn rfl
  · rename_i hmem
    exact ⟨(List.erase_of_not_mem hmem).symm, rfl, rfl⟩

theorem Slotted.finish {w : ClaimWorker} (h : w.Slotted) (offset : ℕ) :
    Slotted { w with
      pool := w.pool.release offset
      tasks := w.tasks.filter (·.record.offset ≠ offset) } := by
  obtain ⟨hheld, hsize, hclosed⟩ := held_release w.pool offset
  have hoffsets : offsets { w with
      pool := w.pool.release offset
      tasks := w.tasks.filter (·.record.offset ≠ offset) } = w.offsets.erase offset := by
    rw [h.nodup.erase_eq_filter, offsets, offsets, List.filter_map]
    refine congrArg (List.map _) (List.filter_congr fun t _ => ?_)
    simp only [ne_eq, decide_not, Function.comp_apply, bne, beq_eq_decide]
  refine ⟨?_, ?_, fun hr => hclosed.trans (h.opened hr), ?_, ?_, h.ahead⟩
  · rw [hheld, hoffsets, h.held]
  · rw [w.pool.slots_release, hsize, h.slots]
  · rw [hoffsets]
    exact h.order.sublist List.erase_sublist
  · intro o ho
    rw [hoffsets] at ho
    exact h.below o (List.mem_of_mem_erase ho)

/-- **Tasks hold the slots** after every move. -/
theorem Effect.slotted {w w' : ClaimWorker} {cancelled : Bool} {s s' : Site} {ds : List Deed}
    (hlog : s.log.Numbered) (h : Effect w cancelled s ds s' w') (hw : w.Slotted) : w'.Slotted := by
  cases h with
  | stop receiving same =>
    exact hw.stay same.held (same.slots ▸ WorkerPool.slots_close _) same.size rfl rfl Nat.one_pos
  | @read r c phase polled =>
    obtain ⟨rfl, -, -, p, -, -, hoffset⟩ := hlog.poll polled
    have hreach : w.reach = w.claim.position := reach_of_none (by rw [phase]; rfl)
    refine hw.congr rfl rfl rfl (fun _ => hw.opened ?_) rfl ?_ fun r' hr' => ?_
    · rw [isReceiving, phase]
    · rw [hreach, reach_of_some rfl, hoffset]
      exact Nat.le_max_left _ _
    · cases hr'
      rfl
  | @queue r p phase same =>
    refine hw.congr same.held same.slots same.size (fun _ => same.closed.trans (hw.opened ?_)) rfl
      ?_ fun r' hr' => ?_
    · rw [isReceiving, phase]
    · rw [reach_of_some (r := r) (by rw [phase]; rfl)]
      exact Nat.le_refl _
    · cases hr'
      exact hw.ahead r (by rw [phase]; rfl)
  | start current took => exact hw.start current took
  | drained | lastFlush => exact hw.stay rfl rfl rfl rfl rfl (Nat.succ_pos _)
  | flush => exact hw.stay rfl rfl rfl rfl rfl (by dsimp only; split <;> exact Nat.succ_pos _)
  | decode | drop =>
    exact hw.frame rfl (offsets_setPhase _ _ _) rfl rfl
  | @offer t reply =>
    cases reply with
    | none => exact hw.frame rfl rfl rfl rfl
    | some => exact hw.frame rfl (offsets_setPhase _ _ _) rfl rfl
  | finish => exact hw.finish _
  | tick => exact hw.frame rfl rfl rfl rfl

/-! ### Calls -/

theorem task?_filter_ne (w : ClaimWorker) {offset offset' : ℕ} (h : offset' ≠ offset) :
    (w.tasks.filter (·.record.offset ≠ offset)).find? (·.record.offset = offset')
      = w.task? offset' := by
  rw [List.find?_filter, task?]
  refine congrArg (List.find? · w.tasks) (funext fun t => ?_)
  by_cases ht : t.record.offset = offset'
  · simp [ht, h]
  · simp [ht]

theorem offset_ne {w : ClaimWorker} {offset offset' : ℕ} {t u : RecordTask}
    (ht : w.task? offset = some t) (hu : w.task? offset' = some u) (hphase : t.phase ≠ u.phase) :
    offset' ≠ offset := by
  rintro rfl
  rw [ht] at hu
  cases hu
  exact hphase rfl

/-- Moves that leave the task of an offset alone while it has a call leave its call alone. -/
theorem call?_task {w w' : ClaimWorker} {offset : ℕ} {call : BatchCall}
    (h : ∀ t, w.task? offset = some t → t.phase = .offering → w'.task? offset = some t)
    (hcall : w.call? (.task offset) = some call) : w'.call? (.task offset) = some call := by
  obtain ⟨t, ht, hc⟩ := Option.bind_eq_some_iff.mp hcall
  have hphase : t.phase = .offering := by
    rw [RecordTask.call?] at hc
    split at hc
    · assumption
    · cases hc
  rw [call?, h t ht hphase]
  exact hc

/-- A move that leaves the queue alone and takes no call from its actor. -/
theorem Queued.keep {w w' : ClaimWorker} (h : w.Queued) (hbatch : w'.batch = w.batch)
    (hcalls : ∀ who call, w.call? who = some call → w'.call? who = some call) : w'.Queued where
  batch := hbatch ▸ h.batch
  callers := by rw [hbatch]; exact h.callers
  calls e he := hcalls _ _ (h.calls e (hbatch ▸ he))

/-- An actor without a call joins the queue. -/
theorem Queued.ask {w w' : ClaimWorker} (h : w.Queued) {who : WorkCaller} {call : BatchCall}
    (hsound : w'.batch.Sound) (hturn : w'.batch.turn = w.batch.turn ++ [(who, call)])
    (hquiet : w.call? who = none) (hself : w'.call? who = some call)
    (hcalls : ∀ who' call', who' ≠ who → w.call? who' = some call' → w'.call? who' = some call') :
    w'.Queued := by
  have hout : ∀ e ∈ w.batch.turn, e.1 ≠ who := by
    rintro e he rfl
    rw [h.calls e he] at hquiet
    cases hquiet
  refine ⟨hsound, ?_, fun e he => ?_⟩
  · rw [hturn, List.map_append, List.nodup_append]
    refine ⟨h.callers, List.nodup_singleton _, fun x hx y hy => ?_⟩
    obtain ⟨e, he, rfl⟩ := List.mem_map.mp hx
    rw [List.mem_singleton.mp hy]
    exact hout e he
  · rw [hturn, List.mem_append, List.mem_singleton] at he
    rcases he with he | rfl
    · exact hcalls _ _ (hout e he) (h.calls e he)
    · exact hself

/-- The actor that has the turn takes a step. -/
theorem Queued.serve {w w' : ClaimWorker} (h : w.Queued) {who : WorkCaller}
    {reply : Option BatchReply} {o o' : Outlet}
    (heffect : w.batch.Effect o who ⟨reply, o', w'.batch⟩)
    (hcalls : ∀ who' call, who' ≠ who ∨ reply = none → w.call? who' = some call →
      w'.call? who' = some call) : w'.Queued := by
  obtain ⟨call, rest, hturn, hturn'⟩ := heffect.turn
  have hcallers := h.callers
  rw [hturn, List.map_cons, List.nodup_cons] at hcallers
  have hrest : ∀ e ∈ rest, e.1 ≠ who := by
    rintro e he rfl
    have hmem : e.1 ∈ rest.map Prod.fst := List.mem_map_of_mem he
    exact hcallers.1 hmem
  refine ⟨heffect.sound, ?_, fun e he => ?_⟩
  · rw [hturn']
    split
    · exact hcallers.2
    · rw [← hturn]
      exact h.callers
  · rw [hturn'] at he
    cases reply with
    | none => exact hcalls _ _ (.inr rfl) (h.calls e (hturn ▸ he))
    | some =>
      have he : e ∈ rest := he
      exact hcalls _ _ (.inl (hrest e he)) (h.calls e (hturn ▸ List.mem_cons_of_mem _ he))

/-- A step of the timer. -/
theorem Queued.tick {w w' : ClaimWorker} (h : w.Queued) {o : Outlet}
    {p : FlushTimer.Progress WorkCaller} (heffect : w.timer.Effect .timer w.batch o p)
    (hw' : w' = { w with timer := p.timer, batch := p.batch }) : w'.Queued := by
  subst hw'
  have hothers : ∀ (w₁ w₂ : ClaimWorker) who call, w₁.tasks = w₂.tasks → w₁.phase = w₂.phase →
      who ≠ .timer → w₁.call? who = some call → w₂.call? who = some call := by
    intro w₁ w₂ who call htasks hphase hne hcall
    cases who with
    | task => rwa [call?, task?, ← htasks]
    | timer => exact (hne rfl).elim
    | drain => rwa [call?, ← hphase]
  cases heffect with
  | @asks t' call signal quiet running calling =>
    have hsound : Accumulator.Sound { w.batch with signal := signal } :=
      ⟨h.batch.waits, h.batch.emptied⟩
    refine h.ask (hsound.ask _ _) rfl quiet calling ?_
    exact fun who' call' hne => hothers w _ who' call' rfl rfl hne
  | @waits o' b effect calling =>
    refine h.serve effect fun who' call' _ hcall => ?_
    by_cases hne : who' = .timer
    · subst hne
      exact hcall
    · exact hothers w _ who' call' rfl rfl hne hcall
  | @told t' reply o' b effect quiet =>
    exact h.serve effect fun who' call' hor =>
      hothers w _ who' call' rfl rfl (hor.resolve_right nofun)
  | @again t' call reply o' b effect calling =>
    have hmiddle : Queued { w with timer := .stopped, batch := b } :=
      h.serve effect fun who' call' hor => hothers w _ who' call' rfl rfl (hor.resolve_right nofun)
    refine hmiddle.ask (Accumulator.Sound.ask hmiddle.batch _ _) rfl rfl calling ?_
    exact fun who' call' hne => hothers _ _ who' call' rfl rfl hne
  | stops quiet =>
    refine h.keep rfl fun who call hcall => ?_
    by_cases hne : who = .timer
    · subst hne
      rw [call?, quiet] at hcall
      cases hcall
    · exact hothers w _ who call rfl rfl hne hcall

/-- **Calls belong to actors** after every move. -/
theorem Effect.queued {w w' : ClaimWorker} {cancelled : Bool} {s s' : Site} {ds : List Deed}
    (h : Effect w cancelled s ds s' w') (hw : w.Queued) : w'.Queued := by
  cases h with
  | stop receiving =>
    refine hw.keep rfl fun who call hcall => ?_
    cases who with
    | task | timer => exact hcall
    | drain =>
      rw [call?, isReceiving_iff.mp receiving] at hcall
      cases hcall
  | read phase | queue phase =>
    refine hw.keep rfl fun who call hcall => ?_
    cases who with
    | task | timer => exact hcall
    | drain =>
      rw [call?, phase] at hcall
      cases hcall
  | @start r p current =>
    refine hw.keep rfl fun who call hcall => ?_
    cases who with
    | task offset =>
      refine call?_task (fun t ht _ => ?_) hcall
      have ht : w.tasks.find? (·.record.offset = offset) = some t := ht
      rw [task?, List.find?_append, ht, Option.some_or]
    | timer => exact hcall
    | drain =>
      rw [call?, stage_of_current current] at hcall
      cases hcall
  | drained phase =>
    refine hw.keep rfl fun who call hcall => ?_
    cases who with
    | task | timer => exact hcall
    | drain =>
      rw [call?, phase] at hcall
      cases hcall
  | lastFlush phase =>
    refine hw.ask (hw.batch.ask _ _) rfl (by rw [call?, phase]; rfl) rfl
      fun who call hne hcall => ?_
    cases who with
    | task | timer => exact hcall
    | drain => exact (hne rfl).elim
  | @flush reply o b batches phase effect =>
    refine hw.serve effect fun who call hor hcall => ?_
    cases who with
    | task | timer => exact hcall
    | drain =>
      obtain rfl := hor.resolve_left (fun hne => hne rfl)
      rw [call?, phase] at hcall
      exact hcall
  | @decode t m task phase decoded =>
    have hself : (w.setPhase t.record.offset .offering).call? (.task t.record.offset)
        = some (.offer m) := by
      rw [call?, task?_setPhase_self _ task]
      simp [RecordTask.call?, Record.message?, decoded, Except.toOption]
    refine hw.ask (hw.batch.ask _ _) rfl ?_ hself fun who call hne hcall => ?_
    · rw [call?, task]
      simp [RecordTask.call?, phase]
    · cases who with
      | task offset =>
        refine call?_task (fun u hu _ => ?_) hcall
        exact (task?_setPhase_ne _ fun heq => hne (congrArg _ heq)).trans hu
      | timer | drain => exact hcall
  | @drop t e task phase =>
    refine hw.keep rfl fun who call hcall => ?_
    cases who with
    | task offset =>
      refine call?_task (fun u hu hphase => ?_) hcall
      rw [task?_setPhase_ne _ (offset_ne task hu (by rw [phase, hphase]; nofun)), hu]
    | timer | drain => exact hcall
  | @offer t reply o b batches task phase effect =>
    cases reply with
    | none =>
      refine hw.serve effect fun who call _ hcall => ?_
      cases who <;> exact hcall
    | some reply =>
      refine hw.serve effect fun who call hor hcall => ?_
      cases who with
      | task offset =>
        refine call?_task (fun u hu _ => ?_) hcall
        have hne := hor.resolve_right nofun
        exact (task?_setPhase_ne _ fun heq => hne (congrArg _ heq)).trans hu
      | timer | drain => exact hcall
  | @finish t task phase =>
    refine hw.keep rfl fun who call hcall => ?_
    cases who with
    | task offset =>
      refine call?_task (fun u hu hphase => ?_) hcall
      exact (task?_filter_ne w (offset_ne task hu (by rw [phase, hphase]; nofun))).trans hu
    | timer | drain => exact hcall
  | tick effect => exact hw.tick effect rfl

/-! ### Stages -/

theorem tasks_ne_nil {w : ClaimWorker} {offset : ℕ} {t : RecordTask}
    (h : w.task? offset = some t) : w.tasks ≠ [] :=
  List.ne_nil_of_mem (mem_of_task? h)

/-- While a task is left the worker has not begun to stop the timer. -/
theorem Staged.stage_lt {w : ClaimWorker} (h : w.Staged) {offset : ℕ} {t : RecordTask}
    (ht : w.task? offset = some t) : w.phase.stage < 2 :=
  Nat.lt_of_not_le fun hle => tasks_ne_nil ht (h.tasks hle)

/-- A worker in an early stage has nothing to prove. -/
theorem staged_of_lt {w : ClaimWorker} (h : w.phase.stage < 2) : w.Staged := by
  constructor <;> intro hle <;> omega

/-- In its last flush a worker has nobody else in the queue. -/
theorem turn_of_flushing {w : ClaimWorker} (hw : w.Queued) (hs : w.Staged)
    (hphase : w.phase = .flushing) {rest : List (WorkCaller × BatchCall)} {call : BatchCall}
    (hturn : w.batch.turn = (.drain, call) :: rest) : call = .flush ∧ rest = [] := by
  have hstage : w.phase.stage = 3 := by rw [hphase]; rfl
  have htasks : w.tasks = [] := hs.tasks (by omega)
  have htimer : w.timer = .stopped := hs.timer (by omega)
  have hcallers := hw.callers
  rw [hturn, List.map_cons, List.nodup_cons] at hcallers
  constructor
  · have hcall := hw.calls (.drain, call) (hturn ▸ List.mem_cons_self)
    rw [call?, if_pos hstage] at hcall
    exact (Option.some.inj hcall).symm
  · refine List.eq_nil_iff_forall_not_mem.mpr fun e he => ?_
    have hcall := hw.calls e (hturn ▸ List.mem_cons_of_mem _ he)
    have hmem : e.1 ∈ rest.map Prod.fst := List.mem_map_of_mem he
    cases hwho : e.1 with
    | task offset =>
      rw [hwho, call?, task?, htasks] at hcall
      cases hcall
    | timer =>
      rw [hwho, call?, htimer] at hcall
      cases hcall
    | drain =>
      rw [hwho] at hmem
      exact hcallers.1 hmem

/-- The end of the last flush leaves nothing in the accumulator. -/
theorem emptied_of_flush {w : ClaimWorker} (hw : w.Queued) (hs : w.Staged)
    (hphase : w.phase = .flushing) {reply : BatchReply} {o o' : Outlet}
    {b : Accumulator WorkCaller} (h : w.batch.Effect o .drain ⟨some reply, o', b⟩) :
    b.records = [] ∧ b.turn = [] := by
  cases h with
  | settled turn idle passed free records flushed =>
    obtain ⟨rfl, rfl⟩ := turn_of_flushing hw hs hphase turn
    exact ⟨flushed rfl, passed⟩
  | answered turn flushing due passed free records =>
    obtain ⟨rfl, rfl⟩ := turn_of_flushing hw hs hphase turn
    exact ⟨records.trans (hw.batch.emptied (by rw [flushing]; rfl)), passed⟩

/-- A timer that has stopped does nothing any more. -/
theorem tick_of_stopped {w : ClaimWorker} (hw : w.Queued) (htimer : w.timer = .stopped)
    {o : Outlet} {p : FlushTimer.Progress WorkCaller}
    (h : w.timer.Effect .timer w.batch o p) : p.timer = .stopped ∧ p.batch = w.batch := by
  have hquiet : w.call? .timer = none := by rw [call?, htimer]; rfl
  have hturn : ∀ {reply o' b}, ¬ w.batch.Effect o .timer ⟨reply, o', b⟩ := fun heffect => by
    obtain ⟨call, rest, hturn, -⟩ := heffect.turn
    have hcall := hw.calls (.timer, call) (hturn ▸ List.mem_cons_self)
    rw [hquiet] at hcall
    cases hcall
  cases h with
  | asks quiet running => exact (running htimer).elim
  | waits effect | told effect | again effect => exact (hturn effect).elim
  | stops => exact ⟨rfl, rfl⟩

/-- **Nothing is left behind** after every move. -/
theorem Effect.staged {w w' : ClaimWorker} {cancelled : Bool} {s s' : Site} {ds : List Deed}
    (h : Effect w cancelled s ds s' w') (hq : w.Queued) (hw : w.Staged) : w'.Staged := by
  cases h with
  | stop => exact staged_of_lt (show 1 < 2 from Nat.lt_succ_self 1)
  | read | queue | start => exact staged_of_lt (show 0 < 2 from Nat.succ_pos 1)
  | drained phase tasks =>
    refine ⟨fun _ => tasks, ?_, ?_, ?_⟩ <;> intro hle <;> simp [WorkerPhase.stage] at hle
  | lastFlush phase timer =>
    refine ⟨fun _ => hw.tasks (by rw [phase]; decide), fun _ => timer, ?_, ?_⟩ <;> intro hle <;>
      simp [WorkerPhase.stage] at hle
  | @flush reply o b batches phase effect =>
    have htasks := hw.tasks (by rw [phase]; decide)
    have htimer := hw.timer (by rw [phase]; decide)
    cases reply with
    | none =>
      refine ⟨fun _ => htasks, fun _ => htimer, ?_, ?_⟩ <;> intro hle <;>
        simp [WorkerPhase.stage] at hle
    | some reply =>
      obtain ⟨hrecords, hturn⟩ := emptied_of_flush hq hw phase effect
      exact ⟨fun _ => htasks, fun _ => htimer, fun _ => hrecords, fun _ => hturn⟩
  | decode task | drop task => exact staged_of_lt (hw.stage_lt task)
  | @offer t reply o b batches task =>
    cases reply with
    | none | some => exact staged_of_lt (hw.stage_lt task)
  | finish task => exact staged_of_lt (hw.stage_lt task)
  | @tick p batches effect handed =>
    refine ⟨hw.tasks, fun hle => ?_, fun hle => ?_, fun hle => ?_⟩
    · exact (tick_of_stopped hq (hw.timer hle) effect).1
    · have hidle := tick_of_stopped hq (hw.timer (Nat.le_of_succ_le hle)) effect
      exact (congrArg _ hidle.2).trans (hw.records hle)
    · have hidle := tick_of_stopped hq (hw.timer (Nat.le_of_succ_le hle)) effect
      exact (congrArg _ hidle.2).trans (hw.turn hle)

/-! ### All invariants -/

/-- **A move keeps the invariants.** -/
theorem Effect.sound {w w' : ClaimWorker} {cancelled : Bool} {s s' : Site} {ds : List Deed}
    (hlog : s.log.Numbered) (h : Effect w cancelled s ds s' w') (hw : w.Sound) : w'.Sound :=
  ⟨h.slotted hlog hw.slotted, h.queued hw.queued, h.staged hw.queued hw.staged⟩

theorem sound_create (c : Claim) (workers size timeout : ℕ) :
    (create c workers size timeout).Sound where
  slotted := by
    refine ⟨rfl, WorkerPool.slots_create workers, fun _ => rfl, List.Pairwise.nil, ?_, nofun⟩
    exact fun offset h => absurd h List.not_mem_nil
  queued := by
    refine ⟨Accumulator.sound_create size timeout, List.nodup_nil, ?_⟩
    exact fun e h => absurd h List.not_mem_nil
  staged := staged_of_lt (show 0 < 2 from Nat.succ_pos 1)

/-- A move of a sound worker is one of those that `Effect` lists. -/
theorem Sound.effect {w w' : ClaimWorker} {cancelled : Bool} {s s' : Site} {m : WorkerMove}
    (hw : w.Sound) (h : w.move? cancelled s m = some (s', w')) :
    Effect w cancelled s (w.deeds s m s' w') s' w' :=
  effect_of_move? hw.slotted.opened h

/-- A move neither adds slots nor takes any away. -/
theorem Effect.size_pool {w w' : ClaimWorker} {cancelled : Bool} {s s' : Site} {ds : List Deed}
    (h : Effect w cancelled s ds s' w') : w'.pool.size = w.pool.size := by
  cases h with
  | stop receiving same => exact same.size
  | queue phase same => exact same.size
  | start current took => exact took.size
  | @offer t reply => cases reply <;> rfl
  | finish => exact (held_release _ _).2.1
  | read | drained | lastFlush | flush | decode | drop | tick => rfl

/-- Slots held and slots on their way to a record are no more than the slots there are. -/
theorem Sound.length_held_le {w : ClaimWorker} (hw : w.Sound) :
    w.pool.held.length + w.pool.offered.length ≤ w.pool.size := by
  rw [← hw.slotted.slots, WorkerPool.slots]
  omega

end ClaimWorker

end SmsRelay
