import SmsRelay.Proofs.Batch.Handover
import SmsRelay.Proofs.Moves

/-!
# Batching

An accumulator from its creation on, with any callers. Others change the store and the way to it as
they like and time passes; the calls of this accumulator are the only ones on its link.

## Main results

* `Ledger.turn`: what a step keeps.
* `BatchRun.ledger`: what holds in every reachable state.
* `BatchRun.batched`: no loss, no overlap, sizes and reasons of batches, a fresh start after each.
-/

namespace SmsRelay

open BatchEvent

namespace StoreLink

/-- No batch has come this way. -/
structure Unused (l : StoreLink) : Prop where
  handed : l.handed = []
  running : l.running = 0
  peak : l.peak = 0

@[simp] theorem handed_answer (l : StoreLink) (c : StoreCall) :
    (l.answer c).2.handed = l.handed := by
  simp only [answer]
  split <;> rfl

theorem running_answer (l : StoreLink) (c : StoreCall) :
    (l.answer c).2.running = l.running - 1 ∧ (l.answer c).2.peak = l.peak := by
  simp only [answer]
  split <;> exact ⟨rfl, rfl⟩

/-- One call at a time stays one call at a time. -/
theorem Use.alone {l l' : StoreLink} {c c' : Option StoreCall} (h : l.Use c l' c')
    (running : l.running = c.toList.length) (peak : l.peak ≤ 1) :
    l'.running = c'.toList.length ∧ l'.peak ≤ 1 := by
  cases h with
  | none => exact ⟨running, peak⟩
  | hand now batch =>
    have hzero : l.running = 0 := running
    constructor
    · show l.running + 1 = 1
      rw [hzero]
    · show max l.peak (l.running + 1) ≤ 1
      omega
  | answer c =>
    have hone : l.running = 1 := running
    obtain ⟨hrunning, hpeak⟩ := l.running_answer c
    rw [hrunning, hpeak]
    exact ⟨by rw [hone]; rfl, peak⟩

end StoreLink

/-- What others may do to an outlet: time passes, the store and the counters change and the link
behaves otherwise from now on, but no batch goes over it. -/
structure Outlet.Elsewhere (o o' : Outlet) : Prop where
  later : o.now ≤ o'.now
  handed : o'.link.handed = o.link.handed
  running : o'.link.running = o.link.running
  peak : o'.link.peak = o.link.peak

/-- A run of an accumulator for batches of `maxSize` messages, with its history. -/
inductive BatchRun (κ : Type) [DecidableEq κ] (maxSize timeout : ℕ) :
    Accumulator κ → Outlet → List (BatchEvent κ) → Prop
  | start {o : Outlet} (unused : o.link.Unused) :
      BatchRun κ maxSize timeout (.create κ maxSize timeout) o []
  /-- Someone makes a call. -/
  | ask {a : Accumulator κ} {o : Outlet} {h : List (BatchEvent κ)}
      (run : BatchRun κ maxSize timeout a o h) (who : κ) (call : BatchCall) :
      BatchRun κ maxSize timeout (a.ask who call) o (h ++ [.asked who call])
  /-- The caller that has the turn takes a step. -/
  | step {a : Accumulator κ} {o : Outlet} {h : List (BatchEvent κ)} {who : κ}
      {p : Accumulator.Progress κ} (run : BatchRun κ maxSize timeout a o h)
      (stepped : a.step? o who = some p) :
      BatchRun κ maxSize timeout p.batch p.outlet (h ++ a.events o who)
  /-- Someone takes note of the beginning of a batch. -/
  | heard {a : Accumulator κ} {o : Outlet} {h : List (BatchEvent κ)}
      (run : BatchRun κ maxSize timeout a o h) :
      BatchRun κ maxSize timeout { a with signal := false } o h
  /-- Others go on. -/
  | elsewhere {a : Accumulator κ} {o o' : Outlet} {h : List (BatchEvent κ)}
      (run : BatchRun κ maxSize timeout a o h) (others : o.Elsewhere o') :
      BatchRun κ maxSize timeout a o' h

/-- A batch as it should be: neither empty nor too large, handed over by a flush, by a tick or by
the offer that filled it, and begun at some time; a tick comes only when its own deadline has
come. -/
structure Handover.Fits {κ : Type} (x : Handover κ) (maxSize timeout : ℕ) : Prop where
  nonempty : 1 ≤ x.batch.length
  small : x.batch.length ≤ maxSize
  reason : x.call = .flush ∨ x.call = .tick ∨ (∃ m, x.call = .offer m) ∧ x.batch.length = maxSize
  begun : ∃ begun, x.begun = some begun ∧ (x.call = .tick → begun + timeout ≤ x.now)

namespace Accumulator

variable {κ : Type} {a : Accumulator κ} {o : Outlet} {who : κ} {p : Progress κ}
  {h es : List (BatchEvent κ)}

/-- What the history says about the batch under construction. -/
structure Present (a : Accumulator κ) (h : List (BatchEvent κ)) : Prop where
  room : a.records.length < a.maxSize
  deadline : a.deadline = (begun h).map (· + a.timeout)
  begun : begun h = none ↔ a.records = []

theorem Present.deadline_eq_none (hp : a.Present h) : a.deadline = none ↔ a.records = [] := by
  rw [hp.deadline, Option.map_eq_none_iff, hp.begun]

theorem Present.begun_of_deadline (hp : a.Present h) {d : ℕ} (hd : a.deadline = some d) :
    ∃ b, BatchEvent.begun h = some b ∧ d = b + a.timeout := by
  rw [hp.deadline, Option.map_eq_some_iff] at hd
  obtain ⟨b, hb, rfl⟩ := hd
  exact ⟨b, hb, rfl⟩

theorem present_of_nil (size : 0 < a.maxSize) (records : a.records = [])
    (deadline : a.deadline = none) (hb : BatchEvent.begun h = none) : a.Present h where
  room := by rw [records]; exact size
  deadline := by rw [deadline, hb]; rfl
  begun := by simp [hb, records]

/-- When a message has come into the batch, the batch has been begun and has a deadline. -/
theorem Present.push (hp : a.Present h) (now : ℕ) (m : Message) :
    (a.push now m).deadline
        = (BatchEvent.begun (h ++ [.taken now m])).map (· + a.timeout) ∧
      BatchEvent.begun (h ++ [.taken now m]) ≠ none := by
  rw [begun_append_taken]
  refine ⟨?_, Option.some_ne_none _⟩
  by_cases hrecords : a.records = []
  · rw [Accumulator.push, if_pos hrecords, hp.begun.mpr hrecords]
    rfl
  · rw [Accumulator.push, if_neg hrecords]
    cases hb : BatchEvent.begun h with
    | none => exact absurd (hp.begun.mp hb) hrecords
    | some b => exact hp.deadline.trans (by rw [hb]; rfl)

theorem Turn.same (ht : Turn a o who p es) :
    p.batch.maxSize = a.maxSize ∧ p.batch.timeout = a.timeout := by
  cases ht with
  | put | fill => exact ⟨maxSize_push a _ _, timeout_push a _ _⟩
  | early | empty | flush | told | answered => exact ⟨rfl, rfl⟩

/-- A step keeps what the history says about the batch under construction. -/
theorem Turn.present (ht : Turn a o who p es) (hs : a.Sound) (hp : a.Present h) :
    p.batch.Present (h ++ es) := by
  have hsize : 0 < a.maxSize := Nat.zero_lt_of_lt hp.room
  cases ht with
  | @put m rest turn idle room =>
    obtain ⟨hdeadline, hbegun⟩ := hp.push o.now m
    refine ⟨?_, ?_, ?_⟩
    · show (a.push o.now m).records.length < (a.push o.now m).maxSize
      rw [length_push, maxSize_push]
      exact room
    · show (a.push o.now m).deadline = _
      rw [hdeadline]
      show _ = Option.map (· + (a.push o.now m).timeout) _
      rw [timeout_push]
    · constructor
      · intro hnone
        exact absurd hnone hbegun
      · intro hnil
        have : (a.push o.now m).records = [] := hnil
        rw [records_push] at this
        simp at this
  | @fill m rest turn idle full =>
    refine present_of_nil ?_ rfl rfl ?_
    · show 0 < (a.push o.now m).maxSize
      rwa [maxSize_push]
    · rw [List.append_cons, begun_append_handed]
  | early | told =>
    rw [List.append_nil]
    exact ⟨hp.room, hp.deadline, hp.begun⟩
  | empty turn idle asked hrecords =>
    rw [List.append_nil]
    exact present_of_nil hsize hrecords rfl (hp.begun.mpr hrecords)
  | flush => exact present_of_nil hsize rfl rfl (begun_append_handed _ _ _ _ _)
  | answered turn flushing =>
    have hrecords := hs.emptied (by rw [flushing]; rfl)
    rw [List.append_nil]
    exact present_of_nil hsize hrecords (hp.deadline_eq_none.mpr hrecords) (hp.begun.mpr hrecords)

/-- A step of the caller `who` hands this batch over: its call has the turn, and the batch has just
been begun or has the deadline that the accumulator keeps. -/
structure Hands (a : Accumulator κ) (o : Outlet) (who : κ) (x : Handover κ) : Prop where
  now : x.now = o.now
  caller : x.who = who
  turn : (who, x.call) ∈ a.turn
  begun : x.begun = some o.now ∨ x.begun.map (· + a.timeout) = a.deadline

/-- Every batch that a step hands over is as it should be, and it is the last one on the link. -/
theorem Turn.handovers (ht : Turn a o who p es) (hp : a.Present h) :
    ∃ xs, BatchEvent.handovers (h ++ es) = BatchEvent.handovers h ++ xs ∧
      p.outlet.link.handed = o.link.handed ++ xs.map (·.batch) ∧
      ∀ x ∈ xs, x.Fits a.maxSize a.timeout ∧ a.Hands o who x := by
  cases ht with
  | @put m rest turn idle room =>
    exact ⟨[], by rw [handovers_append_taken, List.append_nil], (List.append_nil _).symm, nofun⟩
  | @fill m rest turn idle full =>
    refine ⟨[_], by rw [List.append_cons, handovers_append_handed, handovers_append_taken], rfl, ?_⟩
    intro x hx
    rw [List.mem_singleton.mp hx]
    have hlength : (a.records ++ [m]).length = a.records.length + 1 := List.length_append
    have hroom := hp.room
    constructor
    · constructor
      · show 1 ≤ (a.records ++ [m]).length
        omega
      · show (a.records ++ [m]).length ≤ a.maxSize
        omega
      · refine .inr (.inr ⟨⟨m, rfl⟩, ?_⟩)
        show (a.records ++ [m]).length = a.maxSize
        omega
      · exact ⟨_, begun_append_taken h o.now m, fun htick => by cases htick⟩
    · refine ⟨rfl, rfl, by rw [turn]; exact List.mem_cons_self, ?_⟩
      show BatchEvent.begun (h ++ [.taken o.now m]) = _ ∨
        Option.map _ (BatchEvent.begun (h ++ [.taken o.now m])) = _
      rw [begun_append_taken, hp.deadline]
      cases BatchEvent.begun h with
      | none => exact .inl rfl
      | some b => exact .inr rfl
  | early | empty | told =>
    exact ⟨[], by simp, (List.append_nil _).symm, nofun⟩
  | answered =>
    refine ⟨[], by simp, ?_, nofun⟩
    show (o.link.answer _).2.handed = _
    rw [StoreLink.handed_answer, List.map_nil, List.append_nil]
  | @flush call rest turn idle nonempty due =>
    refine ⟨[_], handovers_append_handed h o.now who call a.records, rfl, ?_⟩
    intro x hx
    rw [List.mem_singleton.mp hx]
    have hhands : a.Hands o who ⟨BatchEvent.begun h, o.now, who, call, a.records⟩ :=
      ⟨rfl, rfl, by rw [turn]; exact List.mem_cons_self, .inr hp.deadline.symm⟩
    refine ⟨⟨List.length_pos_iff.mpr nonempty, Nat.le_of_lt hp.room,
      due.imp_right fun htick => .inl htick.1, ?_⟩, hhands⟩
    cases hb : BatchEvent.begun h with
    | none => exact absurd (hp.begun.mp hb) nonempty
    | some b =>
      refine ⟨b, rfl, fun htick => ?_⟩
      rcases due with hflush | ⟨-, d, hd, hle⟩
      · have htick : call = .tick := htick
        rw [hflush] at htick
        cases htick
      · obtain ⟨b', hb', rfl⟩ := hp.begun_of_deadline hd
        rw [hb, Option.some.injEq] at hb'
        rw [hb']
        exact hle

/-- The messages of a step that come into the batch are those of the call that has its turn. -/
theorem Turn.taken (ht : Turn a o who p es) :
    es.filterMap taken? = a.served ∧ es.filterMap offered? = [] := by
  cases ht with
  | put turn idle | fill turn idle | early turn idle | told turn idle =>
    rw [served, next_of_idle idle turn]
    exact ⟨rfl, rfl⟩
  | empty turn idle asked =>
    rw [served, next_of_idle idle turn]
    rcases asked with rfl | rfl <;> exact ⟨rfl, rfl⟩
  | flush turn idle nonempty due =>
    rw [served, next_of_idle idle turn]
    rcases due with rfl | ⟨rfl, -⟩ <;> exact ⟨rfl, rfl⟩
  | answered turn flushing =>
    rw [served, next_of_flushing flushing]
    exact ⟨rfl, rfl⟩

/-- After the answer of the store the accumulator is as good as new. -/
theorem Turn.fresh {c : StoreCall} (ht : Turn a o who p es) (hs : a.Sound) (hp : a.Present h)
    (flushing : a.flushing = some c) : p.reply.isSome ∧
      p.batch = { a with
        records := [], deadline := none, flushing := none, turn := a.turn.tail } := by
  cases ht with
  | put turn idle | fill turn idle | early turn idle | empty turn idle | flush turn idle
  | told turn idle =>
    rw [flushing] at idle
    cases idle
  | @answered call rest c' turn flushing' due =>
    have hrecords := hs.emptied (by rw [flushing]; rfl)
    have hdeadline := hp.deadline_eq_none.mpr hrecords
    refine ⟨rfl, ?_⟩
    show { a with turn := a.turn.tail, flushing := none } = _
    rw [← hrecords, ← hdeadline]

/-- What the history says about an accumulator and its link. -/
structure Ledger (a : Accumulator κ) (o : Outlet) (h : List (BatchEvent κ)) : Prop where
  sound : a.Sound
  present : a.Present h
  taken : o.link.handed.flatten ++ a.records = h.filterMap taken?
  offered : h.filterMap offered? = h.filterMap taken? ++ a.unserved.filterMap (·.2.offered?)
  handed : o.link.handed = (handovers h).map (·.batch)
  running : o.link.running = a.flushing.toList.length
  peak : o.link.peak ≤ 1
  fits : ∀ x ∈ handovers h, x.Fits a.maxSize a.timeout

theorem ledger_create (κ : Type) (maxSize timeout : ℕ) {o : Outlet} (unused : o.link.Unused) :
    (create κ maxSize timeout).Ledger o [] where
  sound := sound_create maxSize timeout
  present := present_of_nil (Nat.lt_of_lt_of_le Nat.one_pos (Nat.le_max_right _ _)) rfl rfl rfl
  taken := by rw [unused.handed]; rfl
  offered := rfl
  handed := unused.handed
  running := unused.running
  peak := by rw [unused.peak]; exact Nat.zero_le 1
  fits := nofun

theorem Ledger.ask (hl : a.Ledger o h) (who : κ) (call : BatchCall) :
    (a.ask who call).Ledger o (h ++ [.asked who call]) where
  sound := hl.sound.ask who call
  present := by
    obtain ⟨room, deadline, begun⟩ := hl.present
    rw [← begun_append_asked h who call] at deadline begun
    exact ⟨room, deadline, begun⟩
  taken := by
    rw [List.filterMap_append]
    exact hl.taken.trans (List.append_nil _).symm
  offered := by
    rw [hl.sound.unserved_ask, List.filterMap_append, List.filterMap_append, List.filterMap_append,
      hl.offered]
    simp [List.filterMap_cons]
  handed := hl.handed.trans (by rw [handovers_append_asked])
  running := hl.running
  peak := hl.peak
  fits := by
    rw [handovers_append_asked]
    exact hl.fits

/-- **A step keeps the ledger.** -/
theorem Ledger.turn [DecidableEq κ] (hl : a.Ledger o h) (hp : a.step? o who = some p) :
    p.batch.Ledger p.outlet (h ++ a.events o who) := by
  have heffect := effect_of_step? hp
  have hturn := turn_of_step? hp
  obtain ⟨htaken, hoffered⟩ := hturn.taken
  obtain ⟨hmaxSize, htimeout⟩ := hturn.same
  obtain ⟨xs, hhandovers, hhanded, hfits⟩ := hturn.handovers hl.present
  obtain ⟨hrunning, hpeak⟩ := heffect.use.alone hl.running hl.peak
  refine ⟨heffect.sound, hturn.present hl.sound hl.present, ?_, ?_, ?_, hrunning, hpeak, ?_⟩
  · obtain ⟨batches, hlink, hrecords⟩ := heffect.handed_append
    calc p.outlet.link.handed.flatten ++ p.batch.records
        = o.link.handed.flatten ++ (batches.flatten ++ p.batch.records) := by
          rw [hlink, List.flatten_append, List.append_assoc]
      _ = (o.link.handed.flatten ++ a.records) ++ a.served := by rw [hrecords, List.append_assoc]
      _ = (h ++ a.events o who).filterMap taken? := by
          rw [hl.taken, List.filterMap_append, htaken]
  · calc (h ++ a.events o who).filterMap offered?
        = h.filterMap taken? ++ a.unserved.filterMap (·.2.offered?) := by
          rw [List.filterMap_append, hoffered, List.append_nil, hl.offered]
      _ = h.filterMap taken? ++ (a.served ++ p.batch.unserved.filterMap (·.2.offered?)) := by
          rw [heffect.unserved, List.filterMap_append, served]
      _ = (h ++ a.events o who).filterMap taken? ++ p.batch.unserved.filterMap (·.2.offered?) := by
          rw [List.filterMap_append, htaken, List.append_assoc]
  · rw [hhandovers, List.map_append, hhanded, hl.handed]
  · rw [hhandovers, hmaxSize, htimeout]
    exact List.forall_mem_append.mpr ⟨hl.fits, fun x hx => (hfits x hx).1⟩

end Accumulator

namespace BatchRun

open Accumulator

variable {κ : Type} [DecidableEq κ] {maxSize timeout : ℕ} {a : Accumulator κ} {o : Outlet}
  {h : List (BatchEvent κ)}

theorem same (run : BatchRun κ maxSize timeout a o h) :
    a.maxSize = max maxSize 1 ∧ a.timeout = timeout := by
  induction run with
  | start => exact ⟨rfl, rfl⟩
  | ask run who call ih => exact ih
  | step run stepped ih =>
    obtain ⟨hmaxSize, htimeout⟩ := (turn_of_step? stepped).same
    exact ⟨hmaxSize.trans ih.1, htimeout.trans ih.2⟩
  | heard run ih => exact ih
  | elsewhere run others ih => exact ih

theorem ledger (run : BatchRun κ maxSize timeout a o h) : a.Ledger o h := by
  induction run with
  | start unused => exact ledger_create κ maxSize timeout unused
  | ask run who call ih => exact ih.ask who call
  | step run stepped ih => exact ih.turn stepped
  | heard run ih =>
    exact { ih with
      sound := ⟨ih.sound.waits, ih.sound.emptied⟩
      present := ⟨ih.present.room, ih.present.deadline, ih.present.begun⟩ }
  | elsewhere run others ih =>
    exact { ih with
      taken := by rw [others.handed]; exact ih.taken
      handed := others.handed.trans ih.handed
      running := others.running.trans ih.running
      peak := by rw [others.peak]; exact ih.peak }

/-- **Batching.** In every state that an accumulator reaches, never has more than one call to the
store been under way. The batches handed over so far, followed by the batch under construction, are
the messages taken in the order in which their offers had their turns, and these are the messages of
the offers that were made, in the order in which they were made, up to those that still wait. Every
batch has at least one message and no more than fit; one that has fewer was handed over by a flush,
or by a tick no earlier than its deadline, which comes `timeout` after its first message was taken.
When no call to the store is under way the batch under construction has room. Whatever the store
answers, the caller hears of it, and the accumulator is a new one but for the callers that wait and
the signal. -/
theorem batched (run : BatchRun κ maxSize timeout a o h) :
    o.link.peak ≤ 1 ∧
    o.link.handed = (handovers h).map (·.batch) ∧
    o.link.handed.flatten ++ a.records = h.filterMap taken? ∧
    h.filterMap offered? = h.filterMap taken? ++ a.unserved.filterMap (·.2.offered?) ∧
    (∀ x ∈ handovers h, 1 ≤ x.batch.length ∧ x.batch.length ≤ max maxSize 1 ∧
      ∃ begun, x.begun = some begun ∧ (x.batch.length < max maxSize 1 →
        x.call = .flush ∨ x.call = .tick ∧ begun + timeout ≤ x.now)) ∧
    (a.flushing = none → a.records.length < max maxSize 1) ∧
    (∀ c who p, a.flushing = some c → a.step? o who = some p → p.reply.isSome ∧
      p.batch = { Accumulator.create κ maxSize timeout with
        turn := a.turn.tail, signal := a.signal }) := by
  have hledger := run.ledger
  obtain ⟨hmaxSize, htimeout⟩ := run.same
  have hfits := hledger.fits
  have hroom := hledger.present.room
  rw [hmaxSize, htimeout] at hfits
  rw [hmaxSize] at hroom
  refine ⟨hledger.peak, hledger.handed, hledger.taken, hledger.offered, fun x hx => ?_,
    fun _ => hroom, fun c who p hflushing hp => ?_⟩
  · obtain ⟨begun, hbegun, htick⟩ := (hfits x hx).begun
    refine ⟨(hfits x hx).nonempty, (hfits x hx).small, begun, hbegun, fun hlt => ?_⟩
    rcases (hfits x hx).reason with hflush | hcall | ⟨-, hfull⟩
    · exact .inl hflush
    · exact .inr ⟨hcall, htick hcall⟩
    · exact absurd hfull (Nat.ne_of_lt hlt)
  obtain ⟨hreply, hbatch⟩ := (turn_of_step? hp).fresh hledger.sound hledger.present hflushing
  refine ⟨hreply, ?_⟩
  rw [hbatch, hmaxSize, htimeout]
  rfl

/-! ### A run -/

namespace Sample

/-- What is done to an accumulator: a call, a step, or time passes until the link behaves anew. -/
inductive Move where
  | ask (who : ℕ) (call : BatchCall)
  | step (who : ℕ)
  | later (now : ℕ) (mode : LinkMode)

/-- An accumulator with what is around it and its history. -/
abbrev State := Accumulator ℕ × Outlet × List (BatchEvent ℕ)

/-- Makes a move and adds what is seen of it to the history. -/
def record? : State → Move → Option State
  | (a, o, h), .ask who call => some (a.ask who call, o, h ++ [.asked who call])
  | (a, o, h), .step who => (a.step? o who).map fun p => (p.batch, p.outlet, h ++ a.events o who)
  | (a, o, h), .later now mode =>
    some (a, { o with now := max o.now now, link := { o.link with mode := mode } }, h)

theorem record {e e' : State} {m : Move} (run : BatchRun ℕ maxSize timeout e.1 e.2.1 e.2.2)
    (made : record? e m = some e') : BatchRun ℕ maxSize timeout e'.1 e'.2.1 e'.2.2 := by
  obtain ⟨a, o, h⟩ := e
  cases m with
  | ask who call =>
    cases made
    exact run.ask who call
  | step who =>
    obtain ⟨p, hstep, rfl⟩ := Option.map_eq_some_iff.mp made
    exact run.step hstep
  | later now mode =>
    cases made
    exact run.elsewhere ⟨Nat.le_max_left _ _, rfl, rfl, rfl⟩

/-- A message. -/
def message (id : String) : Message := ⟨"", id, "1", "hello", "SUCCESS", ⟨0, 0⟩⟩

/-- A new link to an empty store, at time 10. -/
def outlet : Outlet :=
  { now := 10, link := { store := .memory (.create 4 true), mode := .fails (.io "disk full") }
    metrics := {} }

/-- Two offers fill a batch that is lost; a third waits for them and leaves with a tick. -/
def moves : List Move :=
  [.ask 0 (.offer (message "a")), .ask 1 (.offer (message "b")), .ask 2 (.offer (message "c")),
    .step 0, .step 1, .later 12 .through, .step 1, .step 2, .later 17 .through, .ask 3 .tick,
    .step 3, .step 3]

end Sample

/-- A batch is filled and lost, and the next one leaves at its deadline. -/
theorem batched_sample : ∃ a o h, BatchRun ℕ 2 5 a o h ∧
    (handovers h).map (fun x => (x.begun, x.now, x.call)) =
      [(some 10, 10, .offer (Sample.message "b")), (some 12, 17, .tick)] ∧
    o.link.handed = [[Sample.message "a", Sample.message "b"], [Sample.message "c"]] ∧
    o.link.peak ≤ 1 ∧ a.records.length < 2 ∧ o.metrics.lost = 2 ∧ o.metrics.written = 1 := by
  obtain ⟨⟨a, o, h⟩, run, hhandovers, hidle, hmetrics⟩ := exists_of_foldlM Sample.record?
    (fun e => BatchRun ℕ 2 5 e.1 e.2.1 e.2.2) (.create ℕ 2 5, Sample.outlet, []) Sample.moves
    (fun _ => Sample.record) (.start ⟨rfl, rfl, rfl⟩)
    (fun e => handovers e.2.2 =
        [⟨some 10, 10, 1, .offer (Sample.message "b"), [Sample.message "a", Sample.message "b"]⟩,
          ⟨some 12, 17, 3, .tick, [Sample.message "c"]⟩] ∧
      e.1.flushing.isNone ∧ e.2.1.metrics = { flushes := 2, written := 1, lost := 2 })
    (by decide +kernel)
  obtain ⟨hpeak, hhanded, -, -, -, hroom, -⟩ := batched run
  have hflushing : a.flushing = none := Option.isNone_iff_eq_none.mp hidle
  refine ⟨a, o, h, run, ?_, ?_, hpeak, hroom hflushing, ?_, ?_⟩
  · rw [hhandovers]
    rfl
  · rw [hhanded, hhandovers]
    rfl
  · rw [hmetrics]
  · rw [hmetrics]

end BatchRun

end SmsRelay
