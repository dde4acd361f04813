import SmsRelay.Batch.Traffic
import SmsRelay.Proofs.Batch.Batching

/-!
# Punctuality

An accumulator and the timer that was started with it, with any callers. Time passes only when no
actor can move, and then at most to the next moment for which one waits; so it never passes the
deadline of a batch under construction.

## Implementation notes

The timer sleeps until a moment that it was told earlier. By then the batch may have left and
another may have begun, but the timer never oversleeps: what it was told comes no later than the
deadline of any batch begun since (`Punctual.rings`). And it never misses the beginning of a batch
while it waits for one, because the signal of that is kept (`Punctual.listens`).

## Main results

* `BatchTraffic.Punctual.asleep`: when nobody can move, the timer sleeps until the deadline at the
  latest.
* `TimerRun.punctual`: deadlines, batches on time and the timer's own flushes.
-/

namespace SmsRelay

open BatchEvent

namespace Accumulator

variable {κ : Type} {a : Accumulator κ} {o : Outlet} {who : κ} {p : Progress κ}
  {es : List (BatchEvent κ)}

/-- A deadline is the old one, or that of a batch begun in this step, of which the signal tells. -/
theorem Turn.deadline (ht : Turn a o who p es) {d : ℕ} (hd : p.batch.deadline = some d) :
    a.deadline = some d ∧ p.batch.signal = a.signal ∨
      d = o.now + a.timeout ∧ p.batch.signal = true := by
  cases ht with
  | @put m rest turn idle room =>
    have hd : (a.push o.now m).deadline = some d := hd
    show _ ∨ _ ∧ (a.push o.now m).signal = true
    by_cases hrecords : a.records = []
    · rw [push, if_pos hrecords] at hd ⊢
      exact .inr ⟨(Option.some.inj hd).symm, rfl⟩
    · rw [push, if_neg hrecords] at hd
      refine .inl ⟨hd, ?_⟩
      show (a.push o.now m).signal = a.signal
      rw [push, if_neg hrecords]
  | fill | empty | flush => cases hd
  | early | told | answered => exact .inl ⟨hd, rfl⟩

theorem Turn.now (ht : Turn a o who p es) : p.outlet.now = o.now := by
  cases ht <;> rfl

/-- The reply to a question for the deadline, unless it comes after a flush. -/
theorem Turn.told_deadline (ht : Turn a o who p es) {rest : List (κ × BatchCall)}
    (turn : a.turn = (who, .deadline) :: rest) {reply : BatchReply}
    (hreply : p.reply = some reply) :
    reply = .deadline p.batch.deadline ∧ p.batch.deadline = a.deadline ∨
      a.flushing.isSome ∧ ∃ outcome, reply = .outcome outcome := by
  cases ht with
  | put turn' | fill turn' | early turn' =>
    rw [turn'] at turn
    cases turn
  | empty turn' idle asked =>
    rw [turn'] at turn
    cases turn
    rcases asked with hcall | hcall <;> cases hcall
  | flush => cases hreply
  | told =>
    cases hreply
    exact .inl ⟨rfl, rfl⟩
  | answered turn' flushing =>
    cases hreply
    exact .inr ⟨by rw [flushing]; rfl, _, rfl⟩

end Accumulator

namespace FlushTimer

theorem eq_of_call? {t : FlushTimer} {call : BatchCall} (h : t.call? = some call) :
    call = .deadline ∨ call = .tick := by
  cases t with
  | asking => exact .inl (Option.some.inj h).symm
  | ticking => exact .inr (Option.some.inj h).symm
  | fresh | sleeping wake | waiting | stopped => cases h

variable {κ : Type} [DecidableEq κ]

/-- What is seen of a step of a timer that has not been cancelled. -/
def events (t : FlushTimer) (me : κ) (a : Accumulator κ) (o : Outlet) : List (BatchEvent κ) :=
  match t with
  | .fresh | .waiting => [.asked me .deadline]
  | .asking => a.events o me
  | .sleeping _ => [.asked me .tick]
  | .ticking => a.events o me ++
    if (a.step? o me).any (·.reply.isSome) then [.asked me .deadline] else []
  | .stopped => []

/-- What a step of a timer that has not been cancelled does, and what is seen of it. -/
inductive Round (t : FlushTimer) (me : κ) (a : Accumulator κ) (o : Outlet) :
    Progress κ → List (BatchEvent κ) → Prop
  /-- It asks for its first deadline. -/
  | begins (fresh : t = .fresh) : Round t me a o ⟨.asking, o, a.ask me .deadline⟩
      [.asked me .deadline]
  /-- Its question takes a step without an answer. -/
  | asks {p : Accumulator.Progress κ} (asking : t = .asking) (stepped : a.step? o me = some p)
      (unsettled : p.reply = none) : Round t me a o ⟨.asking, p.outlet, p.batch⟩ (a.events o me)
  /-- It is told the deadline. -/
  | told {p : Accumulator.Progress κ} {reply : BatchReply} (asking : t = .asking)
      (stepped : a.step? o me = some p) (settled : p.reply = some reply) :
      Round t me a o ⟨afterReply reply, p.outlet, p.batch⟩ (a.events o me)
  /-- It wakes up. -/
  | wakes {wake : ℕ} (sleeping : t = .sleeping wake) (due : wake ≤ o.now) :
      Round t me a o ⟨.ticking, o, a.ask me .tick⟩ [.asked me .tick]
  /-- Its tick hands the batch over. -/
  | ticks {p : Accumulator.Progress κ} (ticking : t = .ticking) (stepped : a.step? o me = some p)
      (unsettled : p.reply = none) : Round t me a o ⟨.ticking, p.outlet, p.batch⟩ (a.events o me)
  /-- Its tick is over. -/
  | ticked {p : Accumulator.Progress κ} (ticking : t = .ticking) (stepped : a.step? o me = some p)
      (settled : p.reply.isSome) : Round t me a o ⟨.asking, p.outlet, p.batch.ask me .deadline⟩
        (a.events o me ++ [.asked me .deadline])
  /-- It hears that a batch has begun. -/
  | hears (waiting : t = .waiting) (signal : a.signal = true) :
      Round t me a o ⟨.asking, o, { a with signal := false }.ask me .deadline⟩
        [.asked me .deadline]

/-- **Everything that a step of a timer can do** that has not been cancelled. -/
theorem round_of_step? {t : FlushTimer} {me : κ} {a : Accumulator κ} {o : Outlet} {p : Progress κ}
    (h : t.step? false me a o = some p) : Round t me a o p (t.events me a o) := by
  cases t with
  | fresh =>
    cases h
    exact .begins rfl
  | asking =>
    obtain ⟨q, hq, rfl⟩ := Option.map_eq_some_iff.mp h
    cases hreply : q.reply with
    | none => exact .asks rfl hq hreply
    | some reply => exact .told rfl hq hreply
  | sleeping wake =>
    simp only [step?, Bool.false_eq_true, if_false, Option.ite_none_right_eq_some,
      Option.some.injEq] at h
    obtain ⟨hdue, rfl⟩ := h
    exact .wakes rfl hdue
  | ticking =>
    obtain ⟨q, hq, rfl⟩ := Option.map_eq_some_iff.mp h
    rw [events, hq, Option.any_some]
    cases hreply : q.reply with
    | none =>
      rw [Option.isSome_none, if_neg Bool.false_ne_true, List.append_nil]
      exact .ticks rfl hq hreply
    | some reply => exact .ticked rfl hq (by rw [hreply]; rfl)
  | waiting =>
    simp only [step?, Bool.false_eq_true, if_false, Option.ite_none_right_eq_some,
      Option.some.injEq] at h
    obtain ⟨hsignal, rfl⟩ := h
    exact .hears rfl hsignal
  | stopped => cases h

end FlushTimer

namespace BatchTraffic

/-- What is seen of a step of an actor while the timer has not been cancelled. -/
def events (t : BatchTraffic) : BatchCaller → List (BatchEvent BatchCaller)
  | .timer => t.timer.events .timer t.batch t.outlet
  | .caller n => t.batch.events t.outlet (.caller n)

/-- The timer has been started and not been cancelled; it is never late. -/
structure Punctual (t : BatchTraffic) : Prop where
  running : t.timer ≠ .stopped
  kept : t.timerCancelled = false
  queued : t.batch.turn.filter (·.1 = .timer) = (t.timer.call?.map ((.timer, ·))).toList
  rings : ∀ wake, t.timer = .sleeping wake → wake ≤ t.outlet.now + t.batch.timeout ∧
    ∀ d, t.batch.deadline = some d → wake ≤ d
  listens : t.timer = .waiting → t.batch.deadline ≠ none → t.batch.signal = true
  ahead : ∀ d, t.batch.deadline = some d →
    t.outlet.now ≤ d ∧ d ≤ t.outlet.now + t.batch.timeout

variable {t : BatchTraffic}

/-- The timer's call in the queue is the one that it waits for. -/
theorem Punctual.call?_of_mem (hp : t.Punctual) {call : BatchCall}
    (h : (.timer, call) ∈ t.batch.turn) : t.timer.call? = some call := by
  have hmem : (BatchCaller.timer, call) ∈ t.batch.turn.filter (·.1 = .timer) :=
    List.mem_filter.mpr ⟨h, rfl⟩
  rw [hp.queued, Option.mem_toList, Option.map_eq_some_iff] at hmem
  obtain ⟨call', hcall', heq⟩ := hmem
  rw [hcall', (Prod.mk.inj heq).2]

/-- A timer that waits for its call has it in the queue. -/
theorem Punctual.turn_ne_nil (hp : t.Punctual) (h : t.timer.call?.isSome) : t.batch.turn ≠ [] := by
  intro hnil
  obtain ⟨call, hcall⟩ := Option.isSome_iff_exists.mp h
  have hqueued := hp.queued
  rw [hnil, hcall] at hqueued
  cases hqueued

/-- The head of the queue can move when no call to the store is under way. -/
theorem Punctual.step_head (hp : t.Punctual) (idle : t.batch.flushing = none)
    (h : t.batch.turn ≠ []) : machine.isQuiet t = false := by
  obtain ⟨⟨who, call⟩, rest, hturn⟩ := List.exists_cons_of_ne_nil h
  have hstep : t.batch.step? t.outlet who = some (t.batch.serve t.outlet call) := by
    simp [Accumulator.step?, hturn, idle]
  rw [Machine.isQuiet, List.all_eq_false]
  refine ⟨who, ?_, ?_⟩
  · show who ∈ t.actors
    rw [actors, hturn]
    cases who <;> simp
  · show ¬(t.step? who).isNone = true
    cases who with
    | caller n => simp [step?, hstep]
    | timer =>
      have hcall := hp.call?_of_mem (by rw [hturn]; exact List.mem_cons_self)
      cases htimer : t.timer with
      | asking | ticking => simp [step?, htimer, FlushTimer.step?, hstep]
      | fresh | sleeping wake | waiting | stopped =>
        rw [htimer] at hcall
        cases hcall

theorem step_timer (h : machine.isQuiet t = true) :
    t.timer.step? t.timerCancelled .timer t.batch t.outlet = none := by
  have hmem : BatchCaller.timer ∈ t.actors :=
    List.mem_append_right _ (List.mem_singleton.mpr rfl)
  have hnone := List.all_eq_true.mp h _ hmem
  exact Option.map_eq_none_iff.mp (Option.isNone_iff_eq_none.mp hnone)

/-- **When nobody can move** and a batch is under construction, the timer sleeps, and it will wake
up by the deadline. -/
theorem Punctual.asleep (hp : t.Punctual) {h : List (BatchEvent BatchCaller)}
    (hl : t.batch.Ledger t.outlet h) (quiet : machine.isQuiet t = true) {d : ℕ}
    (hd : t.batch.deadline = some d) :
    ∃ wake, t.timer = .sleeping wake ∧ t.outlet.now < wake ∧ wake ≤ d := by
  have hrecords : t.batch.records ≠ [] := by
    rw [ne_eq, ← hl.present.deadline_eq_none, hd]
    exact Option.some_ne_none d
  have hidle : t.batch.flushing = none := by
    cases hflushing : t.batch.flushing with
    | none => rfl
    | some c => exact absurd (hl.sound.emptied (by rw [hflushing]; rfl)) hrecords
  have hturn : t.batch.turn = [] := by
    by_contra hne
    rw [hp.step_head hidle hne] at quiet
    cases quiet
  have hcall : ¬t.timer.call?.isSome = true := fun hsome => hp.turn_ne_nil hsome hturn
  have htimer := step_timer quiet
  rw [hp.kept] at htimer
  cases ht : t.timer with
  | fresh =>
    rw [ht] at htimer
    cases htimer
  | asking | ticking =>
    rw [ht] at hcall
    exact absurd rfl hcall
  | waiting =>
    have hsignal := hp.listens ht (by rw [hd]; exact Option.some_ne_none d)
    simp [ht, FlushTimer.step?, hsignal] at htimer
  | stopped => exact absurd ht hp.running
  | sleeping wake =>
    refine ⟨wake, rfl, ?_, (hp.rings wake ht).2 d hd⟩
    simp only [ht, FlushTimer.step?, Bool.false_eq_true, if_false, ite_eq_right_iff] at htimer
    by_contra hle
    cases htimer (Nat.le_of_not_lt hle)

/-- The timer's calls in the queue when the head of the queue takes a step. -/
theorem filter_turn {a : Accumulator BatchCaller} {o : Outlet} {who : BatchCaller}
    {p : Accumulator.Progress BatchCaller} (h : a.Effect o who p) :
    p.batch.turn.filter (·.1 = .timer) = if who = .timer ∧ p.reply.isSome
      then (a.turn.filter (·.1 = .timer)).tail else a.turn.filter (·.1 = .timer) := by
  obtain ⟨call, rest, hturn, hbatch⟩ := h.turn
  rw [hbatch, hturn, List.filter_cons]
  cases p.reply <;> cases who <;> simp

theorem filter_ask (a : Accumulator BatchCaller) (call : BatchCall) :
    (a.ask .timer call).turn.filter (·.1 = .timer)
      = a.turn.filter (·.1 = .timer) ++ [(.timer, call)] := by
  simp [Accumulator.ask]

/-- No deadline is past or farther away than the timeout. -/
def Ahead (a : Accumulator BatchCaller) (o : Outlet) : Prop :=
  ∀ d, a.deadline = some d → o.now ≤ d ∧ d ≤ o.now + a.timeout

theorem ahead_of_turn {a : Accumulator BatchCaller} {o : Outlet} {who : BatchCaller}
    {p : Accumulator.Progress BatchCaller} {es : List (BatchEvent BatchCaller)}
    (ht : a.Turn o who p es) (h : Ahead a o) : Ahead p.batch p.outlet := by
  intro d hd
  rw [ht.now, ht.same.2]
  rcases ht.deadline hd with ⟨hold, -⟩ | ⟨rfl, -⟩
  · exact h d hold
  · exact ⟨Nat.le_add_right _ _, Nat.le_refl _⟩

/-- A caller's step leaves the timer in time. -/
theorem Punctual.caller (hp : t.Punctual) {n : ℕ} {p : Accumulator.Progress BatchCaller}
    (hstep : t.batch.step? t.outlet (.caller n) = some p) (answered : List (ℕ × FlushOutcome)) :
    Punctual { t with outlet := p.outlet, batch := p.batch, answered := answered } := by
  have hturn := Accumulator.turn_of_step? hstep
  have hfilter := filter_turn (Accumulator.effect_of_step? hstep)
  rw [if_neg fun h => by cases h.1] at hfilter
  refine ⟨hp.running, hp.kept, hfilter.trans hp.queued, ?_, ?_, ahead_of_turn hturn hp.ahead⟩
  · intro wake hwake
    obtain ⟨hle, hdeadline⟩ := hp.rings wake hwake
    show wake ≤ p.outlet.now + p.batch.timeout ∧ ∀ d, p.batch.deadline = some d → wake ≤ d
    rw [hturn.now, hturn.same.2]
    refine ⟨hle, fun d hd => ?_⟩
    rcases hturn.deadline hd with ⟨hold, -⟩ | ⟨rfl, -⟩
    · exact hdeadline d hold
    · exact hle
  · intro hwaiting hd
    obtain ⟨d, hd⟩ := Option.ne_none_iff_exists'.mp hd
    rcases hturn.deadline hd with ⟨hold, hsignal⟩ | ⟨-, hsignal⟩
    · exact hsignal.trans (hp.listens hwaiting (by rw [hold]; exact Option.some_ne_none d))
    · exact hsignal

/-- What the timer does next when it has been told the deadline keeps it in time. -/
theorem Punctual.told (hp : t.Punctual) {h : List (BatchEvent BatchCaller)}
    (hl : t.batch.Ledger t.outlet h) (asking : t.timer = .asking)
    {p : Accumulator.Progress BatchCaller} {reply : BatchReply}
    (stepped : t.batch.step? t.outlet .timer = some p) (settled : p.reply = some reply) :
    Punctual { t with
      timer := FlushTimer.afterReply reply, outlet := p.outlet, batch := p.batch } := by
  have hturn := Accumulator.turn_of_step? stepped
  have hahead := ahead_of_turn hturn hp.ahead
  have hqueued := hp.queued
  rw [asking] at hqueued
  have hfilter := filter_turn (Accumulator.effect_of_step? stepped)
  rw [if_pos ⟨rfl, by rw [settled]; rfl⟩, hqueued] at hfilter
  obtain ⟨call, rest, hhead, -⟩ := (Accumulator.effect_of_step? stepped).turn
  obtain rfl : BatchCall.deadline = call := by
    have hcall := hp.call?_of_mem (by rw [hhead]; exact List.mem_cons_self)
    rw [asking] at hcall
    exact Option.some.inj hcall
  rcases hturn.told_deadline hhead settled with ⟨rfl, -⟩ | ⟨hflushing, outcome, rfl⟩
  · cases hd : p.batch.deadline with
    | none =>
      exact ⟨nofun, hp.kept, hfilter, nofun, fun _ hne => absurd hd hne, hahead⟩
    | some wake =>
      refine ⟨nofun, hp.kept, hfilter, ?_, nofun, hahead⟩
      intro wake' hwake
      obtain rfl : wake = wake' := FlushTimer.sleeping.inj hwake
      refine ⟨(hahead wake hd).2, fun d hd' => ?_⟩
      have hd' : p.batch.deadline = some d := hd'
      rw [hd, Option.some.injEq] at hd'
      exact Nat.le_of_eq hd'
  · obtain ⟨c, hc⟩ := Option.isSome_iff_exists.mp hflushing
    have hfresh := hturn.fresh hl.sound hl.present hc
    refine ⟨nofun, hp.kept, hfilter, nofun, fun _ hne => absurd ?_ hne, hahead⟩
    show p.batch.deadline = none
    rw [hfresh.2]

/-- **A step of the timer leaves it in time.** -/
theorem Punctual.round (hp : t.Punctual) {h es : List (BatchEvent BatchCaller)}
    (hl : t.batch.Ledger t.outlet h) {p : FlushTimer.Progress BatchCaller}
    (hr : t.timer.Round .timer t.batch t.outlet p es) :
    Punctual { t with timer := p.timer, outlet := p.outlet, batch := p.batch } := by
  have hqueued := hp.queued
  cases hr with
  | begins fresh | wakes fresh | hears fresh =>
    rw [fresh] at hqueued
    refine ⟨nofun, hp.kept, ?_, nofun, nofun, hp.ahead⟩
    rw [filter_ask]
    show t.batch.turn.filter (·.1 = .timer) ++ _ = _
    rw [hqueued]
    rfl
  | asks calling stepped unsettled | ticks calling stepped unsettled =>
    rw [calling] at hqueued
    have hfilter := filter_turn (Accumulator.effect_of_step? stepped)
    rw [if_neg fun h => by rw [unsettled] at h; cases h.2] at hfilter
    exact ⟨nofun, hp.kept, hfilter.trans hqueued, nofun, nofun,
      ahead_of_turn (Accumulator.turn_of_step? stepped) hp.ahead⟩
  | told asking stepped settled => exact hp.told hl asking stepped settled
  | ticked ticking stepped settled =>
    rw [ticking] at hqueued
    have hfilter := filter_turn (Accumulator.effect_of_step? stepped)
    rw [if_pos ⟨rfl, settled⟩, hqueued] at hfilter
    refine ⟨nofun, hp.kept, ?_, nofun, nofun,
      ahead_of_turn (Accumulator.turn_of_step? stepped) hp.ahead⟩
    rw [filter_ask, hfilter]
    rfl

/-- A batch that left in time: no later than its deadline, and by the timer just then. -/
def OnTime (timeout : ℕ) (x : Handover BatchCaller) : Prop :=
  ∃ begun, x.begun = some begun ∧ x.now ≤ begun + timeout ∧
    (x.who = .timer → x.now = begun + timeout)

/-- Batches leave in time while the timer is. -/
theorem Punctual.onTime (hp : t.Punctual) {who : BatchCaller} {x : Handover BatchCaller}
    (hfits : x.Fits t.batch.maxSize t.batch.timeout) (hhands : t.batch.Hands t.outlet who x) :
    OnTime t.batch.timeout x := by
  obtain ⟨begun, hbegun, htick⟩ := hfits.begun
  have hle : x.now ≤ begun + t.batch.timeout := by
    rw [hhands.now]
    rcases hhands.begun with hnow | hdeadline
    · rw [hbegun, Option.some.injEq] at hnow
      omega
    · rw [hbegun] at hdeadline
      exact (hp.ahead _ hdeadline.symm).1
  refine ⟨begun, hbegun, hle, fun htimer => Nat.le_antisymm hle (htick ?_)⟩
  have hwho : who = .timer := hhands.caller.symm.trans htimer
  have hcall := hp.call?_of_mem (by rw [← hwho]; exact hhands.turn)
  -- a timer asks for the deadline or ticks, and no batch leaves because of a question
  rcases FlushTimer.eq_of_call? hcall with hdeadline | htick
  · rcases hfits.reason with hcall | hcall | ⟨⟨m, hcall⟩, -⟩ <;>
      rw [hdeadline] at hcall <;> cases hcall
  · exact htick

/-- What a step at the accumulator hands over leaves in time. -/
theorem Punctual.handovers (hp : t.Punctual) {h : List (BatchEvent BatchCaller)}
    (hl : t.batch.Ledger t.outlet h) {who : BatchCaller}
    {p : Accumulator.Progress BatchCaller} (stepped : t.batch.step? t.outlet who = some p)
    (hon : ∀ x ∈ BatchEvent.handovers h, OnTime t.batch.timeout x) :
    ∀ x ∈ BatchEvent.handovers (h ++ t.batch.events t.outlet who), OnTime t.batch.timeout x := by
  obtain ⟨xs, hxs, -, hfits⟩ := (Accumulator.turn_of_step? stepped).handovers hl.present
  rw [hxs]
  exact List.forall_mem_append.mpr ⟨hon, fun x hx => hp.onTime (hfits x hx).1 (hfits x hx).2⟩

/-- What a step of the timer hands over leaves in time. -/
theorem Punctual.handovers_round (hp : t.Punctual) {h es : List (BatchEvent BatchCaller)}
    (hl : t.batch.Ledger t.outlet h) {p : FlushTimer.Progress BatchCaller}
    (hr : t.timer.Round .timer t.batch t.outlet p es)
    (hon : ∀ x ∈ BatchEvent.handovers h, OnTime t.batch.timeout x) :
    ∀ x ∈ BatchEvent.handovers (h ++ es), OnTime t.batch.timeout x := by
  cases hr with
  | begins | wakes | hears =>
    rw [handovers_append_asked]
    exact hon
  | asks calling stepped | told calling stepped | ticks calling stepped =>
    exact hp.handovers hl stepped hon
  | ticked ticking stepped =>
    rw [← List.append_assoc, handovers_append_asked]
    exact hp.handovers hl stepped hon

end BatchTraffic

/-- A run of an accumulator and of the timer that was started with it, with the history of the
accumulator. -/
inductive TimerRun (maxSize timeout : ℕ) : BatchTraffic → List (BatchEvent BatchCaller) → Prop
  | start {o : Outlet} (unused : o.link.Unused) :
      TimerRun maxSize timeout
        (BatchTraffic.startTimer { outlet := o, batch := .create BatchCaller maxSize timeout }) []
  /-- Someone makes a call. -/
  | call {t : BatchTraffic} {h : List (BatchEvent BatchCaller)} (run : TimerRun maxSize timeout t h)
      (c : BatchCall) :
      TimerRun maxSize timeout (t.call c) (h ++ [.asked (.caller t.calls) c])
  /-- An actor takes a step. -/
  | step {t t' : BatchTraffic} {h : List (BatchEvent BatchCaller)} {who : BatchCaller}
      (run : TimerRun maxSize timeout t h) (stepped : t.step? who = some t') :
      TimerRun maxSize timeout t' (h ++ t.events who)
  /-- Nobody can move, and time passes until someone may be able to. -/
  | elapse {t : BatchTraffic} {h : List (BatchEvent BatchCaller)} {now : ℕ}
      (run : TimerRun maxSize timeout t h) (quiet : BatchTraffic.machine.isQuiet t = true)
      (later : t.outlet.now ≤ now)
      (due : ∀ due ∈ BatchTraffic.machine.dues t, t.outlet.now < due → now ≤ due) :
      TimerRun maxSize timeout (BatchTraffic.machine.setNow t now) h
  /-- Others change the store, and the link behaves otherwise from now on. -/
  | elsewhere {t : BatchTraffic} {h : List (BatchEvent BatchCaller)} {o : Outlet}
      (run : TimerRun maxSize timeout t h) (others : t.outlet.Elsewhere o)
      (now : o.now = t.outlet.now) : TimerRun maxSize timeout { t with outlet := o } h

namespace TimerRun

open BatchTraffic

variable {maxSize timeout : ℕ} {t : BatchTraffic} {h : List (BatchEvent BatchCaller)}

/-- The steps of the timer are calls and steps at the accumulator. -/
theorem batchRun_round {a : Accumulator BatchCaller} {o : Outlet} {timer : FlushTimer}
    {p : FlushTimer.Progress BatchCaller} {es : List (BatchEvent BatchCaller)}
    (run : BatchRun BatchCaller maxSize timeout a o h) (hr : timer.Round .timer a o p es) :
    BatchRun BatchCaller maxSize timeout p.batch p.outlet (h ++ es) := by
  cases hr with
  | begins | wakes => exact run.ask _ _
  | asks calling stepped | told calling stepped | ticks calling stepped => exact run.step stepped
  | ticked ticking stepped =>
    rw [← List.append_assoc]
    exact (run.step stepped).ask _ _
  | hears => exact run.heard.ask _ _

/-- The timer that was started with the accumulator runs on, and is in time. -/
theorem batchRun (run : TimerRun maxSize timeout t h) :
    BatchRun BatchCaller maxSize timeout t.batch t.outlet h ∧ t.Punctual := by
  induction run with
  | start unused =>
    exact ⟨.start unused, nofun, rfl, rfl, nofun, nofun, nofun⟩
  | @call t h run c ih =>
    refine ⟨ih.1.ask _ c, ih.2.running, ih.2.kept, ?_, ih.2.rings, ih.2.listens, ih.2.ahead⟩
    show (t.batch.turn ++ [(BatchCaller.caller t.calls, c)]).filter _ = _
    rw [List.filter_append, ih.2.queued]
    exact List.append_nil _
  | @step t t' h who run stepped ih =>
    cases who with
    | caller n =>
      obtain ⟨p, hp, rfl⟩ := Option.map_eq_some_iff.mp stepped
      exact ⟨ih.1.step hp, ih.2.caller hp _⟩
    | timer =>
      obtain ⟨p, hp, rfl⟩ := Option.map_eq_some_iff.mp stepped
      rw [ih.2.kept] at hp
      have hround := FlushTimer.round_of_step? hp
      exact ⟨batchRun_round ih.1 hround, ih.2.round ih.1.ledger hround⟩
  | @elapse t h now run quiet later due ih =>
    refine ⟨ih.1.elsewhere ⟨later, rfl, rfl, rfl⟩, ih.2.running, ih.2.kept, ih.2.queued, ?_,
      ih.2.listens, ?_⟩
    · intro wake hwake
      obtain ⟨hle, hdeadline⟩ := ih.2.rings wake hwake
      exact ⟨Nat.le_trans hle (Nat.add_le_add_right later _), hdeadline⟩
    · intro d hd
      obtain ⟨wake, hsleeping, hlt, hle⟩ := ih.2.asleep ih.1.ledger quiet hd
      have hwake : wake ∈ machine.dues t :=
        List.mem_append_right _ (by rw [hsleeping]; exact List.mem_singleton.mpr rfl)
      exact ⟨Nat.le_trans (due wake hwake hlt) hle,
        Nat.le_trans (ih.2.ahead d hd).2 (Nat.add_le_add_right later _)⟩
  | @elsewhere t h o run others now ih =>
    refine ⟨ih.1.elsewhere others, ih.2.running, ih.2.kept, ih.2.queued, ?_, ih.2.listens, ?_⟩
    · intro wake hwake
      show wake ≤ o.now + t.batch.timeout ∧ _
      rw [now]
      exact ih.2.rings wake hwake
    · intro d hd
      show o.now ≤ d ∧ d ≤ o.now + t.batch.timeout
      rw [now]
      exact ih.2.ahead d hd

/-- Every batch leaves in time. -/
theorem onTime (run : TimerRun maxSize timeout t h) : ∀ x ∈ handovers h, OnTime timeout x := by
  induction run with
  | start => exact nofun
  | call run c ih =>
    rw [handovers_append_asked]
    exact ih
  | @step t t' h who run stepped ih =>
    obtain ⟨hrun, hpunctual⟩ := run.batchRun
    rw [← hrun.same.2] at ih ⊢
    cases who with
    | caller n =>
      obtain ⟨p, hp, rfl⟩ := Option.map_eq_some_iff.mp stepped
      exact hpunctual.handovers hrun.ledger hp ih
    | timer =>
      obtain ⟨p, hp, rfl⟩ := Option.map_eq_some_iff.mp stepped
      rw [hpunctual.kept] at hp
      exact hpunctual.handovers_round hrun.ledger (FlushTimer.round_of_step? hp) ih
  | elapse run quiet later due ih => exact ih
  | elsewhere run others now ih => exact ih

/-- **Punctuality.** In every state that is reached while the timer runs, a deadline is set exactly
when a message is in the batch under construction, and it comes `timeout` after the first one came
in. That deadline is never past, and when nobody can move, so that time may pass, it is yet to come.
Every message taken is in the batch under construction or has been handed over, and every batch was
handed over by its deadline; what the timer handed over was not empty, and it did so at the very
deadline of that batch. -/
theorem punctual (run : TimerRun maxSize timeout t h) :
    (t.batch.deadline ≠ none ↔ t.batch.records ≠ []) ∧
    t.batch.deadline = (begun h).map (· + timeout) ∧
    (t.batch.records ≠ [] → ∃ d, t.batch.deadline = some d ∧ t.outlet.now ≤ d ∧
      (machine.isQuiet t = true → t.outlet.now < d)) ∧
    (handovers h).flatMap (·.batch) ++ t.batch.records = h.filterMap taken? ∧
    (∀ x ∈ handovers h, ∃ b, x.begun = some b ∧ x.now ≤ b + timeout ∧
      (x.who = .timer → x.batch ≠ [] ∧ x.now = b + timeout)) := by
  obtain ⟨hrun, hpunctual⟩ := run.batchRun
  have hledger := hrun.ledger
  have hdeadline := hledger.present.deadline_eq_none
  refine ⟨not_congr hdeadline, ?_, fun hrecords => ?_, ?_, fun x hx => ?_⟩
  · rw [hledger.present.deadline, hrun.same.2]
  · obtain ⟨d, hd⟩ := Option.ne_none_iff_exists'.mp (mt hdeadline.mp hrecords)
    refine ⟨d, hd, (hpunctual.ahead d hd).1, fun quiet => ?_⟩
    obtain ⟨wake, -, hlt, hle⟩ := hpunctual.asleep hledger quiet hd
    exact Nat.lt_of_lt_of_le hlt hle
  · rw [← hledger.taken, hledger.handed, List.flatMap_def]
  · obtain ⟨b, hbegun, hle, htimer⟩ := run.onTime x hx
    have hnonempty := (hledger.fits x hx).nonempty
    exact ⟨b, hbegun, hle, fun hwho => ⟨List.length_pos_iff.mp hnonempty, htimer hwho⟩⟩

/-! ### A run -/

namespace Sample

/-- What is done: a call, a step or time passes. -/
inductive Move where
  | call (c : BatchCall)
  | step (who : BatchCaller)
  | elapse (now : ℕ)

/-- Makes a move and adds what is seen of it to the history. -/
def record? (e : BatchTraffic × List (BatchEvent BatchCaller)) :
    Move → Option (BatchTraffic × List (BatchEvent BatchCaller))
  | .call c => some (e.1.call c, e.2 ++ [.asked (.caller e.1.calls) c])
  | .step who => (e.1.step? who).map fun t => (t, e.2 ++ e.1.events who)
  | .elapse now =>
    if machine.isQuiet e.1 = true ∧ e.1.outlet.now ≤ now ∧
        ∀ due ∈ machine.dues e.1, e.1.outlet.now < due → now ≤ due then
      some (machine.setNow e.1 now, e.2)
    else none

theorem record {e e' : BatchTraffic × List (BatchEvent BatchCaller)} {m : Move}
    (run : TimerRun maxSize timeout e.1 e.2) (made : record? e m = some e') :
    TimerRun maxSize timeout e'.1 e'.2 := by
  cases m with
  | call c =>
    cases made
    exact run.call c
  | step who =>
    obtain ⟨t, hstep, rfl⟩ := Option.map_eq_some_iff.mp made
    exact run.step hstep
  | elapse now =>
    obtain ⟨⟨hquiet, hlater, hdue⟩, made⟩ := Option.ite_none_right_eq_some.mp made
    cases made
    exact run.elapse hquiet hlater hdue

/-- A new accumulator with its timer, at time 10. -/
def traffic : BatchTraffic :=
  BatchTraffic.startTimer
    { outlet := { now := 10, link := { store := .memory (.create 4 true) }, metrics := {} }
      batch := .create BatchCaller 2 5 }

/-- A batch begun at 10 is filled at 12, when the next one is begun; the timer, told 15, wakes up
for nothing and flushes at 17. -/
def moves : List Move :=
  [.step .timer, .step .timer, .call (.offer (BatchRun.Sample.message "a")), .step (.caller 0),
    .step .timer, .step .timer, .elapse 12, .call (.offer (BatchRun.Sample.message "b")),
    .call (.offer (BatchRun.Sample.message "c")), .step (.caller 1), .step (.caller 1),
    .step (.caller 2), .elapse 15, .step .timer, .step .timer, .step .timer, .elapse 17,
    .step .timer, .step .timer]

end Sample

/-- The timer sleeps past a batch that leaves earlier and flushes the next one at its own
deadline. -/
theorem punctual_sample : ∃ t h, TimerRun 2 5 t h ∧
    (handovers h).map (fun x => (x.begun, x.now, x.who)) =
      [(some 10, 12, .caller 1), (some 12, 17, .timer)] ∧
    (∀ x ∈ handovers h, ∃ b, x.begun = some b ∧ x.now ≤ b + 5 ∧
      (x.who = .timer → x.batch ≠ [] ∧ x.now = b + 5)) := by
  obtain ⟨⟨t, h⟩, run, hhandovers⟩ := exists_of_foldlM Sample.record?
    (fun e => TimerRun 2 5 e.1 e.2) (Sample.traffic, []) Sample.moves (fun _ => Sample.record)
    (.start ⟨rfl, rfl, rfl⟩)
    (fun e => (handovers e.2).map (fun x => (x.begun, x.now, x.who)) =
      [(some 10, 12, .caller 1), (some 12, 17, .timer)]) (by decide +kernel)
  exact ⟨t, h, run, hhandovers, (punctual run).2.2.2.2⟩

end TimerRun

end SmsRelay
