import Mathlib.Logic.Relation
import SmsRelay.Proofs.Sender.Correspondence

/-!
# Closing a sender

A sender that is closed lets nobody in any more. Whoever shuts it down closes it and waits until no
dispatch is in flight. A call that was let in before and that the block list has not answered yet is
not waited for: its request is accepted when the block list answers, and gets a dispatch then.

So shutting down is a barrier only for those who have been answered: `Office.closed_overtaken` is a
run in which a dispatch begins when the wait is over.

## Main results

* `Office.Late.next`: what becomes of a sender that has been closed.
* `OfficeRun.barrier_of_idle`: nothing begins any more if nobody was asking when the wait was over.
-/

namespace SmsRelay

namespace Office

variable {o o' o'' : Office} {k n : ℕ} {q : SendRequest} {m : OfficeMove}

/-- Who is closed stays closed, and nobody else asks. -/
structure Shuts (o o' : Office) : Prop where
  closed : o'.sender.closed
  asking : ∀ k q, o'.asking? k = some q → o.asking? k = some q

/-- A move that leaves the calls alone. -/
theorem shuts_of_same (hclosed : o.sender.closed) (closed : o'.sender.closed = o.sender.closed)
    (calls : o'.calls = o.calls) : o.Shuts o' := by
  refine ⟨closed.trans hclosed, fun k q hasking => ?_⟩
  rwa [asking?, calls] at hasking

/-- A call that does not ask any more. -/
theorem shuts_of_set (hclosed : o.sender.closed) (hasking : o.asking? k = some q)
    (stage : SendStage) (hstage : stage ≠ .asking) (closed : o'.sender.closed = o.sender.closed)
    (calls : o'.calls = o.calls.set k ⟨q, stage⟩) : o.Shuts o' := by
  refine ⟨closed.trans hclosed, fun j q' hj => ?_⟩
  rw [asking?_eq_some_iff, calls] at hj
  rcases (getElem?_set_eq_some_iff (asking?_eq_some_iff.mp hasking)).mp hj with ⟨-, heq⟩ | ⟨-, hj⟩
  · cases heq
    exact (hstage rfl).elim
  · exact asking?_eq_some_iff.mpr hj

/-- Who calls a closed sender is refused. -/
theorem shuts_of_call (hclosed : o.sender.closed) (q : SendRequest) :
    o.Shuts { o with calls := o.calls ++ [o.entering q] } := by
  refine ⟨hclosed, fun k q' hk => asking?_eq_some_iff.mpr ?_⟩
  rcases getElem?_concat_eq_some_iff.mp (asking?_eq_some_iff.mp hk) with hold | ⟨-, hnew⟩
  · exact hold
  · rw [entering] at hnew
    split at hnew
    · rename_i hscreen
      cases hclosed.symm.trans (Sender.screen_ok_iff.mp hscreen).2
    · cases hnew

theorem calls_of_settle (o : Office) (k : ℕ) (q : SendRequest) (id : String) (timestamp : ℤ) :
    (o.settle k q id timestamp).sender.closed = o.sender.closed ∧
      ∃ stage, stage ≠ .asking ∧
        (o.settle k q id timestamp).calls = o.calls.set k ⟨q, stage⟩ := by
  rw [settle]
  cases hdecide : o.sender.decide q id timestamp with
  | error e => exact ⟨rfl, .refused e, by simp, rfl⟩
  | ok p =>
    obtain ⟨reply, s⟩ := p
    obtain rfl := Sender.eq_of_decide hdecide
    exact ⟨rfl, .accepted reply o.sender.dispatches.length, by simp, rfl⟩

/-- **A move around a closed sender.** -/
theorem shuts_of_move? (hclosed : o.sender.closed) (h : o.move? m = some o') : o.Shuts o' := by
  cases m with
  | call q =>
    cases h
    exact shuts_of_call hclosed q
  | decide k id timestamp =>
    obtain ⟨q, hasking, h⟩ := Option.bind_eq_some_iff.mp h
    split at h
    · cases h
      obtain ⟨hsame, stage, hstage, hcalls⟩ := o.calls_of_settle k q id timestamp
      exact shuts_of_set hclosed hasking stage hstage hsame hcalls
    · cases h
  | abandon k =>
    obtain ⟨q, hasking, rfl⟩ := Option.map_eq_some_iff.mp h
    exact shuts_of_set hclosed hasking .abandoned nofun rfl rfl
  | block phone | unblock phone =>
    obtain ⟨l, rfl⟩ := sender_of_changeBlockList h
    exact shuts_of_same hclosed rfl rfl
  | step n =>
    rw [move?] at h
    split at h
    · cases h
    · obtain ⟨⟨l, s⟩, hstep, rfl⟩ := Option.map_eq_some_iff.mp h
      cases Sender.effect_of_step? hstep with
      | goOn | publish => exact shuts_of_same hclosed rfl rfl
  | look n =>
    obtain ⟨d, -, h⟩ := Option.bind_eq_some_iff.mp h
    obtain ⟨status, -, h⟩ := Option.bind_eq_some_iff.mp h
    split at h
    · cases h
      exact shuts_of_same hclosed rfl rfl
    · cases h
  | land n =>
    obtain ⟨d, -, h⟩ := Option.bind_eq_some_iff.mp h
    obtain ⟨status, -, h⟩ := Option.bind_eq_some_iff.mp h
    cases h
    exact shuts_of_same hclosed rfl rfl
  | append topic key value =>
    rw [move?] at h
    split at h
    · cases h
    · cases h
      exact shuts_of_same hclosed rfl rfl
  | closeSender =>
    cases h
    exact ⟨rfl, fun _ _ hasking => hasking⟩
  | equip | elapse | shutLog | endGroups | regroup =>
    cases h
    exact shuts_of_same hclosed rfl rfl

/-- A call that has been accepted was asking. -/
theorem asking_of_answered {reply : SendReply} (h : .answered k (.ok reply) ∈ o.marks m) :
    ∃ q id timestamp, m = .decide k id timestamp ∧ o.asking? k = some q := by
  cases m with
  | call q =>
    rw [marks, entering] at h
    cases hscreen : o.sender.screen q <;> simp [hscreen, SendCall.answer?] at h
  | decide j id timestamp =>
    rw [marks] at h
    split at h
    · rename_i q hasking
      simp only [List.mem_cons, List.not_mem_nil, or_false, reduceCtorEq, false_or] at h
      obtain ⟨rfl, -⟩ := OfficeEvent.answered.inj h
      exact ⟨q, id, timestamp, rfl, hasking⟩
    · cases h
  | step n =>
    rw [marks] at h
    split at h
    · split at h
      · simp at h
      · cases h
    · cases h
  | _ => cases h

/-- The dispatches of `o'` that have begun since `o` are those of calls that were asking then. -/
def Begun (o o' : Office) : Prop :=
  ∀ (n : ℕ) (d : Dispatch), o'.sender.dispatches[n]? = some d → n < o.sender.dispatches.length ∨
    ∃ k reply, o.asking? k = some d.request ∧ o'.calls[k]? = some ⟨d.request, .accepted reply n⟩

/-- The outcomes of `o` are final. -/
def Ended (o o' : Office) : Prop :=
  ∀ (n : ℕ) (d : Dispatch), o.sender.dispatches[n]? = some d → d.outcome?.isSome →
    o'.sender.dispatches[n]? = some d

/-- What has become of an office whose sender was closed. -/
structure Late (o o' : Office) : Prop extends o.Shuts o' where
  orderly : o'.Orderly
  ended : o.Ended o'
  begun : o.Begun o'

theorem late_refl (orderly : o.Orderly) (hclosed : o.sender.closed) : o.Late o where
  closed := hclosed
  asking _ _ h := h
  orderly := orderly
  ended _ _ h _ := h
  begun _ _ h := .inl (List.getElem?_eq_some_iff.mp h).1

/-- A dispatch goes on or ends. -/
theorem Late.set (h : o.Late o') {d : Dispatch} (found : o'.sender.dispatches[n]? = some d)
    (pending : d.outcome? = none) {phase : DispatchPhase}
    (dispatches : o''.sender.dispatches = o'.sender.dispatches.set n { d with phase := phase })
    (calls : o''.calls = o'.calls) : o.Ended o'' ∧ o.Begun o'' := by
  refine ⟨fun j d' hj hended => ?_, fun j d' hj => ?_⟩
  · have hkept := h.ended j d' hj hended
    rw [dispatches, getElem?_set_eq_some_iff found]
    refine .inr ⟨?_, hkept⟩
    rintro rfl
    cases found.symm.trans hkept
    rw [pending] at hended
    cases hended
  · rw [dispatches, getElem?_set_eq_some_iff found] at hj
    rw [calls]
    rcases hj with ⟨rfl, rfl⟩ | ⟨-, hj⟩
    · exact h.begun j d found
    · exact h.begun j d' hj

/-- Calls are turned. -/
theorem Begun.turn (h : o.Begun o') {c : SendCall} {calls : List SendCall}
    (turned : o'.Turned k c calls) : o.Begun { o' with calls := calls } := by
  intro n d hd
  refine (h n d hd).imp_right ?_
  rintro ⟨j, reply, hj, hcall⟩
  have hanswered : (⟨d.request, .accepted reply n⟩ : SendCall).stage ≠ .asking := nofun
  exact ⟨j, reply, hj, (turned.getElem?_eq_some_iff hanswered).mpr (.inl hcall)⟩

/-- **One move further.** -/
theorem Late.next (h : o.Late o') (hmove : o'.move? m = some o'') : o.Late o'' := by
  obtain ⟨hclosed, hasking⟩ := shuts_of_move? h.closed hmove
  have heffect := effect_of_move? h.orderly hmove
  suffices hdispatches : o.Ended o'' ∧ o.Begun o'' from
    ⟨⟨hclosed, fun k q hk => h.asking k q (hasking k q hk)⟩, heffect.orderly h.orderly,
      hdispatches.1, hdispatches.2⟩
  generalize hmarks : o'.marks m = es at heffect
  cases heffect with
  | quiet _ _ dispatches calls =>
    rw [Ended, Begun, dispatches, calls]
    exact ⟨h.ended, h.begun⟩
  | elsewhere | look => exact ⟨h.ended, h.begun⟩
  | turn turned => exact ⟨h.ended, h.begun.turn turned⟩
  | @accept k d calls _ turned told =>
    refine ⟨fun n d' hd hended => ?_, fun n d' hd => ?_⟩
    · exact getElem?_concat_eq_some_iff.mpr (.inl (h.ended n d' hd hended))
    · rcases getElem?_concat_eq_some_iff.mp hd with hd | ⟨rfl, rfl⟩
      · exact h.begun.turn turned n d' hd
      · have hanswered := (told.answered k (.ok d.reply)).mpr ⟨rfl, rfl⟩
        rw [← hmarks] at hanswered
        obtain ⟨q, id, timestamp, rfl, hq⟩ := asking_of_answered hanswered
        -- the request of the dispatch is that of the call
        rw [move?, hq, Option.bind_some] at hmove
        split at hmove
        · obtain ⟨-, stage, -, hcalls⟩ := o'.calls_of_settle k q id timestamp
          have hhere := turned.here
          rw [show calls = o'.calls.set k ⟨q, stage⟩ from
            (congrArg Office.calls (Option.some.inj hmove)).symm.trans hcalls,
            List.getElem?_set_self (List.getElem?_eq_some_iff.mp (asking?_eq_some_iff.mp hq)).1]
            at hhere
          cases hhere
          exact .inr ⟨k, _, h.asking k _ hq, turned.here⟩
        · cases hmove
  | provide found fresh => exact h.set found (by rw [Dispatch.outcome?, fresh]) rfl rfl
  | fail found phase => exact h.set found (by rw [Dispatch.outcome?, phase]) rfl rfl
  | publish found phase => exact h.set found (by rw [Dispatch.outcome?, phase]) rfl rfl

/-- A move leads from one state to the next. -/
def Next (o o' : Office) : Prop := ∃ m, o.move? m = some o'

/-- **A whole run.** -/
theorem Late.reaches (h : o.Late o') (run : Relation.ReflTransGen Next o' o'') : o.Late o'' := by
  induction run with
  | refl => exact h
  | tail _ hnext ih =>
    obtain ⟨m, hmove⟩ := hnext
    exact ih.next hmove

/-- No dispatch is in flight if each of them has its outcome. -/
theorem inFlight_eq_zero_iff {s : Sender} :
    s.inFlight = 0 ↔ ∀ d ∈ s.dispatches, d.outcome?.isSome := by
  rw [Sender.inFlight, List.length_eq_zero_iff, List.filter_eq_nil_iff]
  simp [Option.isSome_iff_ne_none]

/-- Nobody asked when the wait was over. -/
theorem Late.dispatches_eq (h : o.Late o') (done : o.sender.inFlight = 0)
    (idle : ∀ k, o.asking? k = none) : o'.sender.dispatches = o.sender.dispatches := by
  have hkept : ∀ (n : ℕ) (d : Dispatch), o.sender.dispatches[n]? = some d →
      o'.sender.dispatches[n]? = some d := fun n d hd =>
    h.ended n d hd (inFlight_eq_zero_iff.mp done d (List.mem_of_getElem? hd))
  refine List.ext_getElem? fun n => ?_
  cases hd : o'.sender.dispatches[n]? with
  | none =>
    cases hold : o.sender.dispatches[n]? with
    | none => rfl
    | some d => cases hd.symm.trans (hkept n d hold)
  | some d =>
    rcases h.begun n d hd with hlt | ⟨k, reply, hk, -⟩
    · have hold := List.getElem?_eq_getElem hlt
      rw [← hd, hold]
      exact hkept n _ hold
    · cases (idle k).symm.trans hk

end Office

namespace OfficeRun

variable {o₀ o o' : Office} {h : List OfficeEvent}

theorem reaches (run : OfficeRun o₀ o h) (later : Relation.ReflTransGen Office.Next o o') :
    ∃ h', OfficeRun o₀ o' h' := by
  induction later with
  | refl => exact ⟨h, run⟩
  | tail _ hnext ih =>
    obtain ⟨h', run'⟩ := ih
    obtain ⟨m, hmove⟩ := hnext
    exact ⟨_, run'.move hmove⟩

/-- **A barrier for those who have been answered**: if nobody was asking when the wait was over, no
dispatch begins any more, and each request that has ever been accepted has its outcome. -/
theorem barrier_of_idle (run : OfficeRun o₀ o h) (closed : o.sender.closed)
    (done : o.sender.inFlight = 0) (idle : ∀ k, o.asking? k = none)
    (later : Relation.ReflTransGen Office.Next o o') :
    o'.sender.dispatches = o.sender.dispatches ∧ o'.sender.inFlight = 0 ∧
      ∀ (k : ℕ) q reply n, o'.calls[k]? = some ⟨q, .accepted reply n⟩ →
        (o'.outcome? n).isSome := by
  have hsame := ((Office.late_refl run.orderly closed).reaches later).dispatches_eq done idle
  have hdone : o'.sender.inFlight = 0 := by rw [Sender.inFlight, hsame, ← Sender.inFlight, done]
  refine ⟨hsame, hdone, fun k q reply n hcall => ?_⟩
  obtain ⟨h', run'⟩ := run.reaches later
  obtain ⟨d, hd, -⟩ := run'.answers.dispatch hcall
  rw [Office.outcome?, hd]
  exact Office.inFlight_eq_zero_iff.mp hdone d (List.mem_of_getElem? hd)

end OfficeRun

namespace Office

open Office.Sample in
/-- **A dispatch begins behind the barrier.** A request has been let in when the sender is closed;
no dispatch is in flight, so the wait is over. Then the block list answers. -/
theorem closed_overtaken : ∃ o h, OfficeRun office o h ∧ o.sender.closed ∧ o.sender.inFlight = 0 ∧
    (o.move? (.decide 0 "a" 7)).any fun o' => o'.sender.inFlight = 1 ∧
      o'.calls = [⟨⟨"0000000001", "hello"⟩, .accepted ⟨"a", .pending, 7⟩ 0⟩] ∧
      o'.outcome? 0 = none :=
  exists_of_recording move? events (OfficeRun _) office
    [.call ⟨"0000000001", "hello"⟩, .closeSender] (fun _ => OfficeRun.move) (.start fresh_office) _
    (by decide +kernel)

end Office

end SmsRelay
