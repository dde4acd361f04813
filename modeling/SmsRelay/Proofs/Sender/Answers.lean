import SmsRelay.Proofs.Places
import SmsRelay.Proofs.Sender.Office

/-!
# Calls and the provider

A call is answered once, each request that has been accepted has got a dispatch, and the provider is
called once for a dispatch.

## Main results

* `Office.Answers.effect`: who has been answered and who has got a dispatch.
* `Office.Provisions.effect`: for whom the provider has been called.
-/

namespace SmsRelay

/-- The provider is called once for a dispatch that is not fresh any more, with its request, and the
outcome follows from what it says. -/
inductive Dispatch.Provided (d : Dispatch) :
    List (String × String × Option DeliveryStatus) → Prop
  | fresh (phase : d.phase = .fresh) : d.Provided []
  | delivering {due : ℕ} {verdict : Option DeliveryStatus}
      (phase : d.phase = .delivering due verdict) :
      d.Provided [(d.request.phone, d.request.message, verdict)]
  | ended {outcome : DispatchOutcome} {verdict : Option DeliveryStatus}
      (phase : d.phase = .ended outcome) (follows : outcome.Follows verdict) :
      d.Provided [(d.request.phone, d.request.message, verdict)]

theorem Dispatch.Provided.of_fresh {d : Dispatch}
    {ps : List (String × String × Option DeliveryStatus)} (h : d.Provided ps)
    (fresh : d.phase = .fresh) : ps = [] := by
  cases h with
  | fresh => rfl
  | delivering phase => cases fresh.symm.trans phase
  | ended phase => cases fresh.symm.trans phase

theorem Dispatch.Provided.of_delivering {d : Dispatch}
    {ps : List (String × String × Option DeliveryStatus)} (h : d.Provided ps) {due : ℕ}
    {verdict : Option DeliveryStatus} (phase : d.phase = .delivering due verdict) :
    ps = [(d.request.phone, d.request.message, verdict)] := by
  cases h with
  | fresh fresh => cases phase.symm.trans fresh
  | delivering phase' =>
    cases phase.symm.trans phase'
    rfl
  | ended phase' => cases phase.symm.trans phase'

/-- There is no outcome before the provider has been called. -/
theorem Dispatch.Provided.outcome? {d : Dispatch}
    {ps : List (String × String × Option DeliveryStatus)} (h : d.Provided ps) :
    (ps = [] ∧ d.outcome? = none) ∨
      ∃ verdict, ps = [(d.request.phone, d.request.message, verdict)] ∧
        ∀ outcome, d.outcome? = some outcome → outcome.Follows verdict := by
  rw [Dispatch.outcome?]
  cases h with
  | fresh phase =>
    rw [phase]
    exact .inl ⟨rfl, rfl⟩
  | delivering phase =>
    rw [phase]
    refine .inr ⟨_, rfl, fun outcome heq => ?_⟩
    cases heq
  | ended phase follows =>
    rw [phase]
    refine .inr ⟨_, rfl, fun outcome heq => ?_⟩
    cases heq
    exact follows

namespace Office

variable {o o' : Office} {k n : ℕ} {c : SendCall} {calls : List SendCall}
  {h es : List OfficeEvent}

/-! ### Calls -/

/-- The requests that have got a dispatch, with the answers to them. -/
def heads (o : Office) : List (SendRequest × SendReply) :=
  o.sender.dispatches.map fun d => (d.request, d.reply)

/-- The callers have heard what became of their calls, and each dispatch belongs to one call. -/
structure Answers (o : Office) (h : List OfficeEvent) : Prop where
  answered : ∀ (k : ℕ) r, .answered k r ∈ h ↔ ∃ c, o.calls[k]? = some c ∧ c.answer? = some r
  blocked : ∀ k : ℕ, .asked k (.ok true) ∈ h →
    ∃ q : SendRequest, o.calls[k]? = some ⟨q, .refused (.blocked q.phone)⟩
  started : ∀ (n : ℕ) q reply, o.heads[n]? = some (q, reply) ↔
    ∃ k : ℕ, o.calls[k]? = some ⟨q, .accepted reply n⟩
  once : ∀ (k k' : ℕ) q q' reply reply' n, o.calls[k]? = some ⟨q, .accepted reply n⟩ →
    o.calls[k']? = some ⟨q', .accepted reply' n⟩ → k = k'

/-- A call that has come to an end stays as it is. -/
theorem Turned.getElem?_eq_some_iff (turned : o.Turned k c calls) {j : ℕ} {c' : SendCall}
    (hc : c'.stage ≠ .asking) :
    calls[j]? = some c' ↔ o.calls[j]? = some c' ∨ j = k ∧ c = c' := by
  by_cases hj : j = k
  · subst hj
    rw [turned.here, Option.some_inj]
    refine ⟨fun heq => .inr ⟨rfl, heq⟩, fun hor => ?_⟩
    rcases hor with hold | ⟨-, heq⟩
    · exact (hc (turned.pending c' hold)).elim
    · exact heq
  · rw [turned.others j hj]
    exact ⟨.inl, fun hor => hor.resolve_right fun hand => hj hand.1⟩

theorem stage_ne_of_answer? {r : Except SendError SendReply} (hc : c.answer? = some r) :
    c.stage ≠ .asking := by
  intro hstage
  rw [SendCall.answer?, hstage] at hc
  cases hc

/-- What is seen besides calls does not matter. -/
theorem Answers.keep (ha : o.Answers h) (hcalls : o'.calls = o.calls) (hheads : o'.heads = o.heads)
    (hanswered : ∀ k r, .answered k r ∉ es) (hasked : ∀ k r, .asked k r ∉ es) :
    o'.Answers (h ++ es) := by
  refine ⟨fun k r => ?_, fun k hk => ?_, ?_, ?_⟩
  · rw [List.mem_append, or_iff_left (hanswered k r), hcalls]
    exact ha.answered k r
  · rw [hcalls]
    exact ha.blocked k ((List.mem_append.mp hk).resolve_right (hasked k _))
  · rw [hcalls, hheads]
    exact ha.started
  · rw [hcalls]
    exact ha.once

/-- What is heard when a call changes. -/
theorem Answers.heard (ha : o.Answers h) (turned : o.Turned k c calls) (told : Told k c es) :
    (∀ (j : ℕ) r, .answered j r ∈ h ++ es ↔ ∃ c, calls[j]? = some c ∧ c.answer? = some r) ∧
      ∀ j : ℕ, .asked j (.ok true) ∈ h ++ es →
        ∃ q : SendRequest, calls[j]? = some ⟨q, .refused (.blocked q.phone)⟩ := by
  constructor
  · intro j r
    rw [List.mem_append, ha.answered, told.answered]
    constructor
    · rintro (⟨c', hold, hanswer⟩ | ⟨rfl, hanswer⟩)
      · have hstage := stage_ne_of_answer? hanswer
        exact ⟨c', (turned.getElem?_eq_some_iff hstage).mpr (.inl hold), hanswer⟩
      · exact ⟨c, turned.here, hanswer⟩
    · rintro ⟨c', hnew, hanswer⟩
      rcases (turned.getElem?_eq_some_iff (stage_ne_of_answer? hanswer)).mp hnew with
        hold | ⟨rfl, rfl⟩
      · exact .inl ⟨c', hold, hanswer⟩
      · exact .inr ⟨rfl, hanswer⟩
  · intro j hj
    rcases List.mem_append.mp hj with hold | hnew
    · obtain ⟨q, hq⟩ := ha.blocked j hold
      exact ⟨q, (turned.getElem?_eq_some_iff (by nofun)).mpr (.inl hq)⟩
    · obtain ⟨rfl, hstage⟩ := told.blocked j hnew
      refine ⟨c.request, ?_⟩
      rw [turned.here, ← hstage]

theorem Answers.turn (ha : o.Answers h) (turned : o.Turned k c calls) (told : Told k c es)
    (unaccepted : ∀ reply n, c.stage ≠ .accepted reply n) :
    Answers { o with calls } (h ++ es) := by
  have haccepted : ∀ (j : ℕ) q reply n, calls[j]? = some ⟨q, .accepted reply n⟩ ↔
      o.calls[j]? = some ⟨q, .accepted reply n⟩ := by
    intro j q reply n
    rw [turned.getElem?_eq_some_iff (by nofun)]
    refine or_iff_left ?_
    rintro ⟨-, rfl⟩
    exact unaccepted reply n rfl
  obtain ⟨hanswered, hblocked⟩ := ha.heard turned told
  refine ⟨hanswered, hblocked, fun n q reply => ?_, fun j j' q q' reply reply' n hj hj' => ?_⟩
  · rw [show Office.heads { o with calls } = o.heads from rfl, ha.started]
    exact exists_congr fun j => (haccepted j q reply n).symm
  · exact ha.once j j' q q' reply reply' n ((haccepted _ _ _ _).mp hj) ((haccepted _ _ _ _).mp hj')

theorem Answers.accept (ha : o.Answers h) {d : Dispatch}
    (turned : o.Turned k ⟨d.request, .accepted d.reply o.sender.dispatches.length⟩ calls)
    (told : Told k ⟨d.request, .accepted d.reply o.sender.dispatches.length⟩ es) :
    Answers { o with
      calls, sender := { o.sender with dispatches := o.sender.dispatches ++ [d] } } (h ++ es) := by
  have hlength : o.heads.length = o.sender.dispatches.length := List.length_map _
  have haccepted : ∀ (j : ℕ) q reply n, calls[j]? = some ⟨q, .accepted reply n⟩ ↔
      o.calls[j]? = some ⟨q, .accepted reply n⟩ ∨ j = k ∧
        (⟨d.request, .accepted d.reply o.sender.dispatches.length⟩ : SendCall) =
          ⟨q, .accepted reply n⟩ :=
    fun _ _ _ _ => turned.getElem?_eq_some_iff (by nofun)
  have hold : ∀ (j : ℕ) q reply n, o.calls[j]? = some ⟨q, .accepted reply n⟩ →
      n < o.sender.dispatches.length := by
    intro j q reply n hj
    rw [← hlength]
    exact (List.getElem?_eq_some_iff.mp ((ha.started n q reply).mpr ⟨j, hj⟩)).1
  obtain ⟨hanswered, hblocked⟩ := ha.heard turned told
  refine ⟨hanswered, hblocked, fun n q reply => ?_, fun j j' q q' reply reply' n hj hj' => ?_⟩
  · have hheads : Office.heads { o with
        calls, sender := { o.sender with dispatches := o.sender.dispatches ++ [d] } } =
        o.heads ++ [(d.request, d.reply)] := List.map_append
    rw [hheads, getElem?_concat_eq_some_iff, ha.started, hlength]
    constructor
    · rintro (⟨j, hj⟩ | ⟨rfl, heq⟩)
      · exact ⟨j, (haccepted j q reply n).mpr (.inl hj)⟩
      · cases heq
        exact ⟨k, (haccepted k _ _ _).mpr (.inr ⟨rfl, rfl⟩)⟩
    · rintro ⟨j, hj⟩
      rcases (haccepted j q reply n).mp hj with hj | ⟨rfl, heq⟩
      · exact .inl ⟨j, hj⟩
      · cases heq
        exact .inr ⟨rfl, rfl⟩
  · rcases (haccepted j q reply n).mp hj with hj | ⟨rfl, heq⟩ <;>
      rcases (haccepted j' q' reply' n).mp hj' with hj' | ⟨rfl, heq'⟩
    · exact ha.once j j' q q' reply reply' n hj hj'
    · cases heq'
      exact (Nat.lt_irrefl _ (hold j q reply _ hj)).elim
    · cases heq
      exact (Nat.lt_irrefl _ (hold j' q' reply' _ hj')).elim
    · rfl

/-- The phase of a dispatch does not matter to its call. -/
theorem heads_set {d : Dispatch} (found : o.sender.dispatches[n]? = some d)
    (phase : DispatchPhase) :
    (o.sender.dispatches.set n { d with phase := phase }).map (fun d => (d.request, d.reply)) =
      o.heads := by
  obtain ⟨hlt, rfl⟩ := List.getElem?_eq_some_iff.mp found
  have hlt' : n < o.heads.length := by rwa [heads, List.length_map]
  have hself := List.set_getElem_self hlt'
  rw [List.map_set]
  simp only [heads, List.getElem_map] at hself
  exact hself

/-- **Who has been answered** and who has got a dispatch. -/
theorem Answers.effect (ha : o.Answers h) (heffect : Effect o es o') : o'.Answers (h ++ es) := by
  cases heffect with
  | quiet topics topic dispatches calls posts =>
    exact ha.keep calls (by rw [heads, heads, dispatches]) nofun nofun
  | turn turned told unaccepted => exact ha.turn turned told unaccepted
  | accept turned told => exact ha.accept turned told
  | provide found =>
    refine ha.keep rfl (heads_set found _) ?_ ?_ <;> exact fun k r hmem => by simp at hmem
  | fail found => exact ha.keep rfl (heads_set found _) nofun nofun
  | publish found => exact ha.keep rfl (heads_set found _) nofun nofun
  | elsewhere | look => exact ha.keep rfl rfl nofun nofun

/-! ### The provider -/

/-- What the provider has been called with for a dispatch, and what it has said. -/
def provisions (h : List OfficeEvent) (n : ℕ) : List (String × String × Option DeliveryStatus) :=
  h.filterMap fun
    | .provided n' phone text verdict => if n' = n then some (phone, text, verdict) else none
    | _ => none

theorem provisions_append (h es : List OfficeEvent) (n : ℕ) :
    provisions (h ++ es) n = provisions h n ++ provisions es n :=
  List.filterMap_append ..

theorem provisions_append_of_not_mem (h : List OfficeEvent)
    (hes : ∀ n phone text verdict, .provided n phone text verdict ∉ es) (n : ℕ) :
    provisions (h ++ es) n = provisions h n := by
  have hnone : provisions es n = [] := by
    refine List.filterMap_eq_nil_iff.mpr fun e he => ?_
    split
    · exact (hes _ _ _ _ he).elim
    · rfl
  rw [provisions_append, hnone, List.append_nil]

/-- The provider has been called for dispatches as it should be. -/
structure Provisions (o : Office) (h : List OfficeEvent) : Prop where
  known : ∀ (n : ℕ) d, o.sender.dispatches[n]? = some d → d.Provided (provisions h n)
  unknown : ∀ n : ℕ, o.sender.dispatches[n]? = none → provisions h n = []

theorem Provisions.keep (hp : o.Provisions h)
    (hdispatches : o'.sender.dispatches = o.sender.dispatches)
    (hes : ∀ n phone text verdict, .provided n phone text verdict ∉ es) :
    o'.Provisions (h ++ es) := by
  refine ⟨fun n d hfound => ?_, fun n hnone => ?_⟩ <;> rw [provisions_append_of_not_mem h hes]
  · exact hp.known n d (hdispatches ▸ hfound)
  · exact hp.unknown n (hdispatches ▸ hnone)

/-- A dispatch goes on. -/
theorem Provisions.set {d d' : Dispatch} (hp : o.Provisions h)
    (found : o.sender.dispatches[n]? = some d)
    (hset : o'.sender.dispatches = o.sender.dispatches.set n d')
    (hother : ∀ j, j ≠ n → provisions es j = [])
    (hself : d'.Provided (provisions h n ++ provisions es n)) : o'.Provisions (h ++ es) := by
  refine ⟨fun j e hfound => ?_, fun j hnone => ?_⟩ <;> rw [provisions_append]
  · rw [hset] at hfound
    rcases (getElem?_set_eq_some_iff found).mp hfound with ⟨rfl, rfl⟩ | ⟨hj, hfound⟩
    · exact hself
    · rw [hother j hj, List.append_nil]
      exact hp.known j e hfound
  · rw [hset, List.getElem?_eq_none_iff, List.length_set, ← List.getElem?_eq_none_iff] at hnone
    have hj : j ≠ n := by
      rintro rfl
      cases found.symm.trans hnone
    rw [hother j hj, List.append_nil]
    exact hp.unknown j hnone

/-- **For whom the provider has been called.** -/
theorem Provisions.effect (hp : o.Provisions h) (heffect : Effect o es o') :
    o'.Provisions (h ++ es) := by
  cases heffect with
  | quiet topics topic dispatches => exact hp.keep dispatches nofun
  | turn turned told => exact hp.keep rfl told.provided
  | elsewhere | look => exact hp.keep rfl nofun
  | @accept k d calls es turned told fresh timestamp =>
    refine ⟨fun n e hfound => ?_, fun n hnone => ?_⟩ <;>
      rw [provisions_append_of_not_mem h told.provided]
    · rcases getElem?_concat_eq_some_iff.mp hfound with hfound | ⟨rfl, rfl⟩
      · exact hp.known n e hfound
      · rw [hp.unknown _ (List.getElem?_eq_none (Nat.le_refl _))]
        exact .fresh fresh
    · have hlength : (o.sender.dispatches ++ [d]).length ≤ n := List.getElem?_eq_none_iff.mp hnone
      rw [List.length_append] at hlength
      exact hp.unknown n (List.getElem?_eq_none (Nat.le_of_succ_le hlength))
  | @provide n d due verdict found fresh =>
    have hmark : provisions [.provided n d.request.phone d.request.message verdict] n =
        [(d.request.phone, d.request.message, verdict)] := by
      simp [provisions]
    refine hp.set found rfl (fun j hj => ?_) ?_
    · simp [provisions, hj.symm]
    · rw [(hp.known n d found).of_fresh fresh, hmark]
      exact .delivering rfl
  | @fail n d due verdict outcome found phase unposted follows quiet =>
    refine hp.set found rfl (fun j hj => rfl) ?_
    rw [(hp.known n d found).of_delivering phase]
    exact .ended rfl follows
  | @publish n d due status found phase known =>
    refine hp.set found rfl (fun j hj => rfl) ?_
    rw [(hp.known n d found).of_delivering phase]
    exact .ended rfl .published

end Office

end SmsRelay
