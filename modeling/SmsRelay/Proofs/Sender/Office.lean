import SmsRelay.Proofs.Log.Run
import SmsRelay.Proofs.Relay.Publication

/-!
# A sender and those who call it

A sender is asked to send texts while others block phone numbers, close the sender or the log, and
append records to other topics. A call has to wait for the block list and a dispatch for its
partition, so between the two checks of a request and between the check of a publication and its
record anything else may happen.

## Implementation notes

Calls and dispatches have numbers, in the order in which the calls were made and in which their
requests were accepted. `posts` are the dispatches whose events the log has let in and not appended
yet: `look` is the check and `land` the append. `step` does both at once, as a dispatch does that
finds its partition free.

The history of a run tells what the block list said, what the callers heard, when the provider was
called and what became of the records of the log.

## Main results

* `Office.land_of_look`: looking and landing at once is a step of the dispatch, a result of its own.
* `Office.effect_of_move?`: everything that a move can do.
-/

namespace SmsRelay

/-- How far a call has come. -/
inductive SendStage where
  /-- The block list is being asked. -/
  | asking
  | refused (e : SendError)
  /-- The request has been accepted and has got a dispatch. -/
  | accepted (reply : SendReply) (dispatch : ℕ)
  /-- The caller has not waited for an answer. -/
  | abandoned
  deriving DecidableEq, Repr

/-- A call that asks to send a text. -/
structure SendCall where
  request : SendRequest
  stage : SendStage
  deriving DecidableEq, Repr

/-- What the caller has heard. -/
def SendCall.answer? (c : SendCall) : Option (Except SendError SendReply) :=
  match c.stage with
  | .refused e => some (.error e)
  | .accepted reply _ => some (.ok reply)
  | .asking | .abandoned => none

namespace SendCall

variable {c : SendCall}

theorem answer?_eq_error_iff {e : SendError} :
    c.answer? = some (.error e) ↔ c.stage = .refused e := by
  rw [answer?]
  split <;> simp_all

theorem answer?_eq_ok_iff {reply : SendReply} :
    c.answer? = some (.ok reply) ↔ ∃ n, c.stage = .accepted reply n := by
  rw [answer?]
  split <;> simp_all

end SendCall

namespace Dispatch

/-- The answer to the request of a dispatch. -/
def reply (d : Dispatch) : SendReply := ⟨d.correlationId, .pending, d.timestamp⟩

/-- What the provider has said, when it is due. -/
def verdict? (d : Dispatch) (now : ℕ) : Option DeliveryStatus :=
  match d.phase with
  | .delivering due verdict => if now < due then none else verdict
  | _ => none

end Dispatch

/-- What happens around a sender. -/
inductive OfficeEvent where
  /-- The block list answers a call. -/
  | asked (call : ℕ) (r : Except Failure Bool)
  | answered (call : ℕ) (r : Except SendError SendReply)
  /-- The provider is called for a dispatch, and what it will say; nothing if it breaks down. -/
  | provided (dispatch : ℕ) (phone text : String) (verdict : Option DeliveryStatus)
  | log (e : RelayEvent)
  deriving DecidableEq

/-- What can happen around a sender. -/
inductive OfficeMove where
  | call (q : SendRequest)
  /-- The block list answers, and the call with it. -/
  | decide (call : ℕ) (correlationId : String) (timestamp : ℤ)
  | abandon (call : ℕ)
  | block (phone : String)
  | unblock (phone : String)
  | equip (provider : Provider) (guardFault publishFault : Option Failure)
  | step (dispatch : ℕ)
  /-- The log lets the event of a dispatch in. -/
  | look (dispatch : ℕ)
  /-- An event that has been let in is appended. -/
  | land (dispatch : ℕ)
  | elapse (millis : ℕ)
  | closeSender
  | shutLog
  | endGroups
  /-- Readers come and go. -/
  | regroup (groups : List Group)
  /-- Someone else appends a record to another topic. -/
  | append (topic key : String) (value : Bytes)

/-- A sender, the log to which it publishes, and those who call it. -/
structure Office where
  now : ℕ := 0
  log : Log
  sender : Sender
  calls : List SendCall := []
  /-- The dispatches that wait for their partition, with the verdicts of the provider. -/
  posts : List (ℕ × DeliveryStatus) := []

namespace Office

/-- The outcome of a dispatch, if there is one. -/
def outcome? (o : Office) (n : ℕ) : Option DispatchOutcome :=
  (o.sender.dispatches[n]?).bind Dispatch.outcome?

/-- The request of a call that waits for the block list. -/
def asking? (o : Office) (k : ℕ) : Option SendRequest :=
  (o.calls[k]?).bind fun c => if c.stage = .asking then some c.request else none

/-- Changes the stage of a call. -/
def setStage (o : Office) (k : ℕ) (q : SendRequest) (stage : SendStage) : Office :=
  { o with calls := o.calls.set k ⟨q, stage⟩ }

/-- The call that a request makes. -/
def entering (o : Office) (q : SendRequest) : SendCall :=
  match o.sender.screen q with
  | .ok () => ⟨q, .asking⟩
  | .error e => ⟨q, .refused e⟩

/-- The block list is asked about the request of a call, and the call is answered. -/
def settle (o : Office) (k : ℕ) (q : SendRequest) (correlationId : String) (timestamp : ℤ) :
    Office :=
  match o.sender.decide q correlationId timestamp with
  | .ok (reply, s) =>
    { o.setStage k q (.accepted reply o.sender.dispatches.length) with sender := s }
  | .error e => o.setStage k q (.refused e)

/-- The record of an event that has been let in is appended, and its dispatch ends. -/
def publish (o : Office) (n : ℕ) (d : Dispatch) (status : DeliveryStatus) : Office :=
  let (l, place) := o.log.append o.sender.topic d.request.phone (d.event status).encode
  { o with
    log := l
    sender := { o.sender with
      dispatches := o.sender.dispatches.set n
        { d with phase := .ended (.published status place) } }
    posts := o.posts.filter (·.1 ≠ n) }

/-- The result of a move, if it can be made. -/
def move? (o : Office) : OfficeMove → Option Office
  | .call q => some { o with calls := o.calls ++ [o.entering q] }
  | .decide k correlationId timestamp => (o.asking? k).bind fun q =>
    if -(pow2 63 : ℤ) ≤ timestamp ∧ timestamp < (pow2 63 : ℤ) then
      some (o.settle k q correlationId timestamp)
    else none
  | .abandon k => (o.asking? k).map fun q => o.setStage k q .abandoned
  | .block phone => (o.sender.block phone).toOption.map fun s => { o with sender := s }
  | .unblock phone => (o.sender.unblock phone).toOption.map fun s => { o with sender := s }
  | .equip provider guardFault publishFault => some { o with
      sender := { o.sender with
        provider := provider, guardFault := guardFault, publishFault := publishFault } }
  | .step n =>
    if n ∈ o.posts.map Prod.fst then none
    else (o.sender.step? o.now o.log n).map fun p => { o with log := p.1, sender := p.2 }
  | .look n => do
    let d ← o.sender.dispatches[n]?
    let status ← d.verdict? o.now
    if n ∉ o.posts.map Prod.fst ∧ o.sender.publishFault = none ∧
        (o.log.topic? o.sender.topic).isOk then
      some { o with posts := o.posts ++ [(n, status)] }
    else none
  | .land n => do
    let d ← o.sender.dispatches[n]?
    let status ← o.posts.lookup n
    some (o.publish n d status)
  | .elapse millis => some { o with now := o.now + millis }
  | .closeSender => some { o with sender := o.sender.close }
  | .shutLog => some { o with log := o.log.shut }
  | .endGroups => some { o with log := o.log.closeGroups }
  | .regroup groups => some { o with log := { o.log with groups := groups } }
  | .append topic key value =>
    if topic = o.sender.topic then none
    else some { o with log := (o.log.append topic key value).1 }

/-- What is seen of a move besides the log. -/
def marks (o : Office) : OfficeMove → List OfficeEvent
  | .call q => ((o.entering q).answer?.map (.answered o.calls.length ·)).toList
  | .decide k correlationId timestamp =>
    match o.asking? k with
    | some q => [.asked k (o.sender.isBlocked q.phone),
        .answered k ((o.sender.decide q correlationId timestamp).map Prod.fst)]
    | none => []
  | .step n =>
    match o.sender.dispatches[n]? with
    | some d =>
      if d.phase = .fresh then
        [.provided n d.request.phone d.request.message
          (o.sender.provider d.request.phone d.request.message).verdict]
      else []
    | none => []
  | _ => []

/-- What happens in a move from `o` to `o'`. -/
def events (o : Office) (m : OfficeMove) (o' : Office) : List OfficeEvent :=
  o.marks m ++ (o.log.changes o'.log).map .log

/-! ### What a move can do -/

variable {o o' : Office} {k n : ℕ} {q : SendRequest} {c : SendCall} {d : Dispatch}
  {status : DeliveryStatus} {m : OfficeMove} {es : List OfficeEvent}

/-- Events that have been let in belong to dispatches to which the provider has given its verdict,
and the log has their topic. -/
structure Orderly (o : Office) : Prop where
  posts : ∀ n status, (n, status) ∈ o.posts →
    ∃ d due, o.sender.dispatches[n]? = some d ∧ d.phase = .delivering due (some status)
  known : o.posts ≠ [] → o.log.find? o.sender.topic ≠ none

/-- One call changes. It had not been answered before. -/
structure Turned (o : Office) (k : ℕ) (c : SendCall) (calls : List SendCall) : Prop where
  here : calls[k]? = some c
  others : ∀ j, j ≠ k → calls[j]? = o.calls[j]?
  pending : ∀ c₀, o.calls[k]? = some c₀ → c₀.stage = .asking

/-- What is seen of a call that changes: the answer, and perhaps what the block list has said. -/
structure Told (k : ℕ) (c : SendCall) (es : List OfficeEvent) : Prop where
  answered : ∀ j r, .answered j r ∈ es ↔ j = k ∧ c.answer? = some r
  blocked : ∀ j, .asked j (.ok true) ∈ es →
    j = k ∧ c.stage = .refused (.blocked c.request.phone)
  provided : ∀ n phone text verdict, .provided n phone text verdict ∉ es
  log : ∀ e, .log e ∉ es

/-- Everything that a move can do. -/
inductive Effect (o : Office) : List OfficeEvent → Office → Prop
  /-- Nothing about calls, dispatches and records changes. -/
  | quiet {o' : Office} (topics : o'.log.topics = o.log.topics)
      (topic : o'.sender.topic = o.sender.topic)
      (dispatches : o'.sender.dispatches = o.sender.dispatches) (calls : o'.calls = o.calls)
      (posts : o'.posts = o.posts) : Effect o [] o'
  | elsewhere {topic key : String} {value : Bytes} (other : topic ≠ o.sender.topic) :
      Effect o [] { o with log := (o.log.append topic key value).1 }
  /-- A call is made, refused or given up. -/
  | turn {k : ℕ} {c : SendCall} {calls : List SendCall} {es : List OfficeEvent}
      (turned : o.Turned k c calls) (told : Told k c es)
      (unaccepted : ∀ reply n, c.stage ≠ .accepted reply n) : Effect o es { o with calls }
  /-- A request is accepted and gets a dispatch. -/
  | accept {k : ℕ} {d : Dispatch} {calls : List SendCall} {es : List OfficeEvent}
      (turned : o.Turned k ⟨d.request, .accepted d.reply o.sender.dispatches.length⟩ calls)
      (told : Told k ⟨d.request, .accepted d.reply o.sender.dispatches.length⟩ es)
      (fresh : d.phase = .fresh)
      (timestamp : -(pow2 63 : ℤ) ≤ d.timestamp ∧ d.timestamp < (pow2 63 : ℤ)) :
      Effect o es { o with
        calls, sender := { o.sender with dispatches := o.sender.dispatches ++ [d] } }
  | provide {n : ℕ} {d : Dispatch} {due : ℕ} {verdict : Option DeliveryStatus}
      (found : o.sender.dispatches[n]? = some d) (fresh : d.phase = .fresh) :
      Effect o [.provided n d.request.phone d.request.message verdict] { o with
        sender := { o.sender with
          dispatches := o.sender.dispatches.set n
            { d with phase := .delivering due verdict } } }
  /-- A dispatch ends and nothing has been published. -/
  | fail {n : ℕ} {d : Dispatch} {due : ℕ} {verdict : Option DeliveryStatus}
      {outcome : DispatchOutcome} (found : o.sender.dispatches[n]? = some d)
      (phase : d.phase = .delivering due verdict) (unposted : n ∉ o.posts.map Prod.fst)
      (follows : outcome.Follows verdict)
      (quiet : ∀ status place, outcome ≠ .published status place) :
      Effect o [] { o with
        sender := { o.sender with
          dispatches := o.sender.dispatches.set n { d with phase := .ended outcome } } }
  | look {n : ℕ} {d : Dispatch} {due : ℕ} {status : DeliveryStatus}
      (found : o.sender.dispatches[n]? = some d)
      (phase : d.phase = .delivering due (some status))
      (known : o.log.find? o.sender.topic ≠ none) :
      Effect o [] { o with posts := o.posts ++ [(n, status)] }
  | publish {n : ℕ} {d : Dispatch} {due : ℕ} {status : DeliveryStatus}
      (found : o.sender.dispatches[n]? = some d)
      (phase : d.phase = .delivering due (some status))
      (known : o.log.find? o.sender.topic ≠ none) : Effect o [] (o.publish n d status)

theorem asking?_eq_some_iff : o.asking? k = some q ↔ o.calls[k]? = some ⟨q, .asking⟩ := by
  rw [asking?, Option.bind_eq_some_iff]
  constructor
  · rintro ⟨⟨q', stage⟩, hfound, h⟩
    split at h
    · rename_i hstage
      cases h
      cases hstage
      exact hfound
    · cases h
  · intro h
    exact ⟨_, h, if_pos rfl⟩

/-- A new call. -/
theorem turned_append (o : Office) (c : SendCall) :
    o.Turned o.calls.length c (o.calls ++ [c]) where
  here := List.getElem?_concat_length
  others j hj := by
    rcases Nat.lt_or_gt_of_ne hj with hlt | hgt
    · exact List.getElem?_append_left hlt
    · rw [List.getElem?_eq_none (Nat.le_of_lt hgt), List.getElem?_eq_none]
      rw [List.length_append]
      exact hgt
  pending c₀ h := by
    rw [List.getElem?_eq_none (Nat.le_refl _)] at h
    cases h

/-- A call that was waiting. -/
theorem turned_set (h : o.asking? k = some q) (stage : SendStage) :
    o.Turned k ⟨q, stage⟩ (o.calls.set k ⟨q, stage⟩) where
  here := by
    rw [List.getElem?_set_self (List.getElem?_eq_some_iff.mp (asking?_eq_some_iff.mp h)).1]
  others j hj := List.getElem?_set_ne hj.symm
  pending c₀ hc := by
    cases (asking?_eq_some_iff.mp h).symm.trans hc
    rfl

/-- A call that is not answered. -/
theorem told_nil (h : c.answer? = none) (k : ℕ) : Told k c [] where
  answered j r := by
    rw [h]
    exact ⟨nofun, nofun⟩
  blocked := nofun
  provided := nofun
  log := nofun

/-- A call that is answered at once. -/
theorem told_answered {r : Except SendError SendReply} (h : c.answer? = some r) (k : ℕ) :
    Told k c [.answered k r] where
  answered j r' := by
    rw [h, List.mem_singleton]
    constructor
    · rintro ⟨⟩
      exact ⟨rfl, rfl⟩
    · rintro ⟨rfl, ⟨⟩⟩
      rfl
  blocked := nofun
  provided := nofun
  log := nofun

/-- A call that is answered as the block list says. -/
theorem told_decided {r : Except SendError SendReply} {b : Except Failure Bool}
    (h : c.answer? = some r) (hb : b = .ok true → c.stage = .refused (.blocked c.request.phone))
    (k : ℕ) : Told k c [.asked k b, .answered k r] where
  answered j r' := by
    rw [List.mem_cons, ← (told_answered h k).answered]
    exact ⟨fun hmem => hmem.resolve_left nofun, .inr⟩
  blocked j hj := by
    rcases List.mem_cons.mp hj with hj | hj
    · cases hj
      exact ⟨rfl, hb rfl⟩
    · exact (told_answered h k).blocked j hj
  provided _ _ _ _ h := by simp at h
  log _ h := by simp at h

theorem effect_of_call (o : Office) (q : SendRequest) :
    Effect o (o.marks (.call q)) { o with calls := o.calls ++ [o.entering q] } := by
  rw [marks, entering]
  rcases o.sender.screen q with e | _
  · refine .turn (o.turned_append ⟨q, .refused e⟩) (told_answered rfl _) ?_
    exact nofun
  · refine .turn (o.turned_append ⟨q, .asking⟩) (told_nil rfl _) ?_
    exact nofun

theorem effect_of_decide (hasking : o.asking? k = some q) {id : String} {timestamp : ℤ}
    (htimestamp : -(pow2 63 : ℤ) ≤ timestamp ∧ timestamp < (pow2 63 : ℤ)) :
    Effect o (o.marks (.decide k id timestamp)) (o.settle k q id timestamp) := by
  have hmarks : o.marks (.decide k id timestamp) = [.asked k (o.sender.isBlocked q.phone),
      .answered k ((o.sender.decide q id timestamp).map Prod.fst)] := by
    rw [marks, hasking]
  rw [hmarks, settle, Sender.decide]
  rcases o.sender.isBlocked q.phone with f | _ | _
  · refine .turn (turned_set hasking _) (told_decided rfl (fun hok => ?_) k)
      fun reply n haccepted => ?_
    · cases hok
    · cases haccepted
  · refine .accept (d := { correlationId := id, request := q, timestamp := timestamp })
      (turned_set hasking _) (told_decided rfl (fun hblocked => ?_) k) rfl htimestamp
    cases hblocked
  · refine .turn (turned_set hasking _) (told_decided rfl (fun _ => rfl) k)
      fun reply n haccepted => ?_
    cases haccepted

theorem filter_posts_of_not_mem {posts : List (ℕ × DeliveryStatus)}
    (h : n ∉ posts.map Prod.fst) : posts.filter (·.1 ≠ n) = posts := by
  refine List.filter_eq_self.mpr fun post hpost => decide_eq_true ?_
  rintro rfl
  exact h (List.mem_map_of_mem hpost)

theorem effect_of_step (h : o.move? (.step n) = some o') :
    Effect o (o.marks (.step n)) o' := by
  rw [move?] at h
  split at h
  · cases h
  · rename_i hunposted
    obtain ⟨⟨l, s⟩, hstep, rfl⟩ := Option.map_eq_some_iff.mp h
    have hmarks : ∀ d, o.sender.dispatches[n]? = some d → o.marks (.step n) =
        if d.phase = .fresh then [.provided n d.request.phone d.request.message
          (o.sender.provider d.request.phone d.request.message).verdict] else [] := by
      intro d hfound
      rw [marks, hfound]
    cases Sender.progress_of_step? hstep with
    | provide found fresh called =>
      rw [hmarks _ found, if_pos fresh, called]
      exact .provide found fresh
    | fail found phase follows quiet =>
      rw [hmarks _ found, if_neg (by rw [phase]; nofun)]
      exact .fail found phase hunposted follows quiet
    | @publish d due status place _ found phase known appended =>
      have hpublish := Effect.publish found phase known
      rw [Office.publish, appended, filter_posts_of_not_mem hunposted] at hpublish
      rw [hmarks _ found, if_neg (by rw [phase]; nofun)]
      exact hpublish

theorem phase_of_verdict? {now : ℕ} (h : d.verdict? now = some status) :
    ∃ due ≤ now, d.phase = .delivering due (some status) := by
  rw [Dispatch.verdict?] at h
  split at h
  · rename_i due verdict hphase
    split at h
    · cases h
    · rename_i hdue
      exact ⟨due, Nat.le_of_not_lt hdue, by rw [hphase, h]⟩
  · cases h

theorem find?_of_topic? {l : Log} {topic : String} {t : Topic} (h : l.topic? topic = .ok t) :
    l.find? topic ≠ none := by
  intro hnone
  rw [Log.topic?, hnone] at h
  split at h <;> cases h

theorem effect_of_look (h : o.move? (.look n) = some o') : Effect o [] o' := by
  obtain ⟨d, hfound, h⟩ := Option.bind_eq_some_iff.mp h
  obtain ⟨status, hverdict, h⟩ := Option.bind_eq_some_iff.mp h
  obtain ⟨due, -, hphase⟩ := phase_of_verdict? hverdict
  split at h
  · rename_i hlook
    cases h
    obtain ⟨-, -, hopen⟩ := hlook
    cases htopic : o.log.topic? o.sender.topic with
    | error e =>
      rw [htopic] at hopen
      cases hopen
    | ok t => exact .look hfound hphase (find?_of_topic? htopic)
  · cases h

theorem effect_of_land (ho : o.Orderly) (h : o.move? (.land n) = some o') : Effect o [] o' := by
  obtain ⟨d, hfound, h⟩ := Option.bind_eq_some_iff.mp h
  obtain ⟨status, hposted, h⟩ := Option.bind_eq_some_iff.mp h
  cases h
  have hpost : (n, status) ∈ o.posts := by
    obtain ⟨before, after, hposts, -⟩ := List.lookup_eq_some_iff.mp hposted
    rw [hposts]
    exact List.mem_append_right _ List.mem_cons_self
  obtain ⟨d', due, hfound', hphase⟩ := ho.posts n status hpost
  cases hfound.symm.trans hfound'
  exact .publish hfound hphase (ho.known (List.ne_nil_of_mem hpost))

theorem sender_of_changeBlockList {f : BlockList → Except Failure BlockList}
    (h : (o.sender.changeBlockList f).toOption.map (fun s => { o with sender := s }) = some o') :
    ∃ l, o' = { o with sender := { o.sender with blockList := l } } := by
  obtain ⟨s, hs, rfl⟩ := Option.map_eq_some_iff.mp h
  cases hchange : o.sender.changeBlockList f with
  | error e =>
    rw [hchange] at hs
    cases hs
  | ok s' =>
    rw [hchange] at hs
    cases hs
    obtain ⟨l, -, rfl⟩ := Sender.eq_of_changeBlockList hchange
    exact ⟨l, rfl⟩

/-- **Everything that a move can do.** -/
theorem effect_of_move? (ho : o.Orderly) (h : o.move? m = some o') :
    Effect o (o.marks m) o' := by
  cases m with
  | call q =>
    cases h
    exact effect_of_call o q
  | decide k id timestamp =>
    obtain ⟨q, hasking, h⟩ := Option.bind_eq_some_iff.mp h
    split at h
    · rename_i htimestamp
      cases h
      exact effect_of_decide hasking htimestamp
    · cases h
  | abandon k =>
    obtain ⟨q, hasking, rfl⟩ := Option.map_eq_some_iff.mp h
    refine .turn (turned_set hasking .abandoned) (told_nil rfl k) ?_
    exact nofun
  | block phone | unblock phone =>
    obtain ⟨l, rfl⟩ := sender_of_changeBlockList h
    exact .quiet rfl rfl rfl rfl rfl
  | step n => exact effect_of_step h
  | look n => exact effect_of_look h
  | land n => exact effect_of_land ho h
  | append topic key value =>
    rw [move?] at h
    split at h
    · cases h
    · rename_i hother
      cases h
      exact .elsewhere hother
  | equip | elapse | closeSender | shutLog | endGroups | regroup =>
    cases h
    exact .quiet rfl rfl rfl rfl rfl

/-- **Looking and landing at once** is what a dispatch does that finds its partition free. Runs do
not need it, so it is a result of its own: it says that the two moves are the step of a dispatch,
cut in two. -/
theorem land_of_look (h : o.move? (.look n) = some o') :
    o'.move? (.land n) = o.move? (.step n) := by
  obtain ⟨d, hfound, h⟩ := Option.bind_eq_some_iff.mp h
  obtain ⟨status, hverdict, h⟩ := Option.bind_eq_some_iff.mp h
  obtain ⟨due, hdue, hphase⟩ := phase_of_verdict? hverdict
  split at h
  · rename_i hlook
    cases h
    obtain ⟨hunposted, hfault, hopen⟩ := hlook
    have hposted : (o.posts ++ [(n, status)]).lookup n = some status := by
      have hnone : o.posts.lookup n = none := by
        rw [List.lookup_eq_none_iff]
        intro post hpost
        rw [bne_iff_ne]
        rintro rfl
        exact hunposted (List.mem_map_of_mem hpost)
      rw [List.lookup_append, hnone, List.lookup_cons_self]
      rfl
    have hfilter : (o.posts ++ [(n, status)]).filter (·.1 ≠ n) = o.posts := by
      rw [List.filter_append, filter_posts_of_not_mem hunposted, List.filter_cons_of_neg (by simp)]
      exact List.append_nil _
    have hsend : o.log.send o.sender.topic d.request.phone (d.event status).encode =
        .ok (o.log.append o.sender.topic d.request.phone (d.event status).encode) := by
      rw [Log.send]
      cases htopic : o.log.topic? o.sender.topic with
      | error e =>
        rw [htopic] at hopen
        cases hopen
      | ok t => rfl
    have hstep : o.sender.step? o.now o.log n = some
        ((o.log.append o.sender.topic d.request.phone (d.event status).encode).1,
          (o.publish n d status).sender) := by
      have hpublish : o.sender.publish o.log d status =
          (.published status
              (o.log.append o.sender.topic d.request.phone (d.event status).encode).2,
            (o.log.append o.sender.topic d.request.phone (d.event status).encode).1) := by
        rw [Sender.publish, hfault]
        dsimp only
        rw [hsend]
      simp only [Sender.step?, hfound, bind, Option.bind, hphase, if_neg (Nat.not_lt.mpr hdue),
        hpublish]
      rfl
    simp only [move?, hfound, hposted, bind, Option.bind, hstep, if_neg hunposted, publish, hfilter,
      Option.map]
  · cases h

/-! ### Runs -/

/-- A topic that the log has stays there. -/
theorem find?_append_ne_none {l : Log} {topic : String} (h : l.find? topic ≠ none)
    (topic' key : String) (value : Bytes) :
    (l.append topic' key value).1.find? topic ≠ none := by
  obtain ⟨t, ht⟩ := Option.ne_none_iff_exists'.mp h
  obtain ⟨t', ht', -⟩ := Log.find?_append ht topic' key value
  rw [ht']
  exact Option.some_ne_none t'

theorem Orderly.set (ho : o.Orderly) {posts : List (ℕ × DeliveryStatus)}
    (hposts : ∀ post ∈ posts, post ∈ o.posts ∧ post.1 ≠ n) (phase : DispatchPhase) :
    ∀ j status, (j, status) ∈ posts → ∃ d' due,
      (o.sender.dispatches.set n { d with phase := phase })[j]? = some d' ∧
        d'.phase = .delivering due (some status) := by
  intro j status hpost
  obtain ⟨hold, hne⟩ := hposts _ hpost
  obtain ⟨d', due, hfound, hphase⟩ := ho.posts j status hold
  exact ⟨d', due, by rw [List.getElem?_set_ne hne.symm, hfound], hphase⟩

theorem Effect.orderly (h : Effect o es o') (ho : o.Orderly) : o'.Orderly := by
  cases h with
  | quiet topics topic dispatches calls posts =>
    refine ⟨fun n status hpost => ?_, fun hposts => ?_⟩
    · rw [posts] at hpost
      rw [dispatches]
      exact ho.posts n status hpost
    · rw [posts] at hposts
      rw [topic, Log.find?_of_topics topics]
      exact ho.known hposts
  | elsewhere other =>
    exact ⟨ho.posts, fun hposts => find?_append_ne_none (ho.known hposts) _ _ _⟩
  | turn => exact ⟨ho.posts, ho.known⟩
  | accept =>
    refine ⟨fun n status hpost => ?_, ho.known⟩
    obtain ⟨d, due, hfound, hphase⟩ := ho.posts n status hpost
    refine ⟨d, due, ?_, hphase⟩
    exact (List.getElem?_append_left (List.getElem?_eq_some_iff.mp hfound).1).trans hfound
  | provide found fresh =>
    refine ⟨ho.set (fun post hpost => ⟨hpost, ?_⟩) _, ho.known⟩
    rintro rfl
    obtain ⟨d', due, hfound, hphase⟩ := ho.posts _ _ hpost
    cases found.symm.trans hfound
    cases fresh.symm.trans hphase
  | fail found phase unposted follows quiet =>
    refine ⟨ho.set (fun post hpost => ⟨hpost, ?_⟩) _, ho.known⟩
    rintro rfl
    exact unposted (List.mem_map_of_mem hpost)
  | @look n d due status found phase known =>
    refine ⟨fun j status' hpost => ?_, fun _ => known⟩
    rcases List.mem_append.mp hpost with hpost | hpost
    · exact ho.posts j status' hpost
    · cases List.mem_singleton.mp hpost
      exact ⟨d, due, found, phase⟩
  | publish found phase known =>
    refine ⟨ho.set (fun post hpost => ?_) _, fun _ => find?_append_ne_none known _ _ _⟩
    obtain ⟨hpost, hne⟩ := List.mem_filter.mp hpost
    exact ⟨hpost, of_decide_eq_true hne⟩

/-- Nobody has called yet. -/
structure Fresh (o : Office) : Prop where
  numbered : o.log.Numbered
  calls : o.calls = []
  posts : o.posts = []
  dispatches : o.sender.dispatches = []

end Office

/-- A run around a sender from its beginning `o₀`, with its history, oldest first. -/
inductive OfficeRun (o₀ : Office) : Office → List OfficeEvent → Prop
  | start (fresh : o₀.Fresh) : OfficeRun o₀ o₀ []
  | move {o o' : Office} {h : List OfficeEvent} {m : OfficeMove} (run : OfficeRun o₀ o h)
      (moved : o.move? m = some o') : OfficeRun o₀ o' (h ++ o.events m o')

namespace OfficeRun

variable {o₀ o : Office} {h : List OfficeEvent}

theorem orderly (run : OfficeRun o₀ o h) : o.Orderly := by
  induction run with
  | start fresh =>
    refine ⟨fun n status hpost => ?_, fun hposts => (hposts fresh.posts).elim⟩
    rw [fresh.posts] at hpost
    exact absurd hpost List.not_mem_nil
  | move run moved ih => exact (Office.effect_of_move? ih moved).orderly ih

end OfficeRun

end SmsRelay
