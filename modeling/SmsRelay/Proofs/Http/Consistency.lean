import SmsRelay.Proofs.Http.Soundness
import SmsRelay.Proofs.Moves
import SmsRelay.Proofs.Relay.Schedule

/-!
# What clients can rely on

Clients are told what is kept: all messages, or those of a phone number. An error changes nothing
for them, a message that they hand in is told until it has to go, and a number that they block gets
nothing.

## Implementation notes

What was stored and what was said about a number is read from the past of the desk, so that nothing
about the store or the block list has to be known to understand what is promised.

The scheduler handles requests one after the other, each to its end. That is one run of the desk
among others, at least if nobody reads the log; consumers only put batches into the store, as
anybody may do elsewhere.

## Main results

* `Desk.Sound.tells`, `Desk.Sound.tells_of`: what clients are told.
* `Desk.Fresh.consistent`: what clients can rely on.
* `Desk.exists_respond`, `Desk.exists_serve`: requests handled one after the other are a run.
-/

namespace SmsRelay.Http

namespace Desk

variable {t t' : Desk}

/-! ### What is told -/

/-- Whoever asks by this request is told the messages. -/
def Tells (t : Desk) (q : Request) (ms : List Message) : Prop :=
  ∀ a, Api.handle t.relay a q = .done t.relay (.ok (.list (ms.map Message.toJson)))

/-- Whoever asks for all messages or for those of its phone number is told the message. -/
def Shows (t : Desk) (m : Message) : Prop :=
  ∀ q : Request, (q.Names .messages .get ∨
    ∃ key, q.Names (.messagesOf (some key)) .get ∧ trim key = m.phone) →
      ∃ ms, t.Tells q ms ∧ m ∈ ms

/-- **All messages** are told. -/
theorem Sound.tells (h : t.Sound) : ∃ ms, t.relay.link.store.list = .ok ms ∧
    ms.Perm (t.relay.link.store.latest (stored t.past)) ∧
    ∀ q : Request, q.Names .messages .get → t.Tells q ms := by
  obtain ⟨ms, hlist, hperm⟩ := h.keeps.list
  refine ⟨ms, hlist, hperm, fun q hq a => ?_⟩
  rw [Api.handle_of_names hq, Api.apply, StoreLink.list, h.reads, if_neg Bool.false_ne_true, hlist]
  rfl

/-- **The messages of a phone number** are told. -/
theorem Sound.tells_of (h : t.Sound) {q : Request} {key : String}
    (hq : q.Names (.messagesOf (some key)) .get) (hkey : isBlank key = false) :
    t.Tells q ((t.relay.link.store.latest (stored t.past)).filter (·.phone = trim key)) := by
  intro a
  rw [Api.handle_of_names hq, Api.apply, Api.messagesOf, hkey, if_neg Bool.false_ne_true,
    StoreLink.findByPhone, h.reads, if_neg Bool.false_ne_true, h.keeps.findByPhone]
  rfl

/-- A message that is kept is told. -/
theorem Sound.shows (h : t.Sound) {m : Message} (hphone : m.phone ≠ "")
    (hm : m ∈ t.relay.link.store.latest (stored t.past)) : t.Shows m := by
  rintro q (hq | ⟨key, hq, hkey⟩)
  · obtain ⟨ms, -, hperm, htells⟩ := h.tells
    exact ⟨ms, htells q hq, hperm.mem_iff.mpr hm⟩
  · have hnot : isBlank key = false := by
      rw [← Bool.not_eq_true, ← trim_eq_empty_iff, hkey]
      exact hphone
    refine ⟨_, h.tells_of hq hnot, List.mem_filter.mpr ⟨hm, ?_⟩⟩
    rw [hkey]
    exact decide_eq_true rfl

/-! ### What clients can rely on -/

/-- Nothing that clients could notice has changed, nor anything in the log. -/
structure Untouched (r r' : Relay) : Prop where
  listed : r'.link.list = r.link.list
  found : ∀ phone, r'.link.findByPhone phone = r.link.findByPhone phone
  blockList : r'.sender.blockList = r.sender.blockList
  log : r'.log = r.log
  dispatches : r'.sender.dispatches = r.sender.dispatches

theorem Untouched.refl (r : Relay) : Untouched r r := ⟨rfl, fun _ => rfl, rfl, rfl, rfl⟩

/-- Since then nobody has removed the messages, and as many as there is room for have not come. -/
def Spares (t t' : Desk) : Prop :=
  ∃ more, t'.past = t.past ++ more ∧ (∀ e ∈ more, ¬ e.Removes) ∧
    ∀ n, t'.relay.link.store.room? = some n → (more.flatMap (·.messages)).length < n

/-- What clients can rely on, whatever the next step in the handling of a request is. -/
structure Consistent (t : Desk) : Prop where
  /-- An error changes nothing, and a message that is still on its way has changed nothing. -/
  refused : ∀ {x? : Option Exchange} {t' : Desk}, t.Handles x? t' →
    (∀ x, x? = some x → 400 ≤ x.response.status) → Untouched t.relay t'.relay
  /-- A message that is answered with 201 is stored, alone, and told as long as it is kept. -/
  created : ∀ {x : Exchange} {t' : Desk}, t.Handles (some x) t' →
    x.request.Names .messages .post → x.response.status = 201 →
    ∃ note m, readBody Note.reader x.request = .ok note ∧ m = note.toMessage x.arrival.time ∧
      m.phone = trim note.phone ∧ m.text = trim note.text ∧
      x.response.content = .json m.toJson ∧
      (∀ q : Request, q.Names .messages .get → ∃ ms ms', t.Tells q ms ∧ t'.Tells q ms' ∧
        ms'.Perm (t.relay.link.store.latest (ms ++ [m]))) ∧
      ∀ t'', t'.Reaches t'' → t'.Spares t'' → t''.Shows m
  /-- Whoever removes the messages is told how many there were, and none are left. -/
  removed : ∀ {x : Exchange} {t' : Desk}, t.Handles (some x) t' →
    x.request.Names .messages .delete → ∀ q : Request, q.Names .messages .get →
    ∃ ms, t.Tells q ms ∧ t'.Tells q [] ∧ x.response = .ok (.record
      [("message", .text "All messages deleted successfully"), ("deletedCount", .int ms.length)])
  /-- Nothing is sent to a number that was blocked last. -/
  blocked : ∀ {x : Exchange} {t' : Desk} {request : SendRequest}, t.Handles (some x) t' →
    x.request.Names .sending .post → readBody SendRequest.reader x.request = .ok request →
    (x.response.status = 403 ↔ request.violations = [] ∧ t.relay.sender.closed = false ∧
      lastBlock? t.past request.phone = some true)

theorem Sound.refused (h : t.Sound) {x? : Option Exchange} (handles : t.Handles x? t')
    (status : ∀ x, x? = some x → 400 ≤ x.response.status) : Untouched t.relay t'.relay := by
  cases handles with
  | @answer a q r response clock handled =>
    have hstatus : 400 ≤ response.status := status _ rfl
    have heffect := Api.effect_of_handle t.relay a q
    rw [handled] at heffect
    cases heffect with
    | answer => exact .refl _
    | send => exact absurd hstatus (show ¬ 400 ≤ 200 by decide)
    | block _ _ hok | unblock _ _ hok =>
      rw [hok] at hstatus
      exact absurd hstatus (by decide)
    | remove _ removed hok =>
      rw [h.deleteAll] at removed
      cases removed
      rw [hok] at hstatus
      exact absurd hstatus (show ¬ 400 ≤ 200 by decide)
  | @wait a q r call m clock handled =>
    have heffect := Api.effect_of_handle t.relay a q
    rw [handled] at heffect
    cases heffect with
    | store => exact ⟨rfl, fun _ => rfl, rfl, rfl, rfl⟩
  | @finish n w r response found finished =>
    have hstatus : 400 ≤ response.status := status _ rfl
    cases (h.waiting w (List.mem_of_getElem? found)).finished finished with
    | stored => exact absurd hstatus (show ¬ 400 ≤ 201 by decide)
    | @refused link _ refused store mode reads =>
      obtain ⟨hlist, hfind⟩ := Store.unchanged_of_refused refused
      rw [Store.insertBatch_singleton_snd] at store
      rw [← store] at hlist
      refine ⟨?_, fun phone => ?_, rfl, rfl, rfl⟩
      · show link.list = _
        rw [StoreLink.list, StoreLink.list, reads, hlist]
      · show link.findByPhone phone = _
        rw [StoreLink.findByPhone, StoreLink.findByPhone, reads, store, hfind]

/-- No request that is answered at once is answered with 201. -/
theorem ne_created_of_done {r r' : Relay} {a : Arrival} {q : Request} {response : Response}
    (handled : Api.handle r a q = .done r' response) : response.status ≠ 201 := by
  have heffect := Api.effect_of_handle r a q
  rw [handled] at heffect
  cases heffect with
  | answer _ uncreated => exact uncreated
  | send => exact nofun
  | block _ _ hok | unblock _ _ hok =>
    rw [hok]
    exact nofun
  | remove _ _ hok =>
    rw [hok]
    split <;> exact nofun

/-- **A message that has been stored** is told as long as it is kept. -/
theorem Sound.lasts (h : t.Sound) {t₀ : Desk} {m : Message} (hphone : m.phone ≠ "")
    {ms : List Message} (hstored : stored t₀.past = ms ++ [m]) (hspares : t₀.Spares t) :
    t.Shows m := by
  obtain ⟨more, hpast, hkept, hroom⟩ := hspares
  refine h.shows hphone ?_
  rw [hpast, stored_append _ hkept, hstored, List.append_assoc]
  exact Store.mem_latest hroom

theorem Sound.created (h : t.Sound) {x : Exchange} (handles : t.Handles (some x) t')
    (status : x.response.status = 201) :
    ∃ note m, readBody Note.reader x.request = .ok note ∧ m = note.toMessage x.arrival.time ∧
      m.phone = trim note.phone ∧ m.text = trim note.text ∧
      x.response.content = .json m.toJson ∧
      (∀ q : Request, q.Names .messages .get → ∃ ms ms', t.Tells q ms ∧ t'.Tells q ms' ∧
        ms'.Perm (t.relay.link.store.latest (ms ++ [m]))) ∧
      ∀ t'', t'.Reaches t'' → t'.Spares t'' → t''.Shows m := by
  have hafter := h.handles handles
  cases handles with
  | answer _ handled => exact (ne_created_of_done handled status).elim
  | @finish n w r response found finished =>
    have hw := h.waiting w (List.mem_of_getElem? found)
    obtain ⟨note, hparsed, hallowed, hmessage⟩ := hw.note
    have hstatus : response.status = 201 := status
    have hstored := hw.stored_concat t.past response
    rw [if_pos hstatus] at hstored
    have hphone : w.message.phone ≠ "" := by
      rw [hmessage]
      exact Note.phone_ne_empty hallowed _
    obtain ⟨-, hroom⟩ := h.keeps.insertBatch (List.forall_mem_singleton.mpr hw.created)
    refine ⟨note, w.message, hparsed, hmessage, congrArg Message.phone hmessage,
      congrArg Message.text hmessage, ?_, fun q hq => ?_, fun t'' hrun hspares => ?_⟩
    · cases hw.finished finished with
      | stored => rfl
      | refused _ _ _ _ hfailed => cases hfailed.symm.trans hstatus
    · obtain ⟨ms, hlist, -, htells⟩ := h.tells
      obtain ⟨ms', -, hperm', htells'⟩ := hafter.tells
      refine ⟨ms, ms', htells q hq, htells' q hq, hperm'.trans ?_⟩
      have hsame : r.link.store.room? = t.relay.link.store.room? := by
        cases hw.finished finished with
        | stored _ store | refused _ store =>
          rw [← hroom, ← store]
      show (r.link.store.latest (stored (t.past ++ [.answered (w.exchange response)]))).Perm _
      rw [hstored, Store.latest_congr hsame]
      exact (h.keeps.latest_concat hlist w.message).symm
    · exact (hafter.reaches hrun).lasts hphone hstored hspares

theorem Sound.removed (h : t.Sound) {x : Exchange} (handles : t.Handles (some x) t')
    (named : x.request.Names .messages .delete) {q : Request} (hq : q.Names .messages .get) :
    ∃ ms, t.Tells q ms ∧ t'.Tells q [] ∧ x.response = .ok (.record
      [("message", .text "All messages deleted successfully"),
        ("deletedCount", .int ms.length)]) := by
  obtain ⟨ms, -, hperm, htells⟩ := h.tells
  have hafter := h.handles handles
  cases handles with
  | @answer a q' r response clock handled =>
    have hdone := handled
    rw [Api.handle_of_names named, Api.apply, Api.deleteAll, h.deleteAll] at hdone
    cases hdone
    refine ⟨ms, htells q hq, ?_, ?_⟩
    · obtain ⟨ms', -, hnone, htells'⟩ := hafter.tells
      have hremoves : (Happening.answered ⟨a, q', _⟩).Removes := ⟨named, rfl⟩
      rw [Desk.answer, stored_concat, if_pos hremoves, Store.latest_nil, List.perm_nil] at hnone
      exact hnone ▸ htells' q hq
    · rw [hperm.length_eq]
  | @finish n w r response found finished =>
    have hw := h.waiting w (List.mem_of_getElem? found)
    cases ((hw.named_exchange response).unique named).2

theorem Sound.blocked (h : t.Sound) {x : Exchange} {request : SendRequest}
    (handles : t.Handles (some x) t') (named : x.request.Names .sending .post)
    (parsed : readBody SendRequest.reader x.request = .ok request) :
    x.response.status = 403 ↔ request.violations = [] ∧ t.relay.sender.closed = false ∧
      lastBlock? t.past request.phone = some true := by
  cases handles with
  | @answer a q r response clock handled =>
    have hblocked := Sender.accept_blocked_iff h.guardFault request a.id a.time.toMillis
    have hparsed : readBody SendRequest.reader q = .ok request := parsed
    rw [Api.handle_of_names named, Api.apply, Api.send, hparsed] at handled
    have hstatus : response.status = 403 ↔ ∃ phone,
        t.relay.sender.accept request a.id a.time.toMillis = .error (.blocked phone) := by
      cases haccept : t.relay.sender.accept request a.id a.time.toMillis with
      | error e =>
        simp only [haccept] at handled
        cases handled
        cases e <;> simp [Response.ofError, ErrorReply.ofSendError, ErrorReply.invalid]
      | ok p =>
        simp only [haccept] at handled
        cases handled
        simp [Response.ok]
    rw [hstatus, hblocked]
    refine and_congr_right fun hviolations => and_congr_right fun _ => ?_
    exact h.blocks request.phone (SendRequest.violations_eq_nil_iff.mp hviolations).2.1
  | @finish n w r response found finished =>
    have hw := h.waiting w (List.mem_of_getElem? found)
    cases ((hw.named_exchange response).unique named).1

/-- **What clients can rely on.** A store in memory, or one in files that has been opened on a
directory without files of its own, and a block list without keys: whatever requests have come in,
in whatever order they have been answered, and whatever has gone on beside them, an error leaves
messages, block list, log and dispatches as they are; a message answered with 201 is the only one
that has come, with phone number and text trimmed, and is told until messages are removed or there
is no more room for it; whoever removes the messages is told how many would have been told, and none
are left; and a request to send is answered with 403 exactly if it breaks no rule, the sender is not
closed and the last request about its phone number was to block it. -/
theorem Fresh.consistent {t₀ : Desk} (fresh : t₀.Fresh) (run : t₀.Reaches t) : t.Consistent := by
  have hsound := fresh.sound.reaches run
  exact ⟨hsound.refused, fun handles _ => hsound.created handles,
    fun handles named _ => hsound.removed handles named, hsound.blocked⟩

namespace Sample

/-- A desk at which nothing has happened yet. -/
def desk : Desk where
  relay := Relay.Sample.relay 10

/-- What comes with a request. -/
def arrival : Arrival := ⟨"c1", ⟨0, 0⟩⟩

/-- A request about the messages or about one number, with a body of JSON. -/
def request (method target : String) (body : Json.Value := .null) : Request where
  method := method
  target := target
  contentType? := some "application/json"
  body := utf8 body.render

/-- What a visit does: a request comes in, or the store answers the message that waits first. -/
inductive Act where
  | receive (q : Request)
  | finish

/-- The desk after an act, if it can be done. -/
def play? (t : Desk) : Act → Option Desk
  | .receive q => some (t.receive arrival q)
  | .finish => t.waiting.head?.map fun w =>
    let (r, response) := Api.finish t.relay w.arrival w.call w.message
    { t.answer r (w.exchange response) with waiting := t.waiting.eraseIdx 0 }

theorem reaches_of_play? {t₀ t t' : Desk} {a : Act} (run : t₀.Reaches t)
    (h : play? t a = some t') : t₀.Reaches t' := by
  refine run.tail ?_
  cases a with
  | receive q =>
    cases h
    obtain ⟨x?, hhandles⟩ := t.handles_receive (a := arrival) q (by decide)
    exact .request hhandles
  | finish =>
    obtain ⟨w, hw, rfl⟩ := Option.map_eq_some_iff.mp h
    rw [List.head?_eq_getElem?] at hw
    exact .request (.finish hw rfl)

/-- A request to remove all messages. -/
def removal : Request := request "DELETE" "/messages"

/-- A number is blocked, and a text is to be sent to it. A message from it is handed in and stored,
and then another one that has no text. -/
def visits : List Act :=
  [.receive (request "POST" "/block/1234567890"),
    .receive (request "POST" "/send" (SendRequest.toJson ⟨"1234567890", "hello"⟩)),
    .receive (request "POST" "/messages"
      (.record [("phoneNumber", .text " 1234567890 "), ("text", .text "hello")])),
    .finish,
    .receive (request "POST" "/messages" (.record [("phoneNumber", .text "1234567890")]))]

/-- The status of each answer that has been given. -/
def statuses (t : Desk) : List ℕ :=
  t.past.filterMap fun
    | .answered x => some x.response.status
    | .stored _ => none

end Sample

/-- The number is blocked, the text to it is refused, one message is stored and the other is not.
Then all messages are removed. -/
theorem Fresh.consistent_visits :
    ∃ t t' x, Sample.desk.Fresh ∧ Sample.desk.Reaches t ∧ t.Handles (some x) t' ∧
      Sample.statuses t = [200, 403, 201, 400] ∧
      lastBlock? t.past "1234567890" = some true ∧
      (stored t.past).map (fun m => (m.phone, m.text)) = [("1234567890", "hello")] ∧
      t.Consistent ∧ x.response.status = 200 ∧ t'.Tells (Sample.request "GET" "/messages") [] ∧
      t'.Consistent := by
  have hfresh : Sample.desk.Fresh := ⟨.memory 10 true, rfl, rfl, rfl, rfl, rfl, rfl⟩
  obtain ⟨t, run, hstatuses, hblocked, hstored⟩ :=
    exists_of_foldlM Sample.play? Sample.desk.Reaches Sample.desk Sample.visits
      (fun _ => Sample.reaches_of_play?) .refl
      (fun t => Sample.statuses t = [200, 403, 201, 400] ∧
        lastBlock? t.past "1234567890" = some true ∧
        (stored t.past).map (fun m => (m.phone, m.text)) = [("1234567890", "hello")])
      (by decide +kernel)
  have hconsistent := Fresh.consistent hfresh run
  have hnamed : Sample.removal.Names .messages .delete := by decide +kernel
  obtain ⟨r, response, handled⟩ : ∃ r response,
      Api.handle t.relay Sample.arrival Sample.removal = .done r response := by
    rw [Api.handle_of_names hnamed, Api.apply, Api.deleteAll]
    split <;> exact ⟨_, _, rfl⟩
  have hremoved : t.Handles (some ⟨Sample.arrival, Sample.removal, response⟩) _ :=
    .answer (by decide) handled
  obtain ⟨ms, -, htells, hresponse⟩ :=
    hconsistent.removed hremoved hnamed (Sample.request "GET" "/messages") (by decide +kernel)
  exact ⟨t, _, _, hfresh, run, hremoved, hstatuses, hblocked, hstored, hconsistent,
    by rw [hresponse]; rfl, htells, Fresh.consistent hfresh (run.tail (.request hremoved))⟩

/-! ### One request after the other -/

/-- A relay without consumers that goes on beside the requests. -/
def Beside (t : Desk) (r : Relay) : Prop :=
  r.consumers = [] ∧ ∃ past, t.Reaches { t with relay := r, past := past }

theorem Beside.next {r r' : Relay} (h : t.Beside r) (hconsumers : r'.consumers = [])
    (beside : Elsewhere r [] r') : t.Beside r' := by
  obtain ⟨-, past, hrun⟩ := h
  exact ⟨hconsumers, _, hrun.tail (.elsewhere beside)⟩

/-- Without consumers only dispatches take steps. -/
theorem Beside.steps (t : Desk) : Relay.machine.Steps t.Beside := by
  intro r a r' h hstep
  have hnone : ∀ i, r.consumers[i]? = none := fun i => by rw [h.1, List.getElem?_nil]
  cases a with
  | session i => simp [Relay.machine, Relay.step?, hnone] at hstep
  | receiver i j | task i j _ | timer i j =>
    simp [Relay.machine, Relay.step?, Relay.workerStep?, hnone] at hstep
  | dispatch n =>
    obtain ⟨⟨l, s⟩, hdispatch, rfl⟩ := Option.map_eq_some_iff.mp hstep
    refine h.next h.1 ?_
    cases Sender.effect_of_step? hdispatch with
    | goOn | publish => exact .idle rfl rfl rfl

theorem Beside.ages (t : Desk) : Relay.machine.Ages t.Beside :=
  fun _ _ h _ => h.next h.1 (.idle rfl rfl rfl)

theorem consumers_of_handle {r r' : Relay} {a : Arrival} {q : Request} :
    (∀ {response}, Api.handle r a q = .done r' response → r'.consumers = r.consumers) ∧
      ∀ {call m}, Api.handle r a q = .storing r' call m → r'.consumers = r.consumers := by
  have heffect := Api.effect_of_handle r a q
  refine ⟨fun handled => ?_, fun handled => ?_⟩ <;> rw [handled] at heffect <;>
    cases heffect <;> rfl

theorem consumers_of_finish {r r' : Relay} {a : Arrival} {call : StoreCall} {m : Message}
    {response : Response} (h : Api.finish r a call m = (r', response)) :
    r'.consumers = r.consumers := by
  rw [Api.finish] at h
  split at h <;> cases h <;> rfl

/-- What has happened is not forgotten. -/
theorem Reaches.past (h : t.Reaches t') : t.past <+: t'.past := by
  induction h with
  | refl => exact List.prefix_rfl
  | tail _ hstep ih =>
    refine ih.trans ?_
    cases hstep with
    | request handles =>
      cases handles with
      | answer | finish => exact List.prefix_append _ _
      | wait => exact List.prefix_rfl
    | elsewhere => exact List.prefix_append _ _

/-- The relay settles. -/
theorem exists_settle (t : Desk) (idle : t.relay.consumers = []) :
    ∃ t', t.Reaches t' ∧ t'.relay = t.relay.settle ∧ t'.relay.consumers = [] ∧
      t'.waiting = t.waiting ∧ t.past <+: t'.past := by
  obtain ⟨hidle, past, hrun⟩ :=
    Machine.settle_of_steps (Beside.steps t) (s := t.relay) ⟨idle, t.past, .refl⟩
  exact ⟨_, hrun, rfl, hidle, rfl, hrun.past⟩

/-- **A request that is handled to its end**, while the relay goes on, is handled at the desk. -/
theorem exists_respond (t : Desk) (idle : t.relay.consumers = []) {a : Arrival}
    (clock : a.time.isValid) (q : Request) :
    ∃ t' response, t.Reaches t' ∧ t'.relay = (Api.respond t.relay a q).1 ∧
      t'.relay.consumers = [] ∧ t'.waiting = t.waiting ∧ .answered ⟨a, q, response⟩ ∈ t'.past ∧
      (Api.respond t.relay a q).2 = if q.method = "HEAD" then response.headless else response := by
  rw [Api.respond]
  cases handled : Api.handle t.relay a q with
  | done r response =>
    have hstep : t.Step (t.answer r ⟨a, q, response⟩) := .request (.answer clock handled)
    obtain ⟨t', hrun, hrelay, hidle, hwaiting, hpast⟩ :=
      (t.answer r ⟨a, q, response⟩).exists_settle ((consumers_of_handle.1 handled).trans idle)
    refine ⟨t', response, .head hstep hrun, hrelay, hidle, hwaiting, hpast.subset ?_, rfl⟩
    exact List.mem_append_right _ List.mem_cons_self
  | storing r call m =>
    let w : Waiting := ⟨a, q, call, m⟩
    let t₁ : Desk := { t with relay := r, waiting := t.waiting ++ [w] }
    have hstep : t.Step t₁ := .request (.wait clock handled)
    -- the relay goes on until the call takes effect
    obtain ⟨hidle₂, past₂, hrun₂⟩ := Machine.advanceTo_of_steps (Beside.steps t₁) (Beside.ages t₁)
      call.due (s := r) ⟨(consumers_of_handle.2 handled).trans idle, t₁.past, .refl⟩
    let t₂ : Desk := { t₁ with relay := Relay.machine.advanceTo r call.due, past := past₂ }
    obtain ⟨⟨r₃, response⟩, finished⟩ : ∃ p, Api.finish t₂.relay a call m = p := ⟨_, rfl⟩
    have hfound : t₂.waiting[t.waiting.length]? = some w := List.getElem?_concat_length
    let t₃ : Desk := { t₂.answer r₃ (w.exchange response) with
      waiting := t₂.waiting.eraseIdx t.waiting.length }
    have hfinish : t₂.Step t₃ := .request (.finish hfound finished)
    obtain ⟨t', hrun, hrelay, hidle, hwaiting, hpast⟩ :=
      t₃.exists_settle ((consumers_of_finish finished).trans hidle₂)
    refine ⟨t', response, .trans (.head hstep hrun₂) (.head hfinish hrun), ?_, hidle, ?_,
      hpast.subset (List.mem_append_right _ List.mem_cons_self), ?_⟩
    · dsimp only
      rw [hrelay, show Api.finish (Relay.machine.advanceTo r call.due) a call m = _ from finished]
      rfl
    · rw [hwaiting]
      show (t.waiting ++ [w]).eraseIdx t.waiting.length = t.waiting
      rw [List.eraseIdx_append_of_length_le (Nat.le_refl _), Nat.sub_self]
      exact List.append_nil _
    · dsimp only
      rw [show Api.finish (Relay.machine.advanceTo r call.due) a call m = _ from finished]

/-- **Requests that come in one after the other** and are handled to their end are a run of the
desk. -/
theorem exists_serve (t : Desk) (idle : t.relay.consumers = [])
    {visits : List (Arrival × Request)} (clock : ∀ v ∈ visits, v.1.time.isValid) :
    ∃ t', t.Reaches t' ∧
      t'.relay = visits.foldl (fun r v => (Api.respond r v.1 v.2).1) t.relay := by
  induction visits generalizing t with
  | nil => exact ⟨t, .refl, rfl⟩
  | cons v visits ih =>
    obtain ⟨hv, hvisits⟩ := List.forall_mem_cons.mp clock
    obtain ⟨t₁, -, hrun, hrelay, hidle, -⟩ := t.exists_respond idle hv v.2
    obtain ⟨t', hrun', hrelay'⟩ := ih t₁ hidle hvisits
    exact ⟨t', hrun.trans hrun', by rw [hrelay', hrelay, List.foldl_cons]⟩

end Desk

end SmsRelay.Http
