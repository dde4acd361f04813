import Mathlib.Logic.Relation
import SmsRelay.Http.Api
import SmsRelay.Proofs.Store.Keeping

/-!
# Requests as they come in

The relay as its clients see it. Requests come in at any time and are answered at once, but for a
message that is handed in: its request is answered when the message has reached the store. Meanwhile
other requests come in, and other things go on, of which clients see nothing but what others put
into the store.

## Implementation notes

`Api.Effect` says once what the handling of a request can do. `Elsewhere` says what may go on beside
the requests: whatever the dispatches, the consumers, the log and the clock do is covered by it, as
long as nobody changes the block list or the way to the store.

The desk keeps what has happened. From this is read which messages have been stored since all of
them were last removed, and what was last said about a key of the block list.

## Main results

* `Api.effect_of_handle`: everything that the handling of a request can do.
* `stored_concat`, `lastBlock?_concat`: what the past tells after one more happening.
-/

namespace SmsRelay.Http

/-! ### Requests -/

/-- The request asks for a method of a resource. -/
def Request.Names (q : Request) (resource : Resource) (method : Method) : Prop :=
  Resource.ofTarget? q.target = some resource ∧ resource.method? q.method = some method

instance (q : Request) (resource : Resource) (method : Method) :
    Decidable (q.Names resource method) :=
  inferInstanceAs (Decidable (_ ∧ _))

theorem Request.Names.unique {q : Request} {resource resource' : Resource} {method method' : Method}
    (h : q.Names resource method) (h' : q.Names resource' method') :
    resource = resource' ∧ method = method' := by
  obtain ⟨hresource, hmethod⟩ := h
  obtain ⟨hresource', hmethod'⟩ := h'
  obtain rfl := Option.some.inj (hresource.symm.trans hresource')
  exact ⟨rfl, Option.some.inj (hmethod.symm.trans hmethod')⟩

theorem Resource.mem_methods {resource : Resource} {name : String} {method : Method}
    (h : resource.method? name = some method) : method ∈ resource.methods :=
  List.mem_of_find?_eq_some h

namespace Api

theorem handle_of_names {r : Relay} {a : Arrival} {q : Request} {resource : Resource}
    {method : Method} (h : q.Names resource method) :
    handle r a q = apply r a q resource method := by
  obtain ⟨hresource, hmethod⟩ := h
  simp only [handle, hresource, hmethod]

/-- Everything that the handling of a request can do. -/
inductive Effect (r : Relay) (a : Arrival) (q : Request) : Handling → Prop
  /-- Nothing changes. -/
  | answer {response : Response} (kept : ¬ q.Names .messages .delete)
      (uncreated : response.status ≠ 201)
      (unblocked : ∀ key method, q.Names (.block (some key)) method → method ≠ .get →
        isBlank key ∨ r.sender.guardFault ≠ none) : Effect r a q (.done r response)
  /-- A text is on its way. -/
  | send {request : SendRequest} {reply : SendReply} {sender : Sender}
      (named : q.Names .sending .post)
      (accepted : r.sender.accept request a.id a.time.toMillis = .ok (reply, sender)) :
      Effect r a q (.done { r with sender := sender } (.ok reply.toJson))
  /-- The block list changes. -/
  | block {key : String} {sender : Sender} {response : Response}
      (named : q.Names (.block (some key)) .post) (changed : r.sender.block key = .ok sender)
      (status : response.status = 200) : Effect r a q (.done { r with sender := sender } response)
  | unblock {key : String} {sender : Sender} {response : Response}
      (named : q.Names (.block (some key)) .delete) (changed : r.sender.unblock key = .ok sender)
      (status : response.status = 200) : Effect r a q (.done { r with sender := sender } response)
  /-- Messages are removed. -/
  | remove {result : Except StoreError ℕ} {link : StoreLink} {response : Response}
      (named : q.Names .messages .delete) (removed : r.link.deleteAll = (result, link))
      (status : response.status = if result.toOption.isSome then 200 else 500) :
      Effect r a q (.done { r with link := link } response)
  /-- A message is on its way to the store. -/
  | store {note : Note} (named : q.Names .messages .post)
      (parsed : readBody Note.reader q = .ok note) (allowed : note.violation? = none) :
      Effect r a q (.storing { r with link := (r.link.hand r.now [note.toMessage a.time]).2 }
        (r.link.hand r.now [note.toMessage a.time]).1 (note.toMessage a.time))

variable {r : Relay} {a : Arrival} {q : Request}

/-- What is answered changes nothing, unless it is about the block list or removes messages. -/
theorem effect_of_named {resource : Resource} {method : Method} {response : Response}
    (h : q.Names resource method) (kept : ¬ (resource = .messages ∧ method = .delete))
    (unblocked : ∀ key, resource = .block (some key) → method ≠ .get →
      isBlank key ∨ r.sender.guardFault ≠ none)
    (uncreated : response.status ≠ 201) : Effect r a q (.done r response) := by
  refine .answer (fun hdelete => kept (h.unique hdelete)) uncreated fun key method' hnames hne => ?_
  obtain ⟨rfl, rfl⟩ := h.unique hnames
  exact unblocked key rfl hne

/-- What is only asked for is told. -/
theorem effect_of_get {resource : Resource} {response : Response} (h : q.Names resource .get)
    (uncreated : response.status ≠ 201) : Effect r a q (.done r response) :=
  effect_of_named h nofun (fun _ _ hne => absurd rfl hne) uncreated

theorem effect_of_tell {resource : Resource} (h : q.Names resource .get) (failure : String)
    (result : Except StoreError (List Message)) : Effect r a q (tell r a failure result) := by
  cases result with
  | error e => exact effect_of_get h nofun
  | ok ms => exact effect_of_get h nofun

theorem effect_of_send (h : q.Names .sending .post) : Effect r a q (send r a q) := by
  rw [send]
  split
  · exact effect_of_named h nofun nofun nofun
  · split
    · rename_i e _
      refine effect_of_named h nofun nofun ?_
      cases e <;> exact nofun
    · rename_i haccept
      exact .send h haccept

/-- A key that is not blank can be blocked and unblocked if the block list answers. -/
theorem exists_change {s : Sender} {key : String} (hkey : isBlank key = false)
    (hguard : s.guardFault = none) :
    (∃ s', s.block key = .ok s') ∧ ∃ s', s.unblock key = .ok s' := by
  simp [Sender.block, Sender.unblock, Sender.changeBlockList, hguard, BlockList.block,
    BlockList.unblock, hkey, Except.map]

/-- A change of the block list is made, or the key is blank or the block list does not answer. -/
theorem effect_of_changeBlock {key done : String} {method : Method}
    {change : Sender → String → Except Failure Sender} (h : q.Names (.block (some key)) method)
    (possible : isBlank key = false → r.sender.guardFault = none →
      ∃ s', change r.sender key = .ok s')
    (made : ∀ {sender : Sender} {response : Response}, change r.sender key = .ok sender →
      response.status = 200 → Effect r a q (.done { r with sender := sender } response)) :
    Effect r a q (changeBlock r a key done change) := by
  rw [changeBlock]
  split
  · rename_i f hfailed
    refine effect_of_named h nofun (fun key' heq _ => ?_) nofun
    cases heq
    by_contra hnot
    obtain ⟨hkey, hguard⟩ := not_or.mp hnot
    obtain ⟨s', hs'⟩ := possible (Bool.not_eq_true _ ▸ hkey) (not_not.mp hguard)
    cases hs'.symm.trans hfailed
  · rename_i hchanged
    exact made hchanged rfl

theorem effect_of_create (h : q.Names .messages .post) : Effect r a q (create r a q) := by
  rw [create]
  split
  · exact effect_of_named h nofun nofun nofun
  · rename_i note hparsed
    split
    · exact effect_of_named h nofun nofun nofun
    · rename_i hallowed
      exact .store h hparsed hallowed

theorem effect_of_deleteAll (h : q.Names .messages .delete) : Effect r a q (deleteAll r a) := by
  rw [deleteAll]
  split
  · rename_i hremoved
    exact .remove h hremoved rfl
  · rename_i hremoved
    exact .remove h hremoved rfl

theorem effect_of_apply {resource : Resource} {method : Method} (h : q.Names resource method) :
    Effect r a q (apply r a q resource method) := by
  have hmethod := Resource.mem_methods h.2
  cases resource with
  | health =>
    obtain rfl := List.mem_singleton.mp hmethod
    exact effect_of_get h nofun
  | sending =>
    obtain rfl := List.mem_singleton.mp hmethod
    exact effect_of_send h
  | block key =>
    cases key with
    | none => exact effect_of_named h nofun nofun nofun
    | some key =>
      cases method with
      | get =>
        show Effect r a q (blockStatus r a key)
        rw [blockStatus]
        split <;> exact effect_of_get h nofun
      | post =>
        exact effect_of_changeBlock h (fun hkey hguard => (exists_change hkey hguard).1) (.block h)
      | delete =>
        exact effect_of_changeBlock h (fun hkey hguard => (exists_change hkey hguard).2)
          (.unblock h)
  | messages =>
    cases method with
    | get => exact effect_of_tell h _ _
    | post => exact effect_of_create h
    | delete => exact effect_of_deleteAll h
  | messagesOf key =>
    obtain rfl := List.mem_singleton.mp hmethod
    cases key with
    | none => exact effect_of_get h nofun
    | some key =>
      show Effect r a q (messagesOf r a key)
      rw [messagesOf]
      split
      · exact effect_of_get h nofun
      · exact effect_of_tell h _ _

/-- **Everything that the handling of a request can do.** -/
theorem effect_of_handle (r : Relay) (a : Arrival) (q : Request) :
    Effect r a q (handle r a q) := by
  have hunnamed : ∀ {response : Response}, (∀ resource method, ¬ q.Names resource method) →
      response.status ≠ 201 → Effect r a q (.done r response) := fun hnone hstatus =>
    .answer (hnone _ _) hstatus fun _ _ hnames => absurd hnames (hnone _ _)
  cases hresource : Resource.ofTarget? q.target with
  | none =>
    rw [handle_unknown hresource]
    refine hunnamed (fun resource method hnames => ?_) (by simp)
    cases hresource.symm.trans hnames.1
  | some resource =>
    cases hmethod : resource.method? q.method with
    | none =>
      simp only [handle, hresource, hmethod]
      refine hunnamed (fun resource' method hnames => ?_) (by simp)
      obtain rfl := Option.some.inj (hresource.symm.trans hnames.1)
      cases hmethod.symm.trans hnames.2
    | some method =>
      rw [handle_of_names ⟨hresource, hmethod⟩]
      exact effect_of_apply ⟨hresource, hmethod⟩

end Api

/-! ### What has happened -/

/-- A request that has been answered. -/
structure Exchange where
  arrival : Arrival
  request : Request
  response : Response

namespace Exchange

/-- The message that has been handed in and stored. -/
def created? (x : Exchange) : Option Message :=
  if x.request.Names .messages .post ∧ x.response.status = 201 then
    (readBody Note.reader x.request).toOption.map (·.toMessage x.arrival.time)
  else none

/-- All messages have been removed. -/
def Removes (x : Exchange) : Prop :=
  x.request.Names .messages .delete ∧ x.response.status = 200

instance (x : Exchange) : Decidable x.Removes := inferInstanceAs (Decidable (_ ∧ _))

/-- Whether the request was to block the key, or else to end a block of it. -/
def block? (x : Exchange) (key : String) : Option Bool :=
  if x.request.Names (.block (some key)) .post then some true
  else if x.request.Names (.block (some key)) .delete then some false
  else none

end Exchange

/-- What can happen. -/
inductive Happening where
  | answered (x : Exchange)
  /-- Others have put messages into the store. -/
  | stored (ms : List Message)

namespace Happening

/-- The messages that have come into the store. -/
def messages : Happening → List Message
  | answered x => x.created?.toList
  | stored ms => ms

/-- All messages have been removed. -/
def Removes : Happening → Prop
  | answered x => x.Removes
  | stored _ => False

instance : (h : Happening) → Decidable h.Removes
  | answered x => inferInstanceAs (Decidable x.Removes)
  | stored _ => inferInstanceAs (Decidable False)

/-- Whether a request was to block the key, or else to end a block of it. -/
def block? (key : String) : Happening → Option Bool
  | answered x => x.block? key
  | stored _ => none

end Happening

/-- The messages that have been stored since all were last removed. -/
def stored (past : List Happening) : List Message :=
  past.foldl (fun ms h => if h.Removes then [] else ms ++ h.messages) []

/-- Whether the last request to block the key or to end a block of it was to block it. -/
def lastBlock? (past : List Happening) (key : String) : Option Bool :=
  (past.filterMap (·.block? key)).getLast?

theorem stored_concat (past : List Happening) (h : Happening) :
    stored (past ++ [h]) = if h.Removes then [] else stored past ++ h.messages := by
  rw [stored, List.foldl_concat]
  rfl

/-- What is stored is not removed as long as nobody removes all messages. -/
theorem stored_append (past : List Happening) {more : List Happening}
    (h : ∀ e ∈ more, ¬ e.Removes) :
    stored (past ++ more) = stored past ++ more.flatMap (·.messages) := by
  induction more using List.reverseRecOn with
  | nil => rw [List.append_nil, List.flatMap_nil, List.append_nil]
  | append_singleton more e ih =>
    have hmore : ∀ e' ∈ more, ¬ e'.Removes := fun e' he => h e' (List.mem_append_left _ he)
    have he : ¬ e.Removes := h e (List.mem_append_right _ List.mem_cons_self)
    rw [← List.append_assoc, stored_concat, if_neg he, ih hmore, List.flatMap_append,
      List.flatMap_singleton, List.append_assoc]

theorem lastBlock?_concat (past : List Happening) (h : Happening) (key : String) :
    lastBlock? (past ++ [h]) key = (h.block? key).or (lastBlock? past key) := by
  rw [lastBlock?, lastBlock?, List.filterMap_append]
  cases hblock : h.block? key with
  | none => simp [List.filterMap, hblock]
  | some b => simp [List.filterMap, hblock]

/-! ### The desk -/

/-- A message that has been handed in and is on its way to the store. -/
structure Waiting where
  arrival : Arrival
  request : Request
  call : StoreCall
  message : Message

/-- The exchange when the request has been answered. -/
def Waiting.exchange (w : Waiting) (response : Response) : Exchange :=
  ⟨w.arrival, w.request, response⟩

/-- The relay as its clients see it. -/
structure Desk where
  relay : Relay
  waiting : List Waiting := []
  /-- What has happened, oldest first. -/
  past : List Happening := []

namespace Desk

/-- The relay of a desk at which a request has been answered. -/
def answer (t : Desk) (r : Relay) (x : Exchange) : Desk :=
  { t with relay := r, past := t.past ++ [.answered x] }

/-- A request comes in. -/
def receive (t : Desk) (a : Arrival) (q : Request) : Desk :=
  match Api.handle t.relay a q with
  | .done r response => t.answer r ⟨a, q, response⟩
  | .storing r call m => { t with relay := r, waiting := t.waiting ++ [⟨a, q, call, m⟩] }

/-- What the handling of a request does next, and the exchange if this is its answer. -/
inductive Handles (t : Desk) : Option Exchange → Desk → Prop
  /-- It is answered at once. -/
  | answer {a : Arrival} {q : Request} {r : Relay} {response : Response} (clock : a.time.isValid)
      (handled : Api.handle t.relay a q = .done r response) :
      Handles t (some ⟨a, q, response⟩) (t.answer r ⟨a, q, response⟩)
  /-- It waits for the store. -/
  | wait {a : Arrival} {q : Request} {r : Relay} {call : StoreCall} {m : Message}
      (clock : a.time.isValid) (handled : Api.handle t.relay a q = .storing r call m) :
      Handles t none { t with relay := r, waiting := t.waiting ++ [⟨a, q, call, m⟩] }
  /-- The store has answered. -/
  | finish {n : ℕ} {w : Waiting} {r : Relay} {response : Response} (found : t.waiting[n]? = some w)
      (finished : Api.finish t.relay w.arrival w.call w.message = (r, response)) :
      Handles t (some (w.exchange response))
        { t.answer r (w.exchange response) with waiting := t.waiting.eraseIdx n }

end Desk

/-- What goes on beside the requests: messages may be put into the store, the sender may be closed,
dispatches, consumers, log and clock do as they like. -/
structure Elsewhere (r : Relay) (batch : List Message) (r' : Relay) : Prop where
  store : r'.link.store = (r.link.store.insertBatch batch).2
  created : ∀ m ∈ batch, m.createdAt.isValid
  mode : r'.link.mode = r.link.mode
  readsFail : r'.link.readsFail = r.link.readsFail
  blockList : r'.sender.blockList = r.sender.blockList
  guardFault : r'.sender.guardFault = r.sender.guardFault

/-- Clients see nothing of it if the store stays as it is. -/
theorem Elsewhere.idle {r r' : Relay} (link : r'.link = r.link)
    (blockList : r'.sender.blockList = r.sender.blockList)
    (guardFault : r'.sender.guardFault = r.sender.guardFault) : Elsewhere r [] r' := by
  refine ⟨?_, nofun, congrArg StoreLink.mode link, congrArg StoreLink.readsFail link, blockList,
    guardFault⟩
  rw [link, Store.insertBatch_eq]
  rfl

namespace Desk

/-- What happens next. -/
inductive Step (t : Desk) : Desk → Prop
  | request {x? : Option Exchange} {t' : Desk} (handles : t.Handles x? t') : Step t t'
  | elsewhere {batch : List Message} {r : Relay} (beside : Elsewhere t.relay batch r) :
      Step t { t with
        relay := r, past := t.past ++ [.stored (t.relay.link.store.added batch)] }

/-- What can have become of a desk. -/
def Reaches : Desk → Desk → Prop := Relation.ReflTransGen Step

theorem handles_receive (t : Desk) {a : Arrival} (q : Request) (clock : a.time.isValid) :
    ∃ x?, t.Handles x? (t.receive a q) := by
  rw [receive]
  split
  · rename_i handled
    exact ⟨_, .answer clock handled⟩
  · rename_i handled
    exact ⟨_, .wait clock handled⟩

end Desk

end SmsRelay.Http
