import SmsRelay.Http.Exchange
import SmsRelay.Http.Resource
import SmsRelay.Relay.Basic

/-!
# The interface for clients

How each resource answers. All answers but one are given at once; a message that a client hands in
is on its way to the store for a while, and the answer waits for it.

## Main results

* `handle_unknown`: a path that names nothing is answered without any effect.
-/

namespace SmsRelay.Http

/-- What comes with a request and not from its client. -/
structure Arrival where
  /-- The correlation id for a request to send. -/
  id : String
  time : Instant
  deriving Repr

/-- How far a request has been handled. -/
inductive Handling where
  | done (relay : Relay) (response : Response)
  /-- A message is on its way to the store. -/
  | storing (relay : Relay) (call : StoreCall) (message : Message)

/-- A message that a client hands in. -/
structure Note where
  phone : String := ""
  text : String := ""
  deriving DecidableEq, Repr

/-- Reads a message that a client hands in. -/
def Note.reader : Json.Reader Note :=
  Json.record
    [.of "phoneNumber" Json.text fun v n => { n with phone := v },
     .of "text" Json.text fun v n => { n with text := v }] {}

/-- The message made of what a client handed in. -/
def Note.toMessage (n : Note) (time : Instant) : Message :=
  { id := messageId time, correlationId := "", phone := trim n.phone, text := trim n.text,
    status := "RECEIVED", createdAt := time }

/-- The first rule that a message handed in breaks. -/
def Note.violation? (n : Note) : Option String :=
  if isBlank n.phone then some "phoneNumber is required"
  else if isBlank n.text then some "text is required"
  else none

/-- The response to a key that is no text. -/
def unreadableKey : Response :=
  { status := 400, content := .text "Invalid URL: Invalid UTF-8 in \x60key\x60" }

namespace Api

/-- An answer that changes nothing. -/
def answer (r : Relay) (response : Response) : Handling := .done r response

/-- An answer of an error that changes nothing. -/
def refuse (r : Relay) (a : Arrival) (e : ErrorReply) : Handling := .done r (.ofError a.time e)

/-- Asks for a text to be sent. -/
def send (r : Relay) (a : Arrival) (q : Request) : Handling :=
  match readBody SendRequest.reader q with
  | .error e => refuse r a (.invalid [("body", e.message)])
  | .ok request =>
    match r.sender.accept request a.id a.time.toMillis with
    | .error e => refuse r a (.ofSendError e)
    | .ok (reply, sender) => .done { r with sender := sender } (.ok reply.toJson)

/-- Tells whether a user is blocked. -/
def blockStatus (r : Relay) (a : Arrival) (key : String) : Handling :=
  match r.sender.isBlocked key with
  | .error f => refuse r a (.failed f.message)
  | .ok blocked => answer r <| .ok <| .record
      [("userId", .text key), ("isBlocked", .bool blocked),
       ("message", .text (if blocked then "User is blocked" else "User is not blocked"))]

/-- Blocks a user or ends the block, as `change` says; `done` tells what has been done. -/
def changeBlock (r : Relay) (a : Arrival) (key done : String)
    (change : Sender → String → Except Failure Sender) : Handling :=
  match change r.sender key with
  | .error f => refuse r a (.badRequest f.message)
  | .ok sender => .done { r with sender := sender } <| .ok <| .record
      [("userId", .text key), ("status", .text done),
       ("message", .text ("User has been " ++ done))]

/-- Tells the messages, or what kept them from being read. -/
def tell (r : Relay) (a : Arrival) (failure : String) :
    Except StoreError (List Message) → Handling
  | .error _ => refuse r a (.failed failure)
  | .ok ms => answer r (.ok (.list (ms.map Message.toJson)))

/-- Tells the messages of a phone number. -/
def messagesOf (r : Relay) (a : Arrival) (key : String) : Handling :=
  if isBlank key then refuse r a (.badRequest "invalid phoneNumber")
  else tell r a "could not retrieve messages" (r.link.findByPhone (trim key))

/-- Takes in a message. -/
def create (r : Relay) (a : Arrival) (q : Request) : Handling :=
  match readBody Note.reader q with
  | .error _ => refuse r a (.badRequest "invalid JSON body")
  | .ok note =>
    match note.violation? with
    | some rule => refuse r a (.badRequest rule)
    | none =>
      let message := note.toMessage a.time
      let (call, link) := r.link.hand r.now [message]
      .storing { r with link := link } call message

/-- Removes all messages. -/
def deleteAll (r : Relay) (a : Arrival) : Handling :=
  match r.link.deleteAll with
  | (.error _, link) =>
    .done { r with link := link } (.ofError a.time (.failed "could not delete messages"))
  | (.ok count, link) => .done { r with link := link } <| .ok <| .record
      [("message", .text "All messages deleted successfully"), ("deletedCount", .int count)]

/-- Answers a method of a resource. -/
def apply (r : Relay) (a : Arrival) (q : Request) : Resource → Method → Handling
  | .health, _ => answer r (.ok (.record [("status", .text "UP")]))
  | .sending, _ => send r a q
  | .block none, _ | .messagesOf none, _ => answer r unreadableKey
  | .block (some key), .get => blockStatus r a key
  | .block (some key), .post => changeBlock r a key "blocked" Sender.block
  | .block (some key), .delete => changeBlock r a key "unblocked" Sender.unblock
  | .messages, .get => tell r a "could not list messages" r.link.list
  | .messages, .post => create r a q
  | .messages, .delete => deleteAll r a
  | .messagesOf (some key), _ => messagesOf r a key

/-- Handles a request as far as it goes without time passing. -/
def handle (r : Relay) (a : Arrival) (q : Request) : Handling :=
  match Resource.ofTarget? q.target with
  | none => answer r { status := 404 }
  | some resource =>
    match resource.method? q.method with
    | none => answer r { status := 405, allow := resource.allow }
    | some method => apply r a q resource method

/-- Ends the handling of a message once its call takes effect. -/
def finish (r : Relay) (a : Arrival) (call : StoreCall) (message : Message) :
    Relay × Response :=
  match r.link.answer call with
  | (.error _, link) =>
    ({ r with link := link }, .ofError a.time (.failed "could not save message"))
  | (.ok _, link) =>
    ({ r with link := link }, { status := 201, content := .json message.toJson })

/-- Handles a request to its end, letting the relay go on where the answer has to wait. -/
def respond (r : Relay) (a : Arrival) (q : Request) : Relay × Response :=
  let (r, response) := match handle r a q with
    | .done r response => (r, response)
    | .storing r call message => finish (Relay.machine.advanceTo r call.due) a call message
  (r.settle, if q.method = "HEAD" then response.headless else response)

theorem handle_unknown {r : Relay} {a : Arrival} {q : Request}
    (h : Resource.ofTarget? q.target = none) : handle r a q = .done r { status := 404 } := by
  simp [handle, h, answer]

end Api

end SmsRelay.Http
