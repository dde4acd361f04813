import SmsRelay.Store.Basic

/-!
# The way to a store

Batches reach a store over a link that takes its time and may answer in the place of the store. A
call notes the behaviour of the link when it begins and takes effect when its delay is over.

## Implementation notes

`handed` keeps all batches handed over, oldest first; `running` and `peak` tell how many calls are
under way and how many have ever been at the same time.
-/

namespace SmsRelay

/-- How a link answers a batch. -/
inductive LinkMode where
  /-- The store answers. -/
  | through
  /-- The batch counts as stored: as many messages as given here, or all. -/
  | accepts (written : Option Nat)
  /-- The link accounts for each message and refuses some. -/
  | accountsFor (written duplicates : Nat) (reason : String)
  /-- The batch does not arrive. -/
  | fails (e : StoreError)
  deriving DecidableEq, Repr

/-- A store and the way to it. -/
structure StoreLink where
  store : Store
  mode : LinkMode := .through
  /-- Milliseconds that a batch takes. -/
  delay : Nat := 0
  readsFail : Bool := false
  handed : List (List Message) := []
  running : Nat := 0
  peak : Nat := 0
  deriving Repr

/-- A batch on its way. -/
structure StoreCall where
  batch : List Message
  mode : LinkMode
  /-- When the call takes effect. -/
  due : Nat
  deriving Repr

namespace StoreLink

/-- Hands a batch over. -/
def hand (l : StoreLink) (now : Nat) (batch : List Message) : StoreCall × StoreLink :=
  ({ batch := batch, mode := l.mode, due := now + l.delay },
    { l with
      handed := l.handed ++ [batch]
      running := l.running + 1
      peak := max l.peak (l.running + 1) })

/-- The effect of a call and its answer. -/
def answer (l : StoreLink) (c : StoreCall) : Except StoreError Nat × StoreLink :=
  let l := { l with running := l.running - 1 }
  match c.mode with
  | .through => let (r, s) := l.store.insertBatch c.batch; (r, { l with store := s })
  | .accepts written => (.ok (written.getD c.batch.length), l)
  | .accountsFor written duplicates reason =>
    (.error (.partly written c.batch.length duplicates reason), l)
  | .fails e => (.error e, l)

/-- What a failing link says to a reader. -/
def readFailure : StoreError := .unavailable "read failed"

/-- The messages of a phone number. -/
def findByPhone (l : StoreLink) (phone : String) : Except StoreError (List Message) :=
  if l.readsFail then .error readFailure else l.store.findByPhone phone

/-- All messages. -/
def list (l : StoreLink) : Except StoreError (List Message) :=
  if l.readsFail then .error readFailure else l.store.list

/-- Removes all messages; gives their number. -/
def deleteAll (l : StoreLink) : Except StoreError Nat × StoreLink :=
  if l.readsFail then (.error readFailure, l)
  else let (r, s) := l.store.deleteAll; (r, { l with store := s })

end StoreLink

end SmsRelay
