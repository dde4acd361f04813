import SmsRelay.Message.Basic
import SmsRelay.Store.Tally

/-!
# A store in memory

Keeps messages in the order in which they were accepted, at most `capacity` of them: a further one
takes the place of the oldest. A message needs a phone number and, if the store keeps correlation
ids unique, a correlation id that no message in the store has.
-/

namespace SmsRelay

/-- A bounded store in memory. -/
structure MemoryStore where
  capacity : Nat
  unique : Bool
  /-- Messages, oldest first. -/
  messages : List Message := []
  /-- Correlation ids that are taken. -/
  ids : List String := []
  deriving Repr

namespace MemoryStore

/-- How many messages are kept when nothing else is asked for. -/
def defaultCapacity : Nat := 1000000

/-- An empty store for `capacity` messages, at least one. -/
def create (capacity : Nat) (unique : Bool) : MemoryStore :=
  { capacity := max capacity 1, unique := unique }

/-- Whether the correlation id of a message takes part in uniqueness. -/
def isTracked (s : MemoryStore) (m : Message) : Bool := s.unique && !m.correlationId.isEmpty

/-- What the store says to a message before it is stored. -/
def verdict (s : MemoryStore) (m : Message) : Verdict :=
  if m.phone.isEmpty then .invalid "empty phoneNumber"
  else if s.isTracked m && s.ids.contains m.correlationId then
    .duplicate ("duplicate correlationId '" ++ m.correlationId ++ "'")
  else .stored

/-- Drops the oldest message if there is no room for another. -/
def makeRoom (s : MemoryStore) : MemoryStore :=
  if s.messages.length < s.capacity then s
  else match s.messages with
    | [] => s
    | oldest :: rest =>
      { s with messages := rest, ids := s.ids.filter (· ≠ oldest.correlationId) }

/-- Stores a message at the end. -/
def accept (s : MemoryStore) (m : Message) : MemoryStore :=
  { s with
    messages := s.messages ++ [m]
    ids := if s.isTracked m then m.correlationId :: s.ids else s.ids }

/-- Stores a message unless it is refused. -/
def put (s : MemoryStore) (m : Message) : Verdict × MemoryStore :=
  if s.verdict m = .stored then (.stored, s.makeRoom.accept m) else (s.verdict m, s)

/-- Stores the messages of a batch. -/
def insertBatch (s : MemoryStore) (ms : List Message) : Except StoreError Nat × MemoryStore :=
  let (t, s') := putEach put s ms {}
  (t.result, s')

/-- The messages of a phone number, oldest first. -/
def findByPhone (s : MemoryStore) (phone : String) : List Message :=
  s.messages.filter (·.phone = phone)

/-- Forgets all messages; gives their number. -/
def deleteAll (s : MemoryStore) : Nat × MemoryStore :=
  (s.messages.length, { s with messages := [], ids := [] })

@[simp] theorem capacity_makeRoom (s : MemoryStore) : s.makeRoom.capacity = s.capacity := by
  unfold makeRoom
  split
  · rfl
  · split <;> rfl

end MemoryStore

end SmsRelay
