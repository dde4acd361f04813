import SmsRelay.Store.Memory
import SmsRelay.Store.File

/-!
# Stores

A store of messages, in memory or in files. Both take batches of messages, find the messages of a
phone number, list and remove all of them.
-/

namespace SmsRelay

/-- A store of messages. -/
inductive Store where
  | memory (s : MemoryStore)
  /-- A store in files together with the disk that holds them. -/
  | files (s : FileStore) (d : Disk)
  deriving Repr

namespace Store

/-- Makes the store ready for use. -/
def load : Store → Except StoreError Unit × Store
  | memory s => (.ok (), memory s)
  | files s d => let (r, s', d') := s.load d; (r, files s' d')

/-- Stores the messages of a batch; gives their number if none was refused. -/
def insertBatch (s : Store) (ms : List Message) : Except StoreError Nat × Store :=
  match s with
  | memory s => let (r, s') := s.insertBatch ms; (r, memory s')
  | files s d => let (r, s', d') := s.insertBatch d ms; (r, files s' d')

/-- The answer about a batch of one, told of a single message. -/
def single : Except StoreError Nat → Except StoreError Unit
  | .ok _ => .ok ()
  | .error e => .error e.ofSingle

/-- Stores one message. -/
def insert (s : Store) (m : Message) : Except StoreError Unit × Store :=
  let (r, s') := s.insertBatch [m]
  (single r, s')

/-- The messages of a phone number in the order in which they were stored. -/
def findByPhone (s : Store) (phone : String) : Except StoreError (List Message) :=
  match s with
  | memory s => .ok (s.findByPhone phone)
  | files s d => s.findByPhone d phone

/-- All messages: those in memory in the order in which they were stored, those in files in the
order of their creation. -/
def list : Store → Except StoreError (List Message)
  | memory s => .ok s.messages
  | files s d => s.list d

/-- Removes all messages; gives their number. -/
def deleteAll : Store → Except StoreError Nat × Store
  | memory s => let (n, s') := s.deleteAll; (.ok n, memory s')
  | files s d => let (r, s', d') := s.deleteAll d; (r, files s' d')

end Store

end SmsRelay
