import SmsRelay.Decimal.Shortest
import SmsRelay.Log.Basic
import SmsRelay.Server.Error
import SmsRelay.Store.Basic
import SmsRelay.Text.Blank

/-!
# Settings

What can be set about the relay, with the values used when nothing is set, and the rules that
settings must keep before the relay starts.

## Main results

* `SenderSettings.rate_within`: accepted settings have a success rate that clamping leaves alone.
-/

namespace SmsRelay

/-- Settings of the log. -/
structure LogSettings where
  brokers : String := "in-process"
  partitions : Nat := 3
  /-- Records kept for each partition. -/
  retention : Nat := Log.defaultRetention
  deriving DecidableEq, Repr

/-- Settings of a consumer. -/
structure ConsumerSettings where
  group : String := "sms-store-consumer-group"
  topic : String := "sms-events"
  /-- How many records of a partition are worked on at the same time. -/
  workers : Nat := 5
  batchSize : Nat := 5
  /-- Milliseconds after which a batch is stored although it is not full. -/
  batchTimeout : Nat := 200
  /-- Milliseconds to wait before a new attempt to join. -/
  retryBackoff : Nat := 5000
  deriving DecidableEq, Repr

/-- Settings of the sender. -/
structure SenderSettings where
  topic : String := "sms-events"
  successRate : Binary64 := Binary64.one
  /-- Milliseconds that the simulated provider takes. -/
  delay : Nat := 10
  deriving DecidableEq, Repr

/-- Where messages are stored. -/
inductive StoreBackend where
  | memory
  | file
  deriving DecidableEq, Repr

/-- The name of a backend. -/
def StoreBackend.name : StoreBackend → String
  | memory => "memory"
  | file => "file"

/-- Settings of the store. -/
structure StoreSettings where
  backend : StoreBackend := .memory
  directory : String := "./data/messages"
  capacity : Nat := MemoryStore.defaultCapacity
  /-- Whether correlation ids are kept unique. -/
  unique : Bool := true
  deriving DecidableEq, Repr

/-- All settings. -/
structure Settings where
  port : Nat := 8082
  consumers : Nat := 1
  log : LogSettings := {}
  consumer : ConsumerSettings := {}
  sender : SenderSettings := {}
  store : StoreSettings := {}
  deriving DecidableEq, Repr

/-- The first rule that the settings of a consumer break. -/
def ConsumerSettings.violation? (s : ConsumerSettings) : Option ConsumerError :=
  if s.group.isEmpty then some (.config "group_id must not be empty")
  else if s.topic.isEmpty then some (.config "topic must not be empty")
  else if s.workers = 0 then some (.config "workers must be > 0")
  else if s.batchSize = 0 then some (.config "batch_size must be > 0")
  else if s.batchTimeout = 0 then some (.config "batch_timeout_ms must be > 0")
  else none

/-- A rate between zero and one. -/
def SenderSettings.isRate (x : Binary64) : Bool := Binary64.zero.le x && x.le Binary64.one

/-- The first rule that the settings of the sender break. -/
def SenderSettings.violation? (s : SenderSettings) : Option SendError :=
  if s.topic.isEmpty then some (.config "topic must not be empty")
  else if !SenderSettings.isRate s.successRate then
    some (.config ("success_rate must be within [0, 1], got " ++ s.successRate.text))
  else none

/-- The store that settings ask for, on a disk. -/
def StoreSettings.store (s : StoreSettings) (d : Disk) : Store :=
  match s.backend with
  | .memory => .memory (.create s.capacity s.unique)
  | .file => .files { directory := s.directory, unique := s.unique } d

namespace Settings

/-- The first rule that settings break. -/
def violation? (s : Settings) : Option ServerError :=
  let refuse := fun (detail : String) => some (ServerError.settings .validate detail)
  if s.log.brokers ≠ "in-process" then
    refuse ("unsupported brokers '" ++ s.log.brokers ++ "': only 'in-process' is available")
  else if s.log.partitions = 0 then refuse "log.partitions must be > 0"
  else if s.log.retention = 0 then refuse "log.retention must be > 0"
  else if s.consumers = 0 then refuse "consumers must be > 0"
  else if s.store.backend = .file ∧ isBlank s.store.directory then
    refuse "store.data_dir must not be empty"
  else match s.consumer.violation? with
    | some e => some (.consumer e)
    | none => s.sender.violation?.map .sender

end Settings

theorem SenderSettings.rate_within {s : SenderSettings} (h : s.violation? = none) :
    s.successRate.clamp Binary64.zero Binary64.one = s.successRate := by
  unfold SenderSettings.violation? at h
  by_cases ht : s.topic.isEmpty = true
  · simp [ht] at h
  · simp only [ht, Bool.false_eq_true, if_false] at h
    by_cases hr : SenderSettings.isRate s.successRate = true
    · simp only [SenderSettings.isRate, Bool.and_eq_true] at hr
      exact Binary64.clamp_eq_self hr.1 hr.2
    · simp [hr] at h

end SmsRelay
