import SmsRelay.Relay.Basic
import SmsRelay.Settings.Load

/-!
# From settings to a relay

A relay is put together in the order in which its parts need each other: the store is loaded, the
topics are created, the consumers are started, and then the sender can work.
-/

namespace SmsRelay

/-- Creates topics of a number of partitions. -/
def Log.createTopics (l : Log) (partitions : Nat) (topics : List String) : Except LogError Log :=
  topics.foldlM (fun l topic => l.createTopic topic partitions) l

namespace Settings

/-- The topics that consumers and the sender name. -/
def topics (s : Settings) : List String :=
  if s.sender.topic = s.consumer.topic then [s.consumer.topic]
  else [s.consumer.topic, s.sender.topic]

/-- The log with its topics. -/
def openLog (s : Settings) : Except LogError Log :=
  ({ retention := s.log.retention } : Log).createTopics s.log.partitions s.topics

/-- The sender, with a provider that is given a number from zero to one to draw from. -/
def openSender (s : Settings) (draw : Binary64) : Sender :=
  { topic := s.sender.topic
    provider := .simulated s.sender.successRate draw s.sender.delay }

/-- The consumer of a number. -/
def newConsumer (s : Settings) (n : Nat) : Consumer :=
  { name := s.consumer.group ++ "-" ++ natText n, settings := s.consumer }

end Settings

namespace Relay

/-- Adds and starts the consumer of a number. -/
def join (s : Settings) (r : Relay) (n : Nat) : Except ConsumerError Relay :=
  (r.addConsumer (s.newConsumer n)).startConsumer r.consumers.length

/-- Adds and starts all consumers, one after the other. -/
def joinAll (s : Settings) (r : Relay) : Except ConsumerError Relay :=
  (List.range s.consumers).foldlM (join s) r

/-- Puts a relay together on a disk. -/
def assemble (s : Settings) (d : Disk) (draw : Binary64) : Except ServerError Relay := do
  let (loaded, store) := (s.store.store d).load
  loaded.mapError .store
  let log ← s.openLog.mapError .log
  let r : Relay := { log := log, link := { store := store }, sender := s.openSender draw }
  (r.joinAll s).mapError .consumer

end Relay

end SmsRelay
