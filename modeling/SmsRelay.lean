import SmsRelay.Batch.Accumulator
import SmsRelay.Batch.Timer
import SmsRelay.Batch.Traffic
import SmsRelay.Claim.Worker
import SmsRelay.Claim.WorkerPool
import SmsRelay.Consumer.Basic
import SmsRelay.Consumer.Error
import SmsRelay.Decimal.Binary64
import SmsRelay.Decimal.Reading
import SmsRelay.Decimal.Shortest
import SmsRelay.Failure
import SmsRelay.Http.Api
import SmsRelay.Http.ErrorReply
import SmsRelay.Http.Exchange
import SmsRelay.Http.MediaType
import SmsRelay.Http.Resource
import SmsRelay.Json.Reader
import SmsRelay.Json.Record
import SmsRelay.Json.Writer
import SmsRelay.Log.Basic
import SmsRelay.Log.Error
import SmsRelay.Log.Group
import SmsRelay.Log.Partition
import SmsRelay.Log.Partitioning
import SmsRelay.Main
import SmsRelay.Message.Basic
import SmsRelay.Message.Event
import SmsRelay.Message.Id
import SmsRelay.Message.Request
import SmsRelay.Metrics
import SmsRelay.Power
import SmsRelay.Proofs.Batch.Accounts
import SmsRelay.Proofs.Batch.Batching
import SmsRelay.Proofs.Batch.Conservation
import SmsRelay.Proofs.Batch.Handover
import SmsRelay.Proofs.Batch.Punctuality
import SmsRelay.Proofs.Claim.Accounts
import SmsRelay.Proofs.Claim.Conservation
import SmsRelay.Proofs.Claim.Coverage
import SmsRelay.Proofs.Claim.Deeds
import SmsRelay.Proofs.Claim.Drain
import SmsRelay.Proofs.Claim.Lending
import SmsRelay.Proofs.Claim.Slots
import SmsRelay.Proofs.Claim.Soundness
import SmsRelay.Proofs.Consumer.Accounts
import SmsRelay.Proofs.Consumer.Callers
import SmsRelay.Proofs.Consumer.Life
import SmsRelay.Proofs.Consumer.Machine
import SmsRelay.Proofs.Consumer.Session
import SmsRelay.Proofs.Consumer.Stopping
import SmsRelay.Proofs.Http.Consistency
import SmsRelay.Proofs.Http.Desk
import SmsRelay.Proofs.Http.Soundness
import SmsRelay.Proofs.Json.Building
import SmsRelay.Proofs.Json.Grammar
import SmsRelay.Proofs.Json.Meaning
import SmsRelay.Proofs.Json.Prefix
import SmsRelay.Proofs.Json.RoundTrip
import SmsRelay.Proofs.Json.Spelling
import SmsRelay.Proofs.Log.Closing
import SmsRelay.Proofs.Log.Contents
import SmsRelay.Proofs.Log.Fencing
import SmsRelay.Proofs.Log.Membership
import SmsRelay.Proofs.Log.Numbering
import SmsRelay.Proofs.Log.Readership
import SmsRelay.Proofs.Log.Reading
import SmsRelay.Proofs.Log.Rebalance
import SmsRelay.Proofs.Log.Run
import SmsRelay.Proofs.Log.Settlement
import SmsRelay.Proofs.Log.Stream
import SmsRelay.Proofs.Message.Decoding
import SmsRelay.Proofs.Message.RoundTrip
import SmsRelay.Proofs.Message.Sorting
import SmsRelay.Proofs.Message.Spelling
import SmsRelay.Proofs.Places
import SmsRelay.Proofs.Relay.Course
import SmsRelay.Proofs.Relay.Coverage
import SmsRelay.Proofs.Relay.Delivery
import SmsRelay.Proofs.Relay.History
import SmsRelay.Proofs.Relay.Publication
import SmsRelay.Proofs.Relay.Schedule
import SmsRelay.Proofs.Relay.Shift
import SmsRelay.Proofs.Relay.Shutdown
import SmsRelay.Proofs.Relay.Storage
import SmsRelay.Proofs.Sender.Answers
import SmsRelay.Proofs.Sender.Barrier
import SmsRelay.Proofs.Sender.Correspondence
import SmsRelay.Proofs.Sender.Dispatch
import SmsRelay.Proofs.Sender.Office
import SmsRelay.Proofs.Server.Startup
import SmsRelay.Proofs.Store.Acceptance
import SmsRelay.Proofs.Store.Accounting
import SmsRelay.Proofs.Store.Agreement
import SmsRelay.Proofs.Store.Appending
import SmsRelay.Proofs.Store.Basic
import SmsRelay.Proofs.Store.Disk
import SmsRelay.Proofs.Store.Endings
import SmsRelay.Proofs.Store.Eviction
import SmsRelay.Proofs.Store.File
import SmsRelay.Proofs.Store.Filing
import SmsRelay.Proofs.Store.Growth
import SmsRelay.Proofs.Store.Insertion
import SmsRelay.Proofs.Store.Keeping
import SmsRelay.Proofs.Store.Lines
import SmsRelay.Proofs.Store.Memory
import SmsRelay.Proofs.Store.Operation
import SmsRelay.Proofs.Store.Order
import SmsRelay.Proofs.Store.Reception
import SmsRelay.Proofs.Store.Removal
import SmsRelay.Proofs.Store.Restart
import SmsRelay.Proofs.Store.Tally
import SmsRelay.Proofs.Text.Digits
import SmsRelay.Proofs.Text.Order
import SmsRelay.Proofs.Text.Utf8
import SmsRelay.Proofs.Time.Civil
import SmsRelay.Proofs.Time.Order
import SmsRelay.Proofs.Time.Rfc3339
import SmsRelay.Proofs.Time.Validity
import SmsRelay.Relay.Assembly
import SmsRelay.Relay.Basic
import SmsRelay.Schedule
import SmsRelay.Sender.BlockList
import SmsRelay.Sender.Error
import SmsRelay.Sender.Service
import SmsRelay.Server.Error
import SmsRelay.Server.Run
import SmsRelay.Settings.Basic
import SmsRelay.Settings.CommandLine
import SmsRelay.Settings.Document
import SmsRelay.Settings.Environment
import SmsRelay.Settings.Json
import SmsRelay.Settings.Load
import SmsRelay.Store.Basic
import SmsRelay.Store.Disk
import SmsRelay.Store.Error
import SmsRelay.Store.File
import SmsRelay.Store.Link
import SmsRelay.Store.Memory
import SmsRelay.Store.Tally
import SmsRelay.Text.Blank
import SmsRelay.Text.Digits
import SmsRelay.Text.Utf8
import SmsRelay.Time.Civil
import SmsRelay.Time.Instant
import SmsRelay.Time.Rfc3339
import SmsRelay.Toml.Document
import SmsRelay.Toml.Number
import SmsRelay.Toml.Record
import SmsRelay.Toml.Table
import SmsRelay.Toml.Text
import SmsRelay.Toml.Value
