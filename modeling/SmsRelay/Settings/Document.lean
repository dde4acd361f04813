import SmsRelay.Power
import SmsRelay.Settings.Basic
import SmsRelay.Toml.Record

/-!
# Settings from a TOML document

The tables and keys by which a document sets things. What it leaves out keeps its default, and keys
that nothing is named by are passed over.
-/

namespace SmsRelay

/-- The greatest number of 16 bits. -/
def maxWord16 : Nat := pow2 16 - 1

/-- The greatest number of 32 bits. -/
def maxWord32 : Nat := pow2 32 - 1

/-- The fields of the log. -/
def LogSettings.fields : List (Toml.Field LogSettings) :=
  [.of "brokers" (·.text?) fun v s => { s with brokers := v },
   .of "partitions" (·.natUpTo? maxWord32) fun v s => { s with partitions := v },
   .of "retention" (·.natUpTo? maxWord64) fun v s => { s with retention := v }]

/-- The fields of a consumer. -/
def ConsumerSettings.fields : List (Toml.Field ConsumerSettings) :=
  [.of "group_id" (·.text?) fun v s => { s with group := v },
   .of "topic" (·.text?) fun v s => { s with topic := v },
   .of "workers" (·.natUpTo? maxWord64) fun v s => { s with workers := v },
   .of "batch_size" (·.natUpTo? maxWord64) fun v s => { s with batchSize := v },
   .of "batch_timeout_ms" (·.natUpTo? maxWord64) fun v s => { s with batchTimeout := v },
   .of "retry_backoff_ms" (·.natUpTo? maxWord64) fun v s => { s with retryBackoff := v }]

/-- The fields of the sender. -/
def SenderSettings.fields : List (Toml.Field SenderSettings) :=
  [.of "topic" (·.text?) fun v s => { s with topic := v },
   .of "success_rate" (·.float?) fun v s => { s with successRate := v },
   .of "delay_ms" (·.natUpTo? maxWord64) fun v s => { s with delay := v }]

/-- The backend of a name. -/
def StoreBackend.ofName? (s : String) : Option StoreBackend :=
  if s = "memory" then some .memory else if s = "file" then some .file else none

/-- The fields of the store. -/
def StoreSettings.fields : List (Toml.Field StoreSettings) :=
  [.of "backend" (fun v => v.name?.bind StoreBackend.ofName?) fun v s => { s with backend := v },
   .of "data_dir" (·.text?) fun v s => { s with directory := v },
   .of "max_records" (·.natUpTo? maxWord64) fun v s => { s with capacity := v },
   .of "unique_correlation_id" (·.bool?) fun v s => { s with unique := v }]

namespace Settings

/-- The fields of a document. -/
def fields : List (Toml.Field Settings) :=
  [.of "api_port" (·.natUpTo? maxWord16) fun v s => { s with port := v },
   .of "consumers" (·.natUpTo? maxWord64) fun v s => { s with consumers := v },
   .of "log" (Toml.record? LogSettings.fields {}) fun v s => { s with log := v },
   .of "consumer" (Toml.record? ConsumerSettings.fields {}) fun v s => { s with consumer := v },
   .of "sender" (Toml.record? SenderSettings.fields {}) fun v s => { s with sender := v },
   .of "store" (Toml.record? StoreSettings.fields {}) fun v s => { s with store := v }]

/-- The settings of a document, if it can be read. -/
def ofToml? (text : String) : Option Settings := do
  let members ← Toml.document? text
  Toml.record? fields {} (.table .header members)

end Settings

end SmsRelay
