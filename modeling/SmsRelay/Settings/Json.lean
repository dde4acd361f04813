import SmsRelay.Json.Record
import SmsRelay.Settings.Basic

/-!
# Settings from JSON

The settings of single parts as JSON records. Fields left out keep their defaults.
-/

namespace SmsRelay

/-- Reads the settings of a consumer. -/
def ConsumerSettings.reader : Json.Reader ConsumerSettings :=
  Json.record
    [.of "group_id" Json.text fun v s => { s with group := v },
     .of "topic" Json.text fun v s => { s with topic := v },
     .of "workers" (Json.natUpTo maxWord64) fun v s => { s with workers := v },
     .of "batch_size" (Json.natUpTo maxWord64) fun v s => { s with batchSize := v },
     .of "batch_timeout_ms" (Json.natUpTo maxWord64) fun v s => { s with batchTimeout := v },
     .of "retry_backoff_ms" (Json.natUpTo maxWord64) fun v s => { s with retryBackoff := v }] {}

/-- Reads the settings of the sender. -/
def SenderSettings.reader : Json.Reader SenderSettings :=
  Json.record
    [.of "topic" Json.text fun v s => { s with topic := v },
     .of "success_rate" Json.float fun v s => { s with successRate := v },
     .of "delay_ms" (Json.natUpTo maxWord64) fun v s => { s with delay := v }] {}

namespace StoreSettings

/-- Reads the settings of a store in files. -/
def fileReader : Json.Reader StoreSettings :=
  Json.record
    [.of "data_dir" Json.text fun v s => { s with directory := v },
     .of "unique_correlation_id" Json.truth fun v s => { s with unique := v }]
    { backend := .file }

/-- Reads the settings of a store in memory. -/
def memoryReader : Json.Reader StoreSettings :=
  Json.record
    [.of "max_records" (Json.natUpTo maxWord64) fun v s => { s with capacity := v },
     .of "unique_correlation_id" Json.truth fun v s => { s with unique := v }] {}

/-- Settings of a store in memory from a text, of which a blank one sets nothing. -/
def memoryOfText (text : String) : Except StoreError StoreSettings :=
  if isBlank text then .ok {}
  else match Json.whole memoryReader (Glyph.ofString text) with
    | .ok s => .ok s
    | .error e => .error (.format e.message)

end StoreSettings

end SmsRelay
