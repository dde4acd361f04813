import SmsRelay.Relay.Assembly

/-!
# The run of a server

A server gathers its settings, puts the relay together, answers clients until it is told to end, and
then ends the work of the relay. If its address is taken, it ends at once, but in the same way.
-/

namespace SmsRelay.Server

/-- What a server finds when it starts. -/
structure Surroundings where
  disk : Disk
  /-- What is found at the path of the settings. -/
  document : Settings.Found
  /-- The variables of the environment. -/
  lookup? : String → Option String
  /-- What keeps the server from its address. -/
  addressFault : Option String := none

/-- Starts a server: its settings and its relay. -/
def start (w : Surroundings) (path : String) (port : Option Nat) :
    Except ServerError (Settings × Relay) := do
  let s ← Settings.gather path w.document w.lookup? port
  let r ← Relay.assemble s w.disk .zero
  .ok (s, r.settle)

/-- Ends a server. -/
def finish (w : Surroundings) (s : Settings) (r : Relay) : Except ServerError Relay :=
  match w.addressFault with
  | some cause => .error (.listen (.bind s.port cause))
  | none => .ok r.shutDown

/-- A run without clients. -/
def run (w : Surroundings) (path : String) (port : Option Nat) : Except ServerError Relay := do
  let (s, r) ← start w path port
  finish w s r

end SmsRelay.Server
