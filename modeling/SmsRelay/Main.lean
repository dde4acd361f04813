import SmsRelay.Http.Api
import SmsRelay.Power
import SmsRelay.Server.Run
import SmsRelay.Settings.CommandLine
import Std.Time.DateTime.Timestamp

/-!
# The program

Starts a server as the command line and the environment say, and answers requests from the standard
input until it ends: each line holds a method, a target and, after another blank, a body of JSON.
The answer is a line with the status and the body. The files of a store are kept in the program's
own tree of files.
-/

namespace SmsRelay.Program

/-- What is said about the command line. -/
def usage : List String :=
  ["SMS dispatcher и consumer в одном процессе", "", "Usage: sms-server <COMMAND>", "",
   "Commands:", "  serve  Запустить сервер",
   "  help   Print this message or the help of the given subcommand(s)", "",
   "Options of serve:", "      --config <CONFIG>      [env: SMS_CONFIG=] [default: config.toml]",
   "      --api-port <API_PORT>", "  -h, --help                 Print help"]

/-- The wording of a fault of the command line. -/
def faultText : CommandLine.Fault → String
  | .missingValue => "error: a value is required but none was supplied"
  | .surplusValue => "error: unexpected value found; no more were expected"
  | .badPort => "error: invalid value for '--api-port <API_PORT>'"
  | .unknownArgument => "error: unexpected argument found"
  | .repeatedOption => "error: the argument cannot be used multiple times"
  | .unknownCommand => "error: unrecognized subcommand"
  | .help | .nothingGiven => ""

/-- What stands at the path of the settings. -/
def findDocument (path : String) : IO Settings.Found := do
  try return .content (← IO.FS.readBinFile path).toList
  catch e => match e with
    | .noFileOrDirectory .. => return .nothing
    | e => return .unreadable (toString e)

/-- The variables of the environment that set something. -/
def environment : IO (List (String × String)) :=
  Settings.knownVariables.filterMapM fun x => do
    return (← IO.getEnv x.name).map (x.name, ·)

/-- The current time. -/
def currentTime : IO Instant := do
  let t ← Std.Time.Timestamp.now
  let nanos := t.toNanosecondsSinceUnixEpoch.val
  return ⟨nanos / 1000000000, (nanos % 1000000000).toNat⟩

/-- So many random hexadecimal digits. -/
def randomDigits (count : Nat) : IO (List Char) :=
  (List.range count).mapM fun _ => do return Json.hexDigit (← IO.rand 0 15)

/-- A random correlation id. -/
def randomId : IO String := do
  let variant := Json.hexDigit (← IO.rand 8 11)
  let groups := [← randomDigits 8, ← randomDigits 4, '4' :: (← randomDigits 3),
    variant :: (← randomDigits 3), ← randomDigits 12]
  return "-".intercalate (groups.map String.ofList)

/-- A random number from zero to one. -/
def randomDraw : IO Binary64 := do
  return .ofRatio false (← IO.rand 0 (pow2 53 - 1)) (pow2 53)

/-- The request of a line. -/
def readRequest (line : String) : Http.Request :=
  match (line.trimAscii.toString).splitOn " " with
  | method :: target :: body =>
    { method := method, target := target, contentType? := some "application/json",
      body := utf8 (" ".intercalate body) }
  | words => { method := " ".intercalate words, target := "/" }

/-- The line of a response. -/
def responseLine (p : Http.Response) : String :=
  natText p.status ++ match p.content with
    | .empty => ""
    | .text s => " " ++ s
    | .json v => " " ++ v.render

/-- Answers requests until the input ends. -/
partial def answerAll (s : Settings) (began : Nat) (r : Relay) : IO Relay := do
  let line ← (← IO.getStdin).getLine
  let r := Relay.machine.advanceTo r ((← IO.monoMsNow) - began)
  if line.isEmpty then return r
  let provider := Provider.simulated s.sender.successRate (← randomDraw) s.sender.delay
  let r := { r with sender.provider := provider }
  let (r, p) := Http.Api.respond r ⟨← randomId, ← currentTime⟩ (readRequest line)
  IO.println (responseLine p)
  (← IO.getStdout).flush
  answerAll s began r

/-- The outcome of a run as the program's own. -/
def report : Except ServerError Relay → IO UInt32
  | .ok _ => return 0
  | .error e => do
    IO.eprintln ("Error: " ++ e.message)
    return 1

/-- Runs a server. -/
def serve (c : CommandLine.Serve) : IO UInt32 := do
  let values ← environment
  let document ← findDocument c.document
  let w : Server.Surroundings := ⟨.blank, document, (values.lookup ·), none⟩
  let began ← IO.monoMsNow
  match Server.start w c.document c.port? with
  | .error e => report (.error e)
  | .ok (s, r) => report (Server.finish w s (← answerAll s began r))

end SmsRelay.Program

/-- The program. -/
def main (args : List String) : IO UInt32 := do
  let help := "\n".intercalate SmsRelay.Program.usage
  match SmsRelay.CommandLine.parse (← IO.getEnv "SMS_CONFIG") args with
  | .ok c => SmsRelay.Program.serve c
  | .error .help => IO.println help; return 0
  | .error .nothingGiven => IO.eprintln help; return 2
  | .error e => IO.eprintln (SmsRelay.Program.faultText e); return 2
