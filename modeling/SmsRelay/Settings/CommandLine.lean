import SmsRelay.Settings.Document

/-!
# The command line

One command, `serve`, with two options: where the document of settings is, and the port in place of
the one that it sets. A value follows its option as a word of its own or after an equals sign.

## Implementation notes

A word that begins with a hyphen is an option, also where a value is awaited; a single hyphen is a
word like others. An option whose value has not come is noted as `open?`, one whose value has come
as a word of its own is judged when the next option or the end is reached: so an unknown option,
which ends everything at once, hides a bad value before it.
-/

namespace SmsRelay.CommandLine

/-- Why a command line is refused, or what it asks for in the place of a command. -/
inductive Fault where
  | missingValue
  | surplusValue
  | badPort
  | unknownArgument
  | repeatedOption
  | unknownCommand
  | help
  | nothingGiven
  deriving DecidableEq, Repr

/-- The options of the command. -/
inductive Choice where
  | document
  | port
  deriving DecidableEq, Repr

/-- The option of a name. -/
def Choice.ofName? (name : String) : Option Choice :=
  if name = "config" then some .document else if name = "api-port" then some .port else none

/-- What options have set so far, and an option that has not been judged. -/
structure Draft where
  document? : Option String := none
  port? : Option Nat := none
  open? : Option (Choice × Option String) := none
  deriving DecidableEq, Repr

/-- What a command line asks for. -/
structure Serve where
  document : String
  port? : Option Nat
  deriving DecidableEq, Repr

/-- A port: a whole number with an optional sign. -/
def port? (s : String) : Option Nat :=
  let (negative, body) := match s.toList with
    | '-' :: rest => (true, rest)
    | '+' :: rest => (false, rest)
    | cs => (false, cs)
  let n := digitsValue body
  if body.isEmpty ∨ !body.all Char.isDigit ∨ maxWord16 < n ∨ (negative ∧ n ≠ 0) then none
  else some n

/-- Takes an option with its value. -/
def Draft.take (d : Draft) (value : String) : Choice → Except Fault Draft
  | .document => if d.document?.isSome then .error .repeatedOption
    else .ok { d with document? := some value }
  | .port => if d.port?.isSome then .error .repeatedOption
    else match CommandLine.port? value with
      | some n => .ok { d with port? := some n }
      | none => .error .badPort

/-- Judges the option that has not been judged. -/
def Draft.settle (d : Draft) : Except Fault Draft :=
  match d.open? with
  | none => .ok d
  | some (_, none) => .error .missingValue
  | some (o, some value) => { d with open? := none }.take value o

/-- The kinds of words on a command line. -/
inductive Word where
  /-- The mark after which no word is an option. -/
  | divider
  /-- An option by its name, with the value after its equals sign. -/
  | long (name : String) (value : Option String)
  /-- An option by one letter. -/
  | short (letter : Char)
  | plain
  deriving DecidableEq, Repr

/-- The kind of a word. -/
def Word.ofString (s : String) : Word :=
  match s.toList with
  | ['-', '-'] => .divider
  | '-' :: '-' :: name =>
    let key := String.ofList (name.takeWhile (· ≠ '='))
    match name.dropWhile (· ≠ '=') with
    | [] => .long key none
    | _ :: value => .long key (some (String.ofList value))
  | '-' :: c :: _ => .short c
  | _ => .plain

/-- Reads the words after the command. -/
def Draft.read (d : Draft) : List String → Except Fault Draft
  | [] => d.settle
  | word :: rest =>
    match Word.ofString word with
    | .divider => if rest.isEmpty then d.settle else .error .unknownArgument
    | .long "help" (some _) => .error .surplusValue
    | .long "help" none | .short 'h' => d.settle.bind fun _ => .error .help
    | .long name value =>
      match Choice.ofName? name, value with
      | none, _ => .error .unknownArgument
      | some o, some value => do
        let d ← d.settle
        (← d.take value o).read rest
      | some o, none => do
        let d ← d.settle
        { d with open? := some (o, none) }.read rest
    | .short _ => .error .unknownArgument
    | .plain =>
      match d.open? with
      | some (o, none) => { d with open? := some (o, some word) }.read rest
      | _ => .error .unknownArgument

/-- The document that is read when nothing names one. -/
def defaultDocument : String := "config.toml"

/-- Reads a command line without the program's name; if it names no document, `fallback` does. -/
def parse (fallback : Option String) : List String → Except Fault Serve
  | [] => .error .nothingGiven
  | "serve" :: rest => do
    let d ← ({} : Draft).read rest
    .ok ⟨d.document?.getD (fallback.getD defaultDocument), d.port?⟩
  | "help" :: names =>
    if names = [] ∨ names = ["serve"] ∨ names = ["help"] then .error .help
    else .error .unknownCommand
  | word :: rest =>
    match Word.ofString word with
    | .divider => match rest with
      | [] => .error .nothingGiven
      | next :: _ => if next = "serve" ∨ next = "help" then .error .unknownArgument
        else .error .unknownCommand
    | .long "help" (some _) => .error .surplusValue
    | .long "help" none | .short 'h' => .error .help
    | .long .. | .short _ => .error .unknownArgument
    | .plain => .error .unknownCommand

end SmsRelay.CommandLine
