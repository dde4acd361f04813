import SmsRelay.Message.Basic
import SmsRelay.Store.Disk
import SmsRelay.Store.Tally

/-!
# A store in files

One file for each phone number, `<phone>.jsonl` in a directory, to which a line of JSON is added for
each message. A phone number that becomes a file's name is made of letters, digits, `+`, `-` and `_`
in ASCII. The store remembers the correlation ids of all messages; opening it reads them from the
files.

## Implementation notes

The store does not hold the disk: each operation takes one and, if it can change it, gives the
changed one back.
-/

namespace SmsRelay

/-- A store in the files of a directory. -/
structure FileStore where
  directory : String
  unique : Bool
  /-- Correlation ids that are taken. -/
  ids : List String := []
  deriving DecidableEq, Repr

namespace FileStore

/-- The ending of a file's name. -/
def suffix : String := ".jsonl"

/-- A character that may stand in a phone number used as a file's name. -/
def isKeyChar (c : Char) : Bool := c.isAlphanum || c == '+' || c == '-' || c == '_'

/-- A phone number that may be used as a file's name. -/
def isKey (phone : String) : Bool := !phone.isEmpty && phone.toList.all isKeyChar

/-- The path of the file of a phone number. -/
def path (s : FileStore) (phone : String) : String := Disk.join s.directory (phone ++ suffix)

/-- The line of a message. -/
def line (m : Message) : Bytes := utf8 (m.toJson.render ++ "\n")

/-- A line without the carriage return at its end; the line is given backwards. -/
def closeLine : Bytes → Bytes
  | 13 :: reversed => reversed.reverse
  | reversed => reversed.reverse

/-- The lines of a file after the bytes `reversed`, given backwards, of a line that has begun. -/
def linesFrom (reversed : Bytes) : Bytes → List Bytes
  | [] => if reversed = [] then [] else [reversed.reverse]
  | b :: rest =>
    if b = 10 then closeLine reversed :: linesFrom [] rest else linesFrom (b :: reversed) rest

/-- The lines of a file without their ends, a line feed or a carriage return and a line feed. The
last line need not have one. -/
def lines (bs : Bytes) : List Bytes := linesFrom [] bs

/-- Reads the messages of lines; blank lines hold none. -/
def readLines (path : String) : List Bytes → Except StoreError (List Message)
  | [] => .ok []
  | l :: rest =>
    match Bytes.text? l with
    | none => .error (.io "read line: stream did not contain valid UTF-8")
    | some t =>
      if isBlank t then readLines path rest
      else match Json.whole Message.reader (Glyph.ofString t) with
        | .ok m => (readLines path rest).map (m :: ·)
        | .error e => .error (.format (path ++ ": " ++ e.message))

/-- Reads the messages of a file. -/
def readFile (d : Disk) (path : String) : Except StoreError (List Message) :=
  match d.find path with
  | .error e => .error (.io ("open " ++ path ++ ": " ++ e.message))
  | .ok .directory => .error (.io ("read line: " ++ DiskError.isDirectory.message))
  | .ok (.file content) => readLines path (lines content)

/-- A name that belongs to a file of the store. -/
def isKeyFile (name : String) : Bool :=
  suffix.length < name.length && name.toList.drop (name.length - suffix.length) == suffix.toList

/-- The paths of the files of the store, sorted by their names. -/
def keyFiles (s : FileStore) (d : Disk) : List String :=
  match d.names s.directory with
  | .error _ => []
  | .ok names =>
    ((names.filter isKeyFile).mergeSort (fun a b => decide (a ≤ b))).map (Disk.join s.directory)

/-- The messages of files, one file after the other. -/
def readAll (d : Disk) : List String → Except StoreError (List Message)
  | [] => .ok []
  | p :: rest => do
    let ms ← readFile d p
    let more ← readAll d rest
    .ok (ms ++ more)

/-- The correlation ids of messages, without empty ones. -/
def idsOf (ms : List Message) : List String :=
  (ms.map (·.correlationId)).filter (· ≠ "")

/-- Makes the directory and reads the correlation ids of all stored messages. -/
def load (s : FileStore) (d : Disk) : Except StoreError Unit × FileStore × Disk :=
  match d.makeDirectory s.directory with
  | (.error e, d') => (.error (.io ("mkdir " ++ s.directory ++ ": " ++ e.message)), s, d')
  | (.ok (), d') =>
    match readAll d' (s.keyFiles d') with
    | .error e => (.error e, s, d')
    | .ok ms => (.ok (), { s with ids := idsOf ms }, d')

/-- Whether the correlation id of a message takes part in uniqueness. -/
def isTracked (s : FileStore) (m : Message) : Bool := s.unique && !m.correlationId.isEmpty

/-- What the store says to a message before it is written. -/
def verdict (s : FileStore) (m : Message) : Verdict :=
  if !isKey m.phone then .invalid ("invalid phoneNumber '" ++ m.phone ++ "'")
  else if s.isTracked m && s.ids.contains m.correlationId then
    .duplicate ("duplicate correlationId '" ++ m.correlationId ++ "'")
  else .stored

/-- Takes the correlation id of a message that has been written. -/
def accept (s : FileStore) (m : Message) : FileStore :=
  if s.isTracked m then { s with ids := m.correlationId :: s.ids } else s

/-- Writes a message unless it is refused. -/
def put : FileStore × Disk → Message → Verdict × FileStore × Disk := fun (s, d) m =>
  if s.verdict m = .stored then
    match d.append (s.path m.phone) (line m) with
    | (.ok (), d') => (.stored, s.accept m, d')
    | (.error e, d') => (.failed e.message, s, d')
  else (s.verdict m, s, d)

/-- Writes the messages of a batch. -/
def insertBatch (s : FileStore) (d : Disk) (ms : List Message) :
    Except StoreError Nat × FileStore × Disk :=
  let (t, s', d') := putEach put (s, d) ms {}
  (t.result, s', d')

/-- The messages of a phone number in the order of writing. -/
def findByPhone (s : FileStore) (d : Disk) (phone : String) : Except StoreError (List Message) :=
  if isKey phone && d.isPresent (s.path phone) then readFile d (s.path phone) else .ok []

/-- All messages in the order of their creation. -/
def list (s : FileStore) (d : Disk) : Except StoreError (List Message) :=
  (readAll d (s.keyFiles d)).map fun ms =>
    ms.mergeSort fun a b => a.createdAt.le b.createdAt

/-- Removes files one after the other and counts their messages; stops at the first that cannot be
read or removed. -/
def removeAll (d : Disk) (count : Nat) : List String → Except StoreError Nat × Disk
  | [] => (.ok count, d)
  | p :: rest =>
    match readFile d p with
    | .error e => (.error e, d)
    | .ok ms =>
      match d.remove p with
      | .error e => (.error (.io ("remove " ++ p ++ ": " ++ e.message)), d)
      | .ok d' => removeAll d' (count + ms.length) rest

/-- Removes all messages; gives their number. -/
def deleteAll (s : FileStore) (d : Disk) : Except StoreError Nat × FileStore × Disk :=
  match removeAll d 0 (s.keyFiles d) with
  | (.ok n, d') => (.ok n, { s with ids := [] }, d')
  | (.error e, d') => (.error e, s, d')

theorem linesFrom_append_feed (reversed l rest : Bytes) (h : 10 ∉ l) :
    linesFrom reversed (l ++ 10 :: rest) =
      closeLine (l.reverse ++ reversed) :: linesFrom [] rest := by
  induction l generalizing reversed with
  | nil => simp [linesFrom]
  | cons b l ih =>
    have hb : b ≠ 10 := fun e => h (by simp [e])
    simp only [List.cons_append, linesFrom, if_neg hb]
    rw [ih _ fun hm => h (by simp [hm])]
    simp

end FileStore

end SmsRelay
