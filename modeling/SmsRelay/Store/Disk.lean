import SmsRelay.Text.Utf8

/-!
# A tree of files

Directories and files by their places, a place being the names on the way from the root. Paths are
texts: names between slashes, where `.` stands for the directory itself and `..` for the one above
it. A path that does not begin with a slash starts at the directory `home`.

## Implementation notes

The root is always a directory and has no entry. `faults` lists what the coming appends run into, so
that a medium that fails at times can be described; an empty list is a medium that does not fail.
-/

namespace SmsRelay

/-- Why an operation on files fails. -/
inductive DiskError where
  | notFound
  | alreadyExists
  | notDirectory
  | isDirectory
  | nameTooLong
  | noSpace
  /-- The path holds a NUL character. -/
  | nulInPath
  deriving DecidableEq, Repr

/-- The wording of an error. -/
def DiskError.message : DiskError → String
  | notFound => "No such file or directory (os error 2)"
  | alreadyExists => "File exists (os error 17)"
  | notDirectory => "Not a directory (os error 20)"
  | isDirectory => "Is a directory (os error 21)"
  | nameTooLong => "File name too long (os error 36)"
  | noSpace => "No space left on device (os error 28)"
  | nulInPath => "file name contained an unexpected NUL byte"

/-- The names on the way from the root. -/
abbrev Place := List String

/-- What stands at a place. -/
inductive Node where
  | directory
  | file (content : Bytes)
  deriving DecidableEq, Repr

/-- A tree of files. -/
structure Disk where
  /-- The directory at which relative paths start. -/
  home : Place := []
  entries : List (Place × Node) := []
  /-- What the coming appends run into. -/
  faults : List (Option DiskError) := []
  deriving Repr

namespace Disk

/-- A disk with an empty home directory. -/
def blank : Disk := { home := ["home"], entries := [(["home"], .directory)] }

/-- What stands at a place. -/
def at? (d : Disk) (p : Place) : Option Node :=
  if p = [] then some .directory else d.entries.lookup p

/-- Puts something at a place. -/
def put (d : Disk) (p : Place) (n : Node) : Disk :=
  { d with entries := d.entries.filter (·.1 ≠ p) ++ [(p, n)] }

/-- Takes away what stands at a place. -/
def erase (d : Disk) (p : Place) : Disk :=
  { d with entries := d.entries.filter (·.1 ≠ p) }

/-- The steps of a path. -/
def steps (path : String) : List String :=
  (path.toList.splitOn '/' |>.map String.ofList).filter fun s => s ≠ "" ∧ s ≠ "."

/-- The place at which a path starts. -/
def start (d : Disk) (path : String) : Place :=
  if path.toList.head? = some '/' then [] else d.home

/-- A path that no operation accepts. -/
def refused? (path : String) : Option DiskError :=
  if path.toList.contains '\x00' then some .nulInPath
  else if 4096 ≤ (utf8 path).length then some .nameTooLong
  else none

/-- A name that is too long for a directory. -/
def isLong (name : String) : Bool := 255 < (utf8 name).length

/-- The place that steps lead to. All but the last name must be directories. -/
def walk (d : Disk) (p : Place) : List String → Except DiskError Place
  | [] => .ok p
  | name :: rest =>
    if name = ".." then d.walk p.dropLast rest
    else if isLong name then .error .nameTooLong
    else if rest = [] then .ok (p ++ [name])
    else match d.at? (p ++ [name]) with
      | some .directory => d.walk (p ++ [name]) rest
      | some (.file _) => .error .notDirectory
      | none => .error .notFound

/-- The place of a path. -/
def resolve (d : Disk) (path : String) : Except DiskError Place :=
  match refused? path with
  | some e => .error e
  | none => if path = "" then .error .notFound else d.walk (d.start path) (steps path)

/-- What stands at a path. -/
def find (d : Disk) (path : String) : Except DiskError Node :=
  match d.resolve path with
  | .error e => .error e
  | .ok p => match d.at? p with
    | some n => .ok n
    | none => .error .notFound

/-- Whether anything stands at a path. -/
def isPresent (d : Disk) (path : String) : Bool :=
  match d.find path with
  | .ok _ => true
  | .error _ => false

/-- The content of a file. -/
def read (d : Disk) (path : String) : Except DiskError Bytes :=
  match d.find path with
  | .ok (.file content) => .ok content
  | .ok .directory => .error .isDirectory
  | .error e => .error e

/-- The names in a directory, in no particular order. -/
def names (d : Disk) (path : String) : Except DiskError (List String) :=
  match d.resolve path with
  | .error e => .error e
  | .ok p => match d.at? p with
    | some .directory => .ok <| d.entries.filterMap fun (q, _) =>
        if q.dropLast = p then q.getLast? else none
    | some (.file _) => .error .notDirectory
    | none => .error .notFound

/-- Makes the directories that steps lead through, as far as they are missing. -/
def makeAll (d : Disk) (p : Place) : List String → Except DiskError Unit × Disk
  | [] => (.ok (), d)
  | name :: rest =>
    if name = ".." then d.makeAll p.dropLast rest
    else if isLong name then (.error .nameTooLong, d)
    else match d.at? (p ++ [name]) with
      | some .directory => d.makeAll (p ++ [name]) rest
      | some (.file _) => (.error (if rest = [] then .alreadyExists else .notDirectory), d)
      | none => (d.put (p ++ [name]) .directory).makeAll (p ++ [name]) rest

/-- Makes a directory and those above it, as far as they are missing. -/
def makeDirectory (d : Disk) (path : String) : Except DiskError Unit × Disk :=
  match refused? path with
  | some e => (.error e, d)
  | none => d.makeAll (d.start path) (steps path)

/-- Replaces the content of a file, which need not exist. -/
def write (d : Disk) (path : String) (content : Bytes) : Except DiskError Disk :=
  match d.resolve path with
  | .error e => .error e
  | .ok p => match d.at? p with
    | some .directory => .error .isDirectory
    | _ => .ok (d.put p (.file content))

/-- Adds to the end of a file, which need not exist; a fault that was in store strikes instead. -/
def append (d : Disk) (path : String) (more : Bytes) : Except DiskError Unit × Disk :=
  let d' := { d with faults := d.faults.tail }
  match d.faults.head? with
  | some (some e) => (.error e, d')
  | _ => match d'.resolve path with
    | .error e => (.error e, d')
    | .ok p => match d'.at? p with
      | some .directory => (.error .isDirectory, d')
      | some (.file content) => (.ok (), d'.put p (.file (content ++ more)))
      | none => (.ok (), d'.put p (.file more))

/-- Removes a file. -/
def remove (d : Disk) (path : String) : Except DiskError Disk :=
  match d.resolve path with
  | .error e => .error e
  | .ok p => match d.at? p with
    | some (.file _) => .ok (d.erase p)
    | some .directory => .error .isDirectory
    | none => .error .notFound

/-- The path of a name within a directory. -/
def join (directory name : String) : String :=
  if directory = "" ∨ directory.toList.getLast? = some '/' then directory ++ name
  else directory ++ "/" ++ name

end Disk

end SmsRelay
