import SmsRelay.Log.Group

/-!
# The partitioned log

An in-process log: topics with their partitions, the groups that read them, and a flag that says
whether the log has been closed.

## Implementation notes

Sending and joining have two parts, because both are asked for at one time and done at a later one.
`topic?` is the check made when they are asked for: the log is open and the topic exists. `append`
and `enrol` are what is done later and do not look at the flag again. Closing sets the flag first
and then ends the groups that exist at that time.
-/

namespace SmsRelay

/-- What a claim gives when it is asked for a record. -/
inductive Polled where
  /-- The claim has ended. -/
  | ended
  | record (r : Record)
  /-- There is no unread record yet. -/
  | waiting
  deriving DecidableEq, Repr

/-- An in-process partitioned log. -/
structure Log where
  retention : Nat
  topics : List Topic := []
  groups : List Group := []
  closed : Bool := false
  deriving Repr

namespace Log

/-- How many records a partition keeps when nothing else is asked for. -/
def defaultRetention : Nat := 100000

/-- The topic with a name, open or not. -/
def find? (l : Log) (name : String) : Option Topic := l.topics.find? (·.name = name)

/-- Adds an empty topic. -/
def createTopic (l : Log) (name : String) (partitions : Nat) : Except LogError Log :=
  if partitions = 0 then .error (.noPartitions name)
  else if (l.find? name).isSome then .error (.alreadyExists name)
  else .ok { l with topics := l.topics ++ [Topic.create name partitions l.retention] }

/-- The topic that a record or a member may be meant for: the log must be open. -/
def topic? (l : Log) (name : String) : Except LogError Topic :=
  if l.closed then .error .closed
  else match l.find? name with
    | some t => .ok t
    | none => .error (.notFound name)

/-- Changes the topic with a name. -/
def setTopic (l : Log) (t : Topic) : Log :=
  { l with topics := l.topics.map fun u => if u.name = t.name then t else u }

/-- Puts a record into a topic. -/
def append (l : Log) (topic key : String) (value : Bytes) : Log × Placement :=
  match l.find? topic with
  | some t => let (t', place) := t.append key value; (l.setTopic t', place)
  | none => (l, ⟨0, 0⟩)

/-- Sends a record: the check and the append at once. -/
def send (l : Log) (topic key : String) (value : Bytes) : Except LogError (Log × Placement) :=
  match l.topic? topic with
  | .ok _ => .ok (l.append topic key value)
  | .error e => .error e

/-- The group with a name on a topic. -/
def group? (l : Log) (name topic : String) : Option Group :=
  l.groups.find? fun g => g.name = name ∧ g.topic = topic

/-- Changes a group. -/
def setGroup (l : Log) (g : Group) : Log :=
  { l with groups := l.groups.map fun h => if h.name = g.name ∧ h.topic = g.topic then g else h }

/-- The base offsets of a topic's partitions. -/
def bases (l : Log) (topic : String) : List Nat :=
  match l.find? topic with
  | some t => t.partitions.map (·.base)
  | none => []

/-- The log with the group, which is created when it does not exist. -/
def withGroup (l : Log) (name : String) (t : Topic) : Log × Group :=
  match l.group? name t.name with
  | some g => (l, g)
  | none => let g := Group.create name t; ({ l with groups := l.groups ++ [g] }, g)

/-- Adds a member to a group on a topic that exists. -/
def enrol (l : Log) (name : String) (t : Topic) : Except LogError (Nat × Log) :=
  let (l, g) := l.withGroup name t
  match g.join (l.bases t.name) with
  | .ok (number, g') => .ok (number, l.setGroup g')
  | .error e => .error e

/-- Joins a group: the check and the registration at once. -/
def join (l : Log) (name topic : String) : Except LogError (Nat × Log) :=
  match l.topic? topic with
  | .ok t => l.enrol name t
  | .error e => .error e

/-- Changes the group with a name on a topic, if it exists. -/
def updateGroup (l : Log) (name topic : String) (f : Group → Group) : Log :=
  match l.group? name topic with
  | some g => l.setGroup (f g)
  | none => l

/-- A member leaves its group. -/
def leave (l : Log) (name topic : String) (number : Nat) : Log :=
  l.updateGroup name topic (·.leave (l.bases topic) number)

/-- A member stops listening without leaving. -/
def drop (l : Log) (name topic : String) (number : Nat) : Log :=
  l.updateGroup name topic (·.drop number)

/-- The next event of a member. -/
def nextEvent (l : Log) (name topic : String) (number : Nat) : Option SessionEvent × Log :=
  match l.group? name topic with
  | some g => let (e, g') := g.nextEvent number; (e, l.setGroup g')
  | none => (some .closed, l)

/-- Sets the flag: from now on sending and joining are refused. -/
def shut (l : Log) : Log := { l with closed := true }

/-- Ends the groups that exist. -/
def closeGroups (l : Log) : Log := { l with groups := l.groups.map Group.close }

/-- Closes the log. -/
def close (l : Log) : Log := l.shut.closeGroups

/-- Asks a claim for its next record; gives the claim with the position it has moved to. -/
def poll (l : Log) (c : Claim) : Polled × Claim :=
  if (l.group? c.group c.topic).any (·.hasEnded c) then (.ended, c)
  else match (l.find? c.topic).bind (·.partitions[c.partition]?) with
    | none => (.waiting, c)
    | some p =>
      let (r, position) := p.readAt c.position
      (match r with
        | some r => .record r
        | none => .waiting, { c with position := position })

/-- Marks an offset as processed on behalf of a claim. -/
def mark (l : Log) (c : Claim) (offset : Nat) : Log :=
  l.updateGroup c.group c.topic (·.commit c.partition c.generation offset)

/-- The number of partitions of a topic. -/
def partitionCount? (l : Log) (topic : String) : Option Nat := (l.find? topic).map Topic.size

/-- The offset that the next record of a partition will get. -/
def watermark? (l : Log) (topic : String) (partition : Nat) : Option Nat :=
  ((l.find? topic).bind (·.partitions[partition]?)).map (·.watermark)

/-- The offset from which a group resumes reading a partition, if one has been committed. -/
def committed? (l : Log) (name topic : String) (partition : Nat) : Option Nat :=
  (l.group? name topic).bind (·.committedAt partition)

/-- The generation of a group; 0 when nobody has joined it. -/
def generation (l : Log) (name topic : String) : Nat :=
  match l.group? name topic with
  | some g => g.generation
  | none => 0

end Log

end SmsRelay
