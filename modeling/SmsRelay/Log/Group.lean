import SmsRelay.Log.Partition
import SmsRelay.Log.Error
import SmsRelay.Text.Digits

/-!
# Consumer groups

A group shares the partitions of one topic among its members. Every change of membership starts a
new generation: the lease under which the claims of the old generation read ends, the remaining
members hear of the revocation, and the partitions are dealt out in turn, in the order in which the
members joined. A mark commits the offset after it, if it comes from the present generation.

## Implementation notes

The lease of a generation is a number of its own: claims carry it, and `endedLeases` lists the
leases that ended. A member is known by its number in the order of joining; what the member has been
told and has not yet taken waits in its session. Sessions stay on record after they are over.
-/

namespace SmsRelay

/-- The right of one member to read one partition for one generation. -/
structure Claim where
  group : String
  topic : String
  partition : Nat
  generation : Nat
  lease : Nat
  /-- The offset to read next. -/
  position : Nat
  deriving DecidableEq, Repr

/-- What a member of a group is told. -/
inductive SessionEvent where
  | granted (generation : Nat) (claims : List Claim)
  | revoked (generation : Nat)
  | closed
  deriving DecidableEq, Repr

/-- The membership of one member. -/
structure Session where
  number : Nat
  /-- Events sent and not yet taken, oldest first. -/
  waiting : List SessionEvent := []
  /-- The group may send further events. -/
  attached : Bool := true
  /-- The member still listens. -/
  listening : Bool := true
  deriving Repr

/-- The members of a group and what they have committed. -/
structure Group where
  name : String
  topic : String
  generation : Nat := 0
  /-- Per partition the offset to resume from; 0 when nothing has been committed. -/
  committed : List Nat
  /-- Members in the order in which they joined. -/
  members : List Nat := []
  /-- All sessions, by number. -/
  sessions : List Session := []
  /-- How many members have joined so far. -/
  joined : Nat := 0
  /-- The lease of the present generation. -/
  lease : Nat := 0
  endedLeases : List Nat := []
  closed : Bool := false
  deriving Repr

namespace Group

/-- A group without members on a topic. -/
def create (name : String) (t : Topic) : Group :=
  { name := name, topic := t.name, committed := List.replicate t.size 0 }

/-- The name of a member. -/
def memberId (g : Group) (number : Nat) : String := g.name ++ "-" ++ natText number

/-- The session of a member. -/
def session? (g : Group) (number : Nat) : Option Session :=
  g.sessions.find? (·.number = number)

/-- Changes the session of a member. -/
def updateSession (g : Group) (number : Nat) (f : Session → Session) : Group :=
  { g with sessions := g.sessions.map fun s => if s.number = number then f s else s }

/-- Sends an event to a member that listens. -/
def tell (g : Group) (number : Nat) (e : SessionEvent) : Group :=
  g.updateSession number fun s => if s.listening then { s with waiting := s.waiting ++ [e] } else s

/-- Sends each member the event made for it. -/
def tellAll (g : Group) (events : List (Nat × SessionEvent)) : Group :=
  events.foldl (fun g (n, e) => g.tell n e) g

/-- Whether a member still listens. -/
def isListening (g : Group) (number : Nat) : Bool :=
  (g.session? number).any (·.listening)

/-- Ends the lease of the present generation, forgets members that no longer listen and tells the
others. -/
def revoke (g : Group) : Group :=
  let kept := g.members.filter g.isListening
  let g' := { g with
    endedLeases := g.lease :: g.endedLeases
    members := kept
    sessions := g.sessions.map fun s =>
      if kept.contains s.number then s else { s with attached := false } }
  if g.generation = 0 then g' else g'.tellAll (kept.map (·, .revoked g.generation))

/-- The claims of the member at place `place` of `count`: every `count`-th partition. -/
def share (g : Group) (bases : List Nat) (count place : Nat) : List Claim :=
  (List.range g.committed.length).filterMap fun i =>
    if i % count = place then
      some { group := g.name, topic := g.topic, partition := i, generation := g.generation
             lease := g.lease, position := max (g.committed.getD i 0) (bases.getD i 0) }
    else none

/-- Starts the next generation and deals out the partitions, whose base offsets are `bases`. -/
def assign (g : Group) (bases : List Nat) : Group :=
  let g' := { g with generation := g.generation + 1, lease := g.lease + 1 }
  let count := g'.members.length
  g'.tellAll (g'.members.zipIdx.map fun (n, place) =>
    (n, .granted g'.generation (g'.share bases count place)))

/-- Adds a member; gives its number. -/
def join (g : Group) (bases : List Nat) : Except LogError (Nat × Group) :=
  if g.closed then .error .closed
  else
    let r := g.revoke
    let number := r.joined + 1
    let r := { r with
      joined := number
      members := r.members ++ [number]
      sessions := r.sessions ++ [({ number := number } : Session)] }
    .ok (number, r.assign bases)

/-- A member stops listening without a word; the group learns of it at the next change. -/
def drop (g : Group) (number : Nat) : Group :=
  g.updateSession number fun s => { s with listening := false }

/-- Removes a member. -/
def leave (g : Group) (bases : List Nat) (number : Nat) : Group :=
  let rest := g.members.filter (· ≠ number)
  let quiet := (g.updateSession number fun s => { s with attached := false }).drop number
  let g' := { quiet with members := rest }
  if rest.length = g.members.length ∨ g.closed then g' else g'.revoke.assign bases

/-- Ends the group: the lease ends, every member hears of the end and nobody is a member. -/
def close (g : Group) : Group :=
  let told := g.tellAll (g.members.map (·, .closed))
  { told with
    closed := true
    endedLeases := g.lease :: g.endedLeases
    members := []
    sessions := told.sessions.map fun s => { s with attached := false } }

/-- The next event of a member: none when it has to wait. A session that the group no longer
serves is closed. -/
def nextEvent (g : Group) (number : Nat) : Option SessionEvent × Group :=
  match g.session? number with
  | none => (some .closed, g)
  | some s =>
    match s.waiting with
    | e :: rest => (some e, g.updateSession number fun s => { s with waiting := rest })
    | [] => (if s.attached then none else some .closed, g)

/-- Whether a claim may no longer read. -/
def hasEnded (g : Group) (c : Claim) : Bool := g.endedLeases.contains c.lease

/-- Commits the offset after a mark of the present generation. -/
def commit (g : Group) (partition generation offset : Nat) : Group :=
  if g.generation = generation then
    { g with committed := g.committed.modify partition (max · (offset + 1)) }
  else g

/-- The committed offset of a partition, if there is one. -/
def committedAt (g : Group) (partition : Nat) : Option Nat :=
  match g.committed[partition]? with
  | some n => if n = 0 then none else some n
  | none => none

end Group

end SmsRelay
