import SmsRelay.Log.Partitioning

/-!
# Partitions and topics

A partition is an append-only sequence of records with bounded retention: when it grows beyond the
bound the oldest records are dropped and the base offset, the offset of the oldest record kept,
moves on. The watermark is the offset that the next record will get. A topic is a fixed number of
partitions among which the key of a record chooses.

## Main results

* `Partition.watermark_append`, `Partition.records_append`: what an append does.
-/

namespace SmsRelay

/-- A record of the log. -/
structure Record where
  topic : String
  partition : Nat
  offset : Nat
  key : String
  value : Bytes
  deriving DecidableEq, Repr

/-- Where a record was put. -/
structure Placement where
  partition : Nat
  offset : Nat
  deriving DecidableEq, Repr

/-- One partition of a topic. -/
structure Partition where
  id : Nat
  /-- How many records are kept at most. -/
  retention : Nat
  /-- The records kept, oldest first. -/
  records : List Record := []
  /-- The offset of the oldest record kept. -/
  base : Nat := 0
  /-- The offset of the next record. -/
  watermark : Nat := 0
  deriving Repr

namespace Partition

/-- Drops the oldest records beyond the retention. -/
def trimmed (p : Partition) : Partition :=
  let excess := p.records.length - p.retention
  { p with records := p.records.drop excess, base := p.base + excess }

/-- Puts a record at the end and gives its offset. -/
def append (p : Partition) (topic key : String) (value : Bytes) : Partition × Nat :=
  let offset := p.base + p.records.length
  let grown := { p with records := p.records ++ [Record.mk topic p.id offset key value] }
  ({ grown.trimmed with watermark := offset + 1 }, offset)

/-- The record at a position, with the position that follows it. A position whose record has been
dropped moves to the oldest record kept. -/
def readAt (p : Partition) (position : Nat) : Option Record × Nat :=
  let position := max position p.base
  match p.records[position - p.base]? with
  | some r => (some r, position + 1)
  | none => (none, position)

theorem watermark_append (p : Partition) (topic key : String) (value : Bytes) :
    (p.append topic key value).1.watermark = (p.append topic key value).2 + 1 := rfl

theorem records_append (p : Partition) (topic key : String) (value : Bytes) :
    (p.append topic key value).1.records =
      (p.records ++ [Record.mk topic p.id (p.base + p.records.length) key value]).drop
        (p.records.length + 1 - p.retention) := by
  simp [append, trimmed]

end Partition

/-- A named sequence of records, split into partitions. -/
structure Topic where
  name : String
  partitions : List Partition
  deriving Repr

namespace Topic

/-- A topic with `count` empty partitions that keep `retention` records each, at least one. -/
def create (name : String) (count retention : Nat) : Topic :=
  { name := name
    partitions := (List.range count).map fun id => { id := id, retention := max retention 1 } }

/-- The number of partitions. -/
def size (t : Topic) : Nat := t.partitions.length

/-- Puts a record into the partition of its key. -/
def append (t : Topic) (key : String) (value : Bytes) : Topic × Placement :=
  match t.partitions[partitionFor key t.size]? with
  | some p =>
    ({ t with partitions :=
        t.partitions.set (partitionFor key t.size) (p.append t.name key value).1 },
      ⟨partitionFor key t.size, (p.append t.name key value).2⟩)
  | none => (t, ⟨partitionFor key t.size, 0⟩)

@[simp] theorem size_create (name : String) (count retention : Nat) :
    (create name count retention).size = count := by
  simp [size, create]

@[simp] theorem size_append (t : Topic) (key : String) (value : Bytes) :
    (t.append key value).1.size = t.size := by
  unfold append
  split <;> simp [size]

end Topic

end SmsRelay
