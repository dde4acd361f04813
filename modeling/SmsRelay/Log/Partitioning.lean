import SmsRelay.Text.Utf8

/-!
# Partitioning by key

Which partition of a topic takes the records of a key: the remainder of a 32-bit FNV-1a hash of the
key's bytes. Records with equal keys share a partition.

## Main results

* `partitionFor_lt`: the partition exists if the topic has any.
-/

namespace SmsRelay

/-- The 32-bit FNV-1a hash of some bytes, continued from `h`. -/
def fnvFrom (h : UInt32) (bs : Bytes) : UInt32 :=
  bs.foldl (fun h b => (h ^^^ b.toUInt32) * 0x01000193) h

/-- The hash of a key. -/
def keyHash (key : String) : UInt32 := fnvFrom 0x811C9DC5 (utf8 key)

/-- The partition of a key among `count` partitions; 0 when there are none. -/
def partitionFor (key : String) (count : Nat) : Nat :=
  if count = 0 then 0 else (keyHash key).toNat % count

theorem partitionFor_lt (key : String) {count : Nat} (h : 0 < count) :
    partitionFor key count < count := by
  simp [partitionFor, Nat.ne_of_gt h, Nat.mod_lt _ h]

end SmsRelay
