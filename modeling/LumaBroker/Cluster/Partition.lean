import LumaBroker.Go.Strings
import LumaBroker.Lib.SortedMap
import Mathlib.Algebra.Group.Nat.Defs

/-!
Partition ownership as internal/cluster/partition.go tracks it on each broker, and
the message the brokers exchange. The sequence number and the time stamp of a
message are read by no one.
-/

namespace LumaBroker.Cluster

structure Manager where
  brokerID : GoString
  partitionCount : Nat
  ownership : FinMap Nat GoString
  deriving DecidableEq

def newManager (brokerID : GoString) (partitionCount : Nat) : Manager where
  brokerID := brokerID
  partitionCount := partitionCount
  ownership := (List.range partitionCount).foldl (fun m i => m.set i brokerID) FinMap.empty

namespace Manager

def partitionForTopic (topic : GoString) (m : Manager) : Nat :=
  (fnv32a topic % UInt32.ofNat m.partitionCount).toNat

/-- Owner falls back to the broker itself for a partition it knows nothing of. -/
def owner (partition : Nat) (m : Manager) : GoString :=
  (m.ownership.get partition).getD m.brokerID

def setOwner (partition : Nat) (brokerID : GoString) (m : Manager) : Manager :=
  { m with ownership := m.ownership.set partition brokerID }

/-- The count is converted to uint32 before it divides the hash. -/
theorem partitionForTopic_lt {m : Manager} (topic : GoString) (hpos : 0 < m.partitionCount)
    (hlt : m.partitionCount < 2 ^ 32) : m.partitionForTopic topic < m.partitionCount := by
  have hcount : (UInt32.ofNat m.partitionCount).toNat = m.partitionCount := by
    rw [UInt32.toNat_ofNat']
    exact Nat.mod_eq_of_lt hlt
  rw [partitionForTopic, UInt32.toNat_mod, hcount]
  exact Nat.mod_lt _ hpos

end Manager

/-- ClusterMsg of internal/storage/storage.go. -/
structure ClusterMsg where
  ver : Nat
  sourceBroker : GoString
  partition : Nat
  topic : GoString
  payload : List UInt8
  qos : UInt8
  retain : Bool
  deriving DecidableEq

end LumaBroker.Cluster
