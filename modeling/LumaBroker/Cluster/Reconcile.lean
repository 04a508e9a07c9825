import LumaBroker.Cluster.Partition
import LumaBroker.Lib.RoundRobin
import LumaBroker.Router.Router

/-!
reconcilePartitions of internal/broker/server.go: every broker deals the partitions out to
the live brokers, by itself and over whatever it believed before. The brokers agree because
each of them sorts the same IDs and overwrites every partition.
-/

namespace LumaBroker.Cluster

open Router

namespace Manager

def isLocalOwner (topic : GoString) (m : Manager) : Bool :=
  m.owner (m.partitionForTopic topic) = m.brokerID

/-- A SetOwner call for each partition below a bound. -/
def assign (ownerOf : Nat → GoString) (count : Nat) (m : Manager) : Manager :=
  (List.range count).foldl (fun m p => m.setOwner p (ownerOf p)) m

/-- The live broker whose turn the partition is; the index is in range. -/
def dealtTo (ids : List GoString) (p : Nat) : GoString := ids.getD (p % ids.length) []

/-- The answer of AliveBrokerIDsAfterPrune is none when Redis failed. -/
def reconcilePartitions (alive : Option (List GoString)) (m : Manager) : Manager :=
  match alive with
  | none | some [] => m.assign (fun _ => m.brokerID) m.partitionCount
  | some ids => m.assign (dealtTo (sortStrings ids)) m.partitionCount

def owners (m : Manager) : List GoString := (List.range m.partitionCount).map fun p => m.owner p

variable (ownerOf : Nat → GoString) (m : Manager)

theorem assign_succ (count : Nat) :
    m.assign ownerOf (count + 1) = (m.assign ownerOf count).setOwner count (ownerOf count) := by
  simp only [assign, List.range_succ, List.foldl_append, List.foldl_cons, List.foldl_nil]

@[simp] theorem brokerID_assign (count : Nat) : (m.assign ownerOf count).brokerID = m.brokerID := by
  induction count with
  | zero => rfl
  | succ count ih =>
      rw [assign_succ]
      exact ih

@[simp] theorem partitionCount_assign (count : Nat) :
    (m.assign ownerOf count).partitionCount = m.partitionCount := by
  induction count with
  | zero => rfl
  | succ count ih =>
      rw [assign_succ]
      exact ih

theorem owner_assign {p count : Nat} (hp : p < count) :
    (m.assign ownerOf count).owner p = ownerOf p := by
  induction count with
  | zero => omega
  | succ count ih =>
      simp only [assign_succ, owner, setOwner, FinMap.get_set]
      split_ifs with hlast
      · rw [hlast]
        rfl
      · exact ih (by omega)

theorem sortStrings_eq_of_perm {ids ids' : List GoString} (h : ids.Perm ids') :
    sortStrings ids = sortStrings ids' := by
  refine List.Perm.eq_of_sortedLE List.sortedLE_insertionSort List.sortedLE_insertionSort ?_
  exact (List.perm_insertionSort _ ids).trans (h.trans (List.perm_insertionSort _ ids').symm)

theorem getElem?_dealtTo {ids : List GoString} (hne : ids ≠ []) (p : Nat) :
    ids[p % ids.length]? = some (dealtTo ids p) := by
  have hlt : p % ids.length < ids.length := Nat.mod_lt p (List.length_pos_of_ne_nil hne)
  rw [dealtTo, List.getD_eq_getElem?_getD, List.getElem?_eq_getElem hlt, Option.getD_some]

theorem dealtTo_mem {ids : List GoString} (hne : ids ≠ []) (p : Nat) : dealtTo ids p ∈ ids :=
  List.mem_of_getElem? (getElem?_dealtTo hne p)

/-- Dealing out the partitions is serving the brokers in turn. -/
theorem map_dealtTo {ids : List GoString} (hne : ids ≠ []) (count : Nat) :
    (List.range count).map (dealtTo ids) = RoundRobin.served ids 0 count := by
  have hserved (p : Nat) : ids[(0 + p) % ids.length]? = some (dealtTo ids p) := by
    rw [Nat.zero_add]
    exact getElem?_dealtTo hne p
  simp only [RoundRobin.served, hserved, List.filterMap_eq_map']

end Manager

open Manager

/-- What the brokers of a cluster bring to a reconciliation: the managers they have, with any
ownership, and the live IDs each of them got from Redis, in any order. -/
structure Members (live : List GoString) (count : Nat) where
  manager : GoString → Manager
  alive : GoString → List GoString
  brokerID : ∀ b ∈ live, (manager b).brokerID = b
  partitionCount : ∀ b ∈ live, (manager b).partitionCount = count
  perm : ∀ b ∈ live, (alive b).Perm live

namespace Members
variable {live : List GoString} {count : Nat} (c : Members live count)

def after (b : GoString) : Manager := (c.manager b).reconcilePartitions (some (c.alive b))

variable {b : GoString} (hb : b ∈ live)
include hb

theorem after_eq : c.after b = (c.manager b).assign (dealtTo (sortStrings live)) count := by
  have hmem : b ∈ c.alive b := (c.perm b hb).mem_iff.mpr hb
  cases halive : c.alive b with
  | nil => simp [halive] at hmem
  | cons id ids =>
      rw [after, halive, reconcilePartitions, ← halive, sortStrings_eq_of_perm (c.perm b hb),
        c.partitionCount b hb]
      simp

theorem brokerID_after : (c.after b).brokerID = b := by
  rw [c.after_eq hb, brokerID_assign, c.brokerID b hb]

theorem partitionCount_after : (c.after b).partitionCount = count := by
  rw [c.after_eq hb, partitionCount_assign, c.partitionCount b hb]

theorem owner_after {p : Nat} (hp : p < count) :
    (c.after b).owner p = dealtTo (sortStrings live) p := by
  rw [c.after_eq hb]
  exact owner_assign _ _ hp

theorem sortStrings_ne_nil : sortStrings live ≠ [] :=
  List.ne_nil_of_mem ((List.mem_insertionSort (· ≤ ·)).mpr hb)

theorem owner_after_mem {p : Nat} (hp : p < count) : (c.after b).owner p ∈ live := by
  rw [c.owner_after hb hp]
  exact (List.mem_insertionSort (· ≤ ·)).mp (dealtTo_mem (sortStrings_ne_nil hb) p)

theorem partitionForTopic_after (topic : GoString) :
    (c.after b).partitionForTopic topic = (newManager b count).partitionForTopic topic := by
  rw [partitionForTopic, partitionForTopic, c.partitionCount_after hb]
  rfl

theorem partitionForTopic_after_lt (hpos : 0 < count) (hlt : count < 2 ^ 32) (topic : GoString) :
    (c.after b).partitionForTopic topic < count := by
  rw [c.partitionForTopic_after hb]
  exact Manager.partitionForTopic_lt topic hpos hlt

theorem owners_after : (c.after b).owners = RoundRobin.served (sortStrings live) 0 count := by
  rw [owners, c.partitionCount_after hb, ← map_dealtTo (sortStrings_ne_nil hb)]
  exact List.map_congr_left fun p hp => c.owner_after hb (List.mem_range.mp hp)

theorem isLocalOwner_after (hpos : 0 < count) (hlt : count < 2 ^ 32) (topic : GoString) :
    (c.after b).isLocalOwner topic = true ↔
      dealtTo (sortStrings live) ((newManager b count).partitionForTopic topic) = b := by
  have hpart := c.partitionForTopic_after_lt hb hpos hlt topic
  rw [isLocalOwner, decide_eq_true_iff, c.owner_after hb hpart, c.brokerID_after hb,
    c.partitionForTopic_after hb]

/-- The shares of two brokers lie between the same two bounds, which are at most one apart. -/
theorem count_owners_after (hnd : live.Nodup) {x y : GoString} (hx : x ∈ live) (hy : y ∈ live) :
    (c.after b).owners.count x ≤ (c.after b).owners.count y + 1 := by
  have hsorted : (sortStrings live).Nodup := (List.perm_insertionSort _ live).nodup_iff.mpr hnd
  have hmem {z : GoString} (hz : z ∈ live) : z ∈ sortStrings live :=
    (List.mem_insertionSort (· ≤ ·)).mpr hz
  have hlower := (RoundRobin.count_served_bounds hsorted (hmem hy) 0 count).1
  have hupper := (RoundRobin.count_served_bounds hsorted (hmem hx) 0 count).2
  have hpos : 0 < (sortStrings live).length := List.length_pos_of_mem (hmem hx)
  have hgap : (count + (sortStrings live).length - 1) / (sortStrings live).length ≤
      count / (sortStrings live).length + 1 := by
    rw [← Nat.add_div_right count hpos]
    exact Nat.div_le_div_right (Nat.sub_le _ 1)
  rw [c.owners_after hb]
  omega

end Members

/-- Brokers that reconcile from the same live set agree on an owner in the set for every
partition, every topic has exactly one broker that sees itself as its owner, and the shares
of the brokers differ by one at most. -/
theorem reconcilePartitions_agree (live : List GoString) (count : Nat) (c : Members live count)
    (hne : live ≠ []) (hnd : live.Nodup) (hpos : 0 < count) (hlt : count < 2 ^ 32) :
    (∀ b ∈ live, ∀ b' ∈ live, ∀ p < count, (c.after b).owner p = (c.after b').owner p ∧
      (c.after b).owner p ∈ live) ∧
    (∀ topic, (∀ b ∈ live, (c.after b).partitionForTopic topic < count) ∧
      ∃! b, b ∈ live ∧ (c.after b).isLocalOwner topic = true) ∧
    (∀ b ∈ live, ∀ x ∈ live, ∀ y ∈ live,
      (c.after b).owners.count x ≤ (c.after b).owners.count y + 1) := by
  refine ⟨?_, ?_, ?_⟩
  · intro b hb b' hb' p hp
    exact ⟨(c.owner_after hb hp).trans (c.owner_after hb' hp).symm, c.owner_after_mem hb hp⟩
  · intro topic
    refine ⟨fun b hb => c.partitionForTopic_after_lt hb hpos hlt topic, ?_⟩
    -- the partition does not depend on the broker, so neither does the broker it is dealt to
    obtain ⟨a, ha⟩ := List.exists_mem_of_ne_nil live hne
    let owner := dealtTo (sortStrings live) ((newManager a count).partitionForTopic topic)
    have howner : owner ∈ live :=
      (List.mem_insertionSort (· ≤ ·)).mp (dealtTo_mem (Members.sortStrings_ne_nil ha) _)
    refine ⟨owner, ⟨howner, (c.isLocalOwner_after howner hpos hlt topic).mpr rfl⟩, ?_⟩
    intro b hb
    exact ((c.isLocalOwner_after hb.1 hpos hlt topic).mp hb.2).symm
  · intro b hb x hx y hy
    exact c.count_owners_after hb hnd hx hy

/-- Three brokers that got their IDs in different orders; the first one owned everything. -/
def threeBrokers : Members [str "b1", str "b2", str "b3"] 8 where
  manager b := if b = str "b1" then newManager b 8 else ⟨b, 8, FinMap.empty⟩
  alive b := if b = str "b1" then [str "b3", str "b1", str "b2"] else [str "b2", str "b3", str "b1"]
  brokerID := by decide
  partitionCount := by decide
  perm := by decide

theorem reconcilePartitions_agree_three :
    ((threeBrokers.after (str "b2")).owners = (threeBrokers.after (str "b1")).owners ∧
      (threeBrokers.after (str "b1")).owners.count (str "b1") = 3) ∧
    ∃! b, b ∈ [str "b1", str "b2", str "b3"] ∧
      (threeBrokers.after b).isLocalOwner (str "t/1") = true :=
  ⟨by decide +kernel,
    ((reconcilePartitions_agree _ 8 threeBrokers (by decide) (by decide) (by decide)
      (by decide)).2.1
      (str "t/1")).2⟩

end LumaBroker.Cluster
