import LumaBroker.Router.Trie
import Mathlib.Data.List.Sort

/-!
The Router of internal/router/router.go: 256 trie shards, the shared-subscription
groups and the retained store, with its calls taken one after another. Calling a
Deliver closure is recorded as a Delivery; the closures themselves belong to the
broker. Go ranges over a map in no fixed order, here the order of the keys: no
result below depends on the order in which different clients or groups are served.
-/

namespace LumaBroker
namespace Router

def numShards : Nat := 256

structure Retained where
  topic : GoString
  payload : List UInt8
  qos : UInt8
  timestamp : Nat
  deriving DecidableEq

/-- One MQTT v5 shared subscription group ($share/name/filter). -/
structure SharedGroup (δ : Type) where
  shareName : GoString
  topicFilter : GoString
  subs : FinMap GoString (Subscriber δ)
  rr : UInt64
  deriving DecidableEq

/-- The gauges and counters of internal/metrics that the router writes. -/
structure Metrics where
  activeSubscriptions : Int
  subscribeTotal : Nat
  retainedMessages : Int
  deliveredTotal : Nat
  deriving DecidableEq

/-- One call of a subscriber's Deliver closure. -/
structure Delivery (δ : Type) where
  clientID : GoString
  deliver : δ
  topic : GoString
  payload : List UInt8
  qos : UInt8
  retain : Bool
  packetID : UInt16
  deriving DecidableEq

end Router

structure Router (δ : Type) where
  shards : Fin Router.numShards → Router.Node δ
  retained : FinMap GoString Router.Retained
  shared : FinMap GoString (Router.SharedGroup δ)
  retainedCount : Int
  metrics : Router.Metrics

namespace Router
variable {δ : Type}

def new : Router δ where
  shards := fun _ => Node.new
  retained := FinMap.empty
  shared := FinMap.empty
  retainedCount := 0
  metrics := ⟨0, 0, 0, 0⟩

def updateShard (r : Router δ) (i : Fin numShards) (f : Node δ → Node δ) : Router δ :=
  { r with shards := Function.update r.shards i (f (r.shards i)) }

def addActive (n : Int) (r : Router δ) : Router δ :=
  { r with metrics := { r.metrics with
      activeSubscriptions := r.metrics.activeSubscriptions + n } }

def countSubscribe (r : Router δ) : Router δ :=
  { r with metrics := { r.metrics with
      activeSubscriptions := r.metrics.activeSubscriptions + 1
      subscribeTotal := r.metrics.subscribeTotal + 1 } }

def addRetained (n : Int) (r : Router δ) : Router δ :=
  { r with
    retainedCount := r.retainedCount + n
    metrics := { r.metrics with retainedMessages := r.metrics.retainedMessages + n } }

def sharedStoreKey (shareName topicFilter : GoString) : GoString := shareName ++ 0 :: topicFilter

/-- The FNV-1a hash of the first segment, masked to the number of shards. -/
def shardFor (filter : GoString) : Fin numShards :=
  let first := match indexByte filter slash with
    | none => filter
    | some i => filter.take i
  ⟨(fnv32a first &&& 255).toNat, by
    have h : (fnv32a first &&& 255).toNat ≤ 255 := by
      simpa using Nat.and_le_right (n := (fnv32a first).toNat) (m := 255)
    simp only [numShards]
    omega⟩

def subscribeShared (shareName topicFilter : GoString) (sub : Subscriber δ) (r : Router δ) :
    Router δ :=
  let key := sharedStoreKey shareName topicFilter
  let g := (r.shared.get key).getD ⟨shareName, topicFilter, FinMap.empty, 0⟩
  { r with shared := r.shared.set key { g with subs := g.subs.set sub.clientID sub } }

def subscribe (filter : GoString) (sub : Subscriber δ) (r : Router δ) : Router δ :=
  match Protocol.parseSharedTopicFilter filter with
  | some (shareName, topicFilter) => (subscribeShared shareName topicFilter sub r).countSubscribe
  | none =>
      (r.updateShard (shardFor filter) (Shard.subscribe sub (splitFilter filter))).countSubscribe

/-- The gauge goes down whenever the group exists, member or not. -/
def unsubscribeShared (shareName topicFilter clientID : GoString) (r : Router δ) : Router δ :=
  let key := sharedStoreKey shareName topicFilter
  match r.shared.get key with
  | none => r
  | some g =>
      let g := { g with subs := g.subs.erase clientID }
      let shared := if g.subs.isEmpty then r.shared.erase key else r.shared.set key g
      addActive (-1) { r with shared }

def unsubscribe (filter clientID : GoString) (r : Router δ) : Router δ :=
  match Protocol.parseSharedTopicFilter filter with
  | some (shareName, topicFilter) => unsubscribeShared shareName topicFilter clientID r
  | none =>
      addActive (-1)
        (r.updateShard (shardFor filter) (Shard.unsubscribe clientID (splitFilter filter)))

/-- One pass of the loop over the groups, with the number of memberships removed. -/
def removeClientFromShared (clientID : GoString)
    (acc : FinMap GoString (SharedGroup δ) × Nat) (e : GoString × SharedGroup δ) :
    FinMap GoString (SharedGroup δ) × Nat :=
  let removed := if (e.2.subs.get clientID).isSome then acc.2 + 1 else acc.2
  let g := { e.2 with subs := e.2.subs.erase clientID }
  (if g.subs.isEmpty then acc.1.erase e.1 else acc.1.set e.1 g, removed)

def removeClientFromAllShared (clientID : GoString) (r : Router δ) : Router δ × Nat :=
  let result := r.shared.entries.foldl (removeClientFromShared clientID) (r.shared, 0)
  ({ r with shared := result.1 }, result.2)

def unsubscribeAll (clientID : GoString) (r : Router δ) : Router δ :=
  let r := { r with shards := fun i => removeClientFromNode clientID (r.shards i) }
  let (r, n) := removeClientFromAllShared clientID r
  addActive (-n) r

/-- Deliver at the lower of the two QoS levels, unless the closure is nil. -/
def deliverTo (sub : Subscriber δ) (topic : GoString) (payload : List UInt8) (qos : UInt8)
    (retain : Bool) : Option (Delivery δ) :=
  let effQoS := if sub.qos < qos then sub.qos else qos
  sub.deliver.map fun deliver =>
    ⟨sub.clientID, deliver, topic, payload, effQoS, retain, 0⟩

/-- A topic can match subscriptions in every shard, so all are walked in turn. -/
def matchSubscribers (topic : GoString) (r : Router δ) : Matched δ :=
  (List.finRange numShards).foldl
    (fun result i => matchNode (splitFilter topic) (r.shards i) result) FinMap.empty

/-- sort.Strings -/
def sortStrings (ids : List GoString) : List GoString := ids.insertionSort (· ≤ ·)

/-- The member whose turn it is; next - 1 is taken in uint64. -/
def nextMember (g : SharedGroup δ) : Option (Subscriber δ) :=
  let ids := sortStrings g.subs.keys
  let next := g.rr + 1
  let idx := (next - 1).toNat % ids.length
  ids[idx]?.bind g.subs.get

/-- Serve the group stored under a key. The calls made so far carry the key of the
group they were made for. -/
def deliverGroup (topic : GoString) (payload : List UInt8) (qos : UInt8)
    (acc : FinMap GoString (SharedGroup δ) × List (GoString × Delivery δ)) (key : GoString) :
    FinMap GoString (SharedGroup δ) × List (GoString × Delivery δ) :=
  match acc.1.get key with
  | none => acc
  | some g =>
      if !topicMatchesFilter topic g.topicFilter then acc
      else if g.subs.isEmpty then acc
      else
        let calls := (nextMember g).bind fun sub => deliverTo sub topic payload qos false
        (acc.1.set key { g with rr := g.rr + 1 }, acc.2 ++ calls.toList.map fun d => (key, d))

def deliverShared (topic : GoString) (payload : List UInt8) (qos : UInt8) (r : Router δ) :
    Router δ × List (GoString × Delivery δ) :=
  let result := r.shared.keys.foldl (deliverGroup topic payload qos) (r.shared, [])
  ({ r with shared := result.1 }, result.2)

/-- The retained part of Publish. The count goes down whether or not the topic had
a retained message. -/
def retainMessage (topic : GoString) (payload : List UInt8) (qos : UInt8) (now : Nat)
    (r : Router δ) : Router δ :=
  if payload.length = 0 then addRetained (-1) { r with retained := r.retained.erase topic }
  else
    let loaded := (r.retained.get topic).isSome
    let r := { r with retained := r.retained.set topic ⟨topic, payload, qos, now⟩ }
    if loaded then r else addRetained 1 r

/-- Store a retained message of an earlier start. -/
def setRetained {δ : Type} (msg : Retained) (r : Router δ) : Router δ :=
  let loaded := (r.retained.get msg.topic).isSome
  let r := { r with retained := r.retained.set msg.topic msg }
  if loaded then r else addRetained 1 r

structure PublishResult (δ : Type) where
  router : Router δ
  deliveries : List (Delivery δ)

/-- Publish returns the number of closures it called, the length of the list. -/
def publish (topic : GoString) (payload : List UInt8) (qos : UInt8) (retain : Bool) (now : Nat)
    (r : Router δ) : PublishResult δ :=
  let r := if retain then retainMessage topic payload qos now r else r
  let direct := (matchSubscribers topic r).entries.filterMap fun e =>
    deliverTo e.2 topic payload qos false
  let (r, shared) := deliverShared topic payload qos r
  let deliveries := direct ++ shared.map Prod.snd
  { router := { r with metrics := { r.metrics with
      deliveredTotal := r.metrics.deliveredTotal + deliveries.length } }
    deliveries }

end Router
end LumaBroker
