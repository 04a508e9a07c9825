import LumaBroker.Lib.Locks
import LumaBroker.Router.Filters
import LumaBroker.Router.Interleaving
import LumaBroker.Router.SharedInterleaving

/-!
The calls of the Router of internal/router/router.go with the locks they take: the RWMutex of
every node of a trie, sharedMu over the map of the groups, and the mutex of every group. Most
calls hold one lock at a time. A match holds the nodes on its path from the root down, the calls
that remove a client from the groups hold sharedMu while they take one group after another, and
nothing else in the broker takes a lock while it holds one.

Retained messages are kept in a sync.Map, which has no lock that a call could hold, and the
metrics are atomic; neither is part of the memory here. The Deliver closures are called when no
lock is held.
-/

namespace LumaBroker.Router.Locking

open Locks SharedInterleaving
variable {δ : Type}

inductive Lock where
  | node (shard : Fin numShards) (n : Nat)
  | sharedMu
  | group (g : Nat)
  deriving DecidableEq

/-- A node is made after its parent, and sharedMu comes before the groups. -/
def Lock.rank : Lock → Nat
  | .node _ n => n
  | .sharedMu => 0
  | .group _ => 1

structure Message where
  topic : GoString
  payload : List UInt8
  qos : UInt8

/-- The shards and groups, and what the calls have put into their results so far. -/
structure Memory (δ : Type) where
  shards : Fin numShards → Heap δ
  groups : Groups δ
  matched : Nat → Matched δ
  filters : Nat → List GoString
  delivered : List (Nat × Delivery δ)

def Memory.new : Memory δ where
  shards := fun _ => Heap.newShard
  groups := (SharedInterleaving.newRouter : SharedInterleaving.State δ).groups
  matched := fun _ => FinMap.empty
  filters := fun _ => []
  delivered := []

/-- The parts of the calls. Those that end in a result bear the number of the call. -/
inductive Instr (δ : Type) where
  | lock (l : Lock) (m : Mode)
  | unlock (l : Lock) (m : Mode)
  /-- shard.subscribe and shard.unsubscribe before a section, and in it. -/
  | before (i : Fin numShards) (clientID : GoString) (call : Interleaving.Call δ)
  | inside (i : Fin numShards) (clientID : GoString) (call : Interleaving.Call δ)
  | removeClient (i : Fin numShards) (n : Nat) (clientID : GoString)
  | dropClient (i : Fin numShards) (n : Nat) (clientID : GoString)
  | collectFilters (c : Nat) (i : Fin numShards) (n : Nat) (filter clientID : GoString)
  | gather (c : Nat) (i : Fin numShards) (n : Nat) (filter clientID : GoString)
  | matchNode (c : Nat) (i : Fin numShards) (n : Nat) (segs : List GoString)
  | mergeHash (c : Nat) (i : Fin numShards) (n : Nat)
  | merge (c : Nat) (i : Fin numShards) (n : Nat)
  | enter (c : Nat) (i : Fin numShards) (n : Nat) (seg : GoString) (rest : List GoString)
  | deliver (c : Nat) (msg : Message)
  | listKeys (c : Nat) (msg : Message)
  | lookKey (c : Nat) (msg : Message) (key : GoString)
  | fetch (c : Nat) (msg : Message) (key : GoString)
  | pick (c : Nat) (msg : Message) (g : Nat)
  | deliverOne (c : Nat) (d : Delivery δ)
  | lookup (shareName topicFilter : GoString) (sub : Subscriber δ)
  | insert (g : Nat) (sub : Subscriber δ)
  | find (key clientID : GoString)
  | sweep (clientID : GoString)
  | visitGroup (key : GoString) (g : Nat) (clientID : GoString)
  | leave (key : GoString) (g : Nat) (clientID : GoString)
  | deleteKey (key : GoString)
  | gatherShared (c : Nat) (clientID : GoString)
  | gatherGroup (c : Nat) (key : GoString) (g : Nat) (clientID : GoString)

def op : Instr δ → Op Lock
  | .lock l m => .lock l m
  | .unlock l m => .unlock l m
  | _ => .work

/-- The node whose lock a section is under. -/
def place : Interleaving.Call δ → Nat
  | .subscribe _ n _ => n
  | .down _ n _ => n
  | .up n _ _ => n

namespace Memory

def setShard (i : Fin numShards) (h : Heap δ) (m : Memory δ) : Memory δ :=
  { m with shards := Function.update m.shards i h }

def addFilters (c : Nat) (filters : List GoString) (m : Memory δ) : Memory δ :=
  { m with filters := Function.update m.filters c (m.filters c ++ filters) }

def mergeInto (c : Nat) (subs : FinMap GoString (Subscriber δ)) (m : Memory δ) : Memory δ :=
  { m with matched := Function.update m.matched c (mergeSubscribers subs (m.matched c)) }

def setGroups (g : Groups δ) (m : Memory δ) : Memory δ := { m with groups := g }

end Memory

def lockedNode (i : Fin numShards) (n : Nat) (m : Mode) (instr : Instr δ) : List (Instr δ) :=
  [.lock (.node i n) m, instr]

def work : Instr δ → Memory δ → Memory δ × List (Instr δ)
  | .lock .., m | .unlock .., m => (m, [])
  | .before i clientID call, m => (m, lockedNode i (place call) .write (.inside i clientID call))
  | .inside i clientID call, m =>
      let (h, rest) := Interleaving.advance clientID (m.shards i) call
      (m.setShard i h, .unlock (.node i (place call)) .write ::
        rest.toList.map (.before i clientID))
  | .removeClient i n clientID, m => (m, lockedNode i n .write (.dropClient i n clientID))
  | .dropClient i n clientID, m =>
      -- The children are copied before the lock is given back.
      (m.setShard i ((m.shards i).remove n clientID), .unlock (.node i n) .write ::
        ((m.shards i).node n).children.entries.map fun e => .removeClient i e.2 clientID)
  | .collectFilters c i n filter clientID, m =>
      (m, lockedNode i n .read (.gather c i n filter clientID))
  | .gather c i n filter clientID, m =>
      let found := if (((m.shards i).node n).subscribers.get clientID).isSome then [filter] else []
      (m.addFilters c found, .unlock (.node i n) .read ::
        ((m.shards i).node n).children.entries.map fun e =>
          .collectFilters c i e.2 (extendFilter filter e.1) clientID)
  | .matchNode c i n segs, m =>
      let inner := match segs with
        | [] => [.merge c i n]
        | seg :: rest => [.enter c i n seg rest, .enter c i n plus rest]
      (m, .lock (.node i n) .read :: .mergeHash c i n :: inner ++ [.unlock (.node i n) .read])
  | .mergeHash c i n, m =>
      match (m.shards i).child n hash with
      | some k => (m, [.lock (.node i k) .read, .merge c i k, .unlock (.node i k) .read])
      | none => (m, [])
  | .merge c i n, m => (m.mergeInto c ((m.shards i).node n).subscribers, [])
  | .enter c i n seg rest, m =>
      match (m.shards i).child n seg with
      | some k => (m, [.matchNode c i k rest])
      | none => (m, [])
  | .deliver c msg, m =>
      let calls := (m.matched c).entries.filterMap fun e =>
        deliverTo e.2 msg.topic msg.payload msg.qos false
      ({ m with delivered := m.delivered ++ calls.map fun d => (c, d) }, [])
  | .listKeys c msg, m => (m, .unlock .sharedMu .read :: m.groups.shared.keys.map (.lookKey c msg))
  | .lookKey c msg key, m => (m, [.lock .sharedMu .read, .fetch c msg key])
  | .fetch c msg key, m =>
      let rest := match m.groups.shared.get key with
        | some g =>
            if topicMatchesFilter msg.topic (m.groups.group g).topicFilter then
              [.lock (.group g) .write, .pick c msg g]
            else []
        | none => []
      (m, .unlock .sharedMu .read :: rest)
  | .pick c msg g, m =>
      let group := m.groups.group g
      if group.subs.isEmpty then (m, [.unlock (.group g) .write])
      else
        let groups :=
          { m.groups with
            group := Function.update m.groups.group g { group with rr := group.rr + 1 } }
        let call :=
          (nextMember group).bind fun sub => deliverTo sub msg.topic msg.payload msg.qos false
        (m.setGroups groups, .unlock (.group g) .write :: call.toList.map (.deliverOne c))
  | .deliverOne c d, m => ({ m with delivered := m.delivered ++ [(c, d)] }, [])
  | .lookup shareName topicFilter sub, m =>
      let (groups, g) := m.groups.getOrCreate shareName topicFilter
      (m.setGroups groups,
        [.unlock .sharedMu .write, .lock (.group g) .write, .insert g sub,
          .unlock (.group g) .write])
  | .insert g sub, m =>
      (m.setGroups (m.groups.setSubs g ((m.groups.group g).subs.set sub.clientID sub)), [])
  | .find key clientID, m =>
      let visit := (m.groups.shared.get key).toList.map fun g => .visitGroup key g clientID
      (m, visit ++ [.unlock .sharedMu .write])
  | .sweep clientID, m =>
      let visits := m.groups.shared.entries.map fun e => .visitGroup e.1 e.2 clientID
      (m, visits ++ [.unlock .sharedMu .write])
  | .visitGroup key g clientID, m => (m, [.lock (.group g) .write, .leave key g clientID])
  | .leave key g clientID, m =>
      let subs := (m.groups.group g).subs.erase clientID
      (m.setGroups (m.groups.setSubs g subs),
        .unlock (.group g) .write :: if subs.isEmpty then [.deleteKey key] else [])
  | .deleteKey key, m => (m.setGroups { m.groups with shared := m.groups.shared.erase key }, [])
  | .gatherShared c clientID, m =>
      let visits := m.groups.shared.entries.flatMap fun e =>
        [.lock (.group e.2) .write, .gatherGroup c e.1 e.2 clientID, .unlock (.group e.2) .write]
      (m, visits ++ [.unlock .sharedMu .read])
  | .gatherGroup c key g clientID, m =>
      let found :=
        if ((m.groups.group g).subs.get clientID).isSome then [sharedKeyToFilter key] else []
      (m.addFilters c found, [])

def machine : Machine (Memory δ) (Instr δ) Lock := ⟨op, work⟩

inductive Call (δ : Type) where
  | subscribe (filter : GoString) (sub : Subscriber δ)
  | unsubscribe (filter clientID : GoString)
  | unsubscribeAll (clientID : GoString)
  | getFilters (clientID : GoString)
  | publish (msg : Message)

/-- The instructions of the call with this number. -/
def Call.code (c : Nat) : Call δ → List (Instr δ)
  | .subscribe filter sub =>
      match Protocol.parseSharedTopicFilter filter with
      | some (shareName, topicFilter) => [.lock .sharedMu .write, .lookup shareName topicFilter sub]
      | none => [.before (shardFor filter) sub.clientID (.subscribe sub 0 (splitFilter filter))]
  | .unsubscribe filter clientID =>
      match Protocol.parseSharedTopicFilter filter with
      | some (shareName, topicFilter) =>
          [.lock .sharedMu .write, .find (sharedStoreKey shareName topicFilter) clientID]
      | none => [.before (shardFor filter) clientID (.down [] 0 (splitFilter filter))]
  | .unsubscribeAll clientID =>
      ((List.finRange numShards).map fun i => .removeClient i 0 clientID) ++
        [.lock .sharedMu .write, .sweep clientID]
  | .getFilters clientID =>
      ((List.finRange numShards).map fun i => .collectFilters c i 0 [] clientID) ++
        [.lock .sharedMu .read, .gatherShared c clientID]
  | .publish msg =>
      ((List.finRange numShards).map fun i => .matchNode c i 0 (splitFilter msg.topic)) ++
        [.deliver c msg, .lock .sharedMu .read, .listKeys c msg]

/-- Calls are numbered as they start. -/
inductive Action (δ : Type) where
  | call (call : Call δ)
  | announce (c : Nat)
  | next (c : Nat)

abbrev System (δ : Type) := Locks.State (Memory δ) (Instr δ) Lock

def step (s : System δ) : Action δ → Option (System δ)
  | .call call => Locks.step machine s (.start (call.code s.threads.length))
  | .announce c => Locks.step machine s (.announce c)
  | .next c => Locks.step machine s (.next c)

def newRouter : System δ := ⟨Memory.new, []⟩

/-- In the order in which they were made, so that no walk down a trie comes back to a node. -/
structure Increasing (h : Heap δ) : Prop where
  root : 0 < h.next
  child : ∀ n seg k, h.child n seg = some k → n < k ∧ k < h.next
  fresh : ∀ n seg, h.next ≤ n → h.child n seg = none

namespace Increasing
variable {h : Heap δ}

theorem newShard : Increasing (Heap.newShard : Heap δ) := ⟨Nat.zero_lt_one, nofun, fun _ _ _ => rfl⟩

theorem setSubscribers (hi : Increasing h) (n : Nat) (subs : FinMap GoString (Subscriber δ)) :
    Increasing (h.setSubscribers n subs) := by
  have hchild := Heap.child_setSubscribers n subs h
  refine ⟨hi.root, ?_, ?_⟩
  · rw [hchild]
    exact hi.child
  · rw [hchild]
    exact hi.fresh

theorem detach (hi : Increasing h) (n : Nat) (seg : GoString) : Increasing (h.detach n seg) := by
  refine ⟨hi.root, ?_, ?_⟩
  · intro m k c hc
    rw [Heap.child_detach] at hc
    split_ifs at hc
    exact hi.child m k c hc
  · intro m k hm
    rw [Heap.child_detach, hi.fresh m k hm, ite_self]

theorem attachNew (hi : Increasing h) {n : Nat} (hn : n < h.next) (seg : GoString) :
    Increasing (h.attachNew n seg).1 := by
  refine ⟨Nat.zero_lt_succ _, ?_, ?_⟩
  · intro m k c hc
    rw [Heap.child_attachNew (Nat.ne_of_lt hn)] at hc
    split_ifs at hc with hedge hnext
    · cases hc
      exact ⟨hedge.1 ▸ hn, Nat.lt_succ_self _⟩
    · exact (hi.child m k c hc).imp_right Nat.lt_succ_of_lt
  · intro m k hm
    have hlt : h.next < m := hm
    rw [Heap.child_attachNew (Nat.ne_of_lt hn), if_neg (by omega), if_neg (by omega)]
    exact hi.fresh m k (Nat.le_of_lt hlt)

end Increasing

/-- A subscribe stands at a node that exists. -/
def Placed (h : Heap δ) : Interleaving.Call δ → Prop
  | .subscribe _ n _ => n < h.next
  | _ => True

theorem Placed.mono {h h' : Heap δ} (hnext : h.next ≤ h'.next) {call : Interleaving.Call δ}
    (hp : Placed h call) :
    Placed h' call := by
  cases call with
  | subscribe sub n rest => exact Nat.lt_of_lt_of_le hp hnext
  | down callers n rest => trivial
  | up n seg callers => trivial

theorem placed_returns (h : Heap δ) (callers : List (Nat × GoString)) (empty : Bool)
    {call : Interleaving.Call δ} (hcall : Interleaving.returns callers empty = some call) :
    Placed h call := by
  cases callers with
  | nil => cases hcall
  | cons caller callers =>
      cases empty with
      | true =>
          cases hcall
          trivial
      | false => cases hcall

/-- What a section of subscribe or unsubscribe keeps. -/
structure Advanced (h h' : Heap δ) (rest : Option (Interleaving.Call δ)) : Prop where
  increasing : Increasing h'
  next : h.next ≤ h'.next
  placed : ∀ call, rest = some call → Placed h' call

theorem advanced {h : Heap δ} (hi : Increasing h) (clientID : GoString) {call : Interleaving.Call δ}
    (hp : Placed h call) :
    Advanced h (Interleaving.advance clientID h call).1
      (Interleaving.advance clientID h call).2 := by
  cases call with
  | subscribe sub n rest =>
      cases rest with
      | nil => exact ⟨hi.setSubscribers n _, le_rfl, nofun⟩
      | cons seg rest =>
          cases hchild : h.child n seg with
          | some k =>
              have hsame : Interleaving.advance clientID h (.subscribe sub n (seg :: rest)) =
                  (h, some (.subscribe sub k rest)) := by
                simp only [Interleaving.advance, Heap.descend, hchild]
              rw [hsame]
              refine ⟨hi, le_rfl, ?_⟩
              intro call hcall
              cases hcall
              exact (hi.child n seg k hchild).2
          | none =>
              have hnew : Interleaving.advance clientID h (.subscribe sub n (seg :: rest)) =
                  ((h.attachNew n seg).1, some (.subscribe sub h.next rest)) := by
                simp only [Interleaving.advance, Heap.descend, hchild]
                rfl
              rw [hnew]
              refine ⟨hi.attachNew hp seg, Nat.le_succ _, ?_⟩
              intro call hcall
              cases hcall
              exact Nat.lt_succ_self _
  | down callers n rest =>
      cases rest with
      | nil => exact ⟨hi.setSubscribers n _, le_rfl, fun call hcall => placed_returns _ _ _ hcall⟩
      | cons seg rest =>
          refine ⟨hi, le_rfl, ?_⟩
          intro call hcall
          obtain ⟨k, -, rfl⟩ := Option.map_eq_some_iff.mp hcall
          trivial
  | up n seg callers =>
      exact ⟨hi.detach n seg, le_rfl, fun call hcall => placed_returns _ _ _ hcall⟩

/-- The locks around an instruction: those it is executed with, and those that are held when all
that it leaves behind is done. -/
def spec (m : Memory δ) : Instr δ → List (Lock × Mode) → List (Lock × Mode) → Prop
  | .lock .., _, _ | .unlock .., _, _ => False
  | .before i _ call, held, after => held = [] ∧ after = [] ∧ Placed (m.shards i) call
  | .inside i _ call, held, after =>
      held = [(.node i (place call), .write)] ∧ after = [] ∧ Placed (m.shards i) call
  | .removeClient .., held, after | .collectFilters .., held, after | .lookKey .., held, after =>
      held = [] ∧ after = []
  | .dropClient i n _, held, after => held = [(.node i n, .write)] ∧ after = []
  | .gather _ i n _ _, held, after => held = [(.node i n, .read)] ∧ after = []
  | .matchNode _ _ n _, held, after => (∀ h ∈ held, h.1.rank < n) ∧ after = held
  | .mergeHash _ i n, held, after | .enter _ i n _ _, held, after =>
      (∃ rest, held = (.node i n, .read) :: rest ∧ ∀ h ∈ rest, h.1.rank < n) ∧ after = held
  | .merge _ i n, held, after => (.node i n, .read) ∈ held ∧ after = held
  | .deliver .., held, after | .deliverOne .., held, after => held = [] ∧ after = []
  | .listKeys .., held, after | .fetch .., held, after | .gatherShared .., held, after =>
      held = [(.sharedMu, .read)] ∧ after = []
  | .pick _ _ g, held, after => held = [(.group g, .write)] ∧ after = []
  | .lookup .., held, after | .find .., held, after | .sweep .., held, after =>
      held = [(.sharedMu, .write)] ∧ after = []
  | .insert g _, held, after => (.group g, .write) ∈ held ∧ after = held
  | .visitGroup .., held, after | .deleteKey _, held, after =>
      held = [(.sharedMu, .write)] ∧ after = [(.sharedMu, .write)]
  | .leave _ g _, held, after =>
      held = [(.group g, .write), (.sharedMu, .write)] ∧ after = [(.sharedMu, .write)]
  | .gatherGroup _ _ g _, held, after => (.group g, .write) ∈ held ∧ after = held

def Ordered (m : Memory δ) : Prop := ∀ i, Increasing (m.shards i)

theorem ordered_setShard {m : Memory δ} (hm : Ordered m) (i : Fin numShards) {h : Heap δ}
    (hi : Increasing h) : Ordered (m.setShard i h) :=
  (Function.forall_update_iff m.shards fun _ h => Increasing h).mpr ⟨hi, fun j _ => hm j⟩

/-- The places of other calls are still there when a shard has grown. -/
theorem spec_mono {m m' : Memory δ} (hnext : ∀ i, (m.shards i).next ≤ (m'.shards i).next)
    (instr : Instr δ) (held after : List (Lock × Mode)) (h : spec m instr held after) :
    spec m' instr held after := by
  cases instr with
  | before i clientID call => exact ⟨h.1, h.2.1, h.2.2.mono (hnext i)⟩
  | inside i clientID call => exact ⟨h.1, h.2.1, h.2.2.mono (hnext i)⟩
  | _ => exact h

abbrev Planned (m : Memory δ) := Plan machine Lock.rank (spec m)

theorem plan_all {m : Memory δ} {held : List (Lock × Mode)} {instrs : List (Instr δ)}
    (h : ∀ i ∈ instrs, op i = .work ∧ spec m i held held) : Planned m held instrs held := by
  induction instrs with
  | nil => rfl
  | cons i instrs ih =>
      obtain ⟨hhead, htail⟩ := List.forall_mem_cons.mp h
      exact (plan_work hhead.1).mpr ⟨held, hhead.2, ih htail⟩

/-- One instruction under a lock. -/
theorem plan_locked {m : Memory δ} {held : List (Lock × Mode)} {l : Lock} {mode : Mode}
    {instr : Instr δ} (hop : op instr = .work) (hrank : ∀ h ∈ held, h.1.rank < l.rank)
    (hspec : spec m instr ((l, mode) :: held) ((l, mode) :: held)) :
    Planned m held [.lock l mode, instr, .unlock l mode] held := by
  refine (plan_lock rfl).mpr ⟨hrank, (plan_work hop).mpr ⟨_, hspec, ?_⟩⟩
  exact (plan_unlock rfl).mpr ⟨held, rfl, rfl⟩

/-- Only the sections of subscribe and unsubscribe and the removal of a client write to a shard. -/
theorem shards_work (instr : Instr δ) (m : Memory δ) : (work instr m).1.shards = m.shards ∨
    (∃ i clientID call, instr = .inside i clientID call) ∨
      ∃ i n clientID, instr = .dropClient i n clientID := by
  cases instr with
  | inside i clientID call => exact .inr (.inl ⟨i, clientID, call, rfl⟩)
  | dropClient i n clientID => exact .inr (.inr ⟨i, n, clientID, rfl⟩)
  | mergeHash c i n =>
      rw [work]
      split <;> exact .inl rfl
  | enter c i n seg rest =>
      rw [work]
      split <;> exact .inl rfl
  | pick c msg g =>
      simp only [work]
      split_ifs <;> exact .inl rfl
  | _ => exact .inl rfl

theorem ordered_work {instr : Instr δ} {m : Memory δ} {held after : List (Lock × Mode)}
    (hm : Ordered m) (hspec : spec m instr held after) :
    Ordered (work instr m).1 ∧ ∀ i, (m.shards i).next ≤ ((work instr m).1.shards i).next := by
  have hset (i : Fin numShards) {h : Heap δ} (hi : Increasing h)
      (hnext : (m.shards i).next ≤ h.next) :
      Ordered (m.setShard i h) ∧ ∀ j, (m.shards j).next ≤ ((m.setShard i h).shards j).next := by
    refine ⟨ordered_setShard hm i hi, ?_⟩
    exact (Function.forall_update_iff m.shards fun j h => (m.shards j).next ≤ h.next).mpr
      ⟨hnext, fun _ _ => le_rfl⟩
  rcases shards_work instr m with hsame | ⟨i, clientID, call, rfl⟩ | ⟨i, n, clientID, rfl⟩
  · rw [Ordered, hsame]
    exact ⟨hm, fun _ => le_rfl⟩
  · have hadv := advanced (hm i) clientID hspec.2.2
    exact hset i hadv.increasing hadv.next
  · exact hset i ((hm i).setSubscribers n _) le_rfl

theorem planned_work (instr : Instr δ) (m : Memory δ) (held after : List (Lock × Mode))
    (hm : Ordered m) (hspec : spec m instr held after) :
    Planned (work instr m).1 held (work instr m).2 after := by
  cases instr with
  | lock l m | unlock l m => exact hspec.elim
  | before i clientID call =>
      obtain ⟨rfl, rfl, hplaced⟩ := hspec
      exact (plan_lock rfl).mpr ⟨nofun, (plan_work rfl).mpr ⟨[], ⟨rfl, rfl, hplaced⟩, rfl⟩⟩
  | inside i clientID call =>
      obtain ⟨rfl, rfl, hplaced⟩ := hspec
      have hadv := advanced (hm i) clientID hplaced
      refine (plan_unlock rfl).mpr ⟨[], rfl, plan_all ?_⟩
      intro instr hinstr
      obtain ⟨call', hcall', rfl⟩ := List.mem_map.mp hinstr
      refine ⟨rfl, rfl, rfl, ?_⟩
      simp only [work, Memory.setShard, Function.update_self]
      exact hadv.placed call' (Option.mem_toList.mp hcall')
  | removeClient i n clientID =>
      obtain ⟨rfl, rfl⟩ := hspec
      exact (plan_lock rfl).mpr ⟨nofun, (plan_work rfl).mpr ⟨[], ⟨rfl, rfl⟩, rfl⟩⟩
  | dropClient i n clientID =>
      obtain ⟨rfl, rfl⟩ := hspec
      refine (plan_unlock rfl).mpr ⟨[], rfl, plan_all ?_⟩
      intro instr hinstr
      obtain ⟨e, -, rfl⟩ := List.mem_map.mp hinstr
      exact ⟨rfl, rfl, rfl⟩
  | collectFilters c i n filter clientID =>
      obtain ⟨rfl, rfl⟩ := hspec
      exact (plan_lock rfl).mpr ⟨nofun, (plan_work rfl).mpr ⟨[], ⟨rfl, rfl⟩, rfl⟩⟩
  | gather c i n filter clientID =>
      obtain ⟨rfl, rfl⟩ := hspec
      refine (plan_unlock rfl).mpr ⟨[], rfl, plan_all ?_⟩
      intro instr hinstr
      obtain ⟨e, -, rfl⟩ := List.mem_map.mp hinstr
      exact ⟨rfl, rfl, rfl⟩
  | matchNode c i n segs =>
      obtain ⟨hrank, rfl⟩ := hspec
      have htop : ∃ rest, (Lock.node i n, Mode.read) :: after = (.node i n, .read) :: rest ∧
          ∀ h ∈ rest, h.1.rank < n := ⟨after, rfl, hrank⟩
      refine (plan_lock (l := Lock.node i n) rfl).mpr
        ⟨hrank, (plan_work rfl).mpr ⟨_, ⟨htop, rfl⟩, ?_⟩⟩
      refine Plan.append (plan_all ?_) ((plan_unlock rfl).mpr ⟨after, rfl, rfl⟩)
      intro instr hinstr
      cases segs with
      | nil =>
          rw [List.mem_singleton.mp hinstr]
          exact ⟨rfl, List.mem_cons_self, rfl⟩
      | cons seg rest =>
          rcases List.mem_pair.mp hinstr with rfl | rfl
          · exact ⟨rfl, htop, rfl⟩
          · exact ⟨rfl, htop, rfl⟩
  | mergeHash c i n =>
      obtain ⟨⟨rest, rfl, hrank⟩, rfl⟩ := hspec
      rw [work]
      split
      · next k hk =>
          have hlt : n < k := ((hm i).child n hash k hk).1
          refine plan_locked rfl ?_ ⟨List.mem_cons_self, rfl⟩
          exact List.forall_mem_cons.mpr ⟨hlt, fun h hh => Nat.lt_trans (hrank h hh) hlt⟩
      · rfl
  | enter c i n seg rest =>
      obtain ⟨⟨rest', rfl, hrank⟩, rfl⟩ := hspec
      rw [work]
      split
      · next k hk =>
          have hlt : n < k := ((hm i).child n seg k hk).1
          refine (plan_work rfl).mpr ⟨_, ⟨?_, rfl⟩, rfl⟩
          exact List.forall_mem_cons.mpr ⟨hlt, fun h hh => Nat.lt_trans (hrank h hh) hlt⟩
      · rfl
  | merge c i n | insert g sub | gatherGroup c key g clientID =>
      obtain ⟨-, rfl⟩ := hspec
      rfl
  | deliver c msg | deliverOne c d | deleteKey key =>
      obtain ⟨rfl, rfl⟩ := hspec
      rfl
  | listKeys c msg =>
      obtain ⟨rfl, rfl⟩ := hspec
      refine (plan_unlock rfl).mpr ⟨[], rfl, plan_all ?_⟩
      intro instr hinstr
      obtain ⟨key, -, rfl⟩ := List.mem_map.mp hinstr
      exact ⟨rfl, rfl, rfl⟩
  | lookKey c msg key =>
      obtain ⟨rfl, rfl⟩ := hspec
      exact (plan_lock rfl).mpr ⟨nofun, (plan_work rfl).mpr ⟨[], ⟨rfl, rfl⟩, rfl⟩⟩
  | fetch c msg key =>
      obtain ⟨rfl, rfl⟩ := hspec
      refine (plan_unlock rfl).mpr ⟨[], rfl, ?_⟩
      split
      · split_ifs
        · exact (plan_lock rfl).mpr ⟨nofun, (plan_work rfl).mpr ⟨[], ⟨rfl, rfl⟩, rfl⟩⟩
        · rfl
      · rfl
  | pick c msg g =>
      obtain ⟨rfl, rfl⟩ := hspec
      simp only [work]
      split_ifs
      · exact (plan_unlock rfl).mpr ⟨[], rfl, rfl⟩
      · refine (plan_unlock rfl).mpr ⟨[], rfl, plan_all ?_⟩
        intro instr hinstr
        obtain ⟨d, -, rfl⟩ := List.mem_map.mp hinstr
        exact ⟨rfl, rfl, rfl⟩
  | lookup shareName topicFilter sub =>
      obtain ⟨rfl, rfl⟩ := hspec
      exact (plan_unlock rfl).mpr ⟨[], rfl, plan_locked rfl nofun ⟨List.mem_cons_self, rfl⟩⟩
  | find key clientID =>
      obtain ⟨rfl, rfl⟩ := hspec
      refine Plan.append (plan_all ?_) ((plan_unlock rfl).mpr ⟨[], rfl, rfl⟩)
      intro instr hinstr
      obtain ⟨g, -, rfl⟩ := List.mem_map.mp hinstr
      exact ⟨rfl, rfl, rfl⟩
  | sweep clientID =>
      obtain ⟨rfl, rfl⟩ := hspec
      refine Plan.append (plan_all ?_) ((plan_unlock rfl).mpr ⟨[], rfl, rfl⟩)
      intro instr hinstr
      obtain ⟨e, -, rfl⟩ := List.mem_map.mp hinstr
      exact ⟨rfl, rfl, rfl⟩
  | visitGroup key g clientID =>
      obtain ⟨rfl, rfl⟩ := hspec
      refine (plan_lock rfl).mpr ⟨?_, (plan_work rfl).mpr ⟨_, ⟨rfl, rfl⟩, rfl⟩⟩
      exact List.forall_mem_singleton.mpr Nat.zero_lt_one
  | leave key g clientID =>
      obtain ⟨rfl, rfl⟩ := hspec
      refine (plan_unlock rfl).mpr ⟨_, rfl, ?_⟩
      split_ifs
      · exact (plan_work rfl).mpr ⟨_, ⟨rfl, rfl⟩, rfl⟩
      · rfl
  | gatherShared c clientID =>
      obtain ⟨rfl, rfl⟩ := hspec
      refine Plan.append ?_ ((plan_unlock rfl).mpr ⟨[], rfl, rfl⟩)
      induction m.groups.shared.entries with
      | nil => rfl
      | cons e entries ih =>
          rw [List.flatMap_cons]
          refine Plan.append (plan_locked rfl ?_ ⟨List.mem_cons_self, rfl⟩) ih
          exact List.forall_mem_singleton.mpr Nat.zero_lt_one

theorem disciplined :
    Disciplined (machine : Machine (Memory δ) (Instr δ) Lock) Lock.rank spec Ordered where
  memory _ _ _ _ _ hm hspec := (ordered_work hm hspec).1
  plan _ _ _ _ _ hm hspec := planned_work _ _ _ _ hm hspec
  mono _ _ _ _ _ hm hspec := spec_mono (ordered_work hm hspec).2

theorem planned_code {m : Memory δ} (hm : Ordered m) (c : Nat) (call : Call δ) :
    Planned m [] (call.code c) [] := by
  cases call with
  | subscribe filter sub =>
      rw [Call.code]
      split
      · exact (plan_lock rfl).mpr ⟨nofun, (plan_work rfl).mpr ⟨[], ⟨rfl, rfl⟩, rfl⟩⟩
      · exact (plan_work rfl).mpr ⟨[], ⟨rfl, rfl, (hm _).root⟩, rfl⟩
  | unsubscribe filter clientID =>
      rw [Call.code]
      split
      · exact (plan_lock rfl).mpr ⟨nofun, (plan_work rfl).mpr ⟨[], ⟨rfl, rfl⟩, rfl⟩⟩
      · exact (plan_work rfl).mpr ⟨[], ⟨rfl, rfl, trivial⟩, rfl⟩
  | unsubscribeAll clientID =>
      refine Plan.append (plan_all ?_)
        ((plan_lock rfl).mpr ⟨nofun, (plan_work rfl).mpr ⟨[], ⟨rfl, rfl⟩, rfl⟩⟩)
      intro instr hinstr
      obtain ⟨i, -, rfl⟩ := List.mem_map.mp hinstr
      exact ⟨rfl, rfl, rfl⟩
  | getFilters clientID =>
      refine Plan.append (plan_all ?_)
        ((plan_lock rfl).mpr ⟨nofun, (plan_work rfl).mpr ⟨[], ⟨rfl, rfl⟩, rfl⟩⟩)
      intro instr hinstr
      obtain ⟨i, -, rfl⟩ := List.mem_map.mp hinstr
      exact ⟨rfl, rfl, rfl⟩
  | publish msg =>
      refine Plan.append (plan_all ?_) ((plan_work rfl).mpr ⟨[], ⟨rfl, rfl⟩, ?_⟩)
      · intro instr hinstr
        obtain ⟨i, -, rfl⟩ := List.mem_map.mp hinstr
        exact ⟨rfl, nofun, rfl⟩
      · exact (plan_lock rfl).mpr ⟨nofun, (plan_work rfl).mpr ⟨[], ⟨rfl, rfl⟩, rfl⟩⟩

abbrev Inv (s : System δ) : Prop := Locks.Inv machine Lock.rank spec Ordered s

theorem inv_newRouter : Inv (newRouter : System δ) := ⟨fun _ => Increasing.newShard, nofun, nofun⟩

theorem inv_step {s t : System δ} {a : Action δ} (h : Inv s)
    (hstep : step s a = some t) : Inv t := by
  have hlocks {b : Locks.Action (Instr δ)} (hstart :
      ∀ code, b = .start code → Planned s.memory [] code [])
      (hb : Locks.step machine s b = some t) : Inv t := Locks.inv_step disciplined h hstart hb
  cases a with
  | call call =>
      refine hlocks (b := .start (call.code s.threads.length)) ?_ hstep
      intro code hcode
      cases hcode
      exact planned_code h.memory _ call
  | announce c => exact hlocks (b := .announce c) nofun hstep
  | next c => exact hlocks (b := .next c) nofun hstep

theorem inv_run {actions : List (Action δ)} {s : System δ}
    (hrun : Transition.run step actions newRouter = some s) :
    Inv s :=
  Transition.preserved_run (fun _ _ _ h hstep => inv_step h hstep) inv_newRouter hrun

/-- The locks of the router, whatever calls are made and however their steps are interleaved. As
long as a call has not returned, some call can go on; no lock that is held for writing is held by
another call; and a call that has returned holds none. -/
theorem router_never_deadlocks (actions : List (Action δ)) (s : System δ)
    (hrun : Transition.run step actions newRouter = some s) :
    ((∃ t ∈ s.threads, t.code ≠ []) → ∃ c u, step s (.next c) = some u ∨
      step s (.announce c) = some u) ∧
      (∀ (c d : Nat) (t u : Thread (Instr δ) Lock) (l : Lock) (m : Mode), s.threads[c]? = some t →
        s.threads[d]? = some u → c ≠ d → (l, .write) ∈ t.held → (l, m) ∉ u.held) ∧
      ∀ t ∈ s.threads, t.code = [] → t.held = [] := by
  have hinv := inv_run hrun
  refine ⟨hinv.exists_next, hinv.exclusive, ?_⟩
  intro t ht hcode
  have hplan := hinv.planned t ht
  rw [hcode] at hplan
  exact hplan

/-- A match has the root of a shard, a subscribe waits for it to leave, and another match waits
for the subscribe. -/
theorem router_never_deadlocks_queued :
    let msg : Message := ⟨str "ds", [], 0⟩
    let actions : List (Action Unit) := [.call (.publish msg), .next 0, .next 0,
      .call (.subscribe (str "ds") ⟨str "c", 0, none⟩), .next 1, .announce 1,
        .call (.publish msg), .next 2]
    ∃ s, Transition.run step actions newRouter = some s ∧ (step s (.next 1)).isNone ∧
      (step s (.next 2)).isNone ∧
      ∃ c u, step s (.next c) = some u ∨ step s (.announce c) = some u := by
  intro msg actions
  have hreach := Transition.reaches_of_any step actions newRouter
    (fun s => (step s (.next 1)).isNone ∧ (step s (.next 2)).isNone ∧
      ∃ t ∈ s.threads, t.code.isEmpty = false)
    (by decide +kernel)
  cases hreach with
  | intro s hs =>
      refine ⟨s, hs.1, hs.2.1, hs.2.2.1, (router_never_deadlocks actions s hs.1).1 ?_⟩
      obtain ⟨t, ht, hcode⟩ := hs.2.2.2
      refine ⟨t, ht, fun hnil => ?_⟩
      rw [hnil] at hcode
      cases hcode

end LumaBroker.Router.Locking
