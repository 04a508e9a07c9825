import LumaBroker.Broker.Fanout
import LumaBroker.Broker.Wire
import LumaBroker.Cluster.Reconcile
import LumaBroker.Lib.Feed

/-!
The brokers of a cluster as subscribers of the two Redis channels: SubscribeCluster,
SubscribeAPIPublish and PublishAPI of internal/storage/storage.go with clusterLoop and
apiPublishLoop of internal/broker/server.go. Ownership changes at any time, brokers join at
any time, Redis may lose a message for a subscriber, and a full Go channel drops one. Messages
are numbered as they are accepted and as they are published by the API.
-/

namespace LumaBroker.Broker.ClusterFeed

open Api Cluster Fanout Transition

/-- What json.Unmarshal makes of a message that json.Marshal has written. A topic that is no
valid UTF-8 comes back changed; the ID of a broker does not. -/
structure Codec where
  cluster : ClusterMsg → Option ClusterMsg
  api : APIPublishMsg → Option APIPublishMsg
  sourceBroker : ∀ m m', cluster m = some m' → m'.sourceBroker = m.sourceBroker

namespace Codec
variable (codec : Codec)

def readCluster : Nat × ClusterMsg → Option (Nat × ClusterMsg) := Feed.readNumbered codec.cluster

def readApi : Nat × APIPublishMsg → Option (Nat × APIPublishMsg) := Feed.readNumbered codec.api

end Codec

/-- Where a call of Router.Publish comes from, with the number of the message. -/
inductive Origin where
  | handler (k : Nat)
  | cluster (k : Nat)
  | api (k : Nat)
  deriving DecidableEq

abbrev Call := Origin × PublishCall

def handlerCall : Call → Option (Nat × PublishCall)
  | (.handler k, call) => some (k, call)
  | _ => none

def clusterCall : Call → Option (Nat × PublishCall)
  | (.cluster k, call) => some (k, call)
  | _ => none

def apiCall : Call → Option (Nat × PublishCall)
  | (.api k, call) => some (k, call)
  | _ => none

/-- A broker: its environment, the goroutines that have still to publish on the channel, its
two subscriptions, and the router calls it has made. -/
structure Node where
  env : PublishEnv
  pending : List (Nat × ClusterMsg)
  cluster : Feed (Nat × ClusterMsg)
  api : Feed (Nat × APIPublishMsg)
  calls : List Call

/-- What has been published on the two channels, and which messages handlers have accepted. -/
structure Log where
  channel : List (Nat × ClusterMsg)
  apiChannel : List (Nat × APIPublishMsg)
  accepted : List ClusterMsg

structure State where
  nodes : GoString → Option Node
  log : Log

inductive FeedStep where
  | deliver
  | lose
  | take
  | route

inductive Action where
  | join (broker : GoString) (env : PublishEnv)
  | reconcile (broker : GoString) (alive : Option (List GoString))
  | accept (broker : GoString) (now : Nat) (pkt : PublishPacket) (c : Conn) (sess : Session)
  | send (broker : GoString) (i : Nat)
  | publishAPI (msg : APIPublishMsg)
  | cluster (broker : GoString) (step : FeedStep)
  | api (broker : GoString) (step : FeedStep)

section Steps
variable (codec : Codec) (l : Log) (n : Node)

/-- The subscriptions have buffers of 512 and 256 messages. -/
def newNode (env : PublishEnv) : Node where
  env := env
  pending := []
  cluster := Feed.subscribe 512 l.channel.length
  api := Feed.subscribe 256 l.apiChannel.length
  calls := []

def accepts (h : Handled) : Node :=
  { n with
    pending := n.pending ++ h.fanout.map fun m => (l.accepted.length, m)
    calls := n.calls ++ h.calls.map fun call => (.handler l.accepted.length, call) }

def clusterStep : FeedStep → Option Node
  | .deliver => (n.cluster.deliver codec.readCluster l.channel).map fun f => { n with cluster := f }
  | .lose => (n.cluster.lose l.channel).map fun f => { n with cluster := f }
  | .take => n.cluster.take.map fun f => { n with cluster := f }
  | .route => n.cluster.hand.map fun e =>
      { n with
        cluster := n.cluster.finish e
        calls := n.calls ++ (clusterLoop n.env e.2).map fun call => (.cluster e.1, call) }

def apiStep : FeedStep → Option Node
  | .deliver => (n.api.deliver codec.readApi l.apiChannel).map fun f => { n with api := f }
  | .lose => (n.api.lose l.apiChannel).map fun f => { n with api := f }
  | .take => n.api.take.map fun f => { n with api := f }
  | .route => n.api.hand.map fun e =>
      { n with
        api := n.api.finish e
        calls := n.calls ++ [(.api e.1, apiPublishCall e.2)] }

def reconcile (alive : Option (List GoString)) : Node :=
  { n with env := { n.env with partitions := n.env.partitions.reconcilePartitions alive } }

end Steps

namespace State

def setNode (b : GoString) (n : Node) (s : State) : State :=
  { s with nodes := Function.update s.nodes b (some n) }

def accept (ms : List ClusterMsg) (s : State) : State :=
  { s with log := { s.log with accepted := s.log.accepted ++ ms } }

def publish (e : Nat × ClusterMsg) (s : State) : State :=
  { s with log := { s.log with channel := s.log.channel ++ [e] } }

def publishAPI (msg : APIPublishMsg) (s : State) : State :=
  { s with
    log := { s.log with apiChannel := s.log.apiChannel ++ [(s.log.apiChannel.length, msg)] } }

end State

def step (codec : Codec) (s : State) : Action → Option State
  | .join b env =>
      if (s.nodes b).isNone ∧ env.brokerID = b ∧ env.clusterEnabled = true then
        some (s.setNode b (newNode s.log env))
      else none
  | .reconcile b alive => (s.nodes b).map fun n => s.setNode b (reconcile n alive)
  | .accept b now pkt c sess =>
      (s.nodes b).bind fun n => (handlePublish n.env now pkt c sess).map fun h =>
        (s.accept h.fanout).setNode b (accepts s.log n h)
  | .send b i =>
      (s.nodes b).bind fun n => n.pending[i]?.map fun e =>
        (s.publish e).setNode b { n with pending := n.pending.eraseIdx i }
  | .publishAPI msg => some (s.publishAPI msg)
  | .cluster b f =>
      (s.nodes b).bind fun n => (clusterStep codec s.log n f).map fun n => s.setNode b n
  | .api b f => (s.nodes b).bind fun n => (apiStep codec s.log n f).map fun n => s.setNode b n

def start : State := ⟨fun _ => none, ⟨[], [], []⟩⟩

/-- The calls a broker owes its own clients: one for each message below QoS 2 that it has
accepted, in the order in which it did. A message of QoS 2 is routed by its PUBREL. -/
def owed (b : GoString) (accepted : List ClusterMsg) : List (Nat × PublishCall) :=
  (accepted.zipIdx.filter fun e => e.1.sourceBroker = b ∧ e.1.qos < 2).map fun e =>
    (e.2, callOf e.1)

/-- The calls for which clusterLoop was asked by other brokers. -/
def foreign (b : GoString) (handled : List (Nat × ClusterMsg)) : List (Nat × PublishCall) :=
  (handled.filter fun e => e.2.sourceBroker ≠ b).map fun e => (e.1, callOf e.2)

/-- What is known of one broker. -/
structure NodeInv (codec : Codec) (l : Log) (b : GoString) (n : Node) : Prop where
  brokerID : n.env.brokerID = b
  enabled : n.env.clusterEnabled = true
  pendingNodup : (n.pending.map Prod.fst).Nodup
  pendingOwn : ∀ e ∈ n.pending, l.accepted[e.1]? = some e.2 ∧ e.2.sourceBroker = b ∧
    e.1 ∉ l.channel.map Prod.fst
  cluster : Feed.Follows codec.readCluster l.channel n.cluster
  api : Feed.Follows codec.readApi l.apiChannel n.api
  handlerCalls : n.calls.filterMap handlerCall = owed b l.accepted
  clusterCalls : (n.calls.filterMap clusterCall).Sublist (foreign b n.cluster.handled)
  apiCalls : n.calls.filterMap apiCall = n.api.handled.map fun e => (e.1, apiPublishCall e.2)

structure LogInv (l : Log) : Prop where
  channelNodup : (l.channel.map Prod.fst).Nodup
  channelAccepted : ∀ e ∈ l.channel, l.accepted[e.1]? = some e.2
  apiNumbers : l.apiChannel.map Prod.fst = List.range l.apiChannel.length

structure Inv (codec : Codec) (s : State) : Prop where
  log : LogInv s.log
  sources : ∀ m ∈ s.log.accepted, (s.nodes m.sourceBroker).isSome
  node : ∀ b n, s.nodes b = some n → NodeInv codec s.log b n

variable {codec : Codec} {l : Log} {b : GoString} {n n' : Node} {s t : State}

theorem inv_start : Inv codec start where
  log := ⟨List.nodup_nil, nofun, rfl⟩
  sources := nofun
  node := nofun

theorem owed_append (m : ClusterMsg) (accepted : List ClusterMsg) :
    owed b (accepted ++ [m]) = owed b accepted ++
      if m.sourceBroker = b ∧ m.qos < 2 then [(accepted.length, callOf m)] else [] := by
  simp only [owed, List.zipIdx_append, List.filter_append, List.map_append]
  split_ifs with h <;> simp [h]

theorem owed_of_forall_ne {accepted : List ClusterMsg} (h : ∀ m ∈ accepted, m.sourceBroker ≠ b) :
    owed b accepted = [] := by
  rw [owed, List.map_eq_nil_iff, List.filter_eq_nil_iff]
  intro e he
  simp [h e.1 (List.fst_mem_of_mem_zipIdx he)]

theorem qos_lt_two (q : UInt8) : q < 2 ↔ q = 0 ∨ q = 1 := by
  rw [UInt8.lt_iff_toNat_lt, ← UInt8.toNat_inj, ← UInt8.toNat_inj]
  exact Nat.lt_succ_iff.trans Nat.le_one_iff_eq_zero_or_eq_one

/-- An accepted PUBLISH goes out to the cluster whatever its QoS. -/
theorem handlePublish_emits {env : PublishEnv} {now : Nat} {pkt : PublishPacket} {c : Conn}
    {sess : Session} {h : Handled} (henabled : env.clusterEnabled = true)
    (hh : handlePublish env now pkt c sess = some h) :
    (h.calls = [] ∧ h.fanout = []) ∨
      ∃ m, h.fanout = [m] ∧ m.sourceBroker = env.brokerID ∧ h.calls = if m.qos < 2 then [callOf m]
        else [] := by
  cases handlePublish_cases hh with
  | inl hnone => exact .inl ⟨hnone.1, hnone.2.1⟩
  | inr hacc =>
      obtain ⟨topic, c', -, rfl⟩ := hacc
      refine .inr ⟨clusterMsg env topic pkt, ?_⟩
      have hqos : (clusterMsg env topic pkt).qos = pkt.qos := rfl
      simp only [hqos, qos_lt_two, acceptPublish, henabled, if_true]
      split_ifs <;> simp_all [clusterMsg, callOf]

theorem filterMap_append_calls (f : Call → Option (Nat × PublishCall)) (o : Origin)
    (calls : List Call) (new : List PublishCall) :
      (calls ++ new.map fun call => (o, call)).filterMap f =
      calls.filterMap f ++ new.filterMap fun call => f (o, call) := by
  rw [List.filterMap_append, List.filterMap_map]
  rfl

namespace NodeInv

theorem newNode {env : PublishEnv} (hid : env.brokerID = b) (henabled : env.clusterEnabled = true)
    (howed : ∀ m ∈ l.accepted, m.sourceBroker ≠ b) : NodeInv codec l b (newNode l env) where
  brokerID := hid
  enabled := henabled
  pendingNodup := List.nodup_nil
  pendingOwn := nofun
  cluster := Feed.follows_subscribe 512 (Nat.le_refl _)
  api := Feed.follows_subscribe 256 (Nat.le_refl _)
  handlerCalls := (owed_of_forall_ne howed).symm
  clusterCalls := List.Sublist.refl []
  apiCalls := rfl

variable (h : NodeInv codec l b n)
include h

theorem reconcile (alive : Option (List GoString)) : NodeInv codec l b (reconcile n alive) :=
  ⟨h.brokerID, h.enabled, h.pendingNodup, h.pendingOwn, h.cluster, h.api, h.handlerCalls,
    h.clusterCalls, h.apiCalls⟩

theorem publishAPI (e : Nat × APIPublishMsg) :
    NodeInv codec { l with apiChannel := l.apiChannel ++ [e] } b n :=
  ⟨h.brokerID, h.enabled, h.pendingNodup, h.pendingOwn, h.cluster, h.api.append [e], h.handlerCalls,
    h.clusterCalls, h.apiCalls⟩

/-- Another broker accepts a message. -/
theorem other_accept {m : ClusterMsg} (hm : m.sourceBroker ≠ b) :
    NodeInv codec { l with accepted := l.accepted ++ [m] } b n where
  brokerID := h.brokerID
  enabled := h.enabled
  pendingNodup := h.pendingNodup
  pendingOwn e he := by
    obtain ⟨hget, hown, hchannel⟩ := h.pendingOwn e he
    refine ⟨?_, hown, hchannel⟩
    rw [List.getElem?_append_left (List.getElem?_eq_some_iff.mp hget).1]
    exact hget
  cluster := h.cluster
  api := h.api
  handlerCalls := by simp [owed_append, hm, h.handlerCalls]
  clusterCalls := h.clusterCalls
  apiCalls := h.apiCalls

theorem publish {e : Nat × ClusterMsg} (he : ∀ e' ∈ n.pending, e'.1 ≠ e.1) :
    NodeInv codec { l with channel := l.channel ++ [e] } b n where
  brokerID := h.brokerID
  enabled := h.enabled
  pendingNodup := h.pendingNodup
  pendingOwn e' he' := by
    obtain ⟨hget, hown, hchannel⟩ := h.pendingOwn e' he'
    refine ⟨hget, hown, ?_⟩
    simp only [List.map_append, List.map_cons, List.map_nil, List.mem_append,
      List.mem_singleton, not_or]
    exact ⟨hchannel, he e' he'⟩
  cluster := h.cluster.append [e]
  api := h.api
  handlerCalls := h.handlerCalls
  clusterCalls := h.clusterCalls
  apiCalls := h.apiCalls

theorem pending_lt {e : Nat × ClusterMsg} (he : e ∈ n.pending) : e.1 < l.accepted.length :=
  (List.getElem?_eq_some_iff.mp (h.pendingOwn e he).1).1

theorem accepts_none (r : Handled) (hcalls : r.calls = []) (hfanout : r.fanout = []) :
    NodeInv codec l b (accepts l n r) := by
  simpa [accepts, hcalls, hfanout] using h

theorem accepts {m : ClusterMsg} (hl : LogInv l) (hm : m.sourceBroker = b) (r : Handled)
    (hfanout : r.fanout = [m]) (hcalls : r.calls = if m.qos < 2 then [callOf m] else []) :
    NodeInv codec { l with accepted := l.accepted ++ [m] } b (accepts l n r) where
  brokerID := h.brokerID
  enabled := h.enabled
  pendingNodup := by
    have hlt : ∀ e ∈ n.pending, e.1 ≠ l.accepted.length :=
      fun e he => Nat.ne_of_lt (h.pending_lt he)
    simp only [ClusterFeed.accepts, hfanout, List.map_append, List.map_cons, List.map_nil]
    refine h.pendingNodup.append (List.nodup_singleton _) ?_
    intro k hk hk'
    obtain ⟨e, he, rfl⟩ := List.mem_map.mp hk
    exact hlt e he (List.mem_singleton.mp hk')
  pendingOwn e he := by
    simp only [ClusterFeed.accepts, hfanout, List.map_cons, List.map_nil, List.mem_append,
      List.mem_singleton] at he
    cases he with
    | inl hold =>
        obtain ⟨hget, hown, hchannel⟩ := h.pendingOwn e hold
        refine ⟨?_, hown, hchannel⟩
        rw [List.getElem?_append_left (h.pending_lt hold)]
        exact hget
    | inr hnew =>
        subst hnew
        refine ⟨List.getElem?_concat_length, hm, ?_⟩
        intro hmem
        obtain ⟨e, he, hlen⟩ := List.mem_map.mp hmem
        have := (List.getElem?_eq_some_iff.mp (hl.channelAccepted e he)).1
        omega
  cluster := h.cluster
  api := h.api
  handlerCalls := by
    rw [ClusterFeed.accepts, filterMap_append_calls, h.handlerCalls, owed_append, hcalls]
    split_ifs <;> simp_all [handlerCall]
  clusterCalls := by
    rw [ClusterFeed.accepts, filterMap_append_calls]
    simpa [clusterCall] using h.clusterCalls
  apiCalls := by
    rw [ClusterFeed.accepts, filterMap_append_calls]
    simpa [apiCall] using h.apiCalls

/-- The goroutine of a message publishes it. -/
theorem send {i : Nat} {e : Nat × ClusterMsg} (he : n.pending[i]? = some e) :
    NodeInv codec { l with channel := l.channel ++ [e] }
      b { n with pending := n.pending.eraseIdx i } := by
  have hrest : NodeInv codec l b { n with pending := n.pending.eraseIdx i } :=
    { h with
      pendingNodup := h.pendingNodup.sublist ((List.eraseIdx_sublist _ _).map _)
      pendingOwn := fun e he => h.pendingOwn e (List.mem_of_mem_eraseIdx he) }
  refine hrest.publish ?_
  intro e' he' heq
  have hmem : e.1 ∈ (n.pending.eraseIdx i).map Prod.fst := List.mem_map.mpr ⟨e', he', heq⟩
  exact fst_notMem_eraseIdx h.pendingNodup he hmem

theorem set_cluster {f : Feed (Nat × ClusterMsg)} (hf : f.Follows codec.readCluster l.channel)
    (hhandled : f.handled = n.cluster.handled) : NodeInv codec l b { n with cluster := f } :=
  { h with
    cluster := hf
    clusterCalls := hhandled ▸ h.clusterCalls }

theorem set_api {f : Feed (Nat × APIPublishMsg)} (hf : f.Follows codec.readApi l.apiChannel)
    (hhandled : f.handled = n.api.handled) : NodeInv codec l b { n with api := f } :=
  { h with
    api := hf
    apiCalls := hhandled ▸ h.apiCalls }

/-- The loop passes on what is not the broker's own, or nothing. -/
theorem clusterLoop_sublist (k : Nat) (m : ClusterMsg) :
    ((clusterLoop n.env m).map fun call => (k, call)).Sublist (foreign b [(k, m)]) := by
  rw [clusterLoop, h.brokerID]
  split_ifs with hsource howner
  · exact List.nil_sublist _
  · simp [foreign, hsource, callOf]
  · exact List.nil_sublist _

theorem clusterRoute {e : Nat × ClusterMsg} (he : n.cluster.hand = some e) :
    NodeInv codec l b
      { n with
        cluster := n.cluster.finish e
        calls := n.calls ++ (clusterLoop n.env e.2).map fun call => (.cluster e.1, call) } :=
  { h with
    cluster := h.cluster.finish he
    handlerCalls := by
      rw [filterMap_append_calls, h.handlerCalls]
      simp [handlerCall]
    clusterCalls := by
      have hforeign : foreign b (n.cluster.handled ++ [e]) =
          foreign b n.cluster.handled ++ foreign b [e] := by
        simp [foreign]
      rw [filterMap_append_calls]
      simp only [Feed.finish, hforeign]
      refine h.clusterCalls.append ?_
      simpa [clusterCall] using h.clusterLoop_sublist e.1 e.2
    apiCalls := by
      rw [filterMap_append_calls, h.apiCalls]
      simp [apiCall] }

theorem apiRoute {e : Nat × APIPublishMsg} (he : n.api.hand = some e) :
    NodeInv codec l b
      { n with
        api := n.api.finish e
        calls := n.calls ++ [(.api e.1, apiPublishCall e.2)] } :=
  { h with
    api := h.api.finish he
    handlerCalls := by
      rw [List.filterMap_append, h.handlerCalls]
      exact List.append_nil _
    clusterCalls := by
      rw [List.filterMap_append]
      exact (List.append_nil _).symm ▸ h.clusterCalls
    apiCalls := by
      rw [List.filterMap_append, h.apiCalls]
      simp [apiCall, Feed.finish] }

theorem clusterStep {f : FeedStep} (hn : clusterStep codec l n f = some n') :
    NodeInv codec l b n' := by
  cases f with
  | deliver =>
      obtain ⟨g, hg, rfl⟩ := Option.map_eq_some_iff.mp hn
      exact h.set_cluster (h.cluster.deliver hg) (Feed.handled_deliver hg)
  | lose =>
      obtain ⟨g, hg, rfl⟩ := Option.map_eq_some_iff.mp hn
      exact h.set_cluster (h.cluster.lose hg) (Feed.handled_lose hg)
  | take =>
      obtain ⟨g, hg, rfl⟩ := Option.map_eq_some_iff.mp hn
      exact h.set_cluster (h.cluster.take hg) (Feed.handled_take hg)
  | route =>
      obtain ⟨e, he, rfl⟩ := Option.map_eq_some_iff.mp hn
      exact h.clusterRoute he

theorem apiStep {f : FeedStep} (hn : apiStep codec l n f = some n') : NodeInv codec l b n' := by
  cases f with
  | deliver =>
      obtain ⟨g, hg, rfl⟩ := Option.map_eq_some_iff.mp hn
      exact h.set_api (h.api.deliver hg) (Feed.handled_deliver hg)
  | lose =>
      obtain ⟨g, hg, rfl⟩ := Option.map_eq_some_iff.mp hn
      exact h.set_api (h.api.lose hg) (Feed.handled_lose hg)
  | take =>
      obtain ⟨g, hg, rfl⟩ := Option.map_eq_some_iff.mp hn
      exact h.set_api (h.api.take hg) (Feed.handled_take hg)
  | route =>
      obtain ⟨e, he, rfl⟩ := Option.map_eq_some_iff.mp hn
      exact h.apiRoute he

end NodeInv

namespace LogInv
variable (h : LogInv l)
include h

theorem accept (ms : List ClusterMsg) : LogInv { l with accepted := l.accepted ++ ms } where
  channelNodup := h.channelNodup
  channelAccepted e he := by
    have hget := h.channelAccepted e he
    rw [List.getElem?_append_left (List.getElem?_eq_some_iff.mp hget).1]
    exact hget
  apiNumbers := h.apiNumbers

theorem publish {e : Nat × ClusterMsg} (hget : l.accepted[e.1]? = some e.2)
    (hnew : e.1 ∉ l.channel.map Prod.fst) : LogInv { l with channel := l.channel ++ [e] } where
  channelNodup := by
    rw [List.map_append]
    refine h.channelNodup.append (List.nodup_singleton _) ?_
    intro k hk hk'
    exact hnew (List.mem_singleton.mp hk' ▸ hk)
  channelAccepted e' he' := by
    cases List.mem_append.mp he' with
    | inl hold => exact h.channelAccepted e' hold
    | inr hlast =>
        cases List.mem_singleton.mp hlast
        exact hget
  apiNumbers := h.apiNumbers

theorem publishAPI (msg : APIPublishMsg) :
    LogInv { l with apiChannel := l.apiChannel ++ [(l.apiChannel.length, msg)] } where
  channelNodup := h.channelNodup
  channelAccepted := h.channelAccepted
  apiNumbers := by simp [h.apiNumbers, List.range_succ]

end LogInv

/-- A step that replaces one broker: the others are looked at with the new log. -/
theorem Inv.setNode (hlog : LogInv t.log) (hself : NodeInv codec t.log b n)
    (hsources : ∀ m ∈ t.log.accepted, m.sourceBroker = b ∨ (t.nodes m.sourceBroker).isSome)
    (hother : ∀ b' n', b' ≠ b → t.nodes b' = some n' → NodeInv codec t.log b' n') :
    Inv codec (t.setNode b n) where
  log := hlog
  sources m hm := by
    by_cases hmb : m.sourceBroker = b
    · simp [State.setNode, hmb]
    · simpa [State.setNode, hmb] using (hsources m hm).resolve_left hmb
  node b' n' hn' := by
    by_cases hbb : b' = b
    · subst hbb
      simp only [State.setNode, Function.update_self, Option.some.injEq] at hn'
      exact hn' ▸ hself
    · simp only [State.setNode, Function.update_of_ne hbb] at hn'
      exact hother b' n' hbb hn'

/-- A step of one broker that leaves the log alone. -/
theorem Inv.update (h : Inv codec s) (hself : NodeInv codec s.log b n) :
    Inv codec (s.setNode b n) :=
  Inv.setNode h.log hself (fun m hm => .inr (h.sources m hm)) fun b' n' _ hn' => h.node b' n' hn'

theorem Inv.accept (h : Inv codec s) (hn : s.nodes b = some n) {now : Nat}
    {pkt : PublishPacket} {c : Conn} {sess : Session} {r : Handled}
    (hr : handlePublish n.env now pkt c sess = some r) :
    Inv codec ((s.accept r.fanout).setNode b (accepts s.log n r)) := by
  have hself := h.node b n hn
  cases handlePublish_emits hself.enabled hr with
  | inl hnone =>
      have hsame : s.accept r.fanout = s := by simp [State.accept, hnone.2]
      rw [hsame]
      exact h.update (hself.accepts_none r hnone.1 hnone.2)
  | inr hsome =>
      obtain ⟨m, hfanout, hsource, hcalls⟩ := hsome
      rw [hself.brokerID] at hsource
      rw [hfanout]
      refine Inv.setNode (h.log.accept [m]) (hself.accepts h.log hsource r hfanout hcalls) ?_ ?_
      · intro m' hm'
        cases List.mem_append.mp hm' with
        | inl hold => exact .inr (h.sources m' hold)
        | inr hlast => exact .inl (List.mem_singleton.mp hlast ▸ hsource)
      · intro b' n' hbb hn'
        exact (h.node b' n' hn').other_accept (fun heq => hbb (heq.symm.trans hsource))

theorem Inv.send (h : Inv codec s) (hn : s.nodes b = some n) {i : Nat} {e : Nat × ClusterMsg}
    (he : n.pending[i]? = some e) :
    Inv codec ((s.publish e).setNode b { n with pending := n.pending.eraseIdx i }) := by
  have hself := h.node b n hn
  obtain ⟨hget, hown, hnew⟩ := hself.pendingOwn e (List.mem_of_getElem? he)
  refine Inv.setNode (h.log.publish hget hnew) (hself.send he)
    (fun m hm => .inr (h.sources m hm)) ?_
  intro b' n' hbb hn'
  refine (h.node b' n' hn').publish fun e' he' heq => ?_
  -- the numbers of two brokers' messages differ, since the log has one source for each
  obtain ⟨hget', hown', _⟩ := (h.node b' n' hn').pendingOwn e' he'
  rw [heq, hget, Option.some.injEq] at hget'
  exact hbb (hown'.symm.trans (hget' ▸ hown))

theorem inv_step (h : Inv codec s) (a : Action) (hstep : step codec s a = some t) :
    Inv codec t := by
  cases a with
  | join b env =>
      simp only [step] at hstep
      split_ifs at hstep with hjoin
      cases hstep
      refine h.update (NodeInv.newNode hjoin.2.1 hjoin.2.2 ?_)
      intro m hm heq
      have hsome := h.sources m hm
      rw [heq, Option.isSome_iff_ne_none] at hsome
      exact hsome (Option.isNone_iff_eq_none.mp hjoin.1)
  | reconcile b alive =>
      obtain ⟨n, hn, rfl⟩ := Option.map_eq_some_iff.mp hstep
      exact h.update ((h.node b n hn).reconcile alive)
  | accept b now pkt c sess =>
      obtain ⟨n, hn, hstep⟩ := Option.bind_eq_some_iff.mp hstep
      obtain ⟨r, hr, rfl⟩ := Option.map_eq_some_iff.mp hstep
      exact h.accept hn hr
  | send b i =>
      obtain ⟨n, hn, hstep⟩ := Option.bind_eq_some_iff.mp hstep
      obtain ⟨e, he, rfl⟩ := Option.map_eq_some_iff.mp hstep
      exact h.send hn he
  | publishAPI msg =>
      cases hstep
      exact ⟨h.log.publishAPI msg, h.sources, fun b n hn => (h.node b n hn).publishAPI _⟩
  | cluster b f =>
      obtain ⟨n, hn, hstep⟩ := Option.bind_eq_some_iff.mp hstep
      obtain ⟨n', hn', rfl⟩ := Option.map_eq_some_iff.mp hstep
      exact h.update ((h.node b n hn).clusterStep hn')
  | api b f =>
      obtain ⟨n, hn, hstep⟩ := Option.bind_eq_some_iff.mp hstep
      obtain ⟨n', hn', rfl⟩ := Option.map_eq_some_iff.mp hstep
      exact h.update ((h.node b n hn).apiStep hn')

theorem inv_run {as : List Action} (hrun : run (step codec) as start = some t) : Inv codec t :=
  preserved_run (fun _ a _ h hstep => inv_step h a hstep) inv_start hrun

/-- The router calls for message number k, from a handler or from the channel. -/
def routed (k : Nat) (calls : List Call) : List PublishCall :=
  calls.filterMap fun c =>
    match c.1 with
    | .handler j | .cluster j => if j = k then some c.2 else none
    | .api _ => none

def pick (k : Nat) (calls : List (Nat × PublishCall)) : List PublishCall :=
  calls.filterMap fun e => if e.1 = k then some e.2 else none

theorem pick_eq_nil {k : Nat} {calls : List (Nat × PublishCall)} (h : k ∉ calls.map Prod.fst) :
    pick k calls = [] := by
  rw [pick, List.filterMap_eq_nil_iff]
  intro e he
  have hne : e.1 ≠ k := fun heq => h (heq ▸ List.mem_map_of_mem he)
  simp [hne]

theorem pick_eq_singleton {k : Nat} {call : PublishCall} {calls : List (Nat × PublishCall)}
    (hnodup : (calls.map Prod.fst).Nodup) (hmem : (k, call) ∈ calls) : pick k calls = [call] := by
  induction calls with
  | nil => cases hmem
  | cons e calls ih =>
      obtain ⟨hhead, htail⟩ := List.nodup_cons.mp hnodup
      cases List.mem_cons.mp hmem with
      | inl heq =>
          cases heq
          have hrest := pick_eq_nil hhead
          rw [pick] at hrest ⊢
          simp [hrest]
      | inr hrest =>
          have hne : e.1 ≠ k := fun heq => hhead (heq ▸ List.mem_map_of_mem hrest)
          have hih := ih htail hrest
          rw [pick] at hih ⊢
          simp [hne, hih]

theorem routed_eq_handler {k : Nat} {calls : List Call}
    (h : k ∉ (calls.filterMap clusterCall).map Prod.fst) :
    routed k calls = pick k (calls.filterMap handlerCall) := by
  rw [routed, pick, List.filterMap_filterMap]
  refine List.filterMap_congr fun c hc => ?_
  obtain ⟨origin, call⟩ := c
  cases origin with
  | handler j => rfl
  | cluster j =>
      have hmem : j ∈ (calls.filterMap clusterCall).map Prod.fst :=
        List.mem_map.mpr ⟨(j, call), List.mem_filterMap.mpr ⟨_, hc, rfl⟩, rfl⟩
      have hne : j ≠ k := fun heq => h (heq ▸ hmem)
      simp [handlerCall, hne]
  | api j => rfl

theorem routed_eq_cluster {k : Nat} {calls : List Call}
    (h : k ∉ (calls.filterMap handlerCall).map Prod.fst) :
    routed k calls = pick k (calls.filterMap clusterCall) := by
  rw [routed, pick, List.filterMap_filterMap]
  refine List.filterMap_congr fun c hc => ?_
  obtain ⟨origin, call⟩ := c
  cases origin with
  | handler j =>
      have hmem : j ∈ (calls.filterMap handlerCall).map Prod.fst :=
        List.mem_map.mpr ⟨(j, call), List.mem_filterMap.mpr ⟨_, hc, rfl⟩, rfl⟩
      have hne : j ≠ k := fun heq => h (heq ▸ hmem)
      simp [clusterCall, hne]
  | cluster j => rfl
  | api j => rfl

theorem mem_owed {accepted : List ClusterMsg} {k : Nat} {call : PublishCall} :
    (k, call) ∈ owed b accepted ↔
      ∃ m, accepted[k]? = some m ∧ m.sourceBroker = b ∧ m.qos < 2 ∧ callOf m = call := by
  simp only [owed, List.mem_map, List.mem_filter, Prod.exists, List.mem_zipIdx_iff_getElem?,
    decide_eq_true_iff, Prod.mk.injEq]
  constructor
  · rintro ⟨m, j, ⟨hget, hsource, hqos⟩, rfl, hcall⟩
    exact ⟨m, hget, hsource, hqos, hcall⟩
  · rintro ⟨m, hget, hsource, hqos, hcall⟩
    exact ⟨m, k, ⟨hget, hsource, hqos⟩, rfl, hcall⟩

theorem owed_nodup (accepted : List ClusterMsg) : ((owed b accepted).map Prod.fst).Nodup := by
  have hsub : ((owed b accepted).map Prod.fst).Sublist (accepted.zipIdx.map Prod.snd) := by
    rw [owed, List.map_map]
    exact List.filter_sublist.map _
  rw [List.zipIdx_map_snd] at hsub
  exact (List.nodup_range' ..).sublist hsub

namespace NodeInv
variable (h : NodeInv codec l b n)
include h

/-- A broker routes what comes from the others in the order of the channel. -/
theorem clusterCalls_sublist :
    ((n.calls.filterMap clusterCall).map Prod.fst).Sublist (l.channel.map Prod.fst) := by
  have hforeign : ((foreign b n.cluster.handled).map Prod.fst).Sublist
      (n.cluster.handled.map Prod.fst) := by
    rw [foreign, List.map_map]
    exact List.filter_sublist.map _
  have hread := Feed.readNumbered_sublist codec.cluster (l.channel.drop n.cluster.since)
  have hdrop := (List.drop_sublist n.cluster.since l.channel).map Prod.fst
  exact (h.clusterCalls.map _).trans (hforeign.trans
    ((h.cluster.handled_sublist.map _).trans (hread.trans hdrop)))

/-- What it routes for them is what JSON has made of a message that another has accepted. -/
theorem clusterCall_source (hl : LogInv l) {k : Nat} {call : PublishCall}
    (hcall : (k, call) ∈ n.calls.filterMap clusterCall) :
    ∃ m m', l.accepted[k]? = some m ∧ m.sourceBroker ≠ b ∧ codec.cluster m = some m' ∧
      callOf m' = call := by
  have hforeign := h.clusterCalls.subset hcall
  simp only [foreign, List.mem_map, List.mem_filter, Prod.exists, Prod.mk.injEq, decide_eq_true_iff]
    at hforeign
  obtain ⟨j, m', ⟨hhandled, hsource⟩, rfl, rfl⟩ := hforeign
  obtain ⟨e, he, hread⟩ := List.mem_filterMap.mp (h.cluster.handled_sublist.subset hhandled)
  obtain ⟨m, hm, heq⟩ := Option.map_eq_some_iff.mp hread
  cases heq
  have hchannel : e ∈ l.channel := List.mem_of_mem_drop he
  refine ⟨e.2, m', hl.channelAccepted e hchannel, ?_, hm, rfl⟩
  rw [← codec.sourceBroker e.2 m' hm]
  exact hsource

/-- On the broker that accepted it a message is routed by its handler alone. -/
theorem routed_own (hl : LogInv l) {k : Nat} {m : ClusterMsg} (hm : l.accepted[k]? = some m)
    (hsource : m.sourceBroker = b) : routed k n.calls = if m.qos < 2 then [callOf m] else [] := by
  have hcluster : k ∉ (n.calls.filterMap clusterCall).map Prod.fst := by
    intro hmem
    obtain ⟨⟨j, call⟩, hcall, rfl⟩ := List.mem_map.mp hmem
    obtain ⟨m', _, hm', hforeign, _⟩ := h.clusterCall_source hl hcall
    exact hforeign (Option.some.inj (hm'.symm.trans hm) ▸ hsource)
  rw [routed_eq_handler hcluster, h.handlerCalls]
  split_ifs with hqos
  · exact pick_eq_singleton (owed_nodup _) (mem_owed.mpr ⟨m, hm, hsource, hqos, rfl⟩)
  · apply pick_eq_nil
    intro hmem
    obtain ⟨⟨j, call⟩, hcall, rfl⟩ := List.mem_map.mp hmem
    obtain ⟨m', hm', _, hqos', _⟩ := mem_owed.mp hcall
    exact hqos (Option.some.inj (hm'.symm.trans hm) ▸ hqos')

/-- On any other broker it is routed once at most. -/
theorem routed_other (hl : LogInv l) {k : Nat} {m : ClusterMsg} (hm : l.accepted[k]? = some m)
    (hsource : m.sourceBroker ≠ b) :
    routed k n.calls = [] ∨ ∃ m', codec.cluster m = some m' ∧ routed k n.calls = [callOf m'] := by
  have hhandler : k ∉ (n.calls.filterMap handlerCall).map Prod.fst := by
    intro hmem
    rw [h.handlerCalls] at hmem
    obtain ⟨⟨j, call⟩, hcall, rfl⟩ := List.mem_map.mp hmem
    obtain ⟨m', hm', hown, _⟩ := mem_owed.mp hcall
    exact hsource (Option.some.inj (hm'.symm.trans hm) ▸ hown)
  rw [routed_eq_cluster hhandler]
  by_cases hmem : k ∈ (n.calls.filterMap clusterCall).map Prod.fst
  · obtain ⟨⟨j, call⟩, hcall, rfl⟩ := List.mem_map.mp hmem
    obtain ⟨m₀, m', hm₀, _, hread, rfl⟩ := h.clusterCall_source hl hcall
    have hnodup := hl.channelNodup.sublist h.clusterCalls_sublist
    exact .inr ⟨m', Option.some.inj (hm₀.symm.trans hm) ▸ hread, pick_eq_singleton hnodup hcall⟩
  · exact .inl (pick_eq_nil hmem)

end NodeInv

/-- However the ownership of the partitions changes, whatever Redis loses and the channels
drop: a message below QoS 2 is routed exactly once on the broker that accepted it and at most
once on every other, and the others' messages are routed in the order of the channel. -/
theorem cluster_routes_at_most_once {as : List Action} (hrun : run (step codec) as start = some t)
    (hn : t.nodes b = some n) :
    (∀ k m, t.log.accepted[k]? = some m →
      (m.sourceBroker = b → routed k n.calls = if m.qos < 2 then [callOf m] else []) ∧
      (m.sourceBroker ≠ b → routed k n.calls = [] ∨
        ∃ m', codec.cluster m = some m' ∧ routed k n.calls = [callOf m'])) ∧
    ((n.calls.filterMap clusterCall).map Prod.fst).Sublist (t.log.channel.map Prod.fst) := by
  have hinv := inv_run hrun
  have hnode := hinv.node b n hn
  exact ⟨fun k m hm => ⟨hnode.routed_own hinv.log hm, hnode.routed_other hinv.log hm⟩,
    hnode.clusterCalls_sublist⟩

/-- JSON that leaves every message as it is. -/
def plainCodec : Codec := ⟨some, some, fun _ _ h => congrArg _ (Option.some.inj h).symm⟩

def joinThree : List Action :=
  ["b1", "b2", "b3"].map fun id => .join (str id) (brokerNode (str id)).env

/-- The second broker owns the only partition, and the third comes to take itself for its
owner while it has a reading in hand. -/
def twoOwners : List Action :=
  joinThree ++
    [.accept (str "b1") 0 sensorReading sensorConn (Session.new (str "c1") true 0),
      .send (str "b1") 0,
      .cluster (str "b3") .deliver, .cluster (str "b3") .take, .reconcile (str "b3") none,
      .cluster (str "b3") .route, .cluster (str "b2") .deliver, .cluster (str "b2") .take,
      .cluster (str "b2") .route, .cluster (str "b1") .deliver, .cluster (str "b1") .take,
      .cluster (str "b1") .route]

theorem cluster_routes_at_most_once_twoOwners :
    ∃ t n, run (step plainCodec) twoOwners start = some t ∧ t.nodes (str "b3") = some n ∧
      routed 0 n.calls = [⟨str "t", [1], 1, false⟩] ∧
      ((n.calls.filterMap clusterCall).map Prod.fst).Sublist (t.log.channel.map Prod.fst) := by
  obtain ⟨t, hrun, hcalls⟩ := reaches_of_any (step plainCodec) twoOwners start
    (fun t => (t.nodes (str "b3")).any fun n =>
      decide (routed 0 n.calls = [⟨str "t", [1], 1, false⟩]))
    (by decide +kernel)
  obtain ⟨n, hn, hrouted⟩ := exists_of_any _ hcalls
  exact ⟨t, n, hrun, hn, hrouted, (cluster_routes_at_most_once hrun hn).2⟩

/-- The calls that the messages of the API since a broker's subscription ask for. -/
def apiAsked (codec : Codec) (l : Log) (since : Nat) : List (Nat × PublishCall) :=
  ((l.apiChannel.drop since).filterMap codec.readApi).map fun e => (e.1, apiPublishCall e.2)

/-- A broker has read its subscription to the end. -/
def UpToDate (l : Log) (n : Node) : Prop :=
  n.api.cursor = l.apiChannel.length ∧ n.api.hand = none ∧ n.api.chan.buf = []

instance (l : Log) (n : Node) : Decidable (UpToDate l n) := inferInstanceAs (Decidable (_ ∧ _))

theorem apiAsked_nodup (hl : LogInv l) (since : Nat) :
    ((apiAsked codec l since).map Prod.fst).Nodup := by
  have hsub : ((apiAsked codec l since).map Prod.fst).Sublist (l.apiChannel.map Prod.fst) := by
    rw [apiAsked, List.map_map]
    exact (Feed.readNumbered_sublist codec.api _).trans ((List.drop_sublist _ _).map _)
  rw [hl.apiNumbers] at hsub
  exact List.nodup_range.sublist hsub

/-- The last broker joins after the first of two messages. -/
def lateJoin : List Action :=
  [.publishAPI ⟨str "a", str "1", 0, false, []⟩] ++ joinThree ++
    [.publishAPI ⟨str "b", str "2", 1, true, []⟩, .api (str "b3") .deliver, .api (str "b3") .take,
      .api (str "b3") .route, .api (str "b1") .lose]

end LumaBroker.Broker.ClusterFeed
