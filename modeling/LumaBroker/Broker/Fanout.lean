import LumaBroker.Broker.Publish
import LumaBroker.Lib.Transition

/-!
The cluster fan-out: handlePublish routes a message locally and launches a goroutine
that publishes it on the Redis channel, which every broker's clusterLoop of
internal/broker/server.go reads. Redis is taken to hand every message to every
subscribed broker once, unchanged and in the channel's order. Messages are numbered as
they are accepted, so that the Router.Publish calls of each broker can be told apart.
-/

namespace LumaBroker.Broker.Fanout

open Cluster Transition

/-- The body of clusterLoop: the router calls a received message leads to. -/
def clusterLoop (env : PublishEnv) (msg : ClusterMsg) : List PublishCall :=
  if msg.sourceBroker ≠ env.brokerID then
    if msg.ver ≥ 1 ∧ env.partitions.owner msg.partition ≠ env.brokerID then []
    else [⟨msg.topic, msg.payload, msg.qos, msg.retain⟩]
  else []

/-- A broker: its environment, the goroutines that have still to publish on the
channel, how much of the channel it has read, and the router calls it has made. -/
structure Node where
  env : PublishEnv
  pending : List (Nat × ClusterMsg)
  cursor : Nat
  published : List (Nat × PublishCall)

structure State where
  nodes : FinMap GoString Node
  channel : List (Nat × ClusterMsg)
  accepted : List ClusterMsg

inductive Action where
  | accept (broker : GoString) (now : Nat) (pkt : PublishPacket) (c : Conn) (sess : Session)
  | send (broker : GoString) (i : Nat)
  | receive (broker : GoString)

/-- A PUBLISH of QoS 0 or 1 on any connection of the broker. -/
def acceptAt (now : Nat) (pkt : PublishPacket) (c : Conn) (sess : Session) (broker : GoString)
    (n : Node) (s : State) : Option State :=
  if pkt.qos ≥ 2 then none
  else
    (handlePublish n.env now pkt c sess).map fun h =>
      { s with
        nodes := s.nodes.set broker { n with
          pending := n.pending ++ h.fanout.map fun m => (s.accepted.length, m)
          published := n.published ++ h.calls.map fun call => (s.accepted.length, call) }
        accepted := s.accepted ++ h.fanout }

def sendAt (i : Nat) (broker : GoString) (n : Node) (s : State) : Option State :=
  n.pending[i]?.map fun e =>
    { s with
      nodes := s.nodes.set broker { n with pending := n.pending.eraseIdx i }
      channel := s.channel ++ [e] }

def receiveAt (broker : GoString) (n : Node) (s : State) : Option State :=
  s.channel[n.cursor]?.map fun e =>
    { s with
      nodes := s.nodes.set broker { n with
        cursor := n.cursor + 1
        published := n.published ++ (clusterLoop n.env e.2).map fun call => (e.1, call) } }

def step (s : State) : Action → Option State
  | .accept broker now pkt c sess =>
      (s.nodes.get broker).bind fun n => acceptAt now pkt c sess broker n s
  | .send broker i => (s.nodes.get broker).bind fun n => sendAt i broker n s
  | .receive broker => (s.nodes.get broker).bind fun n => receiveAt broker n s

/-- A broker in cluster mode that knows the agreed owner of each partition. -/
structure Member (count : Nat) (own : Nat → GoString) (b : GoString) (env : PublishEnv) : Prop where
  identified : env.brokerID = b
  enabled : env.clusterEnabled = true
  counted : env.partitions.partitionCount = count
  agreed : ∀ p < count, env.partitions.owner p = own p

/-- A cluster before its first message, all of whose brokers agree on the owners. -/
structure Start (count : Nat) (own : Nat → GoString) (s : State) : Prop where
  positive : 0 < count
  bounded : count < 2 ^ 32
  member : ∀ b n, s.nodes.get b = some n → Member count own b n.env
  idle : ∀ b n, s.nodes.get b = some n → n.pending = [] ∧ n.cursor = 0 ∧ n.published = []
  channel : s.channel = []
  accepted : s.accepted = []

def callOf (m : ClusterMsg) : PublishCall := ⟨m.topic, m.payload, m.qos, m.retain⟩

/-- A broker that has read this much of the channel has received message number k. -/
def Received (s : State) (cursor k : Nat) : Prop := k ∈ (s.channel.take cursor).map Prod.fst

/-- Where message number k has been routed so far: on its source, and on the owner of
its partition once that has received it. -/
def Routed (own : Nat → GoString) (s : State) (b : GoString) (cursor k : Nat)
    (m : ClusterMsg) : Prop :=
  m.sourceBroker = b ∨ own m.partition = b ∧ Received s cursor k

instance (own : Nat → GoString) (s : State) (b : GoString) (cursor k : Nat)
    (m : ClusterMsg) : Decidable (Routed own s b cursor k m) :=
  inferInstanceAs (Decidable (_ ∨ _ ∧ _ ∈ _))

/-- What is known of one broker. -/
structure NodeInv (count : Nat) (own : Nat → GoString) (s : State) (b : GoString)
    (n : Node) : Prop where
  member : Member count own b n.env
  pendingNodup : (n.pending.map Prod.fst).Nodup
  pendingOwn : ∀ e ∈ n.pending, s.accepted[e.1]? = some e.2 ∧ e.2.sourceBroker = b ∧
    e.1 ∉ s.channel.map Prod.fst
  cursor : n.cursor ≤ s.channel.length
  numbered : ∀ e ∈ n.published, e.1 < s.accepted.length
  routed : ∀ k m, s.accepted[k]? = some m → n.published.filter (fun e => e.1 = k) =
    if Routed own s b n.cursor k m then [(k, callOf m)] else []

structure Inv (count : Nat) (own : Nat → GoString) (s : State) : Prop where
  positive : 0 < count
  bounded : count < 2 ^ 32
  formed : ∀ m ∈ s.accepted, m.ver = 1 ∧ m.partition < count
  channelNodup : (s.channel.map Prod.fst).Nodup
  channelAccepted : ∀ e ∈ s.channel, s.accepted[e.1]? = some e.2
  node : ∀ b n, s.nodes.get b = some n → NodeInv count own s b n

variable {count : Nat} {own : Nat → GoString}

theorem inv_start {s : State} (h : Start count own s) : Inv count own s where
  positive := h.positive
  bounded := h.bounded
  formed m hm := by simp [h.accepted] at hm
  channelNodup := by simp [h.channel]
  channelAccepted e he := by simp [h.channel] at he
  node b n hn := by
    obtain ⟨hpending, hcursor, hpublished⟩ := h.idle b n hn
    refine ⟨h.member b n hn, ?_, ?_, ?_, ?_, ?_⟩
    · simp [hpending]
    · simp [hpending]
    · omega
    · simp [hpublished]
    · intro k m hk
      simp [h.accepted] at hk

/-- Below QoS 2 a PUBLISH is routed at once and sent out, or neither. -/
theorem handlePublish_fanout {env : PublishEnv} {now : Nat} {pkt : PublishPacket} {c : Conn}
    {sess : Session} {h : Handled} (henabled : env.clusterEnabled = true) (hqos : pkt.qos < 2)
    (hh : handlePublish env now pkt c sess = some h) :
    (h.calls = [] ∧ h.fanout = []) ∨
      ∃ m, h.fanout = [m] ∧ h.calls = [callOf m] ∧ m.ver = 1 ∧ m.sourceBroker = env.brokerID ∧
        m.partition = env.partitions.partitionForTopic m.topic := by
  cases handlePublish_cases hh with
  | inl hnone => exact .inl ⟨hnone.1, hnone.2.1⟩
  | inr hacc =>
      obtain ⟨topic, c', -, rfl⟩ := hacc
      refine .inr ⟨clusterMsg env topic pkt, ?_⟩
      have hcases : pkt.qos = 0 ∨ pkt.qos = 1 := by
        have hlt : pkt.qos.toNat < 2 := hqos
        cases Nat.lt_succ_iff_lt_or_eq.mp hlt with
        | inl h0 => exact .inl (UInt8.toNat_inj.mp (by simpa using h0))
        | inr h1 => exact .inr (UInt8.toNat_inj.mp h1)
      cases hcases with
      | inl h0 => simp [acceptPublish, h0, henabled, clusterMsg, callOf]
      | inr h1 => simp [acceptPublish, h1, henabled, clusterMsg, callOf]

/-- A step that replaces one broker: the others are looked at in the new state. -/
theorem Inv.of_node {s t : State} {b : GoString} {n : Node}
    (h : Inv count own s) (hnodes : t.nodes = s.nodes.set b n)
    (hformed : ∀ m ∈ t.accepted, m.ver = 1 ∧ m.partition < count)
    (hnodup : (t.channel.map Prod.fst).Nodup)
    (hchannel : ∀ e ∈ t.channel, t.accepted[e.1]? = some e.2) (hself : NodeInv count own t b n)
    (hother : ∀ b' n', b' ≠ b → NodeInv count own s b' n' → NodeInv count own t b' n') :
    Inv count own t where
  positive := h.positive
  bounded := h.bounded
  formed := hformed
  channelNodup := hnodup
  channelAccepted := hchannel
  node b' n' hn' := by
    rw [hnodes, FinMap.get_set] at hn'
    split_ifs at hn' with hb
    · cases hn'
      exact hb ▸ hself
    · exact hother b' n' hb (h.node b' n' hn')

theorem filter_eq_nil_of_numbered {s : State} {b : GoString} {n : Node}
    (h : NodeInv count own s b n) : n.published.filter (fun e => e.1 = s.accepted.length) = [] := by
  rw [List.filter_eq_nil_iff]
  intro e he
  have hlt := h.numbered e he
  simp only [decide_eq_true_eq]
  omega

theorem Inv.length_notMem_channel {s : State} (h : Inv count own s) :
    s.accepted.length ∉ s.channel.map Prod.fst := by
  intro hmem
  obtain ⟨e, he, hk⟩ := List.mem_map.mp hmem
  have hacc := h.channelAccepted e he
  simp [hk] at hacc

theorem Inv.not_received_length {s : State} (h : Inv count own s) (cursor : Nat) :
    ¬ Received s cursor s.accepted.length := by
  intro hr
  obtain ⟨e, he, hk⟩ := List.mem_map.mp hr
  exact h.length_notMem_channel (List.mem_map.mpr ⟨e, List.mem_of_mem_take he, hk⟩)

theorem NodeInv.nodup_pending_new {s : State} {b : GoString} {n : Node}
    (h : NodeInv count own s b n) (m : ClusterMsg) :
    ((n.pending ++ [(s.accepted.length, m)]).map Prod.fst).Nodup := by
  rw [List.map_append, List.nodup_append]
  refine ⟨h.pendingNodup, by simp, ?_⟩
  intro k hk k' hk'
  obtain ⟨e, he, rfl⟩ := List.mem_map.mp hk
  have hlt := (List.getElem?_eq_some_iff.mp (h.pendingOwn e he).1).1
  simp only [List.map_cons, List.map_nil, List.mem_singleton] at hk'
  omega

theorem NodeInv.routed_new {s : State} {b b' : GoString} {n : Node} {m : ClusterMsg}
    (hs : Inv count own s) (h : NodeInv count own s b' n) (hsource : m.sourceBroker = b) :
    (n.published ++ if b' = b then [(s.accepted.length, callOf m)] else []).filter
        (fun e => e.1 = s.accepted.length) =
      if Routed own s b' n.cursor s.accepted.length m then [(s.accepted.length, callOf m)]
      else [] := by
  rw [List.filter_append, filter_eq_nil_of_numbered h]
  by_cases hb : b' = b
  · simp [hb, Routed, hsource]
  · have hne : ¬ Routed own s b' n.cursor s.accepted.length m := by
      simp only [Routed, hs.not_received_length n.cursor, and_false, or_false, hsource]
      exact fun heq => hb heq.symm
    simp [hb, hne]

theorem NodeInv.routed_old {s : State} {b b' : GoString} {n : Node} {m m' : ClusterMsg} {k : Nat}
    (h : NodeInv count own s b' n) (hk : s.accepted[k]? = some m') :
    (n.published ++ if b' = b then [(s.accepted.length, callOf m)] else []).filter
        (fun e => e.1 = k) =
      if Routed own s b' n.cursor k m' then [(k, callOf m')] else [] := by
  have hne : s.accepted.length ≠ k := (List.getElem?_eq_some_iff.mp hk).1.ne'
  have hrest : (if b' = b then [(s.accepted.length, callOf m)] else []).filter
      (fun e => e.1 = k) = [] := by
    split_ifs
    · simp [hne]
    · rfl
  rw [List.filter_append, hrest, List.append_nil, h.routed k m' hk]

/-- The messages accepted after one more: an older one, or the new one. -/
theorem accepted_concat {s t : State} {m m' : ClusterMsg} {k : Nat}
    (ht : t.accepted = s.accepted ++ [m]) :
    t.accepted[k]? = some m' ↔
      s.accepted[k]? = some m' ∨ (k = s.accepted.length ∧ m' = m) := by
  rw [ht, List.getElem?_append]
  split_ifs with hlt
  · have hne : k ≠ s.accepted.length := hlt.ne
    simp [hne]
  · have hnone : s.accepted[k]? = none := List.getElem?_eq_none (not_lt.mp hlt)
    have hsub : k - s.accepted.length = 0 ↔ k = s.accepted.length := by omega
    simp [hnone, List.getElem?_singleton, hsub, eq_comm]

theorem NodeInv.accept {s t : State} {b b' : GoString} {n n' : Node}
    {m : ClusterMsg} (hs : Inv count own s) (h : NodeInv count own s b' n)
    (ht : t.accepted = s.accepted ++ [m]) (hchannel : t.channel = s.channel)
    (hsource : m.sourceBroker = b) (henv : n'.env = n.env) (hcursor : n'.cursor = n.cursor)
    (hpending : n'.pending = n.pending ++ if b' = b then [(s.accepted.length, m)] else [])
    (hpublished : n'.published = n.published ++
      if b' = b then [(s.accepted.length, callOf m)] else []) : NodeInv count own t b' n' := by
  refine ⟨henv ▸ h.member, ?_, ?_, ?_, ?_, ?_⟩
  · rw [hpending]
    split_ifs with hb
    · exact h.nodup_pending_new m
    · simpa using h.pendingNodup
  · intro e he
    rw [hpending] at he
    rw [hchannel, accepted_concat ht]
    cases List.mem_append.mp he with
    | inl he =>
        obtain ⟨hacc, hrest⟩ := h.pendingOwn e he
        exact ⟨.inl hacc, hrest⟩
    | inr he =>
        split_ifs at he with hb
        · cases List.mem_singleton.mp he
          exact ⟨.inr ⟨rfl, rfl⟩, hsource.trans hb.symm, hs.length_notMem_channel⟩
        · cases he
  · rw [hcursor, hchannel]
    exact h.cursor
  · intro e he
    rw [hpublished] at he
    rw [ht, List.length_append, List.length_singleton, Nat.lt_succ_iff]
    cases List.mem_append.mp he with
    | inl he => exact (h.numbered e he).le
    | inr he =>
        split_ifs at he with hb
        · cases List.mem_singleton.mp he
          exact le_rfl
        · cases he
  · intro k m' hk
    have hrouted : Routed own t b' n'.cursor k m' ↔ Routed own s b' n.cursor k m' := by
      simp only [Routed, Received, hchannel, hcursor]
    rw [hpublished, if_congr hrouted rfl rfl]
    cases (accepted_concat ht).mp hk with
    | inl hold => exact h.routed_old hold
    | inr hnew =>
        obtain ⟨rfl, rfl⟩ := hnew
        exact h.routed_new hs hsource

theorem inv_accept {s t : State} {b : GoString} {n : Node} {now : Nat}
    {pkt : PublishPacket} {c : Conn} {sess : Session} (h : Inv count own s)
    (hn : s.nodes.get b = some n) (ht : acceptAt now pkt c sess b n s = some t) :
    Inv count own t := by
  simp only [acceptAt] at ht
  split_ifs at ht with hqos
  obtain ⟨r, hr, rfl⟩ := Option.map_eq_some_iff.mp ht
  have hnode := h.node b n hn
  cases handlePublish_fanout hnode.member.enabled (not_le.mp hqos) hr with
  | inl hnone =>
      obtain ⟨hcalls, hfanout⟩ := hnone
      have hsame : s.nodes.set b n = s.nodes := by
        apply FinMap.ext_get
        intro b'
        rw [FinMap.get_set]
        split_ifs with hb
        · rw [hb, hn]
        · rfl
      simpa [hcalls, hfanout, hsame] using h
  | inr hone =>
      obtain ⟨m, hfanout, hcalls, hver, hsource, hpart⟩ := hone
      rw [hnode.member.identified] at hsource
      have hlt : m.partition < count := by
        have hcount := hnode.member.counted
        rw [hpart, ← hcount]
        exact Manager.partitionForTopic_lt _ (hcount ▸ h.positive) (hcount ▸ h.bounded)
      refine h.of_node (by rfl) ?_ h.channelNodup ?_ ?_ ?_
      · intro m' hm'
        simp only [hfanout, List.mem_append, List.mem_singleton] at hm'
        cases hm' with
        | inl hm' => exact h.formed m' hm'
        | inr hm' => exact hm' ▸ ⟨hver, hlt⟩
      · intro e he
        refine (accepted_concat (m := m) ?_).mpr (.inl (h.channelAccepted e he))
        simp only [hfanout]
      · exact hnode.accept h (by simp [hfanout]) rfl hsource rfl rfl (by simp [hfanout])
          (by simp [hcalls])
      · intro b' n' hb hn'
        exact hn'.accept h (by simp [hfanout]) rfl hsource rfl rfl (by simp [hb]) (by simp [hb])

/-- The channel grows by a message none of this broker's goroutines holds. -/
theorem NodeInv.send {s t : State} {b : GoString} {n n' : Node}
    {e : Nat × ClusterMsg} (h : NodeInv count own s b n) (ht : t.accepted = s.accepted)
    (hchannel : t.channel = s.channel ++ [e]) (henv : n'.env = n.env)
    (hcursor : n'.cursor = n.cursor) (hpublished : n'.published = n.published)
    (hpending : n'.pending.Sublist n.pending) (hfresh : e.1 ∉ n'.pending.map Prod.fst) :
    NodeInv count own t b n' := by
  have htake : t.channel.take n'.cursor = s.channel.take n.cursor := by
    rw [hchannel, hcursor, List.take_append_of_le_length h.cursor]
  refine ⟨henv ▸ h.member, ?_, ?_, ?_, ?_, ?_⟩
  · exact h.pendingNodup.sublist (hpending.map _)
  · intro e' he'
    obtain ⟨hacc, hsource, hnot⟩ := h.pendingOwn e' (hpending.subset he')
    refine ⟨ht ▸ hacc, hsource, ?_⟩
    rw [hchannel, List.map_append, List.mem_append, not_or]
    refine ⟨hnot, ?_⟩
    intro hk
    have hk : e'.1 = e.1 := by simpa using hk
    exact hfresh (hk ▸ List.mem_map_of_mem he')
  · rw [hcursor, hchannel, List.length_append]
    have hle := h.cursor
    omega
  · rw [hpublished, ht]
    exact h.numbered
  · intro k m hk
    rw [hpublished, h.routed k m (ht ▸ hk)]
    refine if_congr (or_congr_right (and_congr_right' ?_)) rfl rfl
    rw [Received, Received, htake]

theorem fst_notMem_eraseIdx {l : List (Nat × ClusterMsg)} {i : Nat} {e : Nat × ClusterMsg}
    (hnodup : (l.map Prod.fst).Nodup) (he : l[i]? = some e) :
    e.1 ∉ (l.eraseIdx i).map Prod.fst := by
  induction l generalizing i with
  | nil => cases he
  | cons a l ih =>
      obtain ⟨hhead, htail⟩ := List.nodup_cons.mp hnodup
      cases i with
      | zero =>
          cases he
          exact hhead
      | succ i =>
          rw [List.eraseIdx_cons_succ, List.map_cons, List.mem_cons, not_or]
          refine ⟨?_, ih htail he⟩
          intro heq
          exact hhead (heq ▸ List.mem_map_of_mem (List.mem_of_getElem? he))

theorem inv_send {s t : State} {b : GoString} {n : Node} {i : Nat}
    (h : Inv count own s) (hn : s.nodes.get b = some n) (ht : sendAt i b n s = some t) :
    Inv count own t := by
  obtain ⟨e, he, rfl⟩ := Option.map_eq_some_iff.mp ht
  have hnode := h.node b n hn
  obtain ⟨hacc, hsource, hnot⟩ := hnode.pendingOwn e (List.mem_of_getElem? he)
  refine h.of_node (by rfl) h.formed ?_ ?_ ?_ ?_
  · rw [List.map_append, List.nodup_append]
    refine ⟨h.channelNodup, by simp, ?_⟩
    intro k hk k' hk' heq
    have hk' : k' = e.1 := by simpa using hk'
    exact hnot (hk' ▸ heq ▸ hk)
  · intro e' he'
    cases List.mem_append.mp he' with
    | inl he' => exact h.channelAccepted e' he'
    | inr he' => exact List.mem_singleton.mp he' ▸ hacc
  · exact hnode.send rfl rfl rfl rfl rfl (List.eraseIdx_sublist _ _)
      (fst_notMem_eraseIdx hnode.pendingNodup he)
  · intro b' n' hb hn'
    refine hn'.send rfl rfl rfl rfl rfl (List.Sublist.refl _) ?_
    -- a goroutine of another broker holds a message of another source
    intro hmem
    obtain ⟨e', he', hk⟩ := List.mem_map.mp hmem
    obtain ⟨hacc', hsource', -⟩ := hn'.pendingOwn e' he'
    rw [hk, hacc, Option.some.injEq] at hacc'
    exact hb (hsource'.symm.trans (hacc' ▸ hsource))

theorem clusterLoop_eq {env : PublishEnv} {b : GoString} {m : ClusterMsg}
    (hmember : Member count own b env) (hver : m.ver = 1) (hlt : m.partition < count) :
    clusterLoop env m =
      if m.sourceBroker ≠ b ∧ own m.partition = b then [callOf m] else [] := by
  have hown := hmember.agreed m.partition hlt
  have hid := hmember.identified
  subst hid
  by_cases hsource : m.sourceBroker = env.brokerID
  · simp [clusterLoop, hsource]
  · by_cases howner : own m.partition = env.brokerID
    · simp [clusterLoop, hsource, howner, hown, callOf]
    · simp [clusterLoop, hsource, howner, hown, hver]

theorem take_channel_succ {s : State} {cursor : Nat} {e : Nat × ClusterMsg}
    (he : s.channel[cursor]? = some e) :
    s.channel.take (cursor + 1) = s.channel.take cursor ++ [e] := by
  rw [List.take_add_one, he]
  rfl

theorem received_succ {s : State} {cursor k : Nat} {e : Nat × ClusterMsg}
    (he : s.channel[cursor]? = some e) :
    Received s (cursor + 1) k ↔ Received s cursor k ∨ k = e.1 := by
  simp [Received, take_channel_succ he]

/-- No number stands twice on the channel, so the next one was not received before. -/
theorem Inv.not_received_head {s : State} (h : Inv count own s) {cursor : Nat}
    {e : Nat × ClusterMsg} (he : s.channel[cursor]? = some e) : ¬ Received s cursor e.1 := by
  intro hr
  have hnodup : ((s.channel.take (cursor + 1)).map Prod.fst).Nodup :=
    h.channelNodup.sublist ((List.take_sublist _ _).map _)
  rw [take_channel_succ he, List.map_append, List.nodup_append] at hnodup
  exact hnodup.2.2 e.1 hr e.1 (by simp) rfl

theorem NodeInv.receive {s t : State} {b : GoString} {n : Node}
    {e : Nat × ClusterMsg} (hs : Inv count own s) (h : NodeInv count own s b n)
    (he : s.channel[n.cursor]? = some e) (ht : t.accepted = s.accepted)
    (hchannel : t.channel = s.channel) :
    NodeInv count own t b { n with
      cursor := n.cursor + 1
      published := n.published ++ (clusterLoop n.env e.2).map fun call => (e.1, call) } := by
  obtain ⟨hlt, hget⟩ := List.getElem?_eq_some_iff.mp he
  have hacc := hs.channelAccepted e (List.mem_of_getElem? he)
  obtain ⟨hver, hpart⟩ := hs.formed e.2 (List.mem_of_getElem? hacc)
  have hloop := clusterLoop_eq h.member hver hpart
  have hnew := hs.not_received_head he
  refine ⟨h.member, h.pendingNodup, ?_, ?_, ?_, ?_⟩
  · rw [ht, hchannel]
    exact h.pendingOwn
  · rw [hchannel]
    exact hlt
  · intro e' he'
    rw [ht]
    cases List.mem_append.mp he' with
    | inl he' => exact h.numbered e' he'
    | inr he' =>
        obtain ⟨call, -, rfl⟩ := List.mem_map.mp he'
        exact (List.getElem?_eq_some_iff.mp hacc).1
  · intro k m hk
    rw [ht] at hk
    have hreceived : Received t (n.cursor + 1) k ↔ Received s n.cursor k ∨ k = e.1 := by
      rw [← received_succ he, Received, Received, hchannel]
    rw [List.filter_append, h.routed k m hk, hloop]
    by_cases hke : k = e.1
    · subst hke
      rw [hacc, Option.some.injEq] at hk
      subst hk
      by_cases hsource : e.2.sourceBroker = b
      · simp [Routed, hsource]
      · by_cases howner : own e.2.partition = b
        · simp [Routed, hreceived, hsource, howner, hnew]
        · simp [Routed, hsource, howner]
    · have hrest : (List.map (fun call => (e.1, call))
          (if e.2.sourceBroker ≠ b ∧ own e.2.partition = b then [callOf e.2] else [])).filter
          (fun x => x.1 = k) = [] := by
        split_ifs <;> simp [Ne.symm hke]
      rw [hrest, List.append_nil]
      refine if_congr (or_congr_right (and_congr_right' ?_)) rfl rfl
      simp [hreceived, hke]

theorem NodeInv.of_same {s t : State} {b : GoString} {n : Node}
    (h : NodeInv count own s b n) (ht : t.accepted = s.accepted)
    (hchannel : t.channel = s.channel) :
    NodeInv count own t b n := by
  refine ⟨h.member, h.pendingNodup, ?_, ?_, ?_, ?_⟩
  · rw [ht, hchannel]
    exact h.pendingOwn
  · rw [hchannel]
    exact h.cursor
  · rw [ht]
    exact h.numbered
  · intro k m hk
    rw [h.routed k m (ht ▸ hk)]
    refine if_congr (or_congr_right (and_congr_right' ?_)) rfl rfl
    rw [Received, Received, hchannel]

theorem inv_receive {s t : State} {b : GoString} {n : Node}
    (h : Inv count own s) (hn : s.nodes.get b = some n) (ht : receiveAt b n s = some t) :
    Inv count own t := by
  obtain ⟨e, he, rfl⟩ := Option.map_eq_some_iff.mp ht
  refine h.of_node (by rfl) h.formed h.channelNodup h.channelAccepted ?_ ?_
  · exact (h.node b n hn).receive h he rfl rfl
  · intro b' n' _ hn'
    exact hn'.of_same rfl rfl

theorem inv_step {s t : State} {a : Action} (h : Inv count own s)
    (ht : step s a = some t) : Inv count own t := by
  cases a with
  | accept b now pkt c sess =>
      obtain ⟨n, hn, ht⟩ := Option.bind_eq_some_iff.mp ht
      exact inv_accept h hn ht
  | send b i =>
      obtain ⟨n, hn, ht⟩ := Option.bind_eq_some_iff.mp ht
      exact inv_send h hn ht
  | receive b =>
      obtain ⟨n, hn, ht⟩ := Option.bind_eq_some_iff.mp ht
      exact inv_receive h hn ht

/-- After a broker has received the fan-out of a message, that message has been passed to
its router exactly once if it is the message's source or the owner of its partition, and
not at all otherwise. -/
theorem fanout_reaches_source_and_owner (s t : State) (actions : List Action)
    (hstart : Start count own s) (hrun : run step actions s = some t) (k : Nat) (m : ClusterMsg)
    (hk : t.accepted[k]? = some m) (b : GoString) (n : Node) (hn : t.nodes.get b = some n)
    (hreceived : Received t n.cursor k) :
    n.published.filter (fun e => e.1 = k) =
      if m.sourceBroker = b ∨ own m.partition = b then [(k, callOf m)] else [] := by
  have hinv := preserved_run (fun _ _ _ h ht => inv_step h ht) (inv_start hstart) hrun
  rw [(hinv.node b n hn).routed k m hk]
  refine if_congr (or_congr_right ?_) rfl rfl
  simp [hreceived]

/-- Three brokers, the second of which owns the only partition. -/
def brokerNode (id : GoString) : Node where
  env := { brokerID := id, aclRules := [], onPublish := fun _ _ _ _ _ => true,
           clusterEnabled := true
           partitions := (newManager id 1).setOwner 0 (str "b2") }
  pending := []
  cursor := 0
  published := []

def threeBrokers : State where
  nodes := ((FinMap.empty.set (str "b1") (brokerNode (str "b1"))).set (str "b2")
    (brokerNode (str "b2"))).set (str "b3") (brokerNode (str "b3"))
  channel := []
  accepted := []

theorem start_threeBrokers : Start 1 (fun _ => str "b2") threeBrokers := by
  have hnodes (b : GoString) (n : Node) (hn : threeBrokers.nodes.get b = some n) :
      n = brokerNode b := by
    simp only [threeBrokers, FinMap.get_set] at hn
    split_ifs at hn with h3 h2 h1
    · rw [h3]
      exact (Option.some.inj hn).symm
    · rw [h2]
      exact (Option.some.inj hn).symm
    · rw [h1]
      exact (Option.some.inj hn).symm
    · cases hn
  refine ⟨by decide, by decide, ?_, ?_, rfl, rfl⟩
  · intro b n hn
    rw [hnodes b n hn]
    refine ⟨rfl, rfl, rfl, ?_⟩
    intro p hp
    have hp : p = 0 := by omega
    simp [hp, brokerNode, Manager.owner, Manager.setOwner]
  · intro b n hn
    rw [hnodes b n hn]
    exact ⟨rfl, rfl, rfl⟩

def sensorReading : PublishPacket :=
  { dup := false, qos := 1, retain := false, topic := str "t", packetID := 7, payload := [1],
    messageExpiryInterval := 0, topicAlias := 0, receivedAt := 0 }

def sensorConn : Conn :=
  { clientID := str "c1", version := Protocol.v311, state := .connected, writeQ := [],
    writeQueueSize := 512, topicAliases := FinMap.empty, peerRecvMax := 0,
    peerMaxPacketSize := 0, negotiatedTopicAliasMax := 0 }

/-- A reading accepted by the first broker, sent out and received by all three. -/
def oneReading : List Action :=
  [.accept (str "b1") 0 sensorReading sensorConn (Session.new (str "c1") true 0),
    .send (str "b1") 0, .receive (str "b3"), .receive (str "b1"), .receive (str "b2")]

/-- The calls made for message number 0 on a broker. -/
def callsAt (t : State) (b : GoString) : Option (List (Nat × PublishCall)) :=
  (t.nodes.get b).map fun n => n.published.filter fun e => e.1 = 0

theorem fanout_reaches_owner_reading :
    ∃ t m n, run step oneReading threeBrokers = some t ∧ t.accepted[0]? = some m ∧
      t.nodes.get (str "b2") = some n ∧ n.published.filter (fun e => e.1 = 0) =
        if m.sourceBroker = str "b2" ∨ str "b2" = str "b2" then [(0, callOf m)] else [] := by
  obtain ⟨t, hrun, hacc, hnode⟩ := reaches_of_any step oneReading threeBrokers
    (fun t => t.accepted[0]?.isSome ∧
      (t.nodes.get (str "b2")).any fun n => decide (0 ∈ (t.channel.take n.cursor).map Prod.fst))
    (by decide +kernel)
  obtain ⟨m, hm⟩ := Option.isSome_iff_exists.mp hacc
  cases hn : t.nodes.get (str "b2") with
  | none => simp [hn] at hnode
  | some n =>
      have hreceived : Received t n.cursor 0 := by simpa [Received, hn] using hnode
      exact ⟨t, m, n, hrun, hm, hn, fanout_reaches_source_and_owner threeBrokers t oneReading
        start_threeBrokers hrun 0 m hm (str "b2") n hn hreceived⟩

/-- The third broker drops the reading, so a subscriber there misses it. -/
theorem fanout_misses_third_broker :
    ∃ t, run step oneReading threeBrokers = some t ∧
      (∀ b n, t.nodes.get b = some n → Received t n.cursor 0) ∧
      callsAt t (str "b1") = some [(0, ⟨str "t", [1], 1, false⟩)] ∧
      callsAt t (str "b2") = some [(0, ⟨str "t", [1], 1, false⟩)] ∧
      callsAt t (str "b3") = some [] := by
  obtain ⟨t, hrun, hreceived, hcalls⟩ := reaches_of_any step oneReading threeBrokers
    (fun t => (∀ e ∈ t.nodes.entries, 0 ∈ (t.channel.take e.2.cursor).map Prod.fst) ∧
      callsAt t (str "b1") = some [(0, ⟨str "t", [1], 1, false⟩)] ∧
      callsAt t (str "b2") = some [(0, ⟨str "t", [1], 1, false⟩)] ∧
      callsAt t (str "b3") = some [])
    (by decide +kernel)
  exact ⟨t, hrun, fun b n hn => hreceived (b, n) ((t.nodes.mem_entries b n).mpr hn), hcalls⟩

end LumaBroker.Broker.Fanout
