import LumaBroker.Broker.Routed
import LumaBroker.Protocol.Control

/-!
Topic aliases of a client, MQTT v5: resolvePublishTopic of internal/broker/client.go over the
PUBLISH packets of a connection, and the limit on the aliases from the configuration through
handleConnect to the CONNACK and the resolver. The alias table is a summary of the history: of
the packets accepted so far it keeps the last topic under each alias.
-/

namespace LumaBroker.Broker.TopicAlias

open Session

export Protocol (ConnackMQTT5Options connackProps)

/-- A packet and whether resolvePublishTopic accepted it. -/
structure Resolution where
  pkt : PublishPacket
  accepted : Bool
  deriving DecidableEq

/-- The connection after some PUBLISH packets, and the packets, the last one first. -/
structure Resolved where
  conn : Conn
  log : List Resolution
  deriving DecidableEq

namespace Resolved

def next (r : Resolved) (pkt : PublishPacket) : Resolved :=
  match r.conn.resolvePublishTopic pkt with
  | some (_, conn) => ⟨conn, ⟨pkt, true⟩ :: r.log⟩
  | none => ⟨r.conn, ⟨pkt, false⟩ :: r.log⟩

end Resolved

def resolveAll (pkts : List PublishPacket) (c : Conn) : Resolved := pkts.foldl Resolved.next ⟨c, []⟩

def Resolution.binds (a : UInt16) (e : Resolution) : Bool :=
  e.accepted && e.pkt.topicAlias = a && e.pkt.topic ≠ []

/-- The topic of the most recent accepted packet with the alias and a topic. -/
def lastTopic (a : UInt16) (log : List Resolution) : Option GoString :=
  (log.find? (Resolution.binds a)).map fun e => e.pkt.topic

/-- What DecodePublish returns for a v5 connection. -/
def Decoded (pkt : PublishPacket) : Prop :=
  ∃ now fh body t, Protocol.decodePublish Protocol.v50 now fh body = .ok pkt t

/-- The alias is not one that the negotiated maximum allows. -/
def Exceeds (max : UInt16) (pkt : PublishPacket) : Prop :=
  pkt.topicAlias ≠ 0 ∧ (max < pkt.topicAlias ∨ max = 0)

instance (max : UInt16) (pkt : PublishPacket) : Decidable (Exceeds max pkt) :=
  inferInstanceAs (Decidable (_ ∧ _))

theorem pos_iff {a : UInt16} : a > 0 ↔ a ≠ 0 := by
  rw [gt_iff_lt, UInt16.lt_iff_toNat_lt, ← UInt16.toNat_inj.ne]
  exact Nat.pos_iff_ne_zero

/-- The guards of the resolver in one: above the limit, or no aliases at all. -/
theorem resolvePublishTopic_v5 {c : Conn} (hversion : c.version = Protocol.v50)
    (pkt : PublishPacket) :
    c.resolvePublishTopic pkt =
      if Exceeds c.negotiatedTopicAliasMax pkt then none
      else if pkt.topic = [] then (c.topicAliases.get pkt.topicAlias).map fun prev => (prev, c)
      else if pkt.topicAlias ≠ 0 then
        some (pkt.topic, { c with topicAliases := c.topicAliases.set pkt.topicAlias pkt.topic })
      else some (pkt.topic, c) := by
  rw [Conn.resolvePublishTopic, if_neg (not_not.mpr hversion)]
  simp only [pos_iff, Exceeds]
  by_cases ha : pkt.topicAlias = 0
  · simp [ha]
  · by_cases hmax : c.negotiatedTopicAliasMax = 0
    · simp [ha, hmax]
    · simp [ha, hmax]

theorem Decoded.topic {pkt : PublishPacket} (h : Decoded pkt) :
    (pkt.topic ≠ [] → Protocol.validTopicName pkt.topic = true) ∧
      (pkt.topic = [] → pkt.topicAlias ≠ 0) := by
  obtain ⟨now, fh, body, t, hdecode⟩ := h
  refine ⟨fun hne => Routed.decodePublish_valid hdecode (.inr hne), fun hempty hzero => ?_⟩
  obtain ⟨-, -, topic, _, u, expiry, topicAlias, w, -, -, -, -, -, hprops, rfl, -⟩ :=
    Protocol.publishBody_eq_ok.mp hdecode
  obtain ⟨props, -, -, -, hboth⟩ := Protocol.publishProps_v50.mp hprops
  exact hboth ⟨hempty, hzero⟩

/-- The table says what the history says, and nothing else of the connection has changed. -/
structure Summary (c : Conn) (r : Resolved) : Prop where
  conn : r.conn = { c with topicAliases := r.conn.topicAliases }
  table : ∀ a, a ≠ 0 → r.conn.topicAliases.get a = lastTopic a r.log
  valid : ∀ a t, r.conn.topicAliases.get a = some t → Protocol.validTopicName t = true

section History
variable {c : Conn} {r : Resolved}

theorem lastTopic_cons (a : UInt16) (e : Resolution) (log : List Resolution) :
    lastTopic a (e :: log) = if e.binds a then some e.pkt.topic else lastTopic a log := by
  rw [lastTopic, List.find?_cons]
  cases e.binds a <;> rfl

theorem Summary.version (h : Summary c r) : r.conn.version = c.version := by rw [h.conn]

theorem Summary.max (h : Summary c r) :
    r.conn.negotiatedTopicAliasMax = c.negotiatedTopicAliasMax := by
  rw [h.conn]

theorem summary_start (hfresh : c.topicAliases = FinMap.empty) : Summary c ⟨c, []⟩ where
  conn := rfl
  table a _ := by
    rw [hfresh]
    rfl
  valid a t ht := by
    rw [hfresh] at ht
    cases ht

theorem Summary.skip (h : Summary c r) {e : Resolution} (hbinds : ∀ a, a ≠ 0 → e.binds a = false) :
    Summary c ⟨r.conn, e :: r.log⟩ where
  conn := h.conn
  table a ha := by
    rw [lastTopic_cons, hbinds a ha, h.table a ha]
    rfl
  valid := h.valid

theorem Summary.bind (h : Summary c r) {pkt : PublishPacket} (htopic : pkt.topic ≠ [])
    (hvalid : Protocol.validTopicName pkt.topic = true) :
    Summary c ⟨{ r.conn with topicAliases := r.conn.topicAliases.set pkt.topicAlias pkt.topic },
      ⟨pkt, true⟩ :: r.log⟩ where
  conn := by
    rw [h.conn]
  table a ha := by
    have hbinds : Resolution.binds a ⟨pkt, true⟩ = decide (a = pkt.topicAlias) := by
      simp [Resolution.binds, htopic, eq_comm]
    rw [lastTopic_cons, hbinds, FinMap.get_set, h.table a ha]
    simp only [decide_eq_true_eq]
  valid a t ht := by
    rw [FinMap.get_set] at ht
    split at ht
    · cases ht
      exact hvalid
    · exact h.valid a t ht

theorem Summary.next (h : Summary c r) (hversion : c.version = Protocol.v50) {pkt : PublishPacket}
    (hdecoded : Decoded pkt) : Summary c (r.next pkt) := by
  have hresolve := resolvePublishTopic_v5 (h.version.trans hversion) pkt
  rw [Resolved.next]
  split_ifs at hresolve with hexceeds htopic halias
  · rw [hresolve]
    exact h.skip fun a _ => rfl
  · -- the alias stands for a topic, and binds none
    have hbinds (accepted : Bool) (a : UInt16) (_ : a ≠ 0) :
        Resolution.binds a ⟨pkt, accepted⟩ = false := by
      simp [Resolution.binds, htopic]
    rw [hresolve]
    cases r.conn.topicAliases.get pkt.topicAlias with
    | none => exact h.skip (hbinds false)
    | some prev => exact h.skip (hbinds true)
  · rw [hresolve]
    exact h.bind htopic (hdecoded.topic.1 htopic)
  · rw [hresolve]
    refine h.skip fun a ha => ?_
    have hne : ¬ pkt.topicAlias = a := fun heq => halias (heq ▸ ha)
    simp [Resolution.binds, hne]

theorem summary_resolveAll (hversion : c.version = Protocol.v50)
    (hfresh : c.topicAliases = FinMap.empty) {pkts : List PublishPacket}
    (hdecoded : ∀ p ∈ pkts, Decoded p) : Summary c (resolveAll pkts c) := by
  have hrun {r : Resolved} (hr : Summary c r) : Summary c (pkts.foldl Resolved.next r) := by
    induction pkts generalizing r with
    | nil => exact hr
    | cons p pkts ih =>
        exact ih (fun q hq => hdecoded q (List.mem_cons_of_mem p hq))
          (hr.next hversion (hdecoded p List.mem_cons_self))
  exact hrun (summary_start hfresh)

end History

/-- Every accepted packet resolves to its own topic, or to that of the last accepted packet
with its alias and a topic; it is rejected exactly when its alias is not allowed or stands for
nothing; and a rejected one leaves the table alone. -/
theorem topic_alias_resolution (c : Conn) (before : List PublishPacket) (pkt : PublishPacket)
    (hversion : c.version = Protocol.v50) (hfresh : c.topicAliases = FinMap.empty)
    (hbefore : ∀ p ∈ before, Decoded p) (hpkt : Decoded pkt) :
    let r := resolveAll before c
    (∀ topic c', r.conn.resolvePublishTopic pkt = some (topic, c') →
      (pkt.topic ≠ [] → topic = pkt.topic) ∧
      (pkt.topic = [] → lastTopic pkt.topicAlias r.log = some topic) ∧
      Protocol.validTopicName topic = true) ∧
    (r.conn.resolvePublishTopic pkt = none ↔
      (pkt.topicAlias ≠ 0 ∧
        (c.negotiatedTopicAliasMax < pkt.topicAlias ∨ c.negotiatedTopicAliasMax = 0)) ∨
        pkt.topic = [] ∧ lastTopic pkt.topicAlias r.log = none) ∧
    (r.conn.resolvePublishTopic pkt = none →
      (r.next pkt).conn.topicAliases = r.conn.topicAliases) := by
  intro r
  have hsum : Summary c r := summary_resolveAll hversion hfresh hbefore
  have hresolve := resolvePublishTopic_v5 (hsum.version.trans hversion) pkt
  rw [hsum.max] at hresolve
  have htable : pkt.topic = [] → r.conn.topicAliases.get pkt.topicAlias =
      lastTopic pkt.topicAlias r.log :=
    fun hempty => hsum.table _ (hpkt.topic.2 hempty)
  refine ⟨fun topic c' hsome => ?_, ?_, fun hnone => ?_⟩
  · rw [hresolve] at hsome
    by_cases hempty : pkt.topic = []
    · split_ifs at hsome
      obtain ⟨prev, hprev, heq⟩ := Option.map_eq_some_iff.mp hsome
      cases heq
      exact ⟨fun hne => absurd hempty hne, fun _ => (htable hempty).symm.trans hprev,
        hsum.valid _ _ hprev⟩
    · have htopic : topic = pkt.topic := by
        split_ifs at hsome <;> cases hsome <;> rfl
      exact ⟨fun _ => htopic, fun h => absurd h hempty, htopic ▸ hpkt.topic.1 hempty⟩
  · rw [hresolve]
    by_cases hexceeds : Exceeds c.negotiatedTopicAliasMax pkt
    · rw [if_pos hexceeds]
      exact iff_of_true rfl (.inl hexceeds)
    · rw [if_neg hexceeds]
      refine Iff.trans ?_ (or_iff_right hexceeds).symm
      by_cases hempty : pkt.topic = []
      · rw [if_pos hempty, Option.map_eq_none_iff, htable hempty]
        exact (and_iff_right hempty).symm
      · rw [if_neg hempty]
        refine iff_of_false ?_ fun h => hempty h.1
        split <;> exact Option.some_ne_none _
  · rw [Resolved.next, hnone]

/-- Alias 3 is bound, rebound and used, with a packet above the limit in between. -/
def samplePackets : List PublishPacket :=
  [⟨false, 0, false, str "a", 0, [], 0, 3, 0⟩, ⟨false, 0, false, str "b", 0, [], 0, 9, 0⟩,
    ⟨false, 0, false, str "c", 0, [], 0, 3, 0⟩]

def useAlias : PublishPacket := ⟨false, 0, false, [], 0, [], 0, 3, 0⟩

def sampleConn : Conn :=
  { (Routed.newClient (str "r") none 16).conn with
    version := Protocol.v50, negotiatedTopicAliasMax := 5 }

theorem decoded_samplePackets : ∀ p ∈ samplePackets, Decoded p := by
  intro p hp
  simp only [samplePackets, List.mem_cons, List.not_mem_nil, or_false] at hp
  rcases hp with rfl | rfl | rfl
  · exact ⟨0, ⟨.publish, 0, 0⟩, [0, 1, 97, 3, 0x23, 0, 3], ⟨[0, 1, 97, 3, 0x23, 0, 3], 7⟩,
      by decide +kernel⟩
  · exact ⟨0, ⟨.publish, 0, 0⟩, [0, 1, 98, 3, 0x23, 0, 9], ⟨[0, 1, 98, 3, 0x23, 0, 9], 7⟩,
      by decide +kernel⟩
  · exact ⟨0, ⟨.publish, 0, 0⟩, [0, 1, 99, 3, 0x23, 0, 3], ⟨[0, 1, 99, 3, 0x23, 0, 3], 7⟩,
      by decide +kernel⟩

theorem decoded_useAlias : Decoded useAlias :=
  ⟨0, ⟨.publish, 0, 0⟩, [0, 0, 3, 0x23, 0, 3], ⟨[0, 0, 3, 0x23, 0, 3], 6⟩, by decide +kernel⟩

theorem topic_alias_resolution_sample :
    ((resolveAll samplePackets sampleConn).conn.resolvePublishTopic useAlias).map Prod.fst =
        some (str "c") ∧
      lastTopic 3 (resolveAll samplePackets sampleConn).log = some (str "c") := by
  have hresolve : (resolveAll samplePackets sampleConn).conn.resolvePublishTopic useAlias =
      some (str "c", (resolveAll samplePackets sampleConn).conn) := by decide +kernel
  refine ⟨congrArg (Option.map Prod.fst) hresolve, ?_⟩
  exact ((topic_alias_resolution sampleConn samplePackets useAlias rfl rfl decoded_samplePackets
    decoded_useAlias).1 _ _ hresolve).2.1 rfl

/-- The fields of the configuration that the CONNACK advertises. -/
structure CapabilityConfig where
  serverReceiveMaximum : Int
  serverMaximumQoS : Int
  maxPacketSize : Int
  retainAvailable : Bool
  wildcardSubscriptionAvailable : Bool
  subscriptionIdentifierAvailable : Bool
  sharedSubscriptionAvailable : Bool

def connackV5FromConfig (bc : CapabilityConfig) (topicAliasMax : UInt16) : ConnackMQTT5Options where
  topicAliasMax := topicAliasMax
  receiveMaximum := if bc.serverReceiveMaximum > 0 then UInt16.ofInt bc.serverReceiveMaximum else 0
  maximumQoS := if UInt8.ofInt bc.serverMaximumQoS > 2 then 2 else UInt8.ofInt bc.serverMaximumQoS
  maxPacketSize := UInt32.ofInt bc.maxPacketSize
  retainAvailable := bc.retainAvailable
  wildcardSubscriptionAvailable := bc.wildcardSubscriptionAvailable
  subscriptionIDAvailable := bc.subscriptionIdentifierAvailable
  sharedSubscriptionAvailable := bc.sharedSubscriptionAvailable

/-- The Topic Alias Maximum as a client reads it; a missing property is 0. -/
def advertisedTopicAliasMax (opts : ConnackMQTT5Options) : UInt16 :=
  (Protocol.value16 (Protocol.setProps FinMap.empty (connackProps opts)) 0x22).getD 0

theorem value16_setProps_of_ne {id : UInt8} {ps : List (UInt8 × List UInt8)}
    (h : ∀ p ∈ ps, id ≠ p.1) (props : Protocol.Props) :
    Protocol.value16 (Protocol.setProps props ps) id = Protocol.value16 props id := by
  induction ps generalizing props with
  | nil => rfl
  | cons p ps ih =>
      change Protocol.value16 (Protocol.setProps (props.set p.1 p.2) ps) id =
        Protocol.value16 props id
      rw [ih fun q hq => h q (List.mem_cons_of_mem p hq)]
      exact Protocol.Property.value16_set_ne props p.2 (h p List.mem_cons_self)

theorem value16_setProps_optional {c : Prop} [Decidable c] (props : Protocol.Props) {id id' : UInt8}
    (v : List UInt8) (h : id ≠ id') :
    Protocol.value16 (Protocol.setProps props (if c then [(id', v)] else [])) id =
      Protocol.value16 props id := by
  split
  · exact Protocol.Property.value16_set_ne props v h
  · rfl

/-- The CONNACK says what was negotiated. -/
theorem advertised_connackV5FromConfig (bc : CapabilityConfig) (max : UInt16) :
    advertisedTopicAliasMax (connackV5FromConfig bc max) = max := by
  have happend (props : Protocol.Props) (ps qs : List (UInt8 × List UInt8)) :
      Protocol.setProps props (ps ++ qs) = Protocol.setProps (Protocol.setProps props ps) qs :=
    List.foldl_append ..
  simp only [advertisedTopicAliasMax, connackProps, happend]
  rw [value16_setProps_of_ne (by simp)]
  change (Protocol.value16 (Protocol.setProps _ (if max > 0 then [(0x22, bytes16 max)] else []))
    0x22).getD 0 = max
  by_cases hmax : max > 0
  · rw [if_pos hmax]
    exact congrArg (Option.getD · 0) (Protocol.Property.value16_set _ 0x22 max)
  · have hzero : max = 0 := Classical.not_not.mp fun hne => hmax (pos_iff.mpr hne)
    have hnone (props : Protocol.Props) : Protocol.setProps props [] = props := rfl
    rw [if_neg hmax, hnone, value16_setProps_optional _ _ (by decide),
      value16_setProps_optional _ _ (by decide), value16_setProps_optional _ _ (by decide)]
    exact hzero.symm

theorem next_conn (r : Resolved) (pkt : PublishPacket) :
    (r.next pkt).conn = { r.conn with topicAliases := (r.next pkt).conn.topicAliases } := by
  rw [Resolved.next]
  split
  · next hresolve => exact Conn.resolvePublishTopic_conn hresolve
  · rfl

def AliasesWithin (max : UInt16) (c : Conn) : Prop :=
  ∀ a t, c.topicAliases.get a = some t → 1 ≤ a ∧ a ≤ max

/-- The table only gets aliases up to the negotiated maximum. -/
theorem AliasesWithin.next {max : UInt16} {r : Resolved} (h : AliasesWithin max r.conn)
    (hversion : r.conn.version = Protocol.v50) (hle : r.conn.negotiatedTopicAliasMax ≤ max)
    (pkt : PublishPacket) : AliasesWithin max (r.next pkt).conn := by
  have hresolve := resolvePublishTopic_v5 hversion pkt
  rw [Resolved.next]
  split_ifs at hresolve with hexceeds htopic halias
  · rw [hresolve]
    exact h
  · rw [hresolve]
    cases r.conn.topicAliases.get pkt.topicAlias <;> exact h
  · rw [hresolve]
    intro a t ht
    change (r.conn.topicAliases.set pkt.topicAlias pkt.topic).get a = some t at ht
    rw [FinMap.get_set] at ht
    split at ht
    · next ha =>
        rw [ha]
        have hlimit : pkt.topicAlias ≤ r.conn.negotiatedTopicAliasMax :=
          UInt16.not_lt.mp fun hlt => hexceeds ⟨halias, .inl hlt⟩
        have hone : 1 ≤ pkt.topicAlias :=
          UInt16.le_iff_toNat_le.mpr (UInt16.lt_iff_toNat_lt.mp (pos_iff.mpr halias))
        exact ⟨hone, UInt16.le_trans hlimit hle⟩
    · exact h a t ht
  · rw [hresolve]
    exact h

theorem AliasesWithin.resolveAll {max : UInt16} {c : Conn} (h : AliasesWithin max c)
    (hversion : c.version = Protocol.v50) (hle : c.negotiatedTopicAliasMax ≤ max)
    (pkts : List PublishPacket) : AliasesWithin max (resolveAll pkts c).conn := by
  have hrun {r : Resolved} (hr : AliasesWithin max r.conn)
      (hversion : r.conn.version = Protocol.v50)
      (hle : r.conn.negotiatedTopicAliasMax ≤ max) :
        AliasesWithin max (pkts.foldl Resolved.next r).conn := by
    induction pkts generalizing r with
    | nil => exact hr
    | cons p pkts ih =>
        have hconn := next_conn r p
        refine ih (hr.next hversion hle p) ?_ ?_
        · rw [hconn]
          exact hversion
        · rw [hconn]
          exact hle
  exact hrun h hversion hle

section Negotiation
variable {env : HandshakeEnv} {i : Nat} {body : List UInt8} {b b' : BrokerState} {present : Bool}
  {pkt : Protocol.ConnectPacket}

theorem limits_connected (env : HandshakeEnv) (cid : GoString) (pkt : Protocol.ConnectPacket)
    (present : Bool) (c : Conn) :
    (BrokerState.connected env cid pkt present c).version = pkt.version ∧
      (BrokerState.connected env cid pkt present c).negotiatedTopicAliasMax =
        (sessionPart pkt).negotiatedTopicAliasMax env.topicAliasMax := by
  rw [BrokerState.connected, Conn.enqueue_eq]
  exact ⟨rfl, rfl⟩

theorem conn_handleConnect (hdecode : decodedConnect body = some pkt)
    (h : b.handleConnect env i body = .accepted present b') :
    (b'.conns i).conn.version = pkt.version ∧
      (b'.conns i).conn.negotiatedTopicAliasMax =
      (sessionPart pkt).negotiatedTopicAliasMax env.topicAliasMax ∧
      (b'.conns i).conn.topicAliases = (b.conns i).conn.topicAliases := by
  obtain ⟨cid, pkt', u, hadmit, haccept⟩ := BrokerState.handleConnect_accepted h
  obtain ⟨htouched, hdecode', -⟩ := BrokerState.admission_admitted hadmit
  cases hdecode.symm.trans hdecode'
  obtain ⟨hversion, hmax⟩ := limits_connected env cid pkt present (u.conns i).conn
  have haliases := (BrokerState.names_connected env cid pkt present (u.conns i).conn).2
  rw [BrokerState.conn_accept haccept]
  exact ⟨hversion, hmax, haliases.trans htouched.topicAliases⟩

/-- The negotiated maximum keeps to the configured one unless that is 0 and the client names
one of its own. -/
theorem negotiated_le_iff (hv5 : pkt.version = Protocol.v50) (max : UInt16) :
    (sessionPart pkt).negotiatedTopicAliasMax max ≤ max ↔ max ≠ 0 ∨ pkt.topicAliasMaximum = 0 := by
  have hversion : (sessionPart pkt).version = Protocol.v50 := hv5
  have hclient : (sessionPart pkt).topicAliasMaximum = pkt.topicAliasMaximum := rfl
  simp only [ConnectPacket.negotiatedTopicAliasMax, hversion, hclient, true_and, pos_iff]
  split
  · next h =>
      obtain ⟨hpos, hzero | hlt⟩ := h
      · rw [hzero, UInt16.le_zero_iff]
        simp
      · refine iff_of_true (UInt16.le_of_lt hlt) (.inl ?_)
        rintro rfl
        exact UInt16.not_lt_zero hlt
  · next h =>
      refine iff_of_true (UInt16.le_refl max) ?_
      by_cases hpos : pkt.topicAliasMaximum = 0
      · exact .inr hpos
      · exact .inl fun hzero => h ⟨hpos, .inl hzero⟩

end Negotiation

/-- On a connection that has kept to the configured limit, an accepted CONNECT keeps to it in
its CONNACK and with every alias that is stored after it exactly when the limit is not 0, or
the client does not ask for aliases itself. -/
theorem alias_limit_binding_iff (bc : CapabilityConfig) (env : HandshakeEnv) (i : Nat)
    (body : List UInt8) (b b' : BrokerState) (present : Bool) (pkt : Protocol.ConnectPacket)
    (hbefore : AliasesWithin env.topicAliasMax (b.conns i).conn)
    (hdecode : decodedConnect body = some pkt) (hv5 : pkt.version = Protocol.v50)
    (haccept : b.handleConnect env i body = .accepted present b') :
    (advertisedTopicAliasMax (connackV5FromConfig bc (b'.conns i).conn.negotiatedTopicAliasMax) ≤
        env.topicAliasMax ∧
      ∀ pkts, AliasesWithin env.topicAliasMax (resolveAll pkts (b'.conns i).conn).conn) ↔
      env.topicAliasMax ≠ 0 ∨ pkt.topicAliasMaximum = 0 := by
  obtain ⟨hversion, hmax, haliases⟩ := conn_handleConnect hdecode haccept
  have hkept : AliasesWithin env.topicAliasMax (b'.conns i).conn := by
    rw [AliasesWithin, haliases]
    exact hbefore
  rw [advertised_connackV5FromConfig, hmax, ← negotiated_le_iff hv5]
  refine and_iff_left_of_imp fun hle pkts => hkept.resolveAll (hversion.trans hv5) ?_ pkts
  rw [hmax]
  exact hle

/-- A v5 CONNECT as c1 for a clean session, with a Topic Alias Maximum of 5. -/
def connectV5 : List UInt8 := [0, 4, 77, 81, 84, 84, 5, 2, 0, 60, 3, 0x22, 0, 5, 0, 2, 99, 49]

def connectV5Packet : Protocol.ConnectPacket :=
  ⟨5, true, 60, 0, 0, 0, 5, false, 0, false, false, false, str "c1", [], [], [], []⟩

theorem decodeConnect_connectV5 :
    Protocol.decodeConnect connectV5 = .ok connectV5Packet ⟨connectV5, 18⟩ := by
  decide +kernel

def envWithLimit (max : UInt16) : HandshakeEnv :=
  { Routed.sampleEnv.handshake with topicAliasMax := max }

def capabilities : CapabilityConfig := ⟨0, 2, 10485760, true, true, true, true⟩

theorem alias_limit_binding_three :
    ∃ b', Routed.sampleStart.broker.handleConnect (envWithLimit 3) 0 connectV5 =
      .accepted false b' ∧
      advertisedTopicAliasMax
        (connackV5FromConfig capabilities (b'.conns 0).conn.negotiatedTopicAliasMax) ≤ 3 := by
  obtain ⟨b', hb'⟩ : ∃ b', Routed.sampleStart.broker.handleConnect (envWithLimit 3) 0 connectV5 =
      .accepted false b' := by
    unfold BrokerState.handleConnect BrokerState.admission
    rw [decodeConnect_connectV5]
    exact ⟨_, rfl⟩
  have hdecode := decodedConnect_eq_some.mpr ⟨_, decodeConnect_connectV5⟩
  have hbinding :=
    alias_limit_binding_iff capabilities (envWithLimit 3) 0 connectV5 _ b' false connectV5Packet
    (fun _ _ h => (by cases h)) hdecode rfl hb'
  exact ⟨b', hb', (hbinding.mpr (.inl (by decide))).1⟩

/-- With client aliases disabled the same client gets the 5 it asked for, and its alias 5. -/
theorem alias_limit_disabled :
    ∃ b', Routed.sampleStart.broker.handleConnect (envWithLimit 0) 0 connectV5 =
      .accepted false b' ∧
      advertisedTopicAliasMax
        (connackV5FromConfig capabilities (b'.conns 0).conn.negotiatedTopicAliasMax) = 5 ∧
      (resolveAll [⟨false, 0, false, str "a", 0, [], 0, 5, 0⟩]
        (b'.conns 0).conn).conn.topicAliases.get 5 =
        some (str "a") := by
  unfold BrokerState.handleConnect BrokerState.admission
  rw [decodeConnect_connectV5]
  exact ⟨_, rfl, by decide +kernel, by decide +kernel⟩

end LumaBroker.Broker.TopicAlias
