import LumaBroker.Auth.Acl
import LumaBroker.Broker.Conn
import LumaBroker.Cluster.Partition
import LumaBroker.Protocol.Decode

/-!
The PUBLISH and PUBREL handlers of internal/broker/client.go, on a decoded packet.
Calls of Router.Publish and the cluster message handed to Redis are returned; the
Redis and Postgres writes of the same goroutine are left out.
-/

namespace LumaBroker.Broker

open Auth Session

/-- The arguments of one Router.Publish call. -/
structure PublishCall where
  topic : GoString
  payload : List UInt8
  qos : UInt8
  retain : Bool
  deriving DecidableEq

/-- The will of a CONNECT that has one. -/
def connectWill (pkt : Protocol.ConnectPacket) : Will :=
  ⟨pkt.willTopic, pkt.willPayload, pkt.willQoS, pkt.willRetain⟩

def willCall (w : Will) : PublishCall := ⟨w.topic, w.payload, w.qos, w.retain⟩

/-- The call that cleanup makes for the will of its session. -/
def willCalls (sess : Session) : List PublishCall :=
  if sess.willSet then [willCall sess.will] else []

/-- What the handlers read of the broker. OnPublish stands for the plugin chain and
answers whether it raised no error. -/
structure PublishEnv where
  brokerID : GoString
  aclRules : List ACLRule
  onPublish : GoString → GoString → List UInt8 → UInt8 → Bool → Bool
  clusterEnabled : Bool
  partitions : Cluster.Manager

/-- What a handler leaves behind: the connection with its aliases, the session, the calls of
Router.Publish and, behind those, the acknowledgment it passes to enqueuePubAck. -/
structure Handled where
  conn : Conn
  sess : Session
  calls : List PublishCall
  answer : Option (AckType × UInt16)
  fanout : List Cluster.ClusterMsg

namespace Handled

/-- The acknowledgment is enqueued on the connection as the calls have left it: a client
that is subscribed to its own topic gets the message first. -/
def answerOn (h : Handled) (c : Conn) : Conn :=
  match h.answer with
  | some (t, packetID) => c.enqueuePubAck t packetID
  | none => c

/-- The connection at the end, if the calls have left it alone. -/
def answered (h : Handled) : Conn := h.answerOn h.conn

end Handled

def clusterMsg (env : PublishEnv) (topic : GoString) (pkt : PublishPacket) :
    Cluster.ClusterMsg where
  ver := 1
  sourceBroker := env.brokerID
  partition := env.partitions.partitionForTopic topic
  topic := topic
  payload := pkt.payload
  qos := pkt.qos
  retain := pkt.retain

def messageExpired (now : Nat) (pkt : PublishPacket) : Bool :=
  pkt.messageExpiryInterval > 0 ∧
    now - pkt.receivedAt > pkt.messageExpiryInterval.toNat * 1000000000

def inFlightOf (topic : GoString) (now : Nat) (pkt : PublishPacket) : InFlight :=
  ⟨pkt.packetID, topic, pkt.payload, pkt.qos, pkt.retain, now, .published⟩

/-- Phase 1 of QoS 2: store if not already received. -/
def storeInFlight (topic : GoString) (now : Nat) (pkt : PublishPacket) (sess : Session) :
    Session :=
  match sess.getInFlight pkt.packetID with
  | none => sess.addInFlight (inFlightOf topic now pkt)
  | some _ => sess

/-- The switch on the QoS of an accepted PUBLISH, and the fan-out after it. -/
def acceptPublish (env : PublishEnv) (topic : GoString) (now : Nat) (pkt : PublishPacket)
    (c : Conn) (sess : Session) : Handled :=
  let call : PublishCall := ⟨topic, pkt.payload, pkt.qos, pkt.retain⟩
  let fanout := if env.clusterEnabled then [clusterMsg env topic pkt] else []
  if pkt.qos = 0 then ⟨c, sess, [call], none, fanout⟩
  else if pkt.qos = 1 then ⟨c, sess, [call], some (.puback, pkt.packetID), fanout⟩
  else if pkt.qos = 2 then
    ⟨c, storeInFlight topic now pkt sess, [], some (.pubrec, pkt.packetID), fanout⟩
  else ⟨c, sess, [], none, fanout⟩

/-- None is an error, after which the connection ends. -/
def handlePublish (env : PublishEnv) (now : Nat) (pkt : PublishPacket) (c : Conn)
    (sess : Session) : Option Handled :=
  (c.resolvePublishTopic pkt).map fun (topic, c) =>
    if messageExpired now pkt then ⟨c, sess, [], none, []⟩
    else if !canPublish env.aclRules c.clientID topic then
      ⟨c, sess, [], if pkt.qos = 1 then some (.puback, pkt.packetID) else none, []⟩
    else if !env.onPublish c.clientID topic pkt.payload pkt.qos pkt.retain then
      ⟨c, sess, [], none, []⟩
    else acceptPublish env topic now pkt c sess

def handlePubrel (id : UInt16) (c : Conn) (sess : Session) : Handled :=
  let (sess, msg) := sess.ackInFlight id
  let calls := match msg with
    | some msg => [⟨msg.topic, msg.payload, msg.qos, msg.retain⟩]
    | none => []
  ⟨c, sess, calls, some (.pubcomp, id), []⟩

/-- The packet passes every check before the switch on its QoS. -/
def Accepted (env : PublishEnv) (now : Nat) (pkt : PublishPacket) (c : Conn)
    (topic : GoString) (c' : Conn) : Prop :=
  c.resolvePublishTopic pkt = some (topic, c') ∧ messageExpired now pkt = false ∧
    canPublish env.aclRules c'.clientID topic = true ∧
    env.onPublish c'.clientID topic pkt.payload pkt.qos pkt.retain = true

instance (env : PublishEnv) (now : Nat) (pkt : PublishPacket) (c : Conn) (topic : GoString)
    (c' : Conn) : Decidable (Accepted env now pkt c topic c') :=
  inferInstanceAs (Decidable (_ ∧ _))

theorem handlePublish_of_accepted {env : PublishEnv} {now : Nat} {pkt : PublishPacket}
    {c c' : Conn} {topic : GoString} (sess : Session) (h : Accepted env now pkt c topic c') :
    handlePublish env now pkt c sess = some (acceptPublish env topic now pkt c' sess) := by
  obtain ⟨hres, hexp, hacl, hplugin⟩ := h
  simp [handlePublish, hres, hexp, hacl, hplugin]

/-- A PUBLISH that is handled without error is accepted, or leaves nothing behind but
perhaps an acknowledgment. -/
theorem handlePublish_cases {env : PublishEnv} {now : Nat} {pkt : PublishPacket} {c : Conn}
    {sess : Session} {h : Handled} (hh : handlePublish env now pkt c sess = some h) :
    (h.calls = [] ∧ h.fanout = [] ∧ h.sess = sess) ∨
      ∃ topic c', Accepted env now pkt c topic c' ∧
        h = acceptPublish env topic now pkt c' sess := by
  obtain ⟨⟨topic, c'⟩, hres, hbody⟩ := Option.map_eq_some_iff.mp hh
  cases hexp : messageExpired now pkt with
  | true =>
      simp only [hexp, if_true] at hbody
      exact .inl (hbody ▸ ⟨rfl, rfl, rfl⟩)
  | false =>
      cases hacl : canPublish env.aclRules c'.clientID topic with
      | false =>
          simp only [hexp, hacl, Bool.not_false, if_true] at hbody
          exact .inl (hbody ▸ ⟨rfl, rfl, rfl⟩)
      | true =>
          cases hplugin : env.onPublish c'.clientID topic pkt.payload pkt.qos pkt.retain with
          | false =>
              simp only [hexp, hacl, hplugin, Bool.not_false, if_true] at hbody
              exact .inl (hbody ▸ ⟨rfl, rfl, rfl⟩)
          | true =>
              simp only [hexp, hacl, hplugin, Bool.not_true, Bool.false_eq_true, if_false] at hbody
              exact .inr ⟨topic, c', ⟨hres, hexp, hacl, hplugin⟩, hbody.symm⟩

theorem conn_acceptPublish (env : PublishEnv) (topic : GoString) (now : Nat) (pkt : PublishPacket)
    (c : Conn) (sess : Session) : (acceptPublish env topic now pkt c sess).conn = c := by
  rw [acceptPublish]
  split_ifs <;> rfl

/-- Of the connection the handler itself changes the aliases alone. -/
theorem handlePublish_conn {env : PublishEnv} {now : Nat} {pkt : PublishPacket} {c : Conn}
    {sess : Session} {h : Handled} (hh : handlePublish env now pkt c sess = some h) :
    ∃ topic, c.resolvePublishTopic pkt = some (topic, h.conn) := by
  obtain ⟨⟨topic, c'⟩, hres, rfl⟩ := Option.map_eq_some_iff.mp hh
  refine ⟨topic, hres.trans ?_⟩
  dsimp only
  split_ifs
  · rfl
  · rfl
  · rfl
  · rfl
  · rw [conn_acceptPublish]

theorem sess_acceptPublish (env : PublishEnv) (topic : GoString) (now : Nat) (pkt : PublishPacket)
    (c : Conn) (sess : Session) :
    (acceptPublish env topic now pkt c sess).sess =
      if pkt.qos = 2 then storeInFlight topic now pkt sess else sess := by
  rw [acceptPublish]
  split_ifs <;> simp_all

end LumaBroker.Broker
