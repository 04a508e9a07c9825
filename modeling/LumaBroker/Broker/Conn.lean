import LumaBroker.Lib.SortedMap
import LumaBroker.Protocol.Packet
import LumaBroker.Session.Session

/-!
One client connection of internal/broker/client.go: its state, its bounded write
queue and its incoming topic aliases. The queue holds packets before their encoding;
its channel has room for writeQueueSize of them and enqueue never waits.
-/

namespace LumaBroker.Broker

inductive ConnState where
  | handshaking
  | connected
  | closing
  | closed
  deriving DecidableEq

inductive AckType where
  | puback
  | pubrec
  | pubrel
  | pubcomp
  deriving DecidableEq

/-- What a connection sends, by the encoder that writes it. -/
inductive Outbound where
  | connack (version : UInt8) (sessionPresent : Bool)
  | ack (version : UInt8) (t : AckType) (packetID : UInt16)
  | publish (version : UInt8) (topic : GoString) (payload : List UInt8) (qos : UInt8)
      (retain : Bool) (packetID : UInt16)
  | suback (version : UInt8) (packetID : UInt16) (codes : List UInt8)
  | unsuback (version : UInt8) (packetID : UInt16) (reasons : List UInt8)
  | pingresp
  deriving DecidableEq

export Protocol (PublishPacket)

structure Conn where
  clientID : GoString
  version : UInt8
  state : ConnState
  writeQ : List Outbound
  writeQueueSize : Nat
  topicAliases : FinMap UInt16 GoString
  peerRecvMax : UInt16
  peerMaxPacketSize : UInt32
  negotiatedTopicAliasMax : UInt16
  deriving DecidableEq

namespace Conn

/-- The write queue takes one more packet. -/
def HasRoom (c : Conn) : Prop := c.state ≠ .closed ∧ c.writeQ.length < c.writeQueueSize

instance (c : Conn) : Decidable c.HasRoom := inferInstanceAs (Decidable (_ ∧ _))

/-- Enqueue is non-blocking: it drops the packet if the queue is full. -/
def enqueue (data : Outbound) (c : Conn) : Conn :=
  if c.HasRoom then { c with writeQ := c.writeQ ++ [data] } else c

theorem enqueue_eq (data : Outbound) (c : Conn) :
    c.enqueue data = { c with writeQ := (c.enqueue data).writeQ } := by
  rw [enqueue]
  split <;> rfl

def enqueuePubAck (t : AckType) (packetID : UInt16) (c : Conn) : Conn :=
  c.enqueue (.ack c.version t packetID)

/-- One turn of writeLoop. -/
def write (c : Conn) : Conn := { c with writeQ := c.writeQ.tail }

/-- resolvePublishTopic, with none for a protocol violation. -/
def resolvePublishTopic (pkt : PublishPacket) (c : Conn) : Option (GoString × Conn) :=
  if c.version ≠ Protocol.v50 then some (pkt.topic, c)
  else
    let max := c.negotiatedTopicAliasMax
    if pkt.topicAlias > 0 ∧ max > 0 ∧ pkt.topicAlias > max then none
    else if max = 0 ∧ pkt.topicAlias > 0 then none
    else if pkt.topic = [] then (c.topicAliases.get pkt.topicAlias).map fun prev => (prev, c)
    else if pkt.topicAlias > 0 ∧ max > 0 then
      some (pkt.topic, { c with topicAliases := c.topicAliases.set pkt.topicAlias pkt.topic })
    else some (pkt.topic, c)

theorem writeQ_enqueue (data : Outbound) (c : Conn) :
    (c.enqueue data).writeQ = c.writeQ ++ if c.HasRoom then [data] else [] := by
  simp only [enqueue]
  split_ifs
  · rfl
  · exact (List.append_nil _).symm

theorem resolvePublishTopic_conn {pkt : PublishPacket} {c c' : Conn} {topic : GoString}
    (h : c.resolvePublishTopic pkt = some (topic, c')) :
    c' = { c with topicAliases := c'.topicAliases } := by
  simp only [resolvePublishTopic] at h
  split_ifs at h
  · cases h
    rfl
  · obtain ⟨prev, -, hprev⟩ := Option.map_eq_some_iff.mp h
    cases hprev
    rfl
  · cases h
    rfl
  · cases h
    rfl

end Conn
end LumaBroker.Broker
