import LumaBroker.Broker.InboundQoS2
import LumaBroker.Protocol.Codec

/-!
Which PUBLISH packets are acknowledged. The acknowledgment comes behind the calls of
Router.Publish, whose closures may have written to the same connection, and the queue of the
connection is emptied meanwhile; so it is enqueued on a connection of which only the version is
known.
-/

namespace LumaBroker.Broker

open Auth Session

def AckType.packetType : AckType → Protocol.PacketType
  | .puback => .puback
  | .pubrec => .pubrec
  | .pubrel => .pubrel
  | .pubcomp => .pubcomp

/-- The bytes enqueuePubAck hands to enqueue; none is a panic of the encoder. -/
def pubAckBytes (version : UInt8) (t : AckType) (packetID : UInt16) : Option (List UInt8) :=
  if version = Protocol.v50 then Protocol.encodeAckV5 t.packetType packetID 0x00 []
  else some (Protocol.encodeAck t.packetType packetID)

/-- The encoder never panics, and a reader finds the type and the identifier. The v5 form
has the reason code and an empty property section behind them. -/
theorem pubAckBytes_read (version : UInt8) (t : AckType) (packetID : UInt16) :
    ∃ out fh body, pubAckBytes version t packetID = some out ∧
      Protocol.readFixed out = .ok fh body ∧ fh.type = t.packetType ∧
      fh.remainingLength = body.length ∧ Protocol.decodePacketID body = .ok packetID () ∧
      body.drop 2 = if version = Protocol.v50 then [0, 0] else [] := by
  by_cases hv : version = Protocol.v50
  · refine ⟨_, _, _, ?_, Protocol.readFixed_ack t.packetType (n := 4) (by decide) _, rfl, rfl,
      Protocol.decodePacketID_bytes16 packetID [0, 0], ?_⟩
    · rw [pubAckBytes, if_pos hv, Protocol.encodeAckV5_plain]
    · rw [if_pos hv]
      rfl
  · refine ⟨_, _, _, ?_, Protocol.readFixed_ack t.packetType (n := 2) (by decide) _, rfl, rfl,
      Protocol.decodePacketID_bytes16 packetID [], ?_⟩
    · rw [pubAckBytes, if_neg hv]
      rfl
    · rw [if_neg hv]
      rfl

namespace PublishAck

def ackFor (qos : UInt8) : AckType := if qos = 1 then .puback else .pubrec

/-- The exits that acknowledge: a packet that has not expired, and is accepted by the
ACL and the plugins, or is denied at QoS 1. -/
def Answers (env : PublishEnv) (topic : GoString) (now : Nat) (pkt : PublishPacket) (c : Conn) :
    Prop :=
  messageExpired now pkt = false ∧
    if canPublish env.aclRules c.clientID topic then
      env.onPublish c.clientID topic pkt.payload pkt.qos pkt.retain = true
    else pkt.qos = 1

instance (env : PublishEnv) (topic : GoString) (now : Nat) (pkt : PublishPacket) (c : Conn) :
    Decidable (Answers env topic now pkt c) :=
  inferInstanceAs (Decidable (_ ∧ _))

section Answer
variable {env : PublishEnv} {now : Nat} {pkt : PublishPacket} (hqos : pkt.qos = 1 ∨ pkt.qos = 2)
include hqos

theorem answer_acceptPublish (topic : GoString) (c : Conn) (sess : Session) :
    (acceptPublish env topic now pkt c sess).answer = some (ackFor pkt.qos, pkt.packetID) := by
  rw [acceptPublish, ackFor]
  rcases hqos with hqos | hqos <;> rw [hqos] <;> rfl

/-- Every exit acknowledges once or not at all. -/
theorem answer_handlePublish {c : Conn} {sess : Session} {h : Handled}
    (hh : handlePublish env now pkt c sess = some h) :
    ∃ topic, c.resolvePublishTopic pkt = some (topic, h.conn) ∧
      h.answer = if Answers env topic now pkt c then some (ackFor pkt.qos, pkt.packetID)
        else none := by
  obtain ⟨topic, hres⟩ := handlePublish_conn hh
  refine ⟨topic, hres, ?_⟩
  have hid : h.conn.clientID = c.clientID := by rw [Conn.resolvePublishTopic_conn hres]
  rw [handlePublish, hres, Option.map_some, Option.some_inj] at hh
  rw [← hh]
  simp only [hid]
  cases hexp : messageExpired now pkt with
  | true => simp [Answers, hexp]
  | false =>
      cases hacl : canPublish env.aclRules c.clientID topic with
      | false => by_cases hone : pkt.qos = 1 <;> simp [Answers, hexp, hacl, hone, ackFor]
      | true =>
          cases hplugin : env.onPublish c.clientID topic pkt.payload pkt.qos pkt.retain with
          | false => simp [Answers, hexp, hacl, hplugin]
          | true => simp [Answers, hexp, hacl, hplugin, answer_acceptPublish hqos]

end Answer

/-- A PUBLISH with QoS 1 or 2 that is handled without error leaves exactly one more packet in
the write queue, the acknowledgment its QoS calls for with the ID of the packet, if and only if
it has not expired, its plugins accept what the ACL allows, what the ACL denies has QoS 1, and
the queue then has room. A reader finds type and ID in the bytes of this packet. -/
theorem publish_acknowledged_iff {env : PublishEnv} {now : Nat} {pkt : PublishPacket} {c : Conn}
    {sess : Session} {h : Handled} (hqos : pkt.qos = 1 ∨ pkt.qos = 2)
    (hh : handlePublish env now pkt c sess = some h) :
    ∃ topic, c.resolvePublishTopic pkt = some (topic, h.conn) ∧
      (∀ d : Conn, d.version = c.version →
        ((h.answerOn d).writeQ = d.writeQ ++ [.ack c.version (ackFor pkt.qos) pkt.packetID] ↔
          Answers env topic now pkt c ∧ d.HasRoom)) ∧
      ∃ out fh body, pubAckBytes c.version (ackFor pkt.qos) pkt.packetID = some out ∧
        Protocol.readFixed out = .ok fh body ∧ fh.type = (ackFor pkt.qos).packetType ∧
        fh.remainingLength = body.length ∧ Protocol.decodePacketID body = .ok pkt.packetID () := by
  obtain ⟨topic, hres, hanswer⟩ := answer_handlePublish hqos hh
  obtain ⟨out, fh, body, hout, hread, htype, hlength, hid, -⟩ :=
    pubAckBytes_read c.version (ackFor pkt.qos) pkt.packetID
  refine ⟨topic, hres, fun d hversion => ?_, out, fh, body, hout, hread, htype, hlength, hid⟩
  by_cases hans : Answers env topic now pkt c
  · have hqueue : (h.answerOn d).writeQ = d.writeQ ++
        if d.HasRoom then [.ack c.version (ackFor pkt.qos) pkt.packetID] else [] := by
      rw [Handled.answerOn, hanswer, if_pos hans, ← hversion]
      exact Conn.writeQ_enqueue _ d
    rw [hqueue, List.append_cancel_left_eq]
    by_cases hroom : d.HasRoom <;> simp [hans, hroom]
  · have hqueue : (h.answerOn d).writeQ = d.writeQ := by
      rw [Handled.answerOn, hanswer, if_neg hans]
    simp [hqueue, hans]

def message (topic : GoString) (qos : UInt8) (expiry : UInt32) : PublishPacket :=
  ⟨false, qos, false, topic, 7, [1], expiry, 0, 0⟩

open InboundQoS2 (openBroker justConnected)

theorem publish_acknowledged_denied :
    ∃ h, handlePublish openBroker 0 (message (str "$SYS/x") 1 0) justConnected.conn
        justConnected.sess = some h ∧
      (h.answerOn justConnected.conn).writeQ =
        justConnected.conn.writeQ ++ [.ack Protocol.v311 .puback 7] := by
  refine ⟨_, rfl, ?_⟩
  obtain ⟨topic, hres, hiff, -⟩ := @publish_acknowledged_iff openBroker 0
    (message (str "$SYS/x") 1 0) justConnected.conn justConnected.sess _ (.inl rfl) rfl
  cases hres
  exact (hiff justConnected.conn rfl).mpr (by decide)

/-- A connection whose queue nobody reads. -/
def slowConn : Conn :=
  { justConnected.conn with
    writeQ := List.replicate 512 (.publish Protocol.v311 (str "t") [0] 0 false 0) }

/-- Four packets that are handled without error and leave the connection as it was: QoS 2 on a
topic the ACL denies, where QoS 1 is answered; QoS 1 that a plugin rejects; QoS 1 that has
expired; and QoS 1 on a connection whose queue is full. -/
theorem publish_unacknowledged :
    ((handlePublish openBroker 0 (message (str "$SYS/x") 2 0) justConnected.conn
      justConnected.sess).map Handled.answered = some justConnected.conn) ∧
    ((handlePublish openBroker 0 (message (str "$SYS/x") 1 0) justConnected.conn
      justConnected.sess).map Handled.answered =
        some (justConnected.conn.enqueuePubAck .puback 7)) ∧
    ((handlePublish { openBroker with onPublish := fun _ _ _ _ _ => false } 0
      (message (str "t") 1 0) justConnected.conn justConnected.sess).map Handled.answered =
        some justConnected.conn) ∧
    ((handlePublish openBroker 2000000001 (message (str "t") 1 2) justConnected.conn
      justConnected.sess).map Handled.answered = some justConnected.conn) ∧
    (handlePublish openBroker 0 (message (str "t") 1 0) slowConn justConnected.sess).map
      Handled.answered = some slowConn := by
  decide +kernel

end PublishAck
end LumaBroker.Broker
