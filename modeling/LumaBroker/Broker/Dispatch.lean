import LumaBroker.Broker.Handshake
import LumaBroker.Broker.Subscribe

/-!
The packet dispatcher of internal/broker/client.go: every packet a connection can send, from
its bytes on, on the state of the whole broker. The answers go to the write queue of the
connection where the handler enqueues them; only the last packet of a connection that ends, the
CONNACK of a refusal or the DISCONNECT of the rate limiter, is left out.
-/

namespace LumaBroker.Broker

open Auth Session

/-- What a packet meets besides its bytes. The message expiry is checked at a time of its
own, and allow is the answer of the rate limiter. -/
structure HandleEnv where
  handshake : HandshakeEnv
  checkedAt : Nat
  brokerID : GoString
  clusterEnabled : Bool
  partitions : Cluster.Manager
  serverMaximumQoS : Int
  onPublish : GoString → GoString → List UInt8 → UInt8 → Bool → Bool
  onSubscribe : GoString → GoString → UInt8 → Bool
  allow : Bool

/-- A topic that the broker takes from a client, with the rules at that time. -/
structure Acceptance where
  rules : List ACLRule
  clientID : GoString
  topic : GoString
  deriving DecidableEq

/-- The Router.Publish calls of a packet, the topics it is accepted with, and the broker
after it with whether the read loop goes on; none when the handler does not return. -/
structure Reply where
  calls : List PublishCall
  accepts : List Acceptance
  next : Option (Bool × BrokerState)

namespace Reply

def goOn (b : BrokerState) : Reply := ⟨[], [], some (true, b)⟩

def ended (b : BrokerState) : Reply := ⟨[], [], some (false, b)⟩

def stuck : Reply := ⟨[], [], none⟩

end Reply

namespace BrokerState

def publishEnv (env : HandleEnv) (b : BrokerState) : PublishEnv :=
  ⟨env.brokerID, b.authn.aclRules, env.onPublish, env.clusterEnabled, env.partitions⟩

def subscribeEnv (env : HandleEnv) (i : Nat) (b : BrokerState) : SubscribeEnv Nat :=
  ⟨(b.conns i).conn.clientID, (b.conns i).conn.version, env.serverMaximumQoS, b.authn.aclRules,
    env.onSubscribe, i⟩

def setConn (i : Nat) (c : Conn) (b : BrokerState) : BrokerState :=
  b.setClient i { b.conns i with conn := c }

/-- A method call on a connection. -/
def modifyConn (i : Nat) (f : Conn → Conn) (b : BrokerState) : BrokerState :=
  b.setConn i (f (b.conns i).conn)

/-- A decoded packet goes to the handler with the session of the connection. -/
def withPacket {σ α : Type} (i : Nat) (b : BrokerState)
    (decoded : Faulting.Outcome Protocol.DecodeError σ α) (handler : α → Ptr → Reply) : Reply :=
  match decoded, (b.conns i).sess with
  | .ok a _, some p => handler a p
  | .error _, _ => .ended b
  | _, _ => .stuck

/-- The will of an accepted CONNECT is taken without a look at the rules. -/
def connectPacket (env : HandleEnv) (i : Nat) (body : List UInt8) (b : BrokerState) : Reply :=
  match b.handleConnect env.handshake i body with
  | .accepted _ b' =>
      let will := (decodedConnect body).bind fun pkt => (sessionPart pkt).will
      let accepts :=
        will.toList.map fun w => ⟨b.authn.aclRules, (b'.conns i).conn.clientID, w.topic⟩
      ⟨[], accepts, some (true, b')⟩
  | .refused _ _ b' => .ended b'
  | .panicked => .stuck

/-- The topic with which a PUBLISH passes every check. -/
def publishAccepts (env : HandleEnv) (pkt : PublishPacket) (c : Conn) (b : BrokerState) :
    List Acceptance :=
  match c.resolvePublishTopic pkt with
  | some (topic, c') =>
      if Accepted (b.publishEnv env) env.checkedAt pkt c topic c' then
        [⟨b.authn.aclRules, c'.clientID, topic⟩]
      else []
  | none => []

/-- A handler writes its session and its aliases, calls Router.Publish and acknowledges. -/
def handled (env : HandleEnv) (i : Nat) (p : Ptr) (h : Handled) (accepts : List Acceptance)
    (b : BrokerState) : Reply :=
  let b' := (b.modifySession p fun _ => h.sess).setConn i h.conn
  ⟨h.calls, accepts,
    (b'.routeAll env.checkedAt h.calls).map fun b => (true, b.modifyConn i h.answerOn)⟩

def publishPacket (env : HandleEnv) (i : Nat) (pkt : PublishPacket) (p : Ptr) (b : BrokerState) :
    Reply :=
  let c := (b.conns i).conn
  match handlePublish (b.publishEnv env) env.checkedAt pkt c (b.sessions.heap p) with
  | none => .ended b
  | some h => b.handled env i p h (b.publishAccepts env pkt c)

def pubrelPacket (env : HandleEnv) (i : Nat) (id : UInt16) (p : Ptr) (b : BrokerState) : Reply :=
  b.handled env i p (handlePubrel id (b.conns i).conn (b.sessions.heap p)) []

/-- The entries that a SUBSCRIBE brings to handleSubscribe. -/
def subscribeEntries (i : Nat) (body : List UInt8) (b : BrokerState) : List SubscribeEntry :=
  match Protocol.decodeSubscribe (b.conns i).conn.version body, (b.conns i).sess with
  | .ok pkt _, some _ => entriesOf pkt.2
  | _, _ => []

/-- The session after a DISCONNECT. -/
def disconnectWith (pkt : Protocol.DisconnectPacket) (s : Session) : Session :=
  handleDisconnect (if pkt.hasSessionExpiryProp then some pkt.sessionExpiryInterval else none) s

theorem willSet_disconnectWith (pkt : Protocol.DisconnectPacket) (s : Session) :
    (disconnectWith pkt s).willSet = false := by
  rw [disconnectWith]
  split <;> rfl

/-- The switch of handle. -/
def dispatch (env : HandleEnv) (i : Nat) (fh : Protocol.FixedHeader) (body : List UInt8)
    (b : BrokerState) : Reply :=
  let c := (b.conns i).conn
  match fh.type with
  | .connect => b.connectPacket env i body
  | .publish =>
      b.withPacket i (Protocol.decodePublish c.version env.handshake.now fh body) fun pkt p =>
        b.publishPacket env i pkt p
  | .puback | .pubcomp =>
      b.withPacket i (Protocol.decodePacketID body) fun id p =>
        .goOn (b.modifySession p fun s => (s.ackOutFlight id).1)
  | .pubrec =>
      b.withPacket i (Protocol.decodePacketID body) fun id p =>
        .goOn ((b.modifySession p fun s => s.setOutFlightPhase id .received).modifyConn i
          (Conn.enqueuePubAck .pubrel id))
  | .pubrel => b.withPacket i (Protocol.decodePacketID body) fun id p => b.pubrelPacket env i id p
  | .subscribe =>
      b.withPacket i (Protocol.decodeSubscribe c.version body) fun pkt _ =>
        let r := handleSubscribe (b.subscribeEnv env i) (entriesOf pkt.2) b.router
        .goOn ({ b with router := r.2 }.modifyConn i (Conn.enqueue (.suback c.version pkt.1 r.1)))
  | .unsubscribe =>
      b.withPacket i (Protocol.decodeUnsubscribe c.version body) fun pkt _ =>
        let r := unsubscribeFilters (b.subscribeEnv env i) pkt.2 b.router
        .goOn ({ b with router := r.2 }.modifyConn i (Conn.enqueue (.unsuback c.version pkt.1 r.1)))
  | .pingreq =>
      match (b.conns i).sess with
      | some p =>
          .goOn ((b.modifyConn i (Conn.enqueue .pingresp)).modifySession p fun s =>
            { s with lastSeen := env.handshake.now })
      | none => .stuck
  | .disconnect =>
      match Protocol.decodeDisconnect c.version body with
      | .ok pkt _ =>
          .ended ((b.conns i).sess.elim b fun p => b.modifySession p (disconnectWith pkt))
      | .error _ => .ended b
      | _ => .stuck
  | .reserved | .connack | .suback | .unsuback | .pingresp | .auth => .ended b

/-- One turn of the read loop with a packet that has been read: only a CONNECT may come
first, and the limiter is asked once the connection has an ID. -/
def handle (env : HandleEnv) (i : Nat) (fh : Protocol.FixedHeader) (body : List UInt8)
    (b : BrokerState) : Reply :=
  let c := (b.conns i).conn
  if c.state = .handshaking ∧ fh.type ≠ .connect then .ended b
  else if c.clientID ≠ [] ∧ env.allow = false then .ended b
  else b.dispatch env i fh body

end BrokerState

end LumaBroker.Broker
