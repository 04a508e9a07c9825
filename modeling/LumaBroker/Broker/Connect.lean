import LumaBroker.Broker.Conn
import LumaBroker.Session.Store

/-!
What handleConnect of internal/broker/client.go takes from an accepted CONNECT, once
authentication and the plugins have let it pass: the negotiated limits and the
operations on the session, each a critical section of its own.
-/

namespace LumaBroker.Broker

open Session

/-- The fields of a decoded CONNECT that the session part reads. The will is present
when the will flag is set. -/
structure ConnectPacket where
  version : UInt8
  cleanSession : Bool
  keepAlive : UInt16
  sessionExpiryInterval : UInt32
  receiveMaximum : UInt16
  maximumPacketSize : UInt32
  topicAliasMaximum : UInt16
  will : Option Will
  deriving DecidableEq

namespace ConnectPacket

def expirySec (pkt : ConnectPacket) : UInt32 :=
  if pkt.version = Protocol.v50 then pkt.sessionExpiryInterval else 0

def peerRecvMax (pkt : ConnectPacket) : UInt16 :=
  if pkt.version = Protocol.v50 then pkt.receiveMaximum else 0

def peerMaxPacketSize (pkt : ConnectPacket) : UInt32 :=
  if pkt.version = Protocol.v50 then pkt.maximumPacketSize else 0

/-- The lower of the two limits, where a zero of the client does not count. -/
def negotiatedTopicAliasMax (topicAliasMax : UInt16) (pkt : ConnectPacket) : UInt16 :=
  if pkt.version = Protocol.v50 ∧ pkt.topicAliasMaximum > 0 ∧
      (topicAliasMax = 0 ∨ pkt.topicAliasMaximum < topicAliasMax) then
    pkt.topicAliasMaximum
  else topicAliasMax

def setWill (pkt : ConnectPacket) (s : Session) : Session :=
  match pkt.will with
  | some will => { s with will := will, willSet := true }
  | none => s

def setKeepAlive (pkt : ConnectPacket) (s : Session) : Session :=
  if pkt.keepAlive > 0 then s.setKeepAlive pkt.keepAlive else s

/-- What handleConnect does to the session it was given, step after step. -/
def connectSession (pkt : ConnectPacket) (now : Nat) (s : Session) : Session :=
  let s := s.clearDisconnectExpiry
  let s := s.setProtocolAndExpiry pkt.version pkt.cleanSession pkt.expirySec
  let s := pkt.setKeepAlive (pkt.setWill s)
  s.setConnected true now

/-- The connection at the end of handleConnect, with the CONNACK in its write queue. -/
def newConn (clientID : GoString) (writeQueueSize : Nat) (topicAliasMax : UInt16)
    (pkt : ConnectPacket) (present : Bool) : Conn :=
  Conn.enqueue (.connack pkt.version present)
    { clientID := clientID
      version := pkt.version
      state := .connected
      writeQ := []
      writeQueueSize := writeQueueSize
      topicAliases := FinMap.empty
      peerRecvMax := pkt.peerRecvMax
      peerMaxPacketSize := pkt.peerMaxPacketSize
      negotiatedTopicAliasMax := pkt.negotiatedTopicAliasMax topicAliasMax }

end ConnectPacket

/-- The part of cleanup that a persistent session sees, with true when it is purged. -/
def disconnectSession (now : Nat) (s : Session) : Session × Bool :=
  (s.setConnected false now).prepareDisconnectExpiry now

/-- The session after a DISCONNECT with its Session Expiry Interval, if it has one. -/
def handleDisconnect (expiry : Option UInt32) (s : Session) : Session :=
  match expiry with
  | some sec => updateSessionExpiryFromDisconnect sec s.clearWill
  | none => s.clearWill

/-- The messages a session is responsible for. -/
structure Tables where
  inFlight : FinMap UInt16 InFlight
  outFlight : FinMap UInt16 InFlight
  queue : List Queued
  cleanSession : Bool
  maxQueue : Nat

def tables (s : Session) : Tables := ⟨s.inFlight, s.outFlight, s.queue, s.cleanSession, s.maxQueue⟩

theorem tables_connectSession (pkt : ConnectPacket) (now : Nat) (s : Session) :
    tables (pkt.connectSession now s) = tables s := by
  have hprotocol (s : Session) : tables
      (s.setProtocolAndExpiry pkt.version pkt.cleanSession pkt.expirySec) = tables s := by
    rw [setProtocolAndExpiry_eq]
    rfl
  have hwill (s : Session) : tables (pkt.setWill s) = tables s := by
    simp only [ConnectPacket.setWill]
    split <;> rfl
  have hkeepAlive (s : Session) : tables (pkt.setKeepAlive s) = tables s := by
    simp only [ConnectPacket.setKeepAlive]
    split_ifs <;> rfl
  change tables (pkt.setKeepAlive (pkt.setWill _)) = tables s
  rw [hkeepAlive, hwill, hprotocol]
  rfl

theorem tables_disconnectSession (now : Nat) (s : Session) :
    tables (disconnectSession now s).1 = tables s := by
  rw [disconnectSession, prepareDisconnectExpiry_fst]
  rfl

theorem tables_handleDisconnect (expiry : Option UInt32) (s : Session) :
    tables (handleDisconnect expiry s) = tables s := by
  cases expiry <;> rfl

end LumaBroker.Broker
