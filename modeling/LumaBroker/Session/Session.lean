import LumaBroker.Go.Strings
import LumaBroker.Lib.SortedMap

/-!
The client session of internal/session/session.go: connection state, the in-flight
tables of both directions and the offline queue. Each function is one critical
section of the source. Times are nanoseconds, and none is the zero time.
-/

namespace LumaBroker

instance uint16LinearOrder : LinearOrder UInt16 where
  le_refl a := UInt16.le_refl a
  le_trans _ _ _ := UInt16.le_trans
  le_antisymm _ _ := UInt16.le_antisymm
  le_total := UInt16.le_total
  lt_iff_le_not_ge _ _ := by
    rw [UInt16.not_le]
    exact ⟨fun h => ⟨UInt16.le_of_lt h, h⟩, And.right⟩
  toDecidableLE a b := inferInstanceAs (Decidable (a ≤ b))
  toDecidableEq a b := inferInstanceAs (Decidable (a = b))
  toDecidableLT a b := inferInstanceAs (Decidable (a < b))

namespace Session

def mqttProtoV50 : UInt8 := 5

inductive QoS2Phase where
  | published
  | received
  | released
  deriving DecidableEq

/-- A QoS 1 or 2 message awaiting acknowledgment. -/
structure InFlight where
  packetID : UInt16
  topic : GoString
  payload : List UInt8
  qos : UInt8
  retain : Bool
  sentAt : Nat
  qos2Phase : QoS2Phase
  deriving DecidableEq

/-- A message stored for an offline persistent-session client. -/
structure Queued where
  topic : GoString
  payload : List UInt8
  qos : UInt8
  retain : Bool
  deriving DecidableEq

structure Will where
  topic : GoString
  payload : List UInt8
  qos : UInt8
  retain : Bool
  deriving DecidableEq

def defaultMaxQueue : Nat := 1000

end Session

structure Session where
  clientID : GoString
  cleanSession : Bool
  connected : Bool
  connectedAt : Nat
  lastSeen : Nat
  keepAlive : UInt16
  protocolLevel : UInt8
  sessionExpirySec : UInt32
  disconnectExpireAt : Option Nat
  will : Session.Will
  willSet : Bool
  nextPktID : UInt32
  outFlight : FinMap UInt16 Session.InFlight
  inFlight : FinMap UInt16 Session.InFlight
  queue : List Session.Queued
  maxQueue : Nat
  deriving DecidableEq

namespace Session

def new (clientID : GoString) (cleanSession : Bool) (now : Nat) : Session where
  clientID := clientID
  cleanSession := cleanSession
  connected := false
  connectedAt := now
  lastSeen := now
  keepAlive := 0
  protocolLevel := 0
  sessionExpirySec := 0
  disconnectExpireAt := none
  will := ⟨[], [], 0, false⟩
  willSet := false
  nextPktID := 0
  outFlight := FinMap.empty
  inFlight := FinMap.empty
  queue := []
  maxQueue := defaultMaxQueue

def setConnected (c : Bool) (now : Nat) (s : Session) : Session :=
  { s with connected := c, lastSeen := now, connectedAt := if c then now else s.connectedAt }

def setKeepAlive (ka : UInt16) (s : Session) : Session := { s with keepAlive := ka }

def clearDisconnectExpiry (s : Session) : Session := { s with disconnectExpireAt := none }

def setProtocolAndExpiry (version : UInt8) (cleanSession : Bool) (sessionExpirySec : UInt32)
    (s : Session) : Session :=
  let s := { s with protocolLevel := version }
  if version = mqttProtoV50 ∧ cleanSession = false then
    { s with sessionExpirySec := sessionExpirySec }
  else if cleanSession then { s with sessionExpirySec := 0, disconnectExpireAt := none }
  else s

def updateSessionExpiryFromDisconnect (sec : UInt32) (s : Session) : Session :=
  { s with sessionExpirySec := sec }

/-- PrepareDisconnectExpiry, with true when the session must be purged at once. -/
def prepareDisconnectExpiry (now : Nat) (s : Session) : Session × Bool :=
  if s.cleanSession = true ∨ s.protocolLevel ≠ mqttProtoV50 then (s, false)
  else if s.sessionExpirySec = 0 then ({ s with disconnectExpireAt := none }, true)
  else if s.sessionExpirySec = 0xFFFFFFFF then ({ s with disconnectExpireAt := none }, false)
  else
    ({ s with disconnectExpireAt := some (now + s.sessionExpirySec.toNat * 1000000000) }, false)

def shouldExpireDisconnected (now : Nat) (s : Session) : Bool :=
  if s.connected || s.cleanSession then false
  else s.disconnectExpireAt.any fun deadline => deadline ≤ now

/-- The will of a graceful or taken-over connection is not published. -/
def clearWill (s : Session) : Session := { s with willSet := false }

/-- The messages that AddOutFlightLimited counts. -/
def inFlightCount (s : Session) : Nat :=
  (s.outFlight.entries.filter fun e => e.2.qos > 0).length

/-- AddOutFlightLimited, under the client's Receive Maximum; 0 is unlimited. -/
def addOutFlightLimited (msg : InFlight) (receiveMax : UInt16) (s : Session) : Session × Bool :=
  if msg.qos = 0 then (s, true)
  else
    let n := s.inFlightCount
    if receiveMax > 0 ∧ n ≥ receiveMax.toNat then (s, false)
    else ({ s with outFlight := s.outFlight.set msg.packetID msg }, true)

def ackOutFlight (id : UInt16) (s : Session) : Session × Option InFlight :=
  ({ s with outFlight := s.outFlight.erase id }, s.outFlight.get id)

def setOutFlightPhase (id : UInt16) (phase : QoS2Phase) (s : Session) : Session :=
  match s.outFlight.get id with
  | some msg => { s with outFlight := s.outFlight.set id { msg with qos2Phase := phase } }
  | none => s

def addInFlight (msg : InFlight) (s : Session) : Session :=
  { s with inFlight := s.inFlight.set msg.packetID msg }

def getInFlight (id : UInt16) (s : Session) : Option InFlight := s.inFlight.get id

def ackInFlight (id : UInt16) (s : Session) : Session × Option InFlight :=
  ({ s with inFlight := s.inFlight.erase id }, s.inFlight.get id)

/-- Enqueue drops the oldest message of a full queue, and drops the message itself
for a clean session. -/
def enqueue (msg : Queued) (s : Session) : Session × Bool :=
  if s.cleanSession then (s, false)
  else
    let queue := if s.queue.length ≥ s.maxQueue then s.queue.tail else s.queue
    ({ s with queue := queue ++ [msg] }, true)

def drainQueue (s : Session) : Session × List Queued := ({ s with queue := [] }, s.queue)

def queueLen (s : Session) : Nat := s.queue.length

theorem enqueue_of_clean {s : Session} (h : s.cleanSession = true) (msg : Queued) :
    s.enqueue msg = (s, false) := by
  rw [enqueue, if_pos h]

theorem enqueue_of_persistent {s : Session} (h : s.cleanSession = false) (msg : Queued) :
    s.enqueue msg =
      ({ s with queue := (if s.queue.length ≥ s.maxQueue then s.queue.tail else s.queue) ++ [msg] },
        true) := by
  rw [enqueue, if_neg (Bool.eq_false_iff.mp h)]

section Frames

theorem setProtocolAndExpiry_eq (version : UInt8) (cleanSession : Bool) (sec : UInt32)
    (s : Session) :
    s.setProtocolAndExpiry version cleanSession sec =
      { s with
        protocolLevel := version
        sessionExpirySec := (s.setProtocolAndExpiry version cleanSession sec).sessionExpirySec
        disconnectExpireAt :=
          (s.setProtocolAndExpiry version cleanSession sec).disconnectExpireAt } := by
  rw [setProtocolAndExpiry]
  dsimp only
  split
  · rfl
  · split <;> rfl

theorem prepareDisconnectExpiry_fst (now : Nat) (s : Session) :
    (s.prepareDisconnectExpiry now).1 =
      { s with disconnectExpireAt := (s.prepareDisconnectExpiry now).1.disconnectExpireAt } := by
  rw [prepareDisconnectExpiry]
  split
  · rfl
  · split
    · rfl
    · split <;> rfl

theorem addOutFlightLimited_fst (msg : InFlight) (receiveMax : UInt16) (s : Session) :
    (s.addOutFlightLimited msg receiveMax).1 =
      { s with outFlight := (s.addOutFlightLimited msg receiveMax).1.outFlight } := by
  rw [addOutFlightLimited]
  split
  · rfl
  · dsimp only
    split <;> rfl

theorem setOutFlightPhase_eq (id : UInt16) (phase : QoS2Phase) (s : Session) :
    s.setOutFlightPhase id phase =
      { s with outFlight := (s.setOutFlightPhase id phase).outFlight } := by
  rw [setOutFlightPhase]
  split <;> rfl

theorem enqueue_fst (msg : Queued) (s : Session) :
    (s.enqueue msg).1 = { s with queue := (s.enqueue msg).1.queue } := by
  rw [enqueue]
  split <;> rfl

/-- What does not depend on the queue is the same after Enqueue. -/
theorem apply_enqueue {β : Type} (f : Session → β)
    (hf : ∀ s queue, f { s with queue := queue } = f s) (msg : Queued) (s : Session) :
    f (s.enqueue msg).1 = f s := by
  rw [enqueue_fst, hf]

end Frames

theorem inFlightCount_set {s : Session} {pid : UInt16} (hfree : s.outFlight.get pid = none)
    (msg : InFlight) :
    inFlightCount { s with outFlight := s.outFlight.set pid msg } =
      s.inFlightCount + if msg.qos > 0 then 1 else 0 := by
  have hperm := s.outFlight.entries_set_perm pid msg
  rw [FinMap.erase_of_get_none hfree] at hperm
  rw [inFlightCount, inFlightCount, (hperm.filter _).length_eq, List.filter_cons]
  simp only [decide_eq_true_eq]
  split_ifs <;> rfl

theorem inFlightCount_erase {s : Session} {id : UInt16} {msg : InFlight}
    (hget : s.outFlight.get id = some msg) :
    s.inFlightCount = inFlightCount { s with outFlight := s.outFlight.erase id } +
      if msg.qos > 0 then 1 else 0 := by
  have hperm := FinMap.entries_erase_perm hget
  rw [inFlightCount, inFlightCount, (hperm.filter _).length_eq, List.filter_cons]
  simp only [decide_eq_true_eq]
  split_ifs <;> rfl

theorem addOutFlightLimited_cases {msg : InFlight} (hqos : msg.qos ≠ 0) (receiveMax : UInt16)
    (s : Session) :
    s.addOutFlightLimited msg receiveMax = (s, false) ∨
      s.addOutFlightLimited msg receiveMax =
        ({ s with outFlight := s.outFlight.set msg.packetID msg }, true) := by
  simp only [addOutFlightLimited, hqos, if_false]
  split_ifs
  · exact .inl rfl
  · exact .inr rfl

end Session
end LumaBroker
