import LumaBroker.Broker.Connect
import LumaBroker.Lib.Transition
import LumaBroker.Session.PacketID

/-!
Outbound delivery: the closure of makeDeliverFn in internal/broker/client.go, the
offline queue it falls back on, and drainOfflineQueue, which feeds the queue through
the closure of a new connection. A session may have several connections that live,
drain or are closed side by side; each keeps its own closure.
-/

namespace LumaBroker.Broker

open Session

/-- ApproxClientOutboundPublishBytes of internal/protocol/packet.go. -/
def approxClientOutboundPublishBytes (version : UInt8) (topic : GoString) (payloadLen : Nat)
    (qos : UInt8) : Nat :=
  let topicLen := 2 + topic.length
  let pidLen := if qos > 0 then 2 else 0
  let propSection := if version = Protocol.v50 then 1 else 0
  1 + 4 + (topicLen + pidLen + propSection + payloadLen)

/-- What a call of the closure leaves behind: the PUBLISH it passed to enqueue, and the
message the offline queue had to drop. -/
structure Delivered where
  conn : Conn
  sess : Session
  handed : List Outbound
  evicted : List Queued

/-- The head of a full queue, which Enqueue drops. -/
def evictedBy (sess : Session) : List Queued :=
  if sess.cleanSession then []
  else if sess.queue.length ≥ sess.maxQueue then sess.queue.take 1
  else []

def qEnqueue (m : Queued) (c : Conn) (sess : Session) : Delivered :=
  ⟨c, (sess.enqueue m).1, [], evictedBy sess⟩

def sendPublish (m : Queued) (pid : UInt16) (c : Conn) (sess : Session) : Delivered :=
  let enc : Outbound := .publish c.version m.topic m.payload m.qos m.retain pid
  ⟨c.enqueue enc, sess, [enc], []⟩

def recvLim (c : Conn) : UInt16 := if c.version = Protocol.v50 then c.peerRecvMax else 0

/-- The part of the closure for QoS 1 and 2, once the packet ID is chosen. -/
def sendTracked (now : Nat) (m : Queued) (c : Conn) (pid : UInt16) (sess : Session) : Delivered :=
  let msg : InFlight := ⟨pid, m.topic, m.payload, m.qos, m.retain, now, .published⟩
  match sess.addOutFlightLimited msg (recvLim c) with
  | (sess, true) => sendPublish m pid c sess
  | (sess, false) => qEnqueue m c sess

/-- The closure of makeDeliverFn. None when no packet ID is free: NextPacketID then
never returns. -/
def deliver (now : Nat) (m : Queued) (c : Conn) (sess : Session) : Option Delivered :=
  let approx := approxClientOutboundPublishBytes c.version m.topic m.payload.length m.qos
  if c.state ≠ .connected then some (qEnqueue m c sess)
  else if c.peerMaxPacketSize > 0 ∧ UInt32.ofNat approx > c.peerMaxPacketSize then
    some (qEnqueue m c sess)
  else if m.qos = 0 then some (sendPublish m 0 c sess)
  else sess.nextPacketID.map fun (pid, sess) => sendTracked now m c pid sess

def ofInFlight (msg : InFlight) : Queued := ⟨msg.topic, msg.payload, msg.qos, msg.retain⟩

/-- The messages of the in-flight table. -/
def inFlightMessages (sess : Session) : List Queued :=
  sess.outFlight.entries.map fun e => ofInFlight e.2

/-- How often a session still answers for a message. -/
def held (sess : Session) (m : Queued) : Nat :=
  sess.queue.count m + (inFlightMessages sess).count m

theorem held_qEnqueue {sess : Session} (hclean : sess.cleanSession = false) (m x : Queued)
    (c : Conn) :
    held (qEnqueue m c sess).sess x + (qEnqueue m c sess).evicted.count x =
      held sess x + [m].count x := by
  have hsplit : (sess.queue.take 1).count x + sess.queue.tail.count x = sess.queue.count x := by
    rw [← List.count_append, ← List.drop_one, List.take_append_drop]
  simp only [qEnqueue, held, enqueue, evictedBy, hclean, inFlightMessages, Bool.false_eq_true,
    if_false]
  split_ifs with hfull
  · rw [List.count_append]
    omega
  · rw [List.count_append, List.count_nil]
    omega

theorem count_inFlightMessages_set {sess : Session} {pid : UInt16} (msg : InFlight)
    (hfree : sess.outFlight.get pid = none) (x : Queued) :
    (inFlightMessages { sess with outFlight := sess.outFlight.set pid msg }).count x =
      (inFlightMessages sess).count x + [ofInFlight msg].count x := by
  have hperm := (sess.outFlight.entries_set_perm pid msg).map fun e => ofInFlight e.2
  rw [FinMap.erase_of_get_none hfree, List.map_cons] at hperm
  rw [inFlightMessages, hperm.count_eq, inFlightMessages, List.count_cons, List.count_singleton]

theorem count_inFlightMessages_erase {sess : Session} {id : UInt16} {msg : InFlight}
    (hget : sess.outFlight.get id = some msg) (x : Queued) :
    (inFlightMessages { sess with outFlight := sess.outFlight.erase id }).count x +
      [ofInFlight msg].count x = (inFlightMessages sess).count x := by
  have hperm := (FinMap.entries_erase_perm hget).map fun e => ofInFlight e.2
  rw [List.map_cons] at hperm
  rw [List.count_singleton, inFlightMessages, inFlightMessages, hperm.count_eq, List.count_cons]

/-- The phase of a QoS 2 exchange is not part of the message. -/
theorem count_inFlightMessages_phase (sess : Session) (id : UInt16) (phase : QoS2Phase)
    (x : Queued) :
    (inFlightMessages (sess.setOutFlightPhase id phase)).count x =
      (inFlightMessages sess).count x := by
  cases hget : sess.outFlight.get id with
  | none => simp only [setOutFlightPhase, hget]
  | some msg =>
      have herase := count_inFlightMessages_erase hget x
      have hperm := (sess.outFlight.entries_set_perm id { msg with qos2Phase := phase }).map
        fun e => ofInFlight e.2
      rw [← herase, List.count_singleton]
      simp only [setOutFlightPhase, hget]
      rw [inFlightMessages, hperm.count_eq, List.map_cons, List.count_cons]
      rfl

/-- The in-flight table grows only by messages that were passed on as a PUBLISH. -/
def Accounted (sess sess' : Session) (handed : List Outbound) : Prop :=
  ∀ id msg, sess'.outFlight.get id = some msg → sess.outFlight.get id = some msg ∨
    ∃ version, Outbound.publish version msg.topic msg.payload msg.qos msg.retain id ∈ handed

theorem accounted_qEnqueue (m : Queued) (c : Conn) (sess : Session) :
    Accounted sess (qEnqueue m c sess).sess (qEnqueue m c sess).handed := by
  intro id msg hmsg
  refine .inl ?_
  rw [qEnqueue, enqueue_fst] at hmsg
  exact hmsg

/-- What a call of the closure with a message keeps: the message is in the queue or in the
in-flight table afterwards, and only the head of a full queue has gone. -/
structure Kept (m : Queued) (sess : Session) (r : Delivered) : Prop where
  count : ∀ x : Queued, x.qos ≠ 0 → held r.sess x + r.evicted.count x = held sess x + [m].count x
  persistent : r.sess.cleanSession = false
  accounted : Accounted sess r.sess r.handed

theorem kept_qEnqueue {sess : Session} (hclean : sess.cleanSession = false) (m : Queued)
    (c : Conn) : Kept m sess (qEnqueue m c sess) where
  count x _ := held_qEnqueue hclean m x c
  persistent := (apply_enqueue cleanSession (fun _ _ => rfl) m sess).trans hclean
  accounted := accounted_qEnqueue m c sess

theorem kept_sendTracked {now : Nat} {m : Queued} {c : Conn} {pid : UInt16} {sess : Session}
    (hclean : sess.cleanSession = false) (hqos : m.qos ≠ 0)
    (hfree : sess.outFlight.get pid = none) : Kept m sess (sendTracked now m c pid sess) := by
  let msg : InFlight := ⟨pid, m.topic, m.payload, m.qos, m.retain, now, .published⟩
  cases @addOutFlightLimited_cases msg hqos (recvLim c) sess with
  | inl hrefused =>
      simp only [sendTracked, hrefused, msg]
      exact kept_qEnqueue hclean m c
  | inr hadded =>
      simp only [sendTracked, hadded, msg]
      refine ⟨?_, hclean, ?_⟩
      · intro x _
        have hcount := count_inFlightMessages_set msg hfree x
        change sess.queue.count x + (inFlightMessages
          { sess with outFlight := sess.outFlight.set pid msg }).count x + 0 =
            sess.queue.count x + (inFlightMessages sess).count x + [ofInFlight msg].count x
        omega
      · intro id msg' hmsg
        change (sess.outFlight.set pid msg).get id = some msg' at hmsg
        rw [FinMap.get_set] at hmsg
        split_ifs at hmsg with hid
        · cases hmsg
          refine .inr ⟨c.version, ?_⟩
          rw [hid]
          exact List.mem_singleton_self _
        · exact .inl hmsg

theorem kept_deliver {now : Nat} {m : Queued} {c : Conn} {sess : Session} {r : Delivered}
    (hclean : sess.cleanSession = false) (h : deliver now m c sess = some r) : Kept m sess r := by
  simp only [deliver] at h
  split_ifs at h with hstate hsize hqos
  · cases h
    exact kept_qEnqueue hclean m c
  · cases h
    exact kept_qEnqueue hclean m c
  · -- QoS 0 is not tracked
    cases h
    refine ⟨?_, hclean, fun _ _ hmsg => .inl hmsg⟩
    intro x hx
    have hne : m ≠ x := by
      intro hmx
      exact hx (hmx ▸ hqos)
    simp [sendPublish, hne]
  · obtain ⟨⟨pid, sess'⟩, hnext, rfl⟩ := Option.map_eq_some_iff.mp h
    obtain ⟨hfree, n, rfl⟩ := nextPacketID_spec hnext
    have hkept := @kept_sendTracked now m c pid { sess with nextPktID := n } hclean hqos hfree
    exact ⟨hkept.count, hkept.persistent, hkept.accounted⟩

/-- The closure returns unless every packet ID is in use. -/
theorem deliver_isSome {sess : Session} {id : UInt16} (hid : id ≠ 0)
    (hfree : sess.outFlight.get id = none) (now : Nat) (m : Queued) (c : Conn) :
    (deliver now m c sess).isSome := by
  simp only [deliver]
  split_ifs
  · rfl
  · rfl
  · rfl
  · rw [Option.isSome_map]
    exact nextPacketID_isSome hid hfree

end LumaBroker.Broker
