import LumaBroker.Broker.Connect
import LumaBroker.Broker.Publish
import LumaBroker.Lib.Transition

/-!
Inbound QoS 2 on one persistent session: PUBLISH stores a message under its packet ID
and PUBREL routes it. The events are the QoS 2 packets the session's connections
handle, reconnects that resume the session, and what else happens to the write queue.
The history of handled packets, with their resolved topics, is kept beside the state
to say what should have been routed.
-/

namespace LumaBroker.Broker.InboundQoS2

open Session Transition

/-- A packet handled on the session. -/
inductive Packet where
  | publish (id : UInt16) (call : PublishCall)
  | pubrel (id : UInt16)
  deriving DecidableEq

inductive Event where
  | publish (now : Nat) (pkt : PublishPacket)
  | pubrel (id : UInt16)
  | reconnect (now : Nat) (pkt : ConnectPacket)
  | enqueue (data : Outbound)
  | write

structure State where
  conn : Conn
  sess : Session
  calls : List PublishCall
  history : List Packet

/-- What of a PUBLISH goes on record: the packet, if it passes every check. -/
def recorded (env : PublishEnv) (now : Nat) (pkt : PublishPacket) (c : Conn) : List Packet :=
  match c.resolvePublishTopic pkt with
  | some (topic, c') =>
      if Accepted env now pkt c topic c' then
        [.publish pkt.packetID ⟨topic, pkt.payload, pkt.qos, pkt.retain⟩]
      else []
  | none => []

/-- A reconnect resumes the session: the CONNECT is not clean and the disconnect before it
did not purge. The server limits do not change. -/
def reconnected (topicAliasMax : UInt16) (now : Nat) (pkt : ConnectPacket) (s : State) :
    Option State :=
  let (sess, purge) := disconnectSession now s.sess
  if pkt.cleanSession ∨ purge then none
  else
    some { s with
      conn := pkt.newConn s.conn.clientID s.conn.writeQueueSize topicAliasMax true
      sess := pkt.connectSession now sess }

def step (env : PublishEnv) (topicAliasMax : UInt16) (s : State) : Event → Option State
  | .publish now pkt =>
      if pkt.qos ≠ 2 then none
      else
        (handlePublish env now pkt s.conn s.sess).map fun h =>
          { conn := h.answered, sess := h.sess, calls := s.calls ++ h.calls
            history := s.history ++ recorded env now pkt s.conn }
  | .pubrel id =>
      let h := handlePubrel id s.conn s.sess
      some { conn := h.answered, sess := h.sess, calls := s.calls ++ h.calls
             history := s.history ++ [.pubrel id] }
  | .reconnect now pkt => reconnected topicAliasMax now pkt s
  | .enqueue data => some { s with conn := s.conn.enqueue data }
  | .write => some { s with conn := s.conn.write }

/-- The packets since the last PUBREL of an ID. -/
def sinceRelease (id : UInt16) (history : List Packet) : List Packet :=
  (history.reverse.takeWhile fun p => p ≠ .pubrel id).reverse

/-- The first PUBLISH of an ID since its last PUBREL. -/
def firstSend (id : UInt16) (history : List Packet) : Option PublishCall :=
  (sinceRelease id history).findSome? fun
    | .publish j call => if j = id then some call else none
    | .pubrel _ => none

/-- The call due at one packet: at a PUBREL the first PUBLISH of its ID since the PUBREL
before, and none at any other packet. -/
def callAt (history : List Packet) (i : Nat) : Option PublishCall :=
  match history[i]? with
  | some (Packet.pubrel id) => firstSend id (history.take i)
  | _ => none

def expectedCalls (history : List Packet) : List PublishCall :=
  (List.range history.length).filterMap (callAt history)

theorem sinceRelease_append {id : UInt16} (history : List Packet) {p : Packet}
    (hp : p ≠ .pubrel id) : sinceRelease id (history ++ [p]) = sinceRelease id history ++ [p] := by
  simp [sinceRelease, hp]

theorem firstSend_publish (id : UInt16) (history : List Packet) (j : UInt16) (call : PublishCall) :
    firstSend id (history ++ [.publish j call]) =
      if j = id then (firstSend id history).or (some call) else firstSend id history := by
  rw [firstSend, sinceRelease_append history (by simp), List.findSome?_append]
  split_ifs with hj <;> simp [firstSend, hj]

theorem firstSend_pubrel (id : UInt16) (history : List Packet) (j : UInt16) :
    firstSend id (history ++ [.pubrel j]) = if j = id then none else firstSend id history := by
  by_cases hj : j = id
  · subst hj
    simp [firstSend, sinceRelease]
  · rw [firstSend, sinceRelease_append history (by simpa using hj), List.findSome?_append]
    simp [firstSend, hj]

theorem callAt_append {history : List Packet} {i : Nat} (hi : i < history.length) (p : Packet) :
    callAt (history ++ [p]) i = callAt history i := by
  rw [callAt, callAt, List.getElem?_append_left hi, List.take_append_of_le_length (Nat.le_of_lt hi)]

theorem expectedCalls_append (history : List Packet) (p : Packet) :
    expectedCalls (history ++ [p]) =
      expectedCalls history ++ (callAt (history ++ [p]) history.length).toList := by
  have hold : ∀ i ∈ List.range history.length, callAt (history ++ [p]) i = callAt history i :=
    fun i hi => callAt_append (List.mem_range.mp hi) p
  rw [expectedCalls, List.length_append, List.length_singleton, List.range_succ,
    List.filterMap_append, List.filterMap_congr hold]
  cases hlast : callAt (history ++ [p]) history.length <;> simp [expectedCalls, hlast]

/-- The in-flight table is the memory of the history, and the calls follow it. -/
structure Inv (s : State) : Prop where
  stored : ∀ id, (s.sess.inFlight.get id).map
    (fun m => (⟨m.topic, m.payload, m.qos, m.retain⟩ : PublishCall)) = firstSend id s.history
  calls : s.calls = expectedCalls s.history

theorem acceptPublish_qos2 {pkt : PublishPacket} (hqos : pkt.qos = 2) (env : PublishEnv)
    (topic : GoString) (now : Nat) (c : Conn) (sess : Session) :
    acceptPublish env topic now pkt c sess =
      ⟨c, storeInFlight topic now pkt sess, [], some (.pubrec, pkt.packetID),
        if env.clusterEnabled then [clusterMsg env topic pkt] else []⟩ := by
  simp [acceptPublish, hqos]

/-- The table after phase 1: an entry that is there stays. -/
theorem get_storeInFlight (topic : GoString) (now : Nat) (pkt : PublishPacket) (sess : Session)
    (id : UInt16) :
    (storeInFlight topic now pkt sess).inFlight.get id =
      if pkt.packetID = id then (sess.inFlight.get id).or (some (inFlightOf topic now pkt))
      else sess.inFlight.get id := by
  cases hget : sess.inFlight.get pkt.packetID with
  | none =>
      simp only [storeInFlight, getInFlight, hget, addInFlight, FinMap.get_set, inFlightOf]
      by_cases hid : pkt.packetID = id
      · subst hid
        simp [hget]
      · simp [hid, Ne.symm hid]
  | some m =>
      simp only [storeInFlight, getInFlight, hget]
      by_cases hid : pkt.packetID = id
      · subst hid
        simp [hget]
      · simp [hid]

theorem recorded_of_accepted {env : PublishEnv} {now : Nat} {pkt : PublishPacket} {c c' : Conn}
    {topic : GoString} (h : Accepted env now pkt c topic c') :
    recorded env now pkt c =
      [.publish pkt.packetID ⟨topic, pkt.payload, pkt.qos, pkt.retain⟩] := by
  simp only [recorded, h.1, if_pos h]

/-- A PUBLISH is recorded exactly when it is accepted, and leaves no trace otherwise. -/
theorem recorded_cases {env : PublishEnv} {now : Nat} {pkt : PublishPacket} {c : Conn}
    {sess : Session} {r : Handled} (hr : handlePublish env now pkt c sess = some r) :
    (recorded env now pkt c = [] ∧ r.calls = [] ∧ r.fanout = [] ∧ r.sess = sess) ∨
      ∃ topic c', Accepted env now pkt c topic c' ∧
        r = acceptPublish env topic now pkt c' sess := by
  cases handlePublish_cases hr with
  | inr hacc => exact .inr hacc
  | inl hnone =>
      obtain ⟨⟨topic, c'⟩, hres, -⟩ := Option.map_eq_some_iff.mp hr
      by_cases hacc : Accepted env now pkt c topic c'
      · refine .inr ⟨topic, c', hacc, ?_⟩
        rw [handlePublish_of_accepted sess hacc] at hr
        exact (Option.some.inj hr).symm
      · refine .inl ⟨?_, hnone⟩
        simp only [recorded, hres, if_neg hacc]

theorem inv_publish {env : PublishEnv} {topicAliasMax : UInt16} {s t : State} {now : Nat}
    {pkt : PublishPacket} (h : Inv s) (ht : step env topicAliasMax s (.publish now pkt) = some t) :
    Inv t := by
  simp only [step] at ht
  split_ifs at ht with hqos
  have hqos : pkt.qos = 2 := not_not.mp hqos
  obtain ⟨r, hr, rfl⟩ := Option.map_eq_some_iff.mp ht
  cases recorded_cases hr with
  | inl hnone =>
      obtain ⟨hrecorded, hcalls, -, hsess⟩ := hnone
      refine ⟨?_, ?_⟩
      · intro id
        simpa only [hrecorded, hsess, List.append_nil] using h.stored id
      · simpa only [hrecorded, hcalls, List.append_nil] using h.calls
  | inr hacc =>
      obtain ⟨topic, c', hacc, rfl⟩ := hacc
      rw [recorded_of_accepted hacc, acceptPublish_qos2 hqos]
      refine ⟨?_, ?_⟩
      · intro id
        simp only [get_storeInFlight, firstSend_publish, ← h.stored id]
        split_ifs with hid
        · cases s.sess.inFlight.get id <;> simp [inFlightOf]
        · rfl
      · have hlast : callAt (s.history ++
            [.publish pkt.packetID ⟨topic, pkt.payload, pkt.qos, pkt.retain⟩])
            s.history.length = none := by
          simp [callAt]
        simp only [expectedCalls_append, hlast, h.calls, Option.toList_none]

theorem inv_pubrel {s : State} (id : UInt16) (h : Inv s) :
    Inv { conn := (handlePubrel id s.conn s.sess).answered
          sess := (handlePubrel id s.conn s.sess).sess
          calls := s.calls ++ (handlePubrel id s.conn s.sess).calls
          history := s.history ++ [.pubrel id] } := by
  have hstored := h.stored id
  refine ⟨?_, ?_⟩
  · intro j
    rw [firstSend_pubrel, ← h.stored j]
    simp only [handlePubrel, ackInFlight, FinMap.get_erase]
    by_cases hj : id = j
    · simp [hj]
    · simp [hj, Ne.symm hj]
  · have hlast : callAt (s.history ++ [.pubrel id]) s.history.length =
        firstSend id s.history := by
      simp [callAt]
    rw [expectedCalls_append, hlast, ← hstored, ← h.calls]
    cases hget : s.sess.inFlight.get id <;> simp [handlePubrel, ackInFlight, hget]

theorem inv_step {env : PublishEnv} {topicAliasMax : UInt16} {s t : State} {e : Event}
    (h : Inv s) (ht : step env topicAliasMax s e = some t) : Inv t := by
  cases e with
  | publish now pkt => exact inv_publish h ht
  | pubrel id =>
      cases ht
      exact inv_pubrel id h
  | reconnect now pkt =>
      simp only [step, reconnected] at ht
      split_ifs at ht with hresumed
      cases ht
      have htables := (tables_connectSession pkt now (disconnectSession now s.sess).1).trans
        (tables_disconnectSession now s.sess)
      have hinFlight : (pkt.connectSession now (disconnectSession now s.sess).1).inFlight =
          s.sess.inFlight := congrArg Tables.inFlight htables
      refine ⟨?_, h.calls⟩
      intro id
      rw [← h.stored id, hinFlight]
  | enqueue data =>
      cases ht
      exact ⟨h.stored, h.calls⟩
  | write =>
      cases ht
      exact ⟨h.stored, h.calls⟩

/-- A session with no packet handled yet, on any connection. -/
structure Start (s : State) : Prop where
  inFlight : s.sess.inFlight = FinMap.empty
  calls : s.calls = []
  history : s.history = []

theorem inv_start {s : State} (h : Start s) : Inv s := by
  refine ⟨?_, ?_⟩
  · intro id
    rw [h.inFlight, h.history]
    rfl
  · rw [h.calls, h.history]
    rfl

theorem publish_answered {env : PublishEnv} (topicAliasMax : UInt16) {s : State} {now : Nat}
    {pkt : PublishPacket} {topic : GoString} {c' : Conn} (hqos : pkt.qos = 2)
    (hacc : Accepted env now pkt s.conn topic c') :
    ∃ t, step env topicAliasMax s (.publish now pkt) = some t ∧
      t.history = s.history ++
        [.publish pkt.packetID ⟨topic, pkt.payload, pkt.qos, pkt.retain⟩] ∧
      t.conn.writeQ = s.conn.writeQ ++
        if s.conn.HasRoom then [.ack s.conn.version .pubrec pkt.packetID] else [] := by
  have hconn := Conn.resolvePublishTopic_conn hacc.1
  have hstep : step env topicAliasMax s (.publish now pkt) = some
      { conn := Handled.answered ⟨c', storeInFlight topic now pkt s.sess, [],
          some (.pubrec, pkt.packetID),
          if env.clusterEnabled then [clusterMsg env topic pkt] else []⟩
        sess := storeInFlight topic now pkt s.sess
        calls := s.calls ++ []
        history := s.history ++
          [.publish pkt.packetID ⟨topic, pkt.payload, pkt.qos, pkt.retain⟩] } := by
    simp only [step, hqos, not_true_eq_false, ne_eq, if_false,
      handlePublish_of_accepted s.sess hacc, acceptPublish_qos2 hqos,
      recorded_of_accepted hacc, Option.map_some]
  refine ⟨_, hstep, rfl, ?_⟩
  change (c'.enqueue (.ack c'.version .pubrec pkt.packetID)).writeQ = _
  rw [hconn]
  exact Conn.writeQ_enqueue _ _

/-- The router sees each QoS 2 message once: the calls are those the history asks for. Every
PUBLISH is answered by a PUBREC and every PUBREL by a PUBCOMP of the same ID, which go to
the write queue as long as that has room. -/
theorem qos2_routed_once (env : PublishEnv) (topicAliasMax : UInt16) (s t : State)
    (events : List Event) (hstart : Start s)
    (hrun : run (step env topicAliasMax) events s = some t) :
    t.calls = expectedCalls t.history ∧
    (∀ now pkt topic c', pkt.qos = 2 → Accepted env now pkt t.conn topic c' →
      ∃ u, step env topicAliasMax t (.publish now pkt) = some u ∧
        u.history = t.history ++
          [.publish pkt.packetID ⟨topic, pkt.payload, pkt.qos, pkt.retain⟩] ∧
        u.conn.writeQ = t.conn.writeQ ++
          if t.conn.HasRoom then [.ack t.conn.version .pubrec pkt.packetID] else []) ∧
    ∀ id, ∃ u, step env topicAliasMax t (.pubrel id) = some u ∧
      u.history = t.history ++ [.pubrel id] ∧
      u.conn.writeQ = t.conn.writeQ ++
        if t.conn.HasRoom then [.ack t.conn.version .pubcomp id] else [] := by
  have hinv := preserved_run (fun _ _ _ h ht => inv_step h ht) (inv_start hstart) hrun
  refine ⟨hinv.calls, ?_, ?_⟩
  · intro now pkt topic c' hqos hacc
    exact publish_answered topicAliasMax hqos hacc
  · intro id
    exact ⟨_, rfl, rfl, Conn.writeQ_enqueue _ _⟩

/-- A persistent v3.1.1 client on a broker with the default write queue. -/
def connectV311 : ConnectPacket := ⟨Protocol.v311, false, 30, 0, 0, 0, 0, none⟩

def openBroker : PublishEnv where
  brokerID := str "b1"
  aclRules := Auth.loadDefaultACL
  onPublish := fun _ _ _ _ _ => true
  clusterEnabled := false
  partitions := Cluster.newManager (str "b1") 1

def justConnected : State where
  conn := connectV311.newConn (str "c1") 512 0 false
  sess := connectV311.connectSession 0 (Session.new (str "c1") false 0)
  calls := []
  history := []

theorem start_justConnected : Start justConnected := ⟨rfl, rfl, rfl⟩

def reading (dup : Bool) (payload : List UInt8) : PublishPacket :=
  ⟨dup, 2, false, str "t", 7, payload, 0, 0, 0⟩

/-- A first send, a resend on a new connection, the release twice, and the ID used anew. -/
def exchange : List Event :=
  [.publish 0 (reading false [1]), .reconnect 1 connectV311, .publish 2 (reading true [1]),
    .pubrel 7, .pubrel 7, .write, .publish 3 (reading false [2]), .pubrel 7]

theorem qos2_routed_once_exchange :
    ∃ t, run (step openBroker 0) exchange justConnected = some t ∧
      t.calls = expectedCalls t.history ∧
      t.calls = [⟨str "t", [1], 2, false⟩, ⟨str "t", [2], 2, false⟩] := by
  obtain ⟨t, hrun, hcalls⟩ := reaches_of_any (step openBroker 0) exchange justConnected
    (fun t => t.calls = [⟨str "t", [1], 2, false⟩, ⟨str "t", [2], 2, false⟩]) (by decide +kernel)
  exact ⟨t, hrun, (qos2_routed_once openBroker 0 justConnected t exchange start_justConnected
    hrun).1, hcalls⟩

/-- Deliveries the client does not read fill the write queue behind the CONNACK. -/
def slowReader : List Event :=
  List.replicate 511 (.enqueue (.publish Protocol.v311 (str "t") [0] 0 false 0))

/-- The PUBLISH is taken, but its PUBREC finds the queue full and is dropped. -/
theorem full_queue_drops_pubrec :
    ∃ t, run (step openBroker 0) (slowReader ++ [.publish 0 (reading false [1])]) justConnected =
        some t ∧
      t.history = [.publish 7 ⟨str "t", [1], 2, false⟩] ∧ t.conn.state = .connected ∧
      t.conn.writeQ.length = 512 ∧ Outbound.ack Protocol.v311 .pubrec 7 ∉ t.conn.writeQ :=
  reaches_of_any (step openBroker 0) _ justConnected
    (fun t => t.history = [.publish 7 ⟨str "t", [1], 2, false⟩] ∧ t.conn.state = .connected ∧
      t.conn.writeQ.length = 512 ∧ Outbound.ack Protocol.v311 .pubrec 7 ∉ t.conn.writeQ)
    (by decide +kernel)

end LumaBroker.Broker.InboundQoS2
