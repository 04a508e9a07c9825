import LumaBroker.Broker.Frame
import LumaBroker.Protocol.Publish

/-!
Which topics the broker routes for its clients. They enter through PUBLISH, through the
alias table of a connection and through the will of a CONNECT, and leave at once, with a
PUBREL on the same session, or when a connection is cleaned up. Connections come and go and
share sessions; everything else the broker does happens in between.
-/

namespace LumaBroker.Broker.Routed

open Auth Session

/-- A connection reads packets, has left its read loop, or is cleaned up. -/
inductive Phase where
  | reading
  | ending
  | finished
  deriving DecidableEq

/-- The broker, the connections so far, and the topics that were accepted, with the rules
that were in force. -/
structure World where
  broker : BrokerState
  opened : Nat
  phase : Nat → Phase
  accepted : List Acceptance

inductive Event where
  /-- A new connection. -/
  | accept (remoteAddr : GoString) (cert : Option Certificate) (writeQueueSize : Nat)
  | packet (env : HandleEnv) (i : Nat) (fh : Protocol.FixedHeader) (body : List UInt8)
  /-- The read loop ends without a packet: the socket is closed, a deadline passes or a
  packet is too large. -/
  | readError (i : Nat)
  | cleanup (now i : Nat)
  /-- The goroutines of a connection, and the deliveries of retained messages. -/
  | drainOfflineQueue (now i : Nat)
  | restoreSession (i : Nat) (subs : List (GoString × UInt8))
  | deliver (now : Nat) (d : Router.Delivery Nat)
  | writeLoop (i : Nat) (writeQ : List Outbound)
  /-- Messages that the broker routes for the HTTP interface and for other brokers. -/
  | route (now : Nat) (call : PublishCall)
  | sessionExpirySweep (now : Nat)
  | addACLRule (rule : ACLRule)

def newClient (remoteAddr : GoString) (cert : Option Certificate) (writeQueueSize : Nat) :
    Client where
  conn :=
    { clientID := []
      version := 0
      state := .handshaking
      writeQ := []
      writeQueueSize := writeQueueSize
      topicAliases := FinMap.empty
      peerRecvMax := 0
      peerMaxPacketSize := 0
      negotiatedTopicAliasMax := 0 }
  username := []
  sess := none
  remoteAddr := remoteAddr
  cert := cert
  socketOpen := true

/-- A broker that has just been started, with any rules and any retained messages. -/
def start (authn : Authenticator) (router : Router Nat) : World where
  broker :=
    { authn := authn
      conns := fun _ => newClient [] none 0
      clients := FinMap.empty
      sessions := Store.newStore
      router := router
      activeConnections := 0
      activeSessions := 0 }
  opened := 0
  phase _ := .finished
  accepted := []

def drainOfflineQueue (now i : Nat) (b : BrokerState) : Option BrokerState :=
  (b.conns i).sess.bind fun p =>
    let (sess, msgs) := (b.sessions.heap p).drainQueue
    let calls := msgs.map fun m =>
      ({ clientID := (b.conns i).conn.clientID, deliver := i, topic := m.topic, payload := m.payload
         qos := m.qos, retain := m.retain, packetID := 0 } : Router.Delivery Nat)
    Transition.run (BrokerState.runDelivery now) calls (b.modifySession p fun _ => sess)

def restoreSession (i : Nat) (subs : List (GoString × UInt8)) (b : BrokerState) : BrokerState :=
  let clientID := (b.conns i).conn.clientID
  { b with router := subs.foldl (fun r s => r.subscribe s.1 ⟨clientID, s.2, some i⟩) b.router }

/-- One session of the sweep. -/
def sweepSession (now : Nat) (b : BrokerState) (p : Ptr) : BrokerState :=
  if (b.sessions.heap p).shouldExpireDisconnected now then b.endSession (b.sessions.heap p).clientID
  else b

def sessionExpirySweep (now : Nat) (b : BrokerState) : BrokerState :=
  (b.sessions.data.entries.map Prod.snd).foldl (sweepSession now) b

/-- The session part of cleanup, as far as the will. -/
def beforeWill (now i : Nat) (p : Ptr) (b : BrokerState) : BrokerState :=
  let b := b.closeClient i
  let cid := (b.conns i).conn.clientID
  (b.unregister cid).disconnect now cid p

/-- The Router.Publish calls that an event makes for a client, with the client's ID. For a
will that is the ID of the session it was left in. -/
def calls (w : World) : Event → List (GoString × PublishCall)
  | .packet env i fh body =>
      if w.phase i = .reading then
        (w.broker.handle env i fh body).calls.map fun call =>
          ((w.broker.conns i).conn.clientID, call)
      else []
  | .cleanup now i =>
      if w.phase i = .ending ∧ (w.broker.conns i).conn.clientID ≠ [] then
        match (w.broker.conns i).sess with
        | some p =>
            let s := (beforeWill now i p w.broker).sessions.heap p
            (willCalls s).map fun call => (s.clientID, call)
        | none => []
      else []
  | _ => []

/-- The topics that an event is accepted with. -/
def accepts (w : World) : Event → List Acceptance
  | .packet env i fh body =>
      if w.phase i = .reading then (w.broker.handle env i fh body).accepts else []
  | _ => []

def step (w : World) (e : Event) : Option World :=
  match e with
  | .accept remoteAddr cert writeQueueSize =>
      some { w with
        broker := w.broker.setClient w.opened (newClient remoteAddr cert writeQueueSize)
        opened := w.opened + 1
        phase := Function.update w.phase w.opened .reading }
  | .packet env i fh body =>
      if w.phase i ≠ .reading then none
      else
        let r := w.broker.handle env i fh body
        r.next.map fun (goesOn, b) =>
          { w with
            broker := b
            phase := if goesOn then w.phase else Function.update w.phase i .ending
            accepted := r.accepts ++ w.accepted }
  | .readError i =>
      if w.phase i ≠ .reading then none
      else some { w with phase := Function.update w.phase i .ending }
  | .cleanup now i =>
      if w.phase i ≠ .ending then none
      else
        (w.broker.cleanup now i).map fun b =>
          { w with broker := b, phase := Function.update w.phase i .finished }
  | .drainOfflineQueue now i =>
      (drainOfflineQueue now i w.broker).map fun b => { w with broker := b }
  | .restoreSession i subs => some { w with broker := restoreSession i subs w.broker }
  | .deliver now d => (w.broker.runDelivery now d).map fun b => { w with broker := b }
  | .writeLoop i writeQ =>
      some { w with broker := w.broker.setConn i { (w.broker.conns i).conn with writeQ := writeQ } }
  | .route now call => (w.broker.routerPublish now call).map fun b => { w with broker := b }
  | .sessionExpirySweep now => some { w with broker := sessionExpirySweep now w.broker }
  | .addACLRule rule =>
      some { w with broker := { w.broker with authn := w.broker.authn.addRule rule } }

/-- The topic is valid, and the rules let this client publish to it when the broker took
the message. -/
def Authorised (log : List Acceptance) (clientID topic : GoString) : Prop :=
  Protocol.validTopicName topic = true ∧
    ∃ a ∈ log, a.clientID = clientID ∧ a.topic = topic ∧ canPublish a.rules clientID topic = true

/-- Every call that the event makes for a client. -/
def OnlyAuthorised (w : World) (e : Event) : Prop :=
  ∀ c ∈ calls w e, Authorised (accepts w e ++ w.accepted) c.1 c.2.topic ∧
    hasPrefix c.2.topic (str "$SYS/") = false

/-- A will names a valid topic that its client may publish to. -/
def WillAllowed (env : HandleEnv) (i : Nat) (body : List UInt8) (b : BrokerState) : Prop :=
  ∀ pkt ∈ decodedConnect body, pkt.willFlag = true →
    ∀ cid ∈ connectID env.handshake.now (b.conns i).remoteAddr pkt,
      Protocol.validTopicName pkt.willTopic = true ∧
        canPublish b.authn.aclRules cid pkt.willTopic = true

/-- The event is no CONNECT with a will that its client may not publish. -/
def WillAuthorised (w : World) : Event → Prop
  | .packet env i fh body => fh.type = .connect → WillAllowed env i body w.broker
  | _ => True

instance decidableWillAuthorised (w : World) : ∀ e, Decidable (WillAuthorised w e)
  | .packet env i fh body =>
      inferInstanceAs
        (Decidable (fh.type = .connect → ∀ pkt ∈ decodedConnect body, pkt.willFlag = true →
          ∀ cid ∈ connectID env.handshake.now (w.broker.conns i).remoteAddr pkt,
            Protocol.validTopicName pkt.willTopic = true ∧
              canPublish w.broker.authn.aclRules cid pkt.willTopic = true))
  | .accept .. | .readError .. | .cleanup .. | .drainOfflineQueue ..
  | .restoreSession .. | .deliver .. | .writeLoop .. | .route .. | .sessionExpirySweep ..
  | .addACLRule .. => isTrue trivial

/-- What is known of the topics in the broker. The last three say under which ID a topic
of a session was accepted. -/
structure Sound (log : List Acceptance) (reading : Nat → Prop) (b : BrokerState) : Prop where
  topicAliases : ∀ i a topic, (b.conns i).conn.topicAliases.get a = some topic →
    Protocol.validTopicName topic = true
  inFlight : ∀ p id msg, (b.sessions.heap p).inFlight.get id = some msg →
    Authorised log (b.sessions.heap p).clientID msg.topic
  will : ∀ p, (b.sessions.heap p).willSet = true →
    Authorised log (b.sessions.heap p).clientID (b.sessions.heap p).will.topic
  stored : ∀ cid p, b.sessions.data.get cid = some p → (b.sessions.heap p).clientID = cid
  allocated : ∀ i p, (b.conns i).sess = some p → p < b.sessions.next
  owner : ∀ i p, reading i → (b.conns i).sess = some p →
    (b.sessions.heap p).clientID = (b.conns i).conn.clientID

theorem Authorised.mono {log log' : List Acceptance} {clientID topic : GoString}
    (h : Authorised log clientID topic) (hsub : ∀ a ∈ log, a ∈ log') :
    Authorised log' clientID topic := by
  obtain ⟨hvalid, a, ha, hrest⟩ := h
  exact ⟨hvalid, a, hsub a ha, hrest⟩

/-- The rules let no client publish below $SYS/. -/
theorem Authorised.not_sys {log : List Acceptance} {clientID topic : GoString}
    (h : Authorised log clientID topic) : hasPrefix topic (str "$SYS/") = false := by
  obtain ⟨-, a, -, -, -, hrules⟩ := h
  cases hsys : hasPrefix topic (str "$SYS/") with
  | false => rfl
  | true =>
      rw [canPublish, if_pos hsys] at hrules
      cases hrules

section Sound
variable {log : List Acceptance} {reading : Nat → Prop} {b b' : BrokerState}

theorem sound_start (authn : Authenticator) (router : Router Nat) :
    Sound [] reading (start authn router).broker where
  topicAliases _ _ _ h := by cases h
  inFlight _ _ _ h := by cases h
  will _ h := by cases h
  stored _ _ h := by cases h
  allocated _ _ h := by cases h
  owner _ _ _ h := by cases h

theorem Sound.mono (h : Sound log reading b) {log' : List Acceptance} {reading' : Nat → Prop}
    (hsub : ∀ a ∈ log, a ∈ log') (hread : ∀ i, reading' i → reading i) : Sound log' reading' b where
  topicAliases := h.topicAliases
  inFlight p id msg hmsg := (h.inFlight p id msg hmsg).mono hsub
  will p hp := (h.will p hp).mono hsub
  stored := h.stored
  allocated := h.allocated
  owner i p hi := h.owner i p (hread i hi)

theorem Sound.of_eq (h : Sound log reading b) (hconns : b'.conns = b.conns)
    (hsessions : b'.sessions = b.sessions) : Sound log reading b' := by
  obtain ⟨halias, hinFlight, hwill, hstored, hallocated, howner⟩ := h
  rw [← hconns] at halias
  rw [← hsessions] at hinFlight hwill hstored
  rw [← hconns, ← hsessions] at hallocated howner
  exact ⟨halias, hinFlight, hwill, hstored, hallocated, howner⟩

/-- No topic is taken from a client. -/
abbrev Quiet : BrokerState → BrokerState → Prop :=
  Frame { closes := true, subscribes := true, ends := true }

theorem Sound.quiet (h : Sound log reading b) (hq : Quiet b b') : Sound log reading b' where
  topicAliases i a topic ha := h.topicAliases i a topic ((hq.conn i).topicAliases rfl ▸ ha)
  inFlight p id msg hmsg := by
    rw [(hq.heap p).clientID]
    exact h.inFlight p id msg (((hq.heap p).topics rfl).inFlight id msg hmsg)
  will p hp := by
    obtain ⟨hset, hwill⟩ := ((hq.heap p).topics rfl).will hp
    rw [(hq.heap p).clientID, hwill]
    exact h.will p hset
  stored cid p hp := (hq.heap p).clientID.trans (h.stored cid p (hq.data cid p hp))
  allocated i p hp := by
    rw [hq.next]
    exact h.allocated i p (hq.sess i ▸ hp)
  owner i p hi hp := by
    rw [(hq.heap p).clientID, (hq.conn i).clientID]
    exact h.owner i p hi (hq.sess i ▸ hp)

theorem Sound.modifySession (h : Sound log reading b) {p : Ptr} {f : Session → Session}
    {s : Session} (hs : f (b.sessions.heap p) = s) (hid : s.clientID = (b.sessions.heap p).clientID)
    (hin : ∀ id msg, s.inFlight.get id = some msg → Authorised log s.clientID msg.topic)
    (hwill : s.willSet = true → Authorised log s.clientID s.will.topic) :
    Sound log reading (b.modifySession p f) := by
  have hself : (b.modifySession p f).sessions.heap p = s := by
    rw [BrokerState.modifySession, Store.heap_modify, if_pos rfl, hs]
  have hother (q : Ptr) (hq : q ≠ p) :
      (b.modifySession p f).sessions.heap q = b.sessions.heap q := by
    rw [BrokerState.modifySession, Store.heap_modify, if_neg hq]
  have hsame (q : Ptr) : ((b.modifySession p f).sessions.heap q).clientID =
      (b.sessions.heap q).clientID := by
    by_cases hq : q = p
    · rw [hq, hself, hid]
    · rw [hother q hq]
  refine ⟨h.topicAliases, ?_, ?_, ?_, h.allocated, ?_⟩
  · intro q id msg hmsg
    by_cases hq : q = p
    · rw [hq, hself] at hmsg ⊢
      exact hin id msg hmsg
    · rw [hother q hq] at hmsg ⊢
      exact h.inFlight q id msg hmsg
  · intro q hset
    by_cases hq : q = p
    · rw [hq, hself] at hset ⊢
      exact hwill hset
    · rw [hother q hq] at hset ⊢
      exact h.will q hset
  · intro cid q hq
    rw [hsame]
    exact h.stored cid q hq
  · intro i q hi hq
    rw [hsame]
    exact h.owner i q hi hq

/-- One connection changes: its aliases are valid topics, and while it reads packets its ID
is that of its session. -/
theorem Sound.setClient {i : Nat} {c : Client} {reading' : Nat → Prop} (h : Sound log reading b)
    (halias : ∀ a topic, c.conn.topicAliases.get a = some topic →
      Protocol.validTopicName topic = true)
    (halloc : ∀ p, c.sess = some p → p < b.sessions.next)
    (hread : ∀ j, j ≠ i → reading' j → reading j)
    (howner : ∀ p, reading' i → c.sess = some p → (b.sessions.heap p).clientID = c.conn.clientID) :
    Sound log reading' (b.setClient i c) where
  topicAliases j a topic ha := by
    by_cases hj : j = i
    · subst hj
      rw [BrokerState.conns_setClient_self] at ha
      exact halias a topic ha
    · rw [BrokerState.conns_setClient_of_ne c b hj] at ha
      exact h.topicAliases j a topic ha
  inFlight := h.inFlight
  will := h.will
  stored := h.stored
  allocated j p hp := by
    by_cases hj : j = i
    · subst hj
      rw [BrokerState.conns_setClient_self] at hp
      exact halloc p hp
    · rw [BrokerState.conns_setClient_of_ne c b hj] at hp
      exact h.allocated j p hp
  owner j p hread' hp := by
    by_cases hj : j = i
    · subst hj
      rw [BrokerState.conns_setClient_self] at hp ⊢
      exact howner p hread' hp
    · rw [BrokerState.conns_setClient_of_ne c b hj] at hp ⊢
      exact h.owner j p (hread j hj hread') hp

theorem Sound.create (h : Sound log reading b) (cid : GoString) (clean : Bool) (now : Nat) :
    Sound log reading { b with sessions := b.sessions.create cid clean now } := by
  have hnew := b.sessions.heap_create_self cid clean now
  have hold (q : Ptr) (hq : q ≠ b.sessions.next) := Store.heap_create_of_ne cid clean now hq
  refine ⟨h.topicAliases, ?_, ?_, ?_, ?_, ?_⟩
  · intro q id msg hmsg
    by_cases hq : q = b.sessions.next
    · subst hq
      rw [hnew] at hmsg
      cases hmsg
    · rw [hold q hq] at hmsg ⊢
      exact h.inFlight q id msg hmsg
  · intro q hset
    by_cases hq : q = b.sessions.next
    · subst hq
      rw [hnew] at hset
      cases hset
    · rw [hold q hq] at hset ⊢
      exact h.will q hset
  · intro id q hq
    rw [Store.create, FinMap.get_set] at hq
    split at hq
    · next hid =>
        cases hq
        rw [hnew, hid]
        rfl
    · rw [hold q (Nat.ne_of_lt (b.sessions.allocated id q hq))]
      exact h.stored id q hq
  · intro i q hq
    exact Nat.lt_succ_of_lt (h.allocated i q hq)
  · intro i q hi hq
    rw [hold q (Nat.ne_of_lt (h.allocated i q hq))]
    exact h.owner i q hi hq

theorem Sound.getOrCreate (h : Sound log reading b) {cid : GoString} {clean : Bool} {now : Nat}
    {sessions : Store} {p : Ptr} {present : Bool}
    (hget : b.sessions.getOrCreate cid clean now = (sessions, p, present)) :
    Sound log reading { b with sessions := sessions } ∧ p < sessions.next ∧
      (sessions.heap p).clientID = cid := by
  rcases Store.getOrCreate_cases cid clean now b.sessions with ⟨q, hsame, -, hq, -⟩ | hnew
  · rw [hsame] at hget
    cases hget
    exact ⟨h, b.sessions.allocated cid _ hq, h.stored cid _ hq⟩
  · rw [hnew] at hget
    cases hget
    refine ⟨h.create cid clean now, Nat.lt_succ_self _, ?_⟩
    rw [Store.heap_create_self]
    rfl

theorem setWill_topics (pkt : ConnectPacket) (s : Session) :
    (pkt.setWill s).clientID = s.clientID ∧ (pkt.setWill s).inFlight = s.inFlight ∧
      ((pkt.setWill s).willSet = true →
        pkt.will = some (pkt.setWill s).will ∨ s.willSet = true ∧
          (pkt.setWill s).will = s.will) := by
  rw [ConnectPacket.setWill]
  cases pkt.will with
  | none => exact ⟨rfl, rfl, fun h => .inr ⟨h, rfl⟩⟩
  | some w => exact ⟨rfl, rfl, fun _ => .inl rfl⟩

theorem connectSession_topics (pkt : ConnectPacket) (now : Nat) (s : Session) :
    (pkt.connectSession now s).clientID = s.clientID ∧
      (∀ id msg, (pkt.connectSession now s).inFlight.get id = some msg →
        s.inFlight.get id = some msg) ∧
      ((pkt.connectSession now s).willSet = true →
        pkt.will = some (pkt.connectSession now s).will ∨
          s.willSet = true ∧ (pkt.connectSession now s).will = s.will) := by
  let expiry :=
    s.clearDisconnectExpiry.setProtocolAndExpiry pkt.version pkt.cleanSession pkt.expirySec
  have hbefore : NoNewTopic s expiry :=
    (NoNewTopic.clearDisconnectExpiry s).trans (NoNewTopic.setProtocolAndExpiry ..)
  have hafter : NoNewTopic (pkt.setWill expiry) (pkt.connectSession now s) :=
    (NoNewTopic.setKeepAlive pkt _).trans (NoNewTopic.setConnected true now _)
  obtain ⟨hid, hin, hwill⟩ := setWill_topics pkt expiry
  refine ⟨hafter.clientID.trans (hid.trans hbefore.clientID), ?_, ?_⟩
  · intro id msg hmsg
    exact hbefore.inFlight id msg (hin ▸ hafter.inFlight id msg hmsg)
  · intro hset
    obtain ⟨hset, hsame⟩ := hafter.will hset
    rw [hsame]
    rcases hwill hset with hpkt | ⟨hkept, hold⟩
    · exact .inl hpkt
    · rw [hold]
      exact .inr (hbefore.will hkept)

theorem Sound.connectSession (h : Sound log reading b) {p : Ptr} (pkt : ConnectPacket) (now : Nat)
    (hwill : ∀ w, pkt.will = some w → Authorised log (b.sessions.heap p).clientID w.topic) :
    Sound log reading (b.modifySession p (pkt.connectSession now)) := by
  obtain ⟨hid, hin, hset⟩ := connectSession_topics pkt now (b.sessions.heap p)
  apply h.modifySession rfl hid
  · intro id msg hmsg
    rw [hid]
    exact h.inFlight p id msg (hin id msg hmsg)
  · intro hs
    rw [hid]
    rcases hset hs with hpkt | ⟨hkept, hsame⟩
    · exact hwill _ hpkt
    · rw [hsame]
      exact h.will p hkept

/-- From takeover on, with the will of the CONNECT authorised. Before, the connection has
already taken the new ID and may still have another session. -/
theorem Sound.accept {env : HandshakeEnv} {i : Nat} {cid : GoString} {pkt : Protocol.ConnectPacket}
    {present : Bool} (h : Sound log (fun j => reading j ∧ j ≠ i) b)
    (hwill : ∀ w, (sessionPart pkt).will = some w → Authorised log cid w.topic)
    (hrun : b.accept env i cid pkt = .accepted present b') : Sound log reading b' := by
  rw [BrokerState.accept] at hrun
  split at hrun
  · cases hrun
  · next b₁ htakeover =>
      have htaken := h.quiet (Frame.takeover htakeover)
      obtain ⟨sessions, p, present', hget⟩ : ∃ sessions p present',
          b₁.sessions.getOrCreate cid pkt.cleanSession env.now = (sessions, p, present') :=
            ⟨_, _, _, rfl⟩
      obtain ⟨hcreated, halloc, hid⟩ := htaken.getOrCreate hget
      have hsession := hcreated.connectSession (p := p) (sessionPart pkt) env.now (hid.symm ▸ hwill)
      obtain ⟨hname, halias⟩ := BrokerState.names_connected env cid pkt present (b₁.conns i).conn
      rw [hget] at hrun
      cases hrun
      refine (hsession.setClient ?_ ?_ ?_ ?_).of_eq rfl rfl
      · intro a topic ha
        exact htaken.topicAliases i a topic (halias ▸ ha)
      · intro q hq
        cases hq
        exact halloc
      · intro j hj hr
        exact ⟨hr, hj⟩
      · intro q _ hq
        cases hq
        rw [BrokerState.modifySession, Store.heap_modify, if_pos rfl]
        exact ((connectSession_topics (sessionPart pkt) env.now _).1.trans hid).trans hname.symm

/-- A connection that is being admitted may have an ID that is not its session's. -/
theorem Sound.touched {env : HandshakeEnv} {i : Nat} (h : Sound log reading b)
    (ht : BrokerState.Touched env i b b') : Sound log (fun j => reading j ∧ j ≠ i) b' := by
  have hsessions : b'.sessions = b.sessions := congrArg BrokerState.Shared.sessions ht.shared
  refine ⟨?_, ?_, ?_, ?_, ?_, ?_⟩
  · intro j a topic ha
    by_cases hj : j = i
    · subst hj
      exact h.topicAliases j a topic (ht.topicAliases ▸ ha)
    · exact h.topicAliases j a topic (ht.others j hj ▸ ha)
  · rw [hsessions]
    exact h.inFlight
  · rw [hsessions]
    exact h.will
  · rw [hsessions]
    exact h.stored
  · intro j p hp
    rw [hsessions]
    by_cases hj : j = i
    · subst hj
      exact h.allocated j p (ht.sess ▸ hp)
    · exact h.allocated j p (ht.others j hj ▸ hp)
  · intro j p hread hp
    rw [ht.others j hread.2] at hp ⊢
    rw [hsessions]
    exact h.owner j p hread.1 hp

/-- What the packet of a reading connection may do: its calls are authorised, and so are the
topics it leaves in the broker. -/
structure ReplySound (log : List Acceptance) (reading : Nat → Prop) (i : Nat) (b : BrokerState)
    (r : Reply) : Prop where
  calls : ∀ call ∈ r.calls, Authorised (r.accepts ++ log) (b.conns i).conn.clientID call.topic
  next : ∀ goesOn b', r.next = some (goesOn, b') →
    Sound (r.accepts ++ log) (fun j => reading j ∧ (goesOn = false → j ≠ i)) b'

variable {i : Nat}

theorem Sound.goOn (h : Sound log reading b) (hq : Quiet b b') :
    ReplySound log reading i b (.goOn b') where
  calls _ hcall := by cases hcall
  next goesOn u hnext := by
    cases hnext
    exact (h.quiet hq).mono (fun _ ha => ha) (fun _ hj => hj.1)

theorem Sound.ended (h : Sound log (fun j => reading j ∧ j ≠ i) b') :
    ReplySound log reading i b (.ended b') where
  calls _ hcall := by cases hcall
  next goesOn u hnext := by
    cases hnext
    exact h.mono (fun _ ha => ha) (fun _ hj => ⟨hj.1, hj.2 rfl⟩)

theorem Sound.ended_quiet (h : Sound log reading b) (hq : Quiet b b') :
    ReplySound log reading i b (.ended b') :=
  ((h.quiet hq).mono (fun _ ha => ha) (fun _ hj => hj.1)).ended

theorem replySound_stuck : ReplySound log reading i b .stuck where
  calls _ hcall := by cases hcall
  next _ _ hnext := by cases hnext

theorem Sound.withPacket {σ α : Type} {decoded : Faulting.Outcome Protocol.DecodeError σ α}
    {handler : α → Ptr → Reply} (h : Sound log reading b)
    (hhandler : ∀ a t p, decoded = .ok a t → (b.conns i).sess = some p →
      ReplySound log reading i b (handler a p)) :
    ReplySound log reading i b (b.withPacket i decoded handler) := by
  cases decoded with
  | ok a t =>
      cases hsess : (b.conns i).sess with
      | none =>
          simp only [BrokerState.withPacket, hsess]
          exact replySound_stuck
      | some p =>
          simp only [BrokerState.withPacket, hsess]
          exact hhandler a t p rfl hsess
  | error err => exact h.ended_quiet (Frame.refl b)
  | panic | timeout => exact replySound_stuck

theorem willFlag_of_will {pkt : Protocol.ConnectPacket} {w : Will}
    (h : (sessionPart pkt).will = some w) : pkt.willFlag = true ∧ w.topic = pkt.willTopic := by
  rw [sessionPart] at h
  dsimp only at h
  split at h
  · next hflag =>
      cases h
      exact ⟨hflag, rfl⟩
  · cases h

theorem Sound.connectPacket {env : HandleEnv} {body : List UInt8} (h : Sound log reading b)
    (hwill : WillAllowed env i body b) :
    ReplySound log reading i b (b.connectPacket env i body) := by
  delta BrokerState.connectPacket
  dsimp only
  split
  · next present b' hresult =>
      obtain ⟨cid, pkt, u, hadmit, haccept⟩ := BrokerState.handleConnect_accepted hresult
      obtain ⟨htouched, hpkt, hid⟩ := BrokerState.admission_admitted hadmit
      have hname := BrokerState.clientID_accept haccept
      constructor
      · intro call hcall
        cases hcall
      · intro goesOn b'' hnext
        cases hnext
        have hadmitted (accepts : List Acceptance) :
            Sound (accepts ++ log) (fun j => reading j ∧ j ≠ i) u :=
          (h.touched htouched).mono (fun a ha => List.mem_append_right _ ha) (fun _ hj => hj)
        refine (Sound.accept (hadmitted _) ?_ haccept).mono (fun _ ha => ha) (fun _ hj => hj.1)
        intro w hw
        obtain ⟨hflag, htopic⟩ := willFlag_of_will hw
        obtain ⟨hvalid, hrules⟩ := hwill pkt hpkt hflag cid hid
        rw [← htopic] at hvalid hrules
        refine ⟨hvalid, ⟨b.authn.aclRules, (b'.conns i).conn.clientID, w.topic⟩, ?_, hname,
          rfl, hrules⟩
        simp [hpkt, hw]
  · next err connack b' hresult =>
      have htouched := (BrokerState.admission_refused (BrokerState.handleConnect_refused hresult)).1
      exact (h.touched htouched).ended
  · exact replySound_stuck

/-- A topic comes from the packet or from the alias table, and a new alias from the packet. -/
theorem resolvePublishTopic_valid {pkt : PublishPacket} {c c' : Conn} {topic : GoString}
    (hpkt : c.version ≠ Protocol.v50 ∨ pkt.topic ≠ [] → Protocol.validTopicName pkt.topic = true)
    (halias : ∀ a t, c.topicAliases.get a = some t → Protocol.validTopicName t = true)
    (h : c.resolvePublishTopic pkt = some (topic, c')) :
    Protocol.validTopicName topic = true ∧
      ∀ a t, c'.topicAliases.get a = some t → Protocol.validTopicName t = true := by
  rw [Conn.resolvePublishTopic] at h
  split at h
  · next hversion =>
      cases h
      exact ⟨hpkt (.inl hversion), halias⟩
  · dsimp only at h
    split at h
    · cases h
    · split at h
      · cases h
      · split at h
        · obtain ⟨prev, hprev, hsome⟩ := Option.map_eq_some_iff.mp h
          cases hsome
          exact ⟨halias _ _ hprev, halias⟩
        · next hne =>
            have hvalid := hpkt (.inr hne)
            split at h
            · cases h
              refine ⟨hvalid, ?_⟩
              intro a t ha
              rw [FinMap.get_set] at ha
              split at ha
              · cases ha
                exact hvalid
              · exact halias a t ha
            · cases h
              exact ⟨hvalid, halias⟩

/-- The session has the messages and the will of before, and perhaps a message of this topic. -/
structure AtMost (topic : GoString) (s t : Session) : Prop where
  clientID : t.clientID = s.clientID
  willSet : t.willSet = s.willSet
  will : t.will = s.will
  inFlight : ∀ id msg, t.inFlight.get id = some msg → msg.topic = topic ∨
    s.inFlight.get id = some msg

theorem AtMost.refl (topic : GoString) (s : Session) : AtMost topic s s :=
  ⟨rfl, rfl, rfl, fun _ _ h => .inr h⟩

theorem storeInFlight_atMost (topic : GoString) (now : Nat) (pkt : PublishPacket) (s : Session) :
    AtMost topic s (storeInFlight topic now pkt s) := by
  rw [storeInFlight]
  split
  · refine ⟨rfl, rfl, rfl, ?_⟩
    intro id msg hmsg
    rw [Session.addInFlight, FinMap.get_set] at hmsg
    split at hmsg
    · cases hmsg
      exact .inl rfl
    · exact .inr hmsg
  · exact AtMost.refl topic s

theorem acceptPublish_atMost (env : PublishEnv) (topic : GoString) (now : Nat)
    (pkt : PublishPacket) (c : Conn) (s : Session) :
    (∀ call ∈ (acceptPublish env topic now pkt c s).calls, call.topic = topic) ∧
      AtMost topic s (acceptPublish env topic now pkt c s).sess := by
  have hone (call : PublishCall) (hcall :
      call ∈ [(⟨topic, pkt.payload, pkt.qos, pkt.retain⟩ : PublishCall)]) :
      call.topic = topic := by
    rw [List.mem_singleton.mp hcall]
  have hnone (call : PublishCall) (hcall : call ∈ ([] : List PublishCall)) :
      call.topic = topic := by cases hcall
  rw [acceptPublish]
  split
  · exact ⟨hone, AtMost.refl topic s⟩
  · split
    · exact ⟨hone, AtMost.refl topic s⟩
    · split
      · exact ⟨hnone, storeInFlight_atMost topic now pkt s⟩
      · exact ⟨hnone, AtMost.refl topic s⟩

theorem Sound.atMost (h : Sound log reading b) {p : Ptr} {topic : GoString} {s : Session}
    (hs : AtMost topic (b.sessions.heap p) s)
    (htopic : ∀ id msg, s.inFlight.get id = some msg → msg.topic = topic →
      Authorised log (b.sessions.heap p).clientID topic) :
    Sound log reading (b.modifySession p fun _ => s) := by
  apply h.modifySession rfl hs.clientID
  · intro id msg hmsg
    rw [hs.clientID]
    rcases hs.inFlight id msg hmsg with hnew | hold
    · rw [hnew]
      exact htopic id msg hmsg hnew
    · exact h.inFlight p id msg hold
  · intro hset
    rw [hs.clientID, hs.will]
    exact h.will p (hs.willSet ▸ hset)

theorem Sound.setConn {c : Conn} (h : Sound log reading b)
    (hid : c.clientID = (b.conns i).conn.clientID)
    (halias : ∀ a topic, c.topicAliases.get a = some topic → Protocol.validTopicName topic = true) :
    Sound log reading (b.setConn i c) := by
  apply h.setClient halias
  · exact h.allocated i
  · intro _ _ hj
    exact hj
  · intro p hi hp
    exact (h.owner i p hi hp).trans hid.symm

/-- A handler's own writes are sound, and what it calls and answers behind them is quiet. -/
theorem Sound.handled {env : HandleEnv} {p : Ptr} {r : Handled} {accepts : List Acceptance}
    (h : Sound (accepts ++ log) reading (b.modifySession p fun _ => r.sess))
    (hid : r.conn.clientID = (b.conns i).conn.clientID)
    (halias : ∀ a topic, r.conn.topicAliases.get a = some topic →
      Protocol.validTopicName topic = true)
    (hcalls : ∀ call ∈ r.calls, Authorised (accepts ++ log) (b.conns i).conn.clientID call.topic) :
    ReplySound log reading i b (b.handled env i p r accepts) := by
  refine ⟨hcalls, ?_⟩
  intro goesOn u hnext
  obtain ⟨v, hv, hpair⟩ := Option.map_eq_some_iff.mp hnext
  cases hpair
  have hanswered : Quiet v (v.modifyConn i r.answerOn) :=
    Frame.setClient rfl (ConnFrame.answerOn r _)
  have hwritten := h.setConn (i := i) hid halias
  exact (hwritten.quiet ((Frame.routeAll hv).trans hanswered)).mono (fun _ ha => ha)
    (fun _ hj => hj.1)

/-- What passes every check is on record with the rules that let it pass. -/
theorem authorised_of_accepted (log : List Acceptance) {env : HandleEnv} {pkt : PublishPacket}
    {topic : GoString} {c c' : Conn}
    (haccepted : Accepted (b.publishEnv env) env.checkedAt pkt c topic c')
    (hvalid : Protocol.validTopicName topic = true) :
    Authorised (b.publishAccepts env pkt c ++ log) c.clientID topic := by
  obtain ⟨hres, -, hrules, -⟩ := id haccepted
  have hid : c'.clientID = c.clientID := by rw [Conn.resolvePublishTopic_conn hres]
  refine ⟨hvalid, ⟨b.authn.aclRules, c'.clientID, topic⟩, ?_, hid, rfl, hid ▸ hrules⟩
  rw [BrokerState.publishAccepts, hres]
  simp [haccepted]

theorem Sound.publishPacket {env : HandleEnv} {pkt : PublishPacket} {p : Ptr}
    (h : Sound log reading b) (hpkt : (b.conns i).conn.version ≠ Protocol.v50 ∨ pkt.topic ≠ [] →
      Protocol.validTopicName pkt.topic = true)
    (hreading : reading i) (hsess : (b.conns i).sess = some p) :
    ReplySound log reading i b (b.publishPacket env i pkt p) := by
  have howner := h.owner i p hreading hsess
  rw [BrokerState.publishPacket]
  split
  · exact h.ended_quiet (Frame.refl b)
  · next r hr =>
      obtain ⟨topic, hres⟩ := handlePublish_conn hr
      obtain ⟨hvalid, halias⟩ := resolvePublishTopic_valid hpkt (h.topicAliases i) hres
      have hid : r.conn.clientID = (b.conns i).conn.clientID := by
        rw [Conn.resolvePublishTopic_conn hres]
      have hold : Sound (b.publishAccepts env pkt (b.conns i).conn ++ log) reading b :=
        h.mono (fun _ ha => List.mem_append_right _ ha) (fun _ hj => hj)
      rcases handlePublish_cases hr with ⟨hcalls, -, hsame⟩ | ⟨topic', c₁, haccepted, rfl⟩
      · refine Sound.handled (hold.quiet (Frame.modifySession ?_)) hid halias ?_
        · rw [hsame]
          exact SessionFrame.refl _
        · intro call hcall
          rw [hcalls] at hcall
          cases hcall
      · rw [conn_acceptPublish] at hres
        cases hres.symm.trans haccepted.1
        have hauthorised := authorised_of_accepted log haccepted hvalid
        obtain ⟨htopics, hat⟩ := acceptPublish_atMost (b.publishEnv env) topic env.checkedAt pkt c₁
          (b.sessions.heap p)
        refine (hold.atMost hat (fun _ _ _ _ => howner ▸ hauthorised)).handled hid halias ?_
        intro call hcall
        rw [htopics call hcall]
        exact hauthorised

theorem Sound.pubrelPacket {env : HandleEnv} {id : UInt16} {p : Ptr} (h : Sound log reading b)
    (hreading : reading i) (hsess : (b.conns i).sess = some p) :
    ReplySound log reading i b (b.pubrelPacket env i id p) := by
  have howner := h.owner i p hreading hsess
  have hacked : Sound log reading
      (b.modifySession p fun _ => ((b.sessions.heap p).ackInFlight id).1) :=
    h.quiet (Frame.modifySession (NoNewTopic.ackInFlight id _).frame)
  refine Sound.handled hacked rfl (h.topicAliases i) ?_
  intro call hcall
  cases hmsg : (b.sessions.heap p).inFlight.get id with
  | none =>
      simp only [handlePubrel, Session.ackInFlight, hmsg] at hcall
      cases hcall
  | some msg =>
      simp only [handlePubrel, Session.ackInFlight, hmsg, List.mem_singleton] at hcall
      rw [hcall, ← howner]
      exact h.inFlight p id msg hmsg

theorem decodePublish_valid {version : UInt8} {now : Nat} {fh : Protocol.FixedHeader}
    {body : List UInt8} {pkt : PublishPacket} {t : Protocol.SliceReader}
    (h : Protocol.decodePublish version now fh body = .ok pkt t) :
    version ≠ Protocol.v50 ∨ pkt.topic ≠ [] → Protocol.validTopicName pkt.topic = true := by
  obtain ⟨-, -, topic, _, _, _, _, _, -, hvalid, -, -, -, -, rfl, -⟩ :=
    Protocol.publishBody_eq_ok.mp h
  exact hvalid

theorem Sound.dispatch {env : HandleEnv} {fh : Protocol.FixedHeader} {body : List UInt8}
    (h : Sound log reading b) (hreading : reading i)
    (hwill : fh.type = .connect → WillAllowed env i body b) :
    ReplySound log reading i b (b.dispatch env i fh body) := by
  rw [BrokerState.dispatch]
  dsimp only
  split
  · next htype => exact h.connectPacket (hwill htype)
  · exact h.withPacket fun pkt t p hdecode hsess =>
      h.publishPacket (decodePublish_valid hdecode) hreading hsess
  · exact h.withPacket fun id _ p _ _ =>
      h.goOn (Frame.modifySession (SessionFrame.of_eq rfl rfl rfl rfl))
  · exact h.withPacket fun id _ p _ _ =>
      h.goOn (Frame.modifySession (SessionFrame.of_eq rfl rfl rfl rfl))
  · refine h.withPacket fun id _ p _ _ => h.goOn ?_
    exact (Frame.modifySession (NoNewTopic.setOutFlightPhase id .received _).frame).trans
      (Frame.enqueue i _ _)
  · exact h.withPacket fun id _ p _ hsess => h.pubrelPacket hreading hsess
  · refine h.withPacket fun pkt _ p _ _ => h.goOn (Frame.trans ?_ (Frame.enqueue i _ _))
    exact Frame.of_router rfl rfl rfl Bool.noConfusion
  · refine h.withPacket fun pkt _ p _ _ => h.goOn (Frame.trans ?_ (Frame.enqueue i _ _))
    exact Frame.of_router rfl rfl rfl Bool.noConfusion
  · split
    · exact h.goOn ((Frame.enqueue i _ b).trans
        (Frame.modifySession (SessionFrame.of_eq rfl rfl rfl rfl)))
    · exact replySound_stuck
  · split
    · apply h.ended_quiet
      cases (b.conns i).sess with
      | none => exact Frame.refl b
      | some p => exact Frame.modifySession (NoNewTopic.disconnectWith _ _).frame
    · exact h.ended_quiet (Frame.refl b)
    · exact replySound_stuck
  all_goals exact h.ended_quiet (Frame.refl b)

theorem Sound.handle {env : HandleEnv} {fh : Protocol.FixedHeader} {body : List UInt8}
    (h : Sound log reading b) (hreading : reading i)
    (hwill : fh.type = .connect → WillAllowed env i body b) :
    ReplySound log reading i b (b.handle env i fh body) := by
  rw [BrokerState.handle]
  split
  · exact h.ended_quiet (Frame.refl b)
  · split
    · exact h.ended_quiet (Frame.refl b)
    · exact h.dispatch hreading hwill

end Sound

section Frame
variable {S : Scope} {now i : Nat} {b b' : BrokerState}

theorem frame_drainOfflineQueue (h : drainOfflineQueue now i b = some b') : Frame S b b' := by
  obtain ⟨p, -, hrun⟩ := Option.bind_eq_some_iff.mp h
  have hdrained : Frame S b (b.modifySession p fun _ => (b.sessions.heap p).drainQueue.1) :=
    Frame.modifySession (SessionFrame.of_eq rfl rfl rfl rfl)
  exact hdrained.trans (Frame.runDeliveries hrun)

theorem frame_sessionExpirySweep (hends : S.ends = true) (now : Nat) (b : BrokerState) :
    Frame S b (sessionExpirySweep now b) := by
  have hsweep (ps : List Ptr) (b : BrokerState) : Frame S b (ps.foldl (sweepSession now) b) := by
    induction ps generalizing b with
    | nil => exact Frame.refl b
    | cons p ps ih =>
        refine Frame.trans ?_ (ih (sweepSession now b p))
        rw [sweepSession]
        split
        · exact Frame.endSession hends _ b
        · exact Frame.refl b
  exact hsweep _ b

theorem quiet_beforeWill (now i : Nat) (p : Ptr) (b : BrokerState) :
    Quiet b (beforeWill now i p b) :=
  ((Frame.closeClient rfl i b).trans (Frame.unregister rfl _ _)).trans (Frame.disconnect rfl ..)

end Frame

/-- The connections that read packets keep to the invariant. -/
def Inv (w : World) : Prop := Sound w.accepted (fun i => w.phase i = .reading) w.broker

theorem Inv.quiet {w : World} (h : Inv w) {b : BrokerState} (hq : Quiet w.broker b) :
    Inv { w with broker := b } :=
  Sound.quiet h hq

theorem Inv.leaves {w : World} (h : Inv w) (i : Nat) {phase : Phase} (hphase : phase ≠ .reading) :
    Inv { w with phase := Function.update w.phase i phase } := by
  refine Sound.mono h (fun _ ha => ha) ?_
  intro j hj
  by_cases hji : j = i
  · subst hji
    exact absurd ((Function.update_self ..).symm.trans hj) hphase
  · exact (Function.update_of_ne hji ..).symm.trans hj

theorem inv_packet {w t : World} {env : HandleEnv} {i : Nat} {fh : Protocol.FixedHeader}
    {body : List UInt8} (h : Inv w) (hwill : WillAuthorised w (.packet env i fh body))
    (hstep : step w (.packet env i fh body) = some t) : Inv t := by
  rw [step] at hstep
  split at hstep
  · cases hstep
  · next hreading =>
      obtain ⟨⟨goesOn, b⟩, hnext, rfl⟩ := Option.map_eq_some_iff.mp hstep
      have hsound := (Sound.handle h (not_not.mp hreading) hwill).next goesOn b hnext
      cases goesOn with
      | true => exact hsound.mono (fun _ ha => ha) (fun _ hj => ⟨hj, Bool.noConfusion⟩)
      | false =>
          refine hsound.mono (fun _ ha => ha) ?_
          intro j hj
          by_cases hji : j = i
          · subst hji
            cases (Function.update_self ..).symm.trans hj
          · exact ⟨(Function.update_of_ne hji ..).symm.trans hj, fun _ => hji⟩

theorem inv_accept {w : World} (h : Inv w) (remoteAddr : GoString) (cert : Option Certificate)
    (writeQueueSize : Nat) :
    Inv { w with
      broker := w.broker.setClient w.opened (newClient remoteAddr cert writeQueueSize)
      opened := w.opened + 1
      phase := Function.update w.phase w.opened .reading } := by
  apply Sound.setClient h
  · intro a topic ha
    cases ha
  · intro p hp
    cases hp
  · intro j hj hread
    exact (Function.update_of_ne hj ..).symm.trans hread
  · intro p _ hp
    cases hp

theorem inv_step {w t : World} {e : Event} (h : Inv w) (hwill : WillAuthorised w e)
    (hstep : step w e = some t) : Inv t := by
  cases e with
  | accept remoteAddr cert writeQueueSize =>
      cases hstep
      exact inv_accept h remoteAddr cert writeQueueSize
  | packet env i fh body => exact inv_packet h hwill hstep
  | readError i =>
      rw [step] at hstep
      split at hstep
      · cases hstep
      · cases hstep
        exact h.leaves i Phase.noConfusion
  | cleanup now i =>
      rw [step] at hstep
      split at hstep
      · cases hstep
      · obtain ⟨b, hb, rfl⟩ := Option.map_eq_some_iff.mp hstep
        exact (h.quiet (Frame.cleanup rfl rfl hb)).leaves i Phase.noConfusion
  | drainOfflineQueue now i =>
      obtain ⟨b, hb, rfl⟩ := Option.map_eq_some_iff.mp hstep
      exact h.quiet (frame_drainOfflineQueue hb)
  | deliver now d =>
      obtain ⟨b, hb, rfl⟩ := Option.map_eq_some_iff.mp hstep
      exact h.quiet (Frame.runDelivery hb)
  | route now call =>
      obtain ⟨b, hb, rfl⟩ := Option.map_eq_some_iff.mp hstep
      exact h.quiet (Frame.routerPublish hb)
  | writeLoop i writeQ =>
      cases hstep
      exact h.quiet (Frame.setClient rfl ⟨rfl, fun _ => rfl, fun _ => rfl⟩)
  | sessionExpirySweep now =>
      cases hstep
      exact h.quiet (frame_sessionExpirySweep rfl now w.broker)
  | restoreSession | addACLRule =>
      cases hstep
      exact h.quiet (Frame.of_router rfl rfl rfl Bool.noConfusion)

theorem onlyAuthorised_of_inv {w : World} {e : Event} (h : Inv w) (hwill : WillAuthorised w e) :
    OnlyAuthorised w e := by
  suffices hcalls : ∀ c ∈ calls w e, Authorised (accepts w e ++ w.accepted) c.1 c.2.topic by
    intro c hc
    exact ⟨hcalls c hc, (hcalls c hc).not_sys⟩
  intro c hc
  cases e with
  | packet env i fh body =>
      by_cases hreading : w.phase i = .reading
      · rw [calls, if_pos hreading] at hc
        obtain ⟨call, hcall, rfl⟩ := List.mem_map.mp hc
        rw [accepts, if_pos hreading]
        exact (Sound.handle h hreading hwill).calls call hcall
      · rw [calls, if_neg hreading] at hc
        cases hc
  | cleanup now i =>
      rw [calls] at hc
      split at hc
      · split at hc
        · next p _ =>
            obtain ⟨call, hcall, rfl⟩ := List.mem_map.mp hc
            have hquiet := ((quiet_beforeWill now i p w.broker).heap p).topics rfl
            rw [willCalls] at hcall
            split at hcall
            · next hset =>
                obtain ⟨hset', hsame⟩ := hquiet.will hset
                rw [List.mem_singleton.mp hcall]
                dsimp only
                rw [hquiet.clientID, hsame]
                exact Sound.will h p hset'
            · cases hcall
        · cases hc
      · cases hc
  | accept | readError | drainOfflineQueue | restoreSession | deliver | writeLoop | route
  | sessionExpirySweep | addACLRule => cases hc

/-- If every will is one its client may publish, whatever the broker routes for a client has
a valid topic that the client was allowed to publish to when the broker took the message. -/
theorem only_authorised_topics (authn : Authenticator) (router : Router Nat) (es : List Event)
    (hmeets : Transition.Meets step WillAuthorised es (start authn router)) :
    Transition.Meets step OnlyAuthorised es (start authn router) :=
  Transition.meets_of_invariant (I := Inv) (fun _ _ _ h hwill hstep => inv_step h hwill hstep)
    (fun _ _ h hwill => onlyAuthorised_of_inv h hwill) (sound_start authn router) hmeets

/-- No plugin objects and the limiter allows everything. -/
def sampleEnv : HandleEnv where
  handshake := { BrokerState.sampleEnv with onClientConnect := fun _ _ => none }
  checkedAt := 0
  brokerID := str "b1"
  clusterEnabled := false
  partitions := Cluster.newManager (str "b1") 1
  serverMaximumQoS := 2
  onPublish _ _ _ _ _ := true
  onSubscribe _ _ _ := true
  allow := true

/-- The first connection sends a packet. -/
def sends (type : Protocol.PacketType) (flags : UInt8) (body : List UInt8) : Event :=
  .packet sampleEnv 0 ⟨type, flags, body.length⟩ body

/-- Client c1 connects with a will without payload. -/
def connectsWithWill (topic : GoString) : Event :=
  sends .connect 0 (BrokerState.connectBytes 0x04 ([0, topic.length.toUInt8] ++ topic ++ [0, 0]))

def sampleStart : World := start (Authenticator.new (str "k") (str "luma") 3 4) Router.new

/-- A message with QoS 2 on topic a and its release, then an abnormal end. -/
def sampleRun : List Event :=
  [.accept (str "r") none 16, connectsWithWill (str "w"), sends .publish 4 [0, 1, 97, 0, 7, 1],
    sends .pubrel 2 [0, 7], .readError 0, .cleanup 0 0]

theorem only_authorised_topics_sample :
    ∃ w, Transition.run step sampleRun sampleStart = some w ∧
      w.accepted = [⟨loadDefaultACL, str "c1", str "a"⟩, ⟨loadDefaultACL, str "c1", str "w"⟩] ∧
      Transition.Meets step OnlyAuthorised sampleRun sampleStart := by
  obtain ⟨w, hrun, haccepted⟩ := Transition.reaches_of_any step sampleRun sampleStart
    (fun w => w.accepted = [⟨loadDefaultACL, str "c1", str "a"⟩,
      ⟨loadDefaultACL, str "c1", str "w"⟩])
    (by decide +kernel)
  exact ⟨w, hrun, haccepted, only_authorised_topics _ _ sampleRun (by decide +kernel)⟩

/-- A client that may not publish below $SYS/ leaves a will there and drops its connection. -/
theorem will_on_sys_topic :
    ∃ w, Transition.run step
        [.accept (str "r") none 16, connectsWithWill (str "$SYS/x"), .readError 0]
          sampleStart = some w ∧
      canPublish w.broker.authn.aclRules (str "c1") (str "$SYS/x") = false ∧
      calls w (.cleanup 0 0) = [(str "c1", ⟨str "$SYS/x", [], 0, false⟩)] ∧
      (step w (.cleanup 0 0)).isSome = true ∧ ¬ OnlyAuthorised w (.cleanup 0 0) := by
  obtain ⟨w, hrun, hrules, hcalls, hruns⟩ := Transition.reaches_of_any step
    [.accept (str "r") none 16, connectsWithWill (str "$SYS/x"), .readError 0] sampleStart
    (fun w => canPublish w.broker.authn.aclRules (str "c1") (str "$SYS/x") = false ∧
      calls w (.cleanup 0 0) = [(str "c1", ⟨str "$SYS/x", [], 0, false⟩)] ∧
      (step w (.cleanup 0 0)).isSome = true) (by decide +kernel)
  refine ⟨w, hrun, hrules, hcalls, hruns, ?_⟩
  intro honly
  have hsys := (honly _ (hcalls ▸ List.mem_singleton_self _)).2
  exact absurd hsys (by decide)

end LumaBroker.Broker.Routed
