import LumaBroker.Broker.Dispatch
import LumaBroker.Broker.Suback
import LumaBroker.Router.Steers

/-!
What the functions of the broker leave alone. Every packet but a CONNECT, every delivery and
every cleanup leaves the connections their sessions and their IDs, and stores, registers and
renames nothing. What they do beyond that is the parameter of the one relation that says so, and
each function is in it for every parameter that allows what the function does.
-/

namespace LumaBroker.Broker

open Session

/-- The session has got no new topic: its messages and its will are those of before. -/
structure NoNewTopic (s t : Session) : Prop where
  clientID : t.clientID = s.clientID
  inFlight : ∀ id msg, t.inFlight.get id = some msg → s.inFlight.get id = some msg
  will : t.willSet = true → s.willSet = true ∧ t.will = s.will

namespace NoNewTopic

theorem refl (s : Session) : NoNewTopic s s := ⟨rfl, fun _ _ h => h, fun h => ⟨h, rfl⟩⟩

theorem trans {s t u : Session} (hst : NoNewTopic s t) (htu : NoNewTopic t u) : NoNewTopic s u where
  clientID := htu.clientID.trans hst.clientID
  inFlight id msg h := hst.inFlight id msg (htu.inFlight id msg h)
  will h := by
    obtain ⟨ht, hwill⟩ := htu.will h
    obtain ⟨hs, hwill'⟩ := hst.will ht
    exact ⟨hs, hwill.trans hwill'⟩

theorem of_eq {s t : Session} (hid : t.clientID = s.clientID) (hin : t.inFlight = s.inFlight)
    (hwill : t.will = s.will) (hset : t.willSet = s.willSet) : NoNewTopic s t :=
  ⟨hid, fun _ _ h => hin ▸ h, fun h => ⟨hset ▸ h, hwill⟩⟩

theorem enqueue (m : Queued) (s : Session) : NoNewTopic s (s.enqueue m).1 := by
  rw [Session.enqueue_fst]
  exact of_eq rfl rfl rfl rfl

theorem addOutFlightLimited (msg : InFlight) (max : UInt16) (s : Session) :
    NoNewTopic s (s.addOutFlightLimited msg max).1 := by
  rw [Session.addOutFlightLimited_fst]
  exact of_eq rfl rfl rfl rfl

theorem setOutFlightPhase (id : UInt16) (phase : QoS2Phase) (s : Session) :
    NoNewTopic s (s.setOutFlightPhase id phase) := by
  rw [Session.setOutFlightPhase_eq]
  exact of_eq rfl rfl rfl rfl

theorem prepareDisconnectExpiry (now : Nat) (s : Session) :
    NoNewTopic s (s.prepareDisconnectExpiry now).1 := by
  rw [Session.prepareDisconnectExpiry_fst]
  exact of_eq rfl rfl rfl rfl

theorem clearDisconnectExpiry (s : Session) : NoNewTopic s s.clearDisconnectExpiry :=
  of_eq rfl rfl rfl rfl

theorem setConnected (connected : Bool) (now : Nat) (s : Session) :
    NoNewTopic s (s.setConnected connected now) :=
  of_eq rfl rfl rfl rfl

theorem setProtocolAndExpiry (version : UInt8) (clean : Bool) (sec : UInt32) (s : Session) :
    NoNewTopic s (s.setProtocolAndExpiry version clean sec) := by
  rw [Session.setProtocolAndExpiry_eq]
  exact of_eq rfl rfl rfl rfl

theorem setKeepAlive (pkt : ConnectPacket) (s : Session) : NoNewTopic s (pkt.setKeepAlive s) := by
  rw [ConnectPacket.setKeepAlive]
  split
  · exact of_eq rfl rfl rfl rfl
  · exact refl s

theorem ackInFlight (id : UInt16) (s : Session) : NoNewTopic s (s.ackInFlight id).1 where
  clientID := rfl
  inFlight j msg h := by
    rw [Session.ackInFlight, FinMap.get_erase] at h
    split at h
    · cases h
    · exact h
  will h := ⟨h, rfl⟩

theorem clearWill (s : Session) : NoNewTopic s s.clearWill :=
  ⟨rfl, fun _ _ h => h, fun h => absurd h Bool.false_ne_true⟩

theorem disconnectWith (pkt : Protocol.DisconnectPacket) (s : Session) :
    NoNewTopic s (BrokerState.disconnectWith pkt s) := by
  rw [BrokerState.disconnectWith]
  split
  · exact (clearWill s).trans (of_eq rfl rfl rfl rfl)
  · exact clearWill s

theorem nextPacketID {s t : Session} {pid : UInt16} (h : s.nextPacketID = some (pid, t)) :
    NoNewTopic s t := by
  obtain ⟨-, n, rfl⟩ := nextPacketID_spec h
  exact of_eq rfl rfl rfl rfl

end NoNewTopic

/-- What a change of the broker may do besides writing to its queues and sessions. -/
structure Scope where
  /-- A connection is closed. -/
  closes : Bool := false
  /-- A topic is taken from a client, as an alias or with a message that is not yet released. -/
  learns : Bool := false
  /-- Somebody is subscribed. -/
  subscribes : Bool := false
  /-- A session ends, or a client is not registered any more. -/
  ends : Bool := false

/-- Nothing is asked about what a scope allows. -/
theorem Scope.unasked {allows : Bool} {P : Prop} (h : allows = true) (hnot : allows = false) : P :=
  Bool.noConfusion (h.symm.trans hnot)

/-- What a change leaves a connection. -/
structure ConnFrame (S : Scope) (c d : Conn) : Prop where
  clientID : d.clientID = c.clientID
  state : S.closes = false → d.state = c.state
  topicAliases : S.learns = false → d.topicAliases = c.topicAliases

/-- What a change leaves a session. -/
structure SessionFrame (S : Scope) (s t : Session) : Prop where
  clientID : t.clientID = s.clientID
  topics : S.learns = false → NoNewTopic s t

/-- What a change leaves the broker. -/
structure Frame (S : Scope) (b b' : BrokerState) : Prop where
  sess : ∀ i, (b'.conns i).sess = (b.conns i).sess
  conn : ∀ i, ConnFrame S (b.conns i).conn (b'.conns i).conn
  heap : ∀ p, SessionFrame S (b.sessions.heap p) (b'.sessions.heap p)
  next : b'.sessions.next = b.sessions.next
  data : ∀ cid p, b'.sessions.data.get cid = some p → b.sessions.data.get cid = some p
  clients : ∀ cid i, b'.clients.get cid = some i → b.clients.get cid = some i
  router : S.subscribes = false → Router.Steers Router.Event.Leaves b.router b'.router
  kept : S.ends = false → b'.clients = b.clients ∧ b'.sessions.data = b.sessions.data

variable {S : Scope}

namespace ConnFrame

theorem refl (c : Conn) : ConnFrame S c c := ⟨rfl, fun _ => rfl, fun _ => rfl⟩

theorem trans {c d e : Conn} (h : ConnFrame S c d) (h' : ConnFrame S d e) : ConnFrame S c e where
  clientID := h'.clientID.trans h.clientID
  state hS := (h'.state hS).trans (h.state hS)
  topicAliases hS := (h'.topicAliases hS).trans (h.topicAliases hS)

theorem enqueue (data : Outbound) (c : Conn) : ConnFrame S c (c.enqueue data) := by
  rw [Conn.enqueue_eq]
  exact ⟨rfl, fun _ => rfl, fun _ => rfl⟩

theorem answerOn (h : Handled) (c : Conn) : ConnFrame S c (h.answerOn c) := by
  rw [Handled.answerOn]
  split
  · exact enqueue _ c
  · exact refl c

theorem resolvePublishTopic (hlearns : S.learns = true) {pkt : PublishPacket} {c c' : Conn}
    {topic : GoString} (h : c.resolvePublishTopic pkt = some (topic, c')) : ConnFrame S c c' := by
  rw [Conn.resolvePublishTopic_conn h]
  exact ⟨rfl, fun _ => rfl, Scope.unasked hlearns⟩

end ConnFrame

theorem NoNewTopic.frame {s t : Session} (h : NoNewTopic s t) : SessionFrame S s t :=
  ⟨h.clientID, fun _ => h⟩

theorem SessionFrame.of_eq {s t : Session} (hid : t.clientID = s.clientID)
    (hin : t.inFlight = s.inFlight) (hwill : t.will = s.will) (hset : t.willSet = s.willSet) :
    SessionFrame S s t :=
  (NoNewTopic.of_eq hid hin hwill hset).frame

theorem SessionFrame.refl (s : Session) : SessionFrame S s s := (NoNewTopic.refl s).frame

theorem SessionFrame.trans {s t u : Session} (h : SessionFrame S s t) (h' : SessionFrame S t u) :
    SessionFrame S s u :=
  ⟨h'.clientID.trans h.clientID, fun hS => (h.topics hS).trans (h'.topics hS)⟩

theorem clientID_handlePublish {env : PublishEnv} {now : Nat} {pkt : PublishPacket} {c : Conn}
    {s : Session} {h : Handled} (hh : handlePublish env now pkt c s = some h) :
    h.sess.clientID = s.clientID := by
  rcases handlePublish_cases hh with ⟨-, -, hsame⟩ | ⟨topic, c', -, rfl⟩
  · rw [hsame]
  · rw [sess_acceptPublish]
    split
    · rw [storeInFlight]
      split <;> rfl
    · rfl

theorem sendTracked_frame (now : Nat) (m : Queued) (c : Conn) (pid : UInt16) (s : Session) :
    ConnFrame S c (sendTracked now m c pid s).conn ∧
      NoNewTopic s (sendTracked now m c pid s).sess := by
  have hadd := NoNewTopic.addOutFlightLimited
    ⟨pid, m.topic, m.payload, m.qos, m.retain, now, .published⟩ (recvLim c) s
  rw [sendTracked]
  split
  · next t hsend =>
      rw [hsend] at hadd
      exact ⟨ConnFrame.enqueue _ c, hadd⟩
  · next t hfull =>
      rw [hfull] at hadd
      exact ⟨ConnFrame.refl c, hadd.trans (NoNewTopic.enqueue m t)⟩

theorem deliver_frame {now : Nat} {m : Queued} {c : Conn} {s : Session} {r : Delivered}
    (h : deliver now m c s = some r) : ConnFrame S c r.conn ∧ NoNewTopic s r.sess := by
  have hqueued : ConnFrame S c (qEnqueue m c s).conn ∧ NoNewTopic s (qEnqueue m c s).sess :=
    ⟨ConnFrame.refl c, NoNewTopic.enqueue m s⟩
  rw [deliver] at h
  split at h
  · cases h
    exact hqueued
  · split at h
    · cases h
      exact hqueued
    · split at h
      · cases h
        exact ⟨ConnFrame.enqueue _ c, NoNewTopic.refl s⟩
      · obtain ⟨⟨pid, t⟩, hnext, rfl⟩ := Option.map_eq_some_iff.mp h
        obtain ⟨hconn, htracked⟩ := sendTracked_frame now m c pid t
        exact ⟨hconn, (NoNewTopic.nextPacketID hnext).trans htracked⟩

namespace Frame
variable {b b' b'' : BrokerState}

/-- A change of the router, and of what the frame does not speak of. -/
theorem of_router (hconns : b'.conns = b.conns) (hsessions : b'.sessions = b.sessions)
    (hclients : b'.clients = b.clients)
    (hrouter : S.subscribes = false → Router.Steers Router.Event.Leaves b.router b'.router) :
    Frame S b b' where
  sess i := by rw [hconns]
  conn i := by rw [hconns]; exact ConnFrame.refl _
  heap p := by rw [hsessions]; exact SessionFrame.refl _
  next := by rw [hsessions]
  data cid p h := by rwa [hsessions] at h
  clients cid i h := by rwa [hclients] at h
  router := hrouter
  kept _ := ⟨hclients, by rw [hsessions]⟩

theorem refl (b : BrokerState) : Frame S b b := of_router rfl rfl rfl fun _ => .refl _

theorem trans (h : Frame S b b') (h' : Frame S b' b'') : Frame S b b'' where
  sess i := (h'.sess i).trans (h.sess i)
  conn i := (h.conn i).trans (h'.conn i)
  heap p := (h.heap p).trans (h'.heap p)
  next := h'.next.trans h.next
  data cid p hp := h.data cid p (h'.data cid p hp)
  clients cid i hi := h.clients cid i (h'.clients cid i hi)
  router hS := (h.router hS).trans (h'.router hS)
  kept hS := ⟨(h'.kept hS).1.trans (h.kept hS).1, (h'.kept hS).2.trans (h.kept hS).2⟩

theorem modifySession {p : Ptr} {f : Session → Session}
    (hf : SessionFrame S (b.sessions.heap p) (f (b.sessions.heap p))) :
    Frame S b (b.modifySession p f) where
  sess _ := rfl
  conn _ := ConnFrame.refl _
  heap q := by
    rw [BrokerState.modifySession, Store.heap_modify]
    split
    · next hq => exact hq ▸ hf
    · exact SessionFrame.refl _
  next := rfl
  data _ _ h := h
  clients _ _ h := h
  router _ := .refl _
  kept _ := ⟨rfl, rfl⟩

theorem setClient {i : Nat} {c : Client} (hsess : c.sess = (b.conns i).sess)
    (hconn : ConnFrame S (b.conns i).conn c.conn) : Frame S b (b.setClient i c) where
  sess j := by
    by_cases hj : j = i
    · rw [hj, BrokerState.conns_setClient_self, hsess]
    · rw [BrokerState.conns_setClient_of_ne c b hj]
  conn j := by
    by_cases hj : j = i
    · rw [hj, BrokerState.conns_setClient_self]
      exact hconn
    · rw [BrokerState.conns_setClient_of_ne c b hj]
      exact ConnFrame.refl _
  heap _ := SessionFrame.refl _
  next := rfl
  data _ _ h := h
  clients _ _ h := h
  router _ := .refl _
  kept _ := ⟨rfl, rfl⟩

theorem enqueue (i : Nat) (data : Outbound) (b : BrokerState) :
    Frame S b (b.modifyConn i (Conn.enqueue data)) :=
  setClient rfl (ConnFrame.enqueue data _)

theorem runDelivery {now : Nat} {d : Router.Delivery Nat}
    (h : BrokerState.runDelivery now b d = some b') : Frame S b b' := by
  rcases BrokerState.runDelivery_cases h with rfl | ⟨p, r, hr, rfl⟩
  · exact refl b'
  · obtain ⟨hconn, htopic⟩ := deliver_frame hr
    exact (modifySession htopic.frame).trans (setClient rfl hconn)

theorem runDeliveries {now : Nat} {ds : List (Router.Delivery Nat)}
    (h : Transition.run (BrokerState.runDelivery now) ds b = some b') : Frame S b b' :=
  Transition.preserved_run (I := Frame S b) (fun _ _ _ hs hrun => hs.trans (runDelivery hrun))
    (refl b) h

theorem routerPublish {now : Nat} {call : PublishCall} (h : b.routerPublish now call = some b') :
    Frame S b b' := by
  have hrouted : Frame S b { b with
      router := (b.router.publish call.topic call.payload call.qos call.retain now).router } :=
    of_router rfl rfl rfl fun _ => .event (e := .publish ..) trivial b.router
  exact hrouted.trans (runDeliveries h)

theorem routeAll {now : Nat} {calls : List PublishCall} (h : b.routeAll now calls = some b') :
    Frame S b b' :=
  Transition.preserved_run (I := Frame S b) (fun _ _ _ hs hrun => hs.trans (routerPublish hrun))
    (refl b) h

theorem takeover {cid : GoString} (h : b.takeover cid = some b') : Frame S b b' := by
  rcases BrokerState.takeover_cases h with rfl | ⟨j, p, rfl⟩
  · exact refl b'
  · exact (modifySession (NoNewTopic.clearWill _).frame).trans (setClient rfl (ConnFrame.refl _))

theorem closeClient (hcloses : S.closes = true) (i : Nat) (b : BrokerState) :
    Frame S b (b.closeClient i) :=
  setClient rfl ⟨rfl, Scope.unasked hcloses, fun _ => rfl⟩

section Ends
variable (hends : S.ends = true)
include hends

theorem endSession (cid : GoString) (b : BrokerState) : Frame S b (b.endSession cid) where
  sess _ := rfl
  conn _ := ConnFrame.refl _
  heap _ := SessionFrame.refl _
  next := rfl
  data id p h := by
    rw [BrokerState.endSession, Store.delete, FinMap.get_erase] at h
    split_ifs at h
    exact h
  clients _ _ h := h
  router _ := .event (e := .call (.unsubscribeAll cid)) trivial b.router
  kept := Scope.unasked hends

theorem unregister (cid : GoString) (b : BrokerState) : Frame S b (b.unregister cid) where
  sess _ := rfl
  conn _ := ConnFrame.refl _
  heap _ := SessionFrame.refl _
  next := rfl
  data _ _ h := h
  clients id i h := by
    rw [BrokerState.unregister, FinMap.get_erase] at h
    split_ifs at h
    exact h
  router _ := .refl _
  kept := Scope.unasked hends

theorem disconnect (now : Nat) (cid : GoString) (p : Ptr) (b : BrokerState) :
    Frame S b (b.disconnect now cid p) := by
  have hconnected : Frame S b (b.modifySession p (Session.setConnected false now)) :=
    modifySession (NoNewTopic.setConnected false now _).frame
  rw [BrokerState.disconnect]
  dsimp only
  split
  · exact hconnected.trans (endSession hends cid _)
  · have hexpiry := hconnected.trans
      (modifySession (p := p) (f := fun s => (s.prepareDisconnectExpiry now).1)
        (NoNewTopic.prepareDisconnectExpiry now _).frame)
    split
    · exact hexpiry.trans (endSession hends cid _)
    · exact hexpiry

/-- Once the connection is closed, cleanup closes no other. -/
theorem cleanup_closed {now i : Nat} (h : b.cleanup now i = some b') :
    Frame S (b.closeClient i) b' := by
  rcases BrokerState.cleanup_cases h with ⟨-, rfl⟩ | ⟨-, u, rfl, ⟨-, rfl⟩ | ⟨p, -, hu⟩⟩
  · exact refl _
  · exact (unregister hends _ _).trans (of_router rfl rfl rfl fun _ => .refl _)
  · exact ((unregister hends _ _).trans ((disconnect hends ..).trans (routeAll hu))).trans
      (of_router rfl rfl rfl fun _ => .refl _)

theorem cleanup (hcloses : S.closes = true) {now i : Nat} (h : b.cleanup now i = some b') :
    Frame S b b' :=
  (closeClient hcloses i b).trans (cleanup_closed hends h)

end Ends

section Packets
variable {env : HandleEnv} {i : Nat} {goesOn : Bool}

theorem handled {p : Ptr} {h : Handled} {accepts : List Acceptance}
    (hconn : ConnFrame S (b.conns i).conn h.conn)
    (hsess : SessionFrame S (b.sessions.heap p) h.sess)
    (hnext : (b.handled env i p h accepts).next = some (goesOn, b')) : Frame S b b' := by
  obtain ⟨u, hu, hpair⟩ := Option.map_eq_some_iff.mp hnext
  cases hpair
  have hwritten : Frame S b ((b.modifySession p fun _ => h.sess).setConn i h.conn) :=
    (modifySession hsess).trans (setClient rfl hconn)
  exact (hwritten.trans (routeAll hu)).trans (setClient rfl (ConnFrame.answerOn h _))

theorem publishPacket (hlearns : S.learns = true) {pkt : PublishPacket} {p : Ptr}
    (hnext : (b.publishPacket env i pkt p).next = some (goesOn, b')) : Frame S b b' := by
  rw [BrokerState.publishPacket] at hnext
  split at hnext
  · cases hnext
    exact refl b
  · next h hh =>
      obtain ⟨topic, hres⟩ := handlePublish_conn hh
      have hsess : SessionFrame S (b.sessions.heap p) h.sess :=
        ⟨clientID_handlePublish hh, Scope.unasked hlearns⟩
      exact handled (ConnFrame.resolvePublishTopic hlearns hres) hsess hnext

theorem pubrelPacket {id : UInt16} {p : Ptr}
    (hnext : (b.pubrelPacket env i id p).next = some (goesOn, b')) : Frame S b b' :=
  handled (ConnFrame.refl _) (NoNewTopic.ackInFlight id _).frame hnext

theorem unsubscribeFilters (senv : SubscribeEnv Nat) (filters : List GoString) (b : BrokerState) :
    Frame S b { b with router := (Broker.unsubscribeFilters senv filters b.router).2 } := by
  refine of_router rfl rfl rfl fun _ => ?_
  rw [unsubscribeFilters_router]
  refine Router.Steers.foldl (fun r filter _ => ?_) b.router
  rw [unsubscribeTurn]
  split
  · exact .event (e := .call (.unsubscribe filter senv.clientID)) trivial r
  · exact .refl r

theorem withPacket {σ α : Type} {decoded : Faulting.Outcome Protocol.DecodeError σ α}
    {handler : α → Ptr → Reply}
    (hhandler : ∀ a p, (handler a p).next = some (goesOn, b') → Frame S b b')
    (hnext : (b.withPacket i decoded handler).next = some (goesOn, b')) : Frame S b b' := by
  unfold BrokerState.withPacket at hnext
  split at hnext
  · exact hhandler _ _ hnext
  · cases hnext
    exact refl b
  · cases hnext

/-- Only a PUBLISH takes a topic, and only a SUBSCRIBE subscribes. -/
theorem dispatch {fh : Protocol.FixedHeader} {body : List UInt8} (hconnect : fh.type ≠ .connect)
    (hlearns : fh.type = .publish → S.learns = true)
    (hsubscribes : fh.type = .subscribe → S.subscribes = true)
    (hnext : (b.dispatch env i fh body).next = some (goesOn, b')) : Frame S b b' := by
  have hgoes {u : BrokerState} {goes : Bool} (hu : Frame S b u)
      (heq : some (goes, u) = some (goesOn, b')) : Frame S b b' := by
    cases heq
    exact hu
  rw [BrokerState.dispatch] at hnext
  cases htype : fh.type <;> simp only [htype] at hnext
  case connect => exact absurd htype hconnect
  case publish => exact withPacket (fun _ _ => publishPacket (hlearns htype)) hnext
  case puback | pubcomp =>
    exact withPacket (fun _ _ => hgoes (modifySession (SessionFrame.of_eq rfl rfl rfl rfl))) hnext
  case pubrec =>
    refine withPacket (fun id p => hgoes ?_) hnext
    exact (modifySession (NoNewTopic.setOutFlightPhase id .received _).frame).trans (enqueue i _ _)
  case pubrel => exact withPacket (fun _ _ => pubrelPacket) hnext
  case subscribe =>
    refine withPacket (fun pkt _ => hgoes (Frame.trans ?_ (enqueue i _ _))) hnext
    exact of_router rfl rfl rfl (Scope.unasked (hsubscribes htype))
  case unsubscribe =>
    refine withPacket (fun pkt _ => hgoes (Frame.trans ?_ (enqueue i _ _))) hnext
    exact unsubscribeFilters _ pkt.2 b
  case pingreq =>
    split at hnext
    · exact hgoes ((enqueue i _ b).trans (modifySession (SessionFrame.of_eq rfl rfl rfl rfl)))
        hnext
    · cases hnext
  case disconnect =>
    split at hnext
    · refine hgoes ?_ hnext
      cases (b.conns i).sess with
      | none => exact refl b
      | some p => exact modifySession (NoNewTopic.disconnectWith _ _).frame
    · exact hgoes (refl b) hnext
    · cases hnext
  all_goals exact hgoes (refl b) hnext

end Packets

end Frame

end LumaBroker.Broker
