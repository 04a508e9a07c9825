import LumaBroker.Broker.Persistent
import LumaBroker.Broker.Subscribe
import LumaBroker.Router.Publishing

/-!
What is left in the offline queue of a client that is online. Publishes, SendRetained,
restoreSession and drainOfflineQueue of internal/broker/client.go run side by side, and the
router holds the closure of whichever connection subscribed last. A closure puts a message
in the queue when its connection is closed, when the message is too large and when the
client's Receive Maximum is reached; each of its critical sections is a step here. The queue
is read once a connection.
-/

namespace LumaBroker.Broker.Stranded

open Session Transition
open Persistent (Config)
open Router (Publishing Subscriber Delivery)

/-- What the closure of makeDeliverFn does once it has looked at its connection and at the size. -/
inductive Checked where
  | queue
  | send
  | track
  deriving DecidableEq

def check (m : Queued) (c : Conn) : Checked :=
  let approx := approxClientOutboundPublishBytes c.version m.topic m.payload.length m.qos
  if c.state ≠ .connected then .queue
  else if c.peerMaxPacketSize > 0 ∧ UInt32.ofNat approx > c.peerMaxPacketSize then .queue
  else if m.qos = 0 then .send
  else .track

/-- The in-flight table takes the message and it is sent, or the Receive Maximum is reached;
none when NextPacketID never returns. -/
def track (now : Nat) (m : Queued) (c : Conn) (sess : Session) : Option (Conn × Session × Bool) :=
  sess.nextPacketID.map fun (pid, sess) =>
    match sess.addOutFlightLimited ⟨pid, m.topic, m.payload, m.qos, m.retain, now, .published⟩
      (recvLim c) with
    | (sess, true) =>
        (c.enqueue (.publish c.version m.topic m.payload m.qos m.retain pid), sess, true)
    | (sess, false) => (c, sess, false)

/-- Without anything between them the sections are the closure. -/
theorem deliver_eq (now : Nat) (m : Queued) (c : Conn) (sess : Session) :
    (deliver now m c sess).map (fun r => (r.conn, r.sess)) =
      match check m c with
      | .queue => some (c, (sess.enqueue m).1)
      | .send => some (c.enqueue (.publish c.version m.topic m.payload m.qos m.retain 0), sess)
      | .track =>
          (track now m c sess).map fun r =>
            (r.1, if r.2.2 then r.2.1 else (r.2.1.enqueue m).1) := by
  simp only [deliver, check]
  split_ifs with hstate hsize hqos
  · rfl
  · rfl
  · rfl
  · rw [track, Option.map_map, Option.map_map]
    refine congrArg (Option.map · sess.nextPacketID) (funext fun next => ?_)
    simp only [Function.comp_apply, sendTracked]
    split <;> simp [sendPublish, qEnqueue, *]

/-- A connection of the session; drained when its drainOfflineQueue has taken the queue. -/
structure Connection where
  conn : Conn
  drained : Bool

/-- restoreSession of a connection, before GetSubs, and then with the rows that are left. -/
structure Restore where
  conn : Nat
  rows : Option (List (GoString × UInt8))

/-- Who calls closures: Publish, SendRetained with the topics it has visited, drainOfflineQueue. -/
inductive Task where
  | publish (p : Publishing Nat)
  | sendRetained (filter : GoString) (sub : Subscriber Nat) (visited : List GoString)
  | drain

/-- How far a goroutine is in the closure that it calls. -/
inductive Stage where
  | idle
  | tracking (i : Nat) (m : Queued)
  | enqueueing (m : Queued)

/-- What Enqueue is about to be called with. -/
def Stage.toEnqueue : Stage → Option Queued
  | .enqueueing m => some m
  | _ => none

/-- A goroutine, and the closures of the session's connections that it is to call before it
goes on. -/
structure Sender where
  task : Task
  calls : List (Nat × Queued)
  stage : Stage

/-- A closure in the router is the number of its connection. -/
structure World where
  conns : List Connection
  sess : Session
  router : Router Nat
  restores : List Restore
  senders : List Sender

inductive Event where
  | connect (now : Nat) (pkt : ConnectPacket)
  | handleDisconnect (expiry : Option UInt32)
  /-- cleanup marks the connection, and later the session. -/
  | close (i : Nat)
  | cleanup (now : Nat)
  | write (i : Nat)
  /-- PUBACK or PUBCOMP. -/
  | ack (id : UInt16)
  | pubrec (id : UInt16)
  /-- One turn of handleSubscribe, of handleUnsubscribe, on a connection. -/
  | subscribe (i : Nat) (env : SubscribeEnv Unit) (sub : SubscribeEntry)
  | unsubscribe (i : Nat) (env : SubscribeEnv Unit) (filter : GoString)
  /-- A subscription of another client changes. -/
  | other (call : Router.Call Nat)
  | publish (topic : GoString) (payload : List UInt8) (qos : UInt8) (retain : Bool)
  /-- The next step of a call of Publish. -/
  | next (k now : Nat)
  /-- SendRetained visits a topic. -/
  | visit (k : Nat) (topic : GoString)
  /-- drainOfflineQueue of a connection starts. -/
  | drainQueue (i : Nat)
  /-- A goroutine calls its next closure, and the two sections that may follow. -/
  | call (k : Nat)
  | track (k now : Nat)
  | enqueue (k : Nat)
  /-- GetSubs answers restoreSession, with no rows if it fails. -/
  | getSubs (k : Nat) (rows : List (GoString × UInt8))
  /-- restoreSession subscribes to the next filter. -/
  | restore (k : Nat)

def clientOf : Router.Call Nat → GoString
  | .subscribe _ sub => sub.clientID
  | .unsubscribe _ clientID => clientID
  | .unsubscribeAll clientID => clientID

/-- The calls that reach a closure of this session. -/
def ownCalls (cfg : Config) (deliveries : List (Delivery Nat)) : List (Nat × Queued) :=
  (deliveries.filter fun d => d.clientID = cfg.clientID).map fun d =>
    (d.deliver, ⟨d.topic, d.payload, d.qos, d.retain⟩)

namespace World
variable (cfg : Config) (w : World)

/-- A CONNECT that finds the session starts restoreSession. -/
def connect (now : Nat) (pkt : ConnectPacket) : World :=
  { w with
    conns := w.conns ++
      [⟨pkt.newConn cfg.clientID cfg.writeQueueSize cfg.topicAliasMax !w.conns.isEmpty, false⟩]
    sess := pkt.connectSession now w.sess
    restores := w.restores ++ if w.conns.isEmpty then [] else [⟨w.conns.length, none⟩] }

def setConn (i : Nat) (c : Connection) (conn : Conn) : World :=
  { w with conns := w.conns.set i { c with conn := conn } }

def setSender (k : Nat) (s : Sender) : World := { w with senders := w.senders.set k s }

/-- handleSubscribe with an entry that it grants. -/
def subscribe (i : Nat) (filter : GoString) (qos : UInt8) : World :=
  let sub : Subscriber Nat := ⟨cfg.clientID, qos, some i⟩
  { w with
    router := w.router.subscribe filter sub
    senders := w.senders ++ [⟨.sendRetained filter sub [], [], .idle⟩] }

/-- The first section of a closure. -/
def callClosure (k i : Nat) (m : Queued) (s : Sender) (c : Connection) : World :=
  match check m c.conn with
  | .queue => w.setSender k { s with stage := .enqueueing m }
  | .track => w.setSender k { s with stage := .tracking i m }
  | .send =>
      (w.setConn i c
        (c.conn.enqueue (.publish c.conn.version m.topic m.payload m.qos m.retain 0))).setSender k s

end World

/-- A clean CONNECT and a cleanup that purges do not resume the session. -/
def step (cfg : Config) (w : World) : Event → Option World
  | .connect now pkt => if pkt.cleanSession then none else some (w.connect cfg now pkt)
  | .handleDisconnect expiry => some { w with sess := Broker.handleDisconnect expiry w.sess }
  | .close i => w.conns[i]?.map fun c => w.setConn i c { c.conn with state := .closed }
  | .cleanup now =>
      if (disconnectSession now w.sess).2 then none
      else some { w with sess := (disconnectSession now w.sess).1 }
  | .write i => w.conns[i]?.map fun c => w.setConn i c c.conn.write
  | .ack id => some { w with sess := (w.sess.ackOutFlight id).1 }
  | .pubrec id => some { w with sess := w.sess.setOutFlightPhase id .received }
  | .subscribe i env sub =>
      w.conns[i]?.map fun _ =>
        let env := { env with clientID := cfg.clientID }
        if subscribeOutcome env sub = .ok then w.subscribe cfg i sub.filter (grantedQoS env sub)
        else w
  | .unsubscribe i env filter =>
      w.conns[i]?.map fun _ =>
        if unsubscribeOutcome { env with clientID := cfg.clientID } filter = .ok then
          { w with router := w.router.unsubscribe filter cfg.clientID }
        else w
  | .other call =>
      if clientOf call = cfg.clientID then none else some { w with router := w.router.exec call }
  | .publish topic payload qos retain =>
      some { w with
        senders := w.senders ++ [⟨.publish ⟨topic, payload, qos, retain, .store⟩, [], .idle⟩] }
  | .next k now =>
      match w.senders[k]? with
      | some ⟨.publish p, [], .idle⟩ =>
          (p.next now w.router).map fun (phase, router, calls) =>
            { w with router := router }.setSender k
              ⟨.publish { p with phase := phase }, ownCalls cfg calls, .idle⟩
      | _ => none
  | .visit k topic =>
      match w.senders[k]? with
      | some ⟨.sendRetained filter sub visited, [], .idle⟩ =>
          if visited.contains topic then none
          else
            (w.router.retained.get topic).map fun msg =>
              w.setSender k ⟨.sendRetained filter sub (topic :: visited),
                ownCalls cfg (Router.sendVisited filter sub topic msg), .idle⟩
      | _ => none
  | .drainQueue i =>
      match w.conns[i]? with
      | some ⟨conn, false⟩ =>
          let (sess, msgs) := w.sess.drainQueue
          some { w with
            conns := w.conns.set i ⟨conn, true⟩
            sess := sess
            senders := w.senders ++ [⟨.drain, msgs.map fun m => (i, m), .idle⟩] }
      | _ => none
  | .call k =>
      match w.senders[k]? with
      | some ⟨task, (i, m) :: calls, .idle⟩ =>
          w.conns[i]?.map fun c => w.callClosure k i m ⟨task, calls, .idle⟩ c
      | _ => none
  | .track k now =>
      match w.senders[k]? with
      | some ⟨task, calls, .tracking i m⟩ =>
          w.conns[i]?.bind fun c =>
            (track now m c.conn w.sess).map fun (conn, sess, sent) =>
              ({ w with sess := sess }.setConn i c conn).setSender k
                ⟨task, calls, if sent then .idle else .enqueueing m⟩
      | _ => none
  | .enqueue k =>
      match w.senders[k]? with
      | some ⟨task, calls, .enqueueing m⟩ =>
          some ({ w with sess := (w.sess.enqueue m).1 }.setSender k ⟨task, calls, .idle⟩)
      | _ => none
  | .getSubs k rows =>
      match w.restores[k]? with
      | some ⟨i, none⟩ => some { w with restores := w.restores.set k ⟨i, some rows⟩ }
      | _ => none
  | .restore k =>
      match w.restores[k]? with
      | some ⟨i, some ((filter, qos) :: rows)⟩ =>
          some { w with
            router := w.router.subscribe filter ⟨cfg.clientID, qos, some i⟩
            restores := w.restores.set k ⟨i, some rows⟩ }
      | _ => none

/-- The estimate exceeds the client's Maximum Packet Size. -/
def Oversized (c : Conn) (m : Queued) : Prop :=
  c.peerMaxPacketSize > 0 ∧
    UInt32.ofNat (approxClientOutboundPublishBytes c.version m.topic m.payload.length m.qos) >
      c.peerMaxPacketSize

instance (c : Conn) (m : Queued) : Decidable (Oversized c m) := inferInstanceAs (Decidable (_ ∧ _))

def AtReceiveMaximum (c : Conn) (sess : Session) : Prop :=
  recvLim c > 0 ∧ inFlightCount sess ≥ (recvLim c).toNat

instance (c : Conn) (sess : Session) : Decidable (AtReceiveMaximum c sess) :=
  inferInstanceAs (Decidable (_ ∧ _))

/-- The connection could not send the message now. -/
def Blocked (c : Conn) (sess : Session) (m : Queued) : Prop :=
  Oversized c m ∨ m.qos > 0 ∧ AtReceiveMaximum c sess

instance (c : Conn) (sess : Session) (m : Queued) : Decidable (Blocked c sess m) :=
  inferInstanceAs (Decidable (_ ∨ _))

/-- A publish or a drain that has nothing left to do; SendRetained is neither. -/
def Sender.Finished (s : Sender) : Prop :=
  match s.task, s.calls, s.stage with
  | .publish p, [], .idle => p.phase = .sharing []
  | .drain, [], .idle => True
  | .sendRetained .., _, _ => True
  | _, _, _ => False

instance (s : Sender) : Decidable s.Finished :=
  match s with
  | ⟨.publish p, [], .idle⟩ => inferInstanceAs (Decidable (p.phase = .sharing []))
  | ⟨.drain, [], .idle⟩ => isTrue trivial
  | ⟨.sendRetained .., _, _⟩ => isTrue trivial
  | ⟨.publish _, _ :: _, _⟩ => isFalse id
  | ⟨.publish _, [], .tracking ..⟩ => isFalse id
  | ⟨.publish _, [], .enqueueing _⟩ => isFalse id
  | ⟨.drain, _ :: _, _⟩ => isFalse id
  | ⟨.drain, [], .tracking ..⟩ => isFalse id
  | ⟨.drain, [], .enqueueing _⟩ => isFalse id

/-- No publish, no restoreSession and no drainOfflineQueue is in progress. -/
def Quiescent (w : World) : Prop :=
  (∀ s ∈ w.senders, s.Finished) ∧ (∀ g ∈ w.restores, g.rows = some []) ∧
    ∀ c ∈ w.conns, c.drained = true

instance (w : World) : Decidable (Quiescent w) := inferInstanceAs (Decidable (_ ∧ _ ∧ _))

/-- The connection of the last CONNECT. -/
def current (w : World) : Option Connection := w.conns.getLast?

/-- Whatever is queued while the client is online could not be sent. -/
def NoneStranded (w : World) : Prop :=
  Quiescent w → ∀ c ∈ current w, c.conn.state = .connected →
    ∀ m ∈ w.sess.queue, Blocked c.conn w.sess m

instance (w : World) : Decidable (NoneStranded w) :=
  inferInstanceAs (Decidable (Quiescent w → ∀ c ∈ current w, _))

/-- The current connection, if it is up and its drain has taken the queue. -/
def online (w : World) : Option Connection :=
  (current w).filter fun c => c.conn.state = .connected ∧ c.drained

/-- The same at every moment after the drain has taken the queue. -/
def NoneWaiting (w : World) : Prop := ∀ c ∈ online w, ∀ m ∈ w.sess.queue, Blocked c.conn w.sess m

/-- A message goes to the queue only if the current connection could not send it, is not up or
has yet to take the queue; an acknowledgment comes only if all that is queued is too large or
more is in flight than the Receive Maximum. -/
def Served (w : World) : Event → Prop
  | .enqueue k =>
      ∀ s ∈ w.senders[k]?, ∀ m ∈ s.stage.toEnqueue, ∀ c ∈ online w, Blocked c.conn w.sess m
  | .ack id =>
      ∀ msg ∈ w.sess.outFlight.get id, msg.qos > 0 → ∀ c ∈ online w,
        ∀ m ∈ w.sess.queue, Oversized c.conn m ∨ (recvLim c.conn).toNat < inFlightCount w.sess
  | _ => True

instance decidableServed (w : World) : ∀ e : Event, Decidable (Served w e)
  | .enqueue k => inferInstanceAs (Decidable (∀ s ∈ w.senders[k]?, _))
  | .ack id => inferInstanceAs (Decidable (∀ msg ∈ w.sess.outFlight.get id, _))
  | .connect .. | .handleDisconnect _ | .close _ | .cleanup _ | .write _ | .pubrec _ =>
      isTrue trivial
  | .subscribe .. | .unsubscribe .. | .other _ | .publish .. | .next .. | .visit .. =>
      isTrue trivial
  | .drainQueue _ | .call _ | .track .. | .getSubs .. | .restore _ => isTrue trivial

section Counts

theorem inFlightCount_phase (sess : Session) (id : UInt16) (phase : QoS2Phase) :
    inFlightCount (sess.setOutFlightPhase id phase) = inFlightCount sess := by
  cases hget : sess.outFlight.get id with
  | none => simp only [setOutFlightPhase, hget]
  | some msg =>
      have hperm := sess.outFlight.entries_set_perm id { msg with qos2Phase := phase }
      rw [inFlightCount_erase hget]
      simp only [setOutFlightPhase, hget, inFlightCount]
      rw [(hperm.filter _).length_eq, List.filter_cons]
      simp only [decide_eq_true_eq]
      split_ifs <;> rfl

theorem Blocked.mono {c : Conn} {sess sess' : Session} {m : Queued} (h : Blocked c sess m)
    (hcount : inFlightCount sess ≤ inFlightCount sess') : Blocked c sess' m := by
  rcases h with hsize | ⟨hqos, hlim, hfull⟩
  · exact .inl hsize
  · exact .inr ⟨hqos, hlim, Nat.le_trans hfull hcount⟩

theorem mem_enqueue {sess : Session} {m x : Queued} (h : x ∈ (sess.enqueue m).1.queue) :
    x ∈ sess.queue ∨ x = m := by
  cases hclean : sess.cleanSession with
  | true =>
      rw [Session.enqueue_of_clean hclean] at h
      exact .inl h
  | false =>
      rw [Session.enqueue_of_persistent hclean] at h
      cases List.mem_append.mp h with
      | inr hnew => exact .inr (List.mem_singleton.mp hnew)
      | inl hold =>
          split at hold
          · exact .inl (List.mem_of_mem_tail hold)
          · exact .inl hold

theorem mem_enqueue_self {sess : Session} (hclean : sess.cleanSession = false) (m : Queued) :
    m ∈ (sess.enqueue m).1.queue := by
  rw [Session.enqueue_of_persistent hclean]
  exact List.mem_append_right _ List.mem_cons_self

theorem track_spec {now : Nat} {m : Queued} {c c' : Conn} {sess sess' : Session} {sent : Bool}
    (h : track now m c sess = some (c', sess', sent)) :
    (∃ q, c' = { c with writeQ := q }) ∧ sess'.queue = sess.queue ∧
      sess'.cleanSession = sess.cleanSession ∧
      inFlightCount sess ≤ inFlightCount sess' := by
  have hconn (data : Outbound) : ∃ q, c.enqueue data = { c with writeQ := q } :=
    ⟨_, Conn.enqueue_eq data c⟩
  obtain ⟨⟨pid, s⟩, hnext, heq⟩ := Option.map_eq_some_iff.mp h
  obtain ⟨hfree, n, rfl⟩ := nextPacketID_spec hnext
  simp only [addOutFlightLimited] at heq
  split_ifs at heq with hqos hfull
  · cases heq
    exact ⟨hconn _, rfl, rfl, Nat.le_refl _⟩
  · cases heq
    exact ⟨⟨_, rfl⟩, rfl, rfl, Nat.le_refl _⟩
  · cases heq
    exact ⟨hconn _, rfl, rfl, inFlightCount_set hfree _ ▸ Nat.le_add_right _ _⟩

end Counts

section Steps
variable {cfg : Config} {w t : World}

theorem mem_online {c : Connection} :
    c ∈ online w ↔ c ∈ current w ∧ c.conn.state = .connected ∧ c.drained = true := by
  simp [online, Option.mem_def, Option.filter_eq_some_iff]

theorem mem_current_setConn {i : Nat} {c₀ c : Connection} {conn : Conn} (h₀ : w.conns[i]? = some c₀)
    (h : c ∈ current (w.setConn i c₀ conn)) :
    c ∈ current w ∨ c₀ ∈ current w ∧ c = { c₀ with conn := conn } := by
  simp only [current, World.setConn, Option.mem_def, List.getLast?_eq_getElem?, List.length_set]
    at h ⊢
  rw [List.getElem?_set] at h
  split_ifs at h with hi hlt
  · subst hi
    exact .inr ⟨h₀, (Option.some.inj h).symm⟩
  · exact .inl h

/-- A step that adds nothing to the queue of a connection that was online. -/
structure Quiet (w t : World) : Prop where
  waiting : ∀ c ∈ online t, ∀ m ∈ t.sess.queue,
    m ∈ w.sess.queue ∧ ∃ c' ∈ online w, ∃ q, c.conn = { c'.conn with writeQ := q }
  count : inFlightCount w.sess ≤ inFlightCount t.sess
  persistent : t.sess.cleanSession = w.sess.cleanSession

theorem Quiet.noneWaiting (h : Quiet w t) (hw : NoneWaiting w) : NoneWaiting t := by
  intro c hc m hm
  obtain ⟨hmem, c', hc', q, hconn⟩ := h.waiting c hc m hm
  have hblocked : Blocked c.conn w.sess m := by
    rw [hconn]
    exact hw c' hc' m hmem
  exact hblocked.mono h.count

theorem quiet_of_conns (hconns : t.conns = w.conns) (hqueue : t.sess.queue = w.sess.queue)
    (hcount : inFlightCount w.sess ≤ inFlightCount t.sess)
    (hclean : t.sess.cleanSession = w.sess.cleanSession) : Quiet w t := by
  refine ⟨fun c hc m hm => ?_, hcount, hclean⟩
  have honline : online t = online w := by rw [online, online, current, current, hconns]
  exact ⟨hqueue ▸ hm, c, honline ▸ hc, c.conn.writeQ, rfl⟩

theorem quiet_of_tables {sess : Session} (h : tables sess = tables w.sess) :
    Quiet w { w with sess := sess } := by
  have hflight : sess.outFlight = w.sess.outFlight := congrArg Tables.outFlight h
  exact quiet_of_conns rfl (congrArg Tables.queue h)
    (by rw [inFlightCount, inFlightCount, hflight]) (congrArg Tables.cleanSession h)

theorem quiet_setConn {i : Nat} {c₀ : Connection} {conn : Conn} {senders : List Sender}
    {sess : Session} (h₀ : w.conns[i]? = some c₀) (hconn : ∃ q, conn = { c₀.conn with writeQ := q })
    (hqueue : sess.queue = w.sess.queue) (hcount : inFlightCount w.sess ≤ inFlightCount sess)
    (hclean : sess.cleanSession = w.sess.cleanSession) :
    Quiet w { w with
      conns := w.conns.set i { c₀ with conn := conn }, sess := sess, senders := senders } := by
  obtain ⟨q, rfl⟩ := hconn
  refine ⟨fun c hc m hm => ⟨hqueue ▸ hm, ?_⟩, hcount, hclean⟩
  obtain ⟨hcur, hup⟩ := mem_online.mp hc
  rcases mem_current_setConn h₀ hcur with hsame | ⟨hcur₀, rfl⟩
  · exact ⟨c, mem_online.mpr ⟨hsame, hup⟩, c.conn.writeQ, rfl⟩
  · exact ⟨c₀, mem_online.mpr ⟨hcur₀, hup⟩, q, rfl⟩

theorem quiet_connect (now : Nat) (pkt : ConnectPacket) : Quiet w (w.connect cfg now pkt) := by
  have htables := tables_connectSession pkt now w.sess
  have hflight : (pkt.connectSession now w.sess).outFlight = w.sess.outFlight :=
    congrArg Tables.outFlight htables
  refine ⟨fun c hc => ?_, ?_, congrArg Tables.cleanSession htables⟩
  · -- the new connection has not drained the queue
    obtain ⟨hcur, -, hdrained⟩ := mem_online.mp hc
    simp only [current, World.connect, List.getLast?_append, List.getLast?_singleton,
      Option.some_or, Option.mem_def, Option.some.injEq] at hcur
    subst hcur
    cases hdrained
  · rw [inFlightCount, inFlightCount]
    exact Nat.le_of_eq (by rw [World.connect, hflight])

theorem quiet_close {i : Nat} {c₀ : Connection} (h₀ : w.conns[i]? = some c₀) :
    Quiet w (w.setConn i c₀ { c₀.conn with state := .closed }) := by
  refine ⟨fun c hc m hm => ⟨hm, ?_⟩, Nat.le_refl _, rfl⟩
  obtain ⟨hcur, hup⟩ := mem_online.mp hc
  rcases mem_current_setConn h₀ hcur with hsame | ⟨-, rfl⟩
  · exact ⟨c, mem_online.mpr ⟨hsame, hup⟩, c.conn.writeQ, rfl⟩
  · exact absurd hup.1 (by simp)

theorem quiet_call {k i : Nat} {m : Queued} {s : Sender} {c₀ : Connection}
    (h₀ : w.conns[i]? = some c₀) : Quiet w (w.callClosure k i m s c₀) := by
  simp only [World.callClosure]
  split
  · exact quiet_of_conns rfl rfl (Nat.le_refl _) rfl
  · exact quiet_of_conns rfl rfl (Nat.le_refl _) rfl
  · exact quiet_setConn h₀ ⟨_, Conn.enqueue_eq _ _⟩ rfl (Nat.le_refl _) rfl

/-- The steps of the router, of restoreSession and of the callers between two closures. -/
def Event.aside : Event → Bool
  | .subscribe .. | .unsubscribe .. | .other _ | .publish .. | .next .. | .visit .. => true
  | .getSubs .. | .restore _ => true
  | _ => false

theorem aside_step {e : Event} (he : e.aside = true) (h : step cfg w e = some t) :
    t.conns = w.conns ∧ t.sess = w.sess := by
  cases e with
  | subscribe i env sub =>
      obtain ⟨c, -, rfl⟩ := Option.map_eq_some_iff.mp h
      dsimp only
      split_ifs <;> exact ⟨rfl, rfl⟩
  | unsubscribe i env filter =>
      obtain ⟨c, -, rfl⟩ := Option.map_eq_some_iff.mp h
      split_ifs <;> exact ⟨rfl, rfl⟩
  | other call =>
      simp only [step] at h
      split_ifs at h
      cases h
      exact ⟨rfl, rfl⟩
  | publish topic payload qos retain =>
      cases h
      exact ⟨rfl, rfl⟩
  | next k now =>
      simp only [step] at h
      split at h
      · obtain ⟨_, -, rfl⟩ := Option.map_eq_some_iff.mp h
        exact ⟨rfl, rfl⟩
      · cases h
  | visit k topic =>
      simp only [step] at h
      split at h
      · split_ifs at h
        obtain ⟨_, -, rfl⟩ := Option.map_eq_some_iff.mp h
        exact ⟨rfl, rfl⟩
      · cases h
  | getSubs k rows | restore k =>
      simp only [step] at h
      split at h
      · cases h
        exact ⟨rfl, rfl⟩
      · cases h
  | _ => cases he

theorem quiet_step {e : Event} (h : step cfg w e = some t) (hack : ∀ id, e ≠ .ack id)
    (henqueue : ∀ k, e ≠ .enqueue k) : Quiet w t := by
  by_cases haside : e.aside = true
  · obtain ⟨hconns, hsess⟩ := aside_step haside h
    exact quiet_of_conns hconns (by rw [hsess]) (by rw [hsess]) (by rw [hsess])
  cases e with
  | ack id => exact absurd rfl (hack id)
  | enqueue k => exact absurd rfl (henqueue k)
  | connect now pkt =>
      simp only [step] at h
      split_ifs at h
      cases h
      exact quiet_connect now pkt
  | handleDisconnect expiry =>
      cases h
      exact quiet_of_tables (tables_handleDisconnect expiry w.sess)
  | close i =>
      obtain ⟨c, hc, rfl⟩ := Option.map_eq_some_iff.mp h
      exact quiet_close hc
  | cleanup now =>
      simp only [step] at h
      split_ifs at h
      cases h
      exact quiet_of_tables (tables_disconnectSession now w.sess)
  | write i =>
      obtain ⟨c, hc, rfl⟩ := Option.map_eq_some_iff.mp h
      exact quiet_setConn hc ⟨_, rfl⟩ rfl (Nat.le_refl _) rfl
  | pubrec id =>
      cases h
      have hsame : (w.sess.setOutFlightPhase id .received).queue = w.sess.queue ∧
          (w.sess.setOutFlightPhase id .received).cleanSession = w.sess.cleanSession := by
        rw [setOutFlightPhase_eq]
        exact ⟨rfl, rfl⟩
      exact quiet_of_conns rfl hsame.1 (Nat.le_of_eq (inFlightCount_phase ..).symm) hsame.2
  | drainQueue i =>
      simp only [step] at h
      split at h
      · cases h
        exact ⟨fun c _ m hm => absurd hm List.not_mem_nil, Nat.le_refl _, rfl⟩
      · cases h
  | call k =>
      simp only [step] at h
      split at h
      · obtain ⟨c, hc, rfl⟩ := Option.map_eq_some_iff.mp h
        exact quiet_call hc
      · cases h
  | track k now =>
      simp only [step] at h
      split at h
      · obtain ⟨c, hc, h⟩ := Option.bind_eq_some_iff.mp h
        obtain ⟨⟨conn, sess, sent⟩, htrack, rfl⟩ := Option.map_eq_some_iff.mp h
        obtain ⟨hconn, hqueue, hclean, hcount⟩ := track_spec htrack
        exact quiet_setConn hc hconn hqueue hcount hclean
      · cases h
  | _ => exact absurd rfl haside

theorem noneWaiting_enqueue {k : Nat} (hclean : w.sess.cleanSession = false) (hw : NoneWaiting w)
    (h : step cfg w (.enqueue k) = some t) : NoneWaiting t ↔ Served w (.enqueue k) := by
  simp only [step] at h
  split at h
  case h_2 => cases h
  case h_1 task calls m hs =>
    cases h
    simp only [Served, hs, Option.mem_def, Option.some.injEq, forall_eq', Stage.toEnqueue]
    have hcount := Session.apply_enqueue inFlightCount (fun _ _ => rfl) m w.sess
    constructor
    · intro ht c hc
      exact (ht c hc m (mem_enqueue_self hclean m)).mono (Nat.le_of_eq hcount)
    · intro hm c hc x hx
      rcases mem_enqueue hx with hold | rfl
      · exact (hw c hc x hold).mono (Nat.le_of_eq hcount.symm)
      · exact (hm c hc).mono (Nat.le_of_eq hcount.symm)

theorem noneWaiting_ack {id : UInt16} (hw : NoneWaiting w) (h : step cfg w (.ack id) = some t) :
    NoneWaiting t ↔ Served w (.ack id) := by
  cases h
  cases hget : w.sess.outFlight.get id with
  | none =>
      have hsess : (w.sess.ackOutFlight id).1 = w.sess := by
        rw [ackOutFlight, FinMap.erase_of_get_none hget]
      rw [hsess]
      simp only [Served, hget, Option.mem_def]
      exact ⟨fun _ _ h => (by cases h), fun _ => hw⟩
  | some msg =>
      have hcount := inFlightCount_erase hget
      simp only [Served, hget, Option.mem_def, Option.some.injEq, forall_eq']
      by_cases hqos : msg.qos > 0
      · rw [if_pos hqos] at hcount
        constructor
        · intro ht _ c hc m hm
          rcases ht c hc m hm with hsize | ⟨-, -, hfull⟩
          · exact .inl hsize
          · refine .inr ?_
            rw [hcount]
            exact Nat.lt_succ_of_le hfull
        · intro hroom c hc m hm
          rcases hroom hqos c hc m hm with hsize | hmore
          · exact .inl hsize
          · rcases hw c hc m hm with hsize | ⟨hm0, hlim, -⟩
            · exact .inl hsize
            · rw [hcount] at hmore
              exact .inr ⟨hm0, hlim, Nat.le_of_lt_succ hmore⟩
      · rw [if_neg hqos, Nat.add_zero] at hcount
        exact ⟨fun _ h => absurd h hqos,
          fun _ c hc m hm => (hw c hc m hm).mono (Nat.le_of_eq hcount)⟩

/-- A step keeps the queue free of messages that could be sent exactly if it meets the
condition. -/
theorem noneWaiting_step {e : Event} (hclean : w.sess.cleanSession = false) (hw : NoneWaiting w)
    (h : step cfg w e = some t) : NoneWaiting t ↔ Served w e := by
  by_cases hack : ∃ id, e = .ack id
  · obtain ⟨id, rfl⟩ := hack
    exact noneWaiting_ack hw h
  by_cases henqueue : ∃ k, e = .enqueue k
  · obtain ⟨k, rfl⟩ := henqueue
    exact noneWaiting_enqueue hclean hw h
  have hquiet := quiet_step h (fun id he => hack ⟨id, he⟩) fun k he => henqueue ⟨k, he⟩
  have hserved : Served w e := by
    cases e with
    | ack id => exact absurd ⟨id, rfl⟩ hack
    | enqueue k => exact absurd ⟨k, rfl⟩ henqueue
    | _ => trivial
  exact iff_of_true (hquiet.noneWaiting hw) hserved

theorem persistent_step {e : Event} (hclean : w.sess.cleanSession = false)
    (h : step cfg w e = some t) : t.sess.cleanSession = false := by
  cases e with
  | ack id =>
      cases h
      exact hclean
  | enqueue k =>
      simp only [step] at h
      split at h
      · cases h
        exact (Session.apply_enqueue Session.cleanSession (fun _ _ => rfl) _ w.sess).trans hclean
      · cases h
  | _ =>
      exact (quiet_step h (fun _ he => by cases he) fun _ he => by cases he).persistent.trans hclean

/-- In a state without operations in progress the current connection has taken the queue. -/
theorem NoneWaiting.noneStranded (h : NoneWaiting w) : NoneStranded w := by
  intro hquiescent c hc hup m hm
  have hdrained := hquiescent.2.2 c (List.mem_of_mem_getLast? hc)
  exact h c (mem_online.mpr ⟨hc, hup, hdrained⟩) m hm

end Steps

/-- A new persistent session, in a broker with whatever subscriptions of other clients. -/
structure Start (w : World) : Prop where
  persistent : w.sess.cleanSession = false
  conns : w.conns = []

/-- In a run whose steps meet the condition no message is stranded; and a step that does not
meet it leaves a message in the queue that the current connection could send and will not. -/
theorem none_stranded_while_online (cfg : Config) (es : List Event) (w t : World) (hw : Start w)
    (hok : Meets (step cfg) Served es w) (hrun : run (step cfg) es w = some t) :
    NoneStranded t ∧ ∀ e u, step cfg t e = some u → (NoneWaiting u ↔ Served t e) := by
  have hstart : w.sess.cleanSession = false ∧ NoneWaiting w := by
    refine ⟨hw.persistent, fun c hc => ?_⟩
    have hcur := (mem_online.mp hc).1
    rw [current, hw.conns] at hcur
    cases hcur
  obtain ⟨hclean, ht⟩ := invariant_run (I := fun w => w.sess.cleanSession = false ∧ NoneWaiting w)
    (fun s e t hs hok ht => ⟨persistent_step hs.1 ht, (noneWaiting_step hs.1 hs.2 ht).mpr hok⟩)
      hstart hok hrun
  exact ⟨ht.noneStranded, fun e u hu => noneWaiting_step hclean ht hu⟩

def start : World := ⟨[], Session.new (str "c1") false 0, Router.new, [], []⟩

/-- A persistent session of MQTT v5 with a Receive Maximum of 1. -/
def receiveOne : ConnectPacket := ⟨Protocol.v50, false, 0, 60, 1, 0, 0, none⟩

/-- The client connects and subscribes; the drain and SendRetained are the goroutines 0 and 1. -/
def subscribed : List Event :=
  [.connect 0 receiveOne, .drainQueue 0, .subscribe 0 (envWith []) ⟨str "a", 1⟩]

/-- A publish, as goroutine k, which finds the client, goes through the closure and returns. -/
def published (k : Nat) (payload : List UInt8) (closure : List Event) : List Event :=
  .publish (str "a") payload 1 false :: List.replicate (Router.numShards + 2) (.next k 0) ++
    closure ++ [.next k 0]

/-- The second of two messages waits for the first to be acknowledged. -/
def windowFull : List Event :=
  subscribed ++ published 2 [1] [.call 2, .track 2 0] ++
    published 3 [2] [.call 3, .track 3 0, .enqueue 3]

theorem none_stranded_window_full : ∃ t, run (step Persistent.defaults) windowFull start = some t ∧
    t.sess.queue = [⟨str "a", [2], 1, false⟩] ∧ NoneStranded t := by
  obtain ⟨t, ht, hqueue⟩ := reaches_of_any (step Persistent.defaults) windowFull start
    (fun t => t.sess.queue = [⟨str "a", [2], 1, false⟩]) (by decide +kernel)
  have hok : Meets (step Persistent.defaults) Served windowFull start := by decide +kernel
  exact ⟨t, ht, hqueue,
    (none_stranded_while_online Persistent.defaults windowFull start t ⟨rfl, rfl⟩ hok ht).1⟩

/-- The client leaves and comes back; its queue is drained before it is subscribed anew. -/
def drainedFirst : List Event :=
  subscribed ++ [.close 0, .cleanup 0, .connect 0 receiveOne, .drainQueue 1] ++
    published 3 [1] [.call 3, .enqueue 3] ++ [.getSubs 0 [(str "a", 1)], .restore 0]

/-- The acknowledgment makes room for the message that waits, and nothing sends it; and the
closure of the old connection queues a message after the drain of the new one. -/
theorem message_stranded_while_online :
    (∃ t, run (step Persistent.defaults) (windowFull ++ [.ack 1]) start = some t ∧
      ¬ NoneStranded t) ∧
      ∃ t, run (step Persistent.defaults) drainedFirst start = some t ∧ ¬ NoneStranded t :=
  ⟨reaches_of_any _ _ _ _ (by decide +kernel), reaches_of_any _ _ _ _ (by decide +kernel)⟩

end LumaBroker.Broker.Stranded
