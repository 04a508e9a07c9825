import LumaBroker.Broker.Registry
import LumaBroker.Broker.Suback
import LumaBroker.Lib.Drift
import LumaBroker.Router.Gauge

/-!
The gauges ActiveConnections, ActiveSessions and ActiveSubscriptions over whole runs of the
broker. They are moved in client.go, server.go and router.go, next to the map of clients, the
store of sessions and the subscriptions of the router. Of an event only its effects on these
three count, and each effect says when it moves a gauge as far as what the gauge counts.
-/

namespace LumaBroker.Broker

open Session
open Routed (World Event step start)

inductive Gauge where
  | activeConnections
  | activeSessions
  | activeSubscriptions
  deriving DecidableEq

def Gauge.pick {α : Type} (connections sessions subscriptions : α) : Gauge → α
  | .activeConnections => connections
  | .activeSessions => sessions
  | .activeSubscriptions => subscriptions

/-- Every gauge shows the number of what it counts: the registered clients, the stored
sessions, and the pairs of a client and a filter with a subscription in the router. -/
structure Exact (b : BrokerState) : Prop where
  activeConnections : b.activeConnections = b.clients.size
  activeSessions : b.activeSessions = b.sessions.data.size
  activeSubscriptions : b.router.metrics.activeSubscriptions = b.router.liveSubscriptions.ncard

/-- The gauges with what they count; that of the subscriptions is kept by the router. -/
structure Ledger where
  clients : FinMap GoString Nat
  stored : FinMap GoString Ptr
  router : Router Nat
  activeConnections : Int
  activeSessions : Int

def BrokerState.ledger (b : BrokerState) : Ledger :=
  ⟨b.clients, b.sessions.data, b.router, b.activeConnections, b.activeSessions⟩

inductive Effect where
  /-- A completed handshake: connection i is registered, with the session p. -/
  | join (i : Nat) (cid : GoString) (p : Ptr)
  | leave (cid : GoString)
  | endSession (cid : GoString)
  | subscribe (filter : GoString) (sub : Router.Subscriber Nat)
  | unsubscribe (filter clientID : GoString)
  | route (now : Nat) (calls : List PublishCall)
  deriving DecidableEq

/-- The router after calls of Publish. -/
def routed (now : Nat) (r : Router Nat) (calls : List PublishCall) : Router Nat :=
  calls.foldl (fun r call => (r.publish call.topic call.payload call.qos call.retain now).router) r

namespace Ledger

def apply (l : Ledger) : Effect → Ledger
  | .join i cid p =>
      { l with
        clients := l.clients.set cid i
        stored := l.stored.set cid p
        activeConnections := l.activeConnections + 1
        activeSessions := l.activeSessions + 1 }
  | .leave cid =>
      { l with clients := l.clients.erase cid, activeConnections := l.activeConnections - 1 }
  | .endSession cid =>
      { l with
        router := l.router.unsubscribeAll cid
        stored := l.stored.erase cid
        activeSessions := l.activeSessions - 1 }
  | .subscribe filter sub => { l with router := l.router.subscribe filter sub }
  | .unsubscribe filter clientID => { l with router := l.router.unsubscribe filter clientID }
  | .route now calls => { l with router := routed now l.router calls }

/-- The effect moves every gauge as far as what it counts: the client and its session are new,
or there to be removed, and so is the subscription. A session is ended without taking plain
filters off the gauge. -/
def Fits (l : Ledger) : Effect → Prop
  | .join _ cid _ => l.clients.get cid = none ∧ l.stored.get cid = none
  | .leave cid => l.clients.get cid ≠ none
  | .endSession cid => l.stored.get cid ≠ none ∧
      ∀ f, Protocol.parseSharedTopicFilter f = none → l.router.held cid f = none
  | .subscribe filter sub => l.router.held sub.clientID filter = none
  | .unsubscribe filter clientID =>
      Protocol.parseSharedTopicFilter filter = none ∨ (∃ c, l.router.held c filter ≠ none) →
        l.router.held clientID filter ≠ none
  | .route _ _ => True

noncomputable def drift (l : Ledger) : Gauge → Int :=
  Gauge.pick (l.activeConnections - l.clients.size) (l.activeSessions - l.stored.size)
    l.router.drift

end Ledger

theorem exact_iff (b : BrokerState) : Exact b ↔ ∀ k, b.ledger.drift k = 0 := by
  constructor
  · rintro ⟨hconnections, hsessions, hsubscriptions⟩ k
    cases k with
    | activeConnections => exact Int.sub_eq_zero.mpr hconnections
    | activeSessions => exact Int.sub_eq_zero.mpr hsessions
    | activeSubscriptions => exact Int.sub_eq_zero.mpr hsubscriptions
  · intro h
    exact ⟨Int.sub_eq_zero.mp (h .activeConnections), Int.sub_eq_zero.mp (h .activeSessions),
      Int.sub_eq_zero.mp (h .activeSubscriptions)⟩

section Pushes
variable {l l' : Ledger} {dir : Gauge → Int}

/-- The directions in which the effect can drive the gauges away. -/
def Effect.Toward (dir : Gauge → Int) : Effect → Prop
  | .join .. => dir .activeConnections = 1 ∧ dir .activeSessions = 1
  | .leave _ => dir .activeConnections = -1
  | .endSession _ => dir .activeSessions = -1 ∧ dir .activeSubscriptions = 1
  | .subscribe .. => dir .activeSubscriptions = 1
  | .unsubscribe .. => dir .activeSubscriptions = -1
  | .route .. => True

theorem pushes_of (connections sessions subscriptions : Nat) {P : Prop}
    (hconnections : l'.activeConnections - l'.clients.size =
      l.activeConnections - l.clients.size + dir .activeConnections * connections)
    (hsessions : l'.activeSessions - l'.stored.size =
      l.activeSessions - l.stored.size + dir .activeSessions * sessions)
    (hsubscriptions : l'.router.drift = l.router.drift + dir .activeSubscriptions * subscriptions)
    (hfits : P ↔ connections = 0 ∧ sessions = 0 ∧ subscriptions = 0) :
    Drift.Pushes Ledger.drift dir P l l' := by
  refine ⟨Gauge.pick connections sessions subscriptions, fun k => ?_, hfits.trans ⟨?_, fun h => ?_⟩⟩
  · cases k with
    | activeConnections => exact hconnections
    | activeSessions => exact hsessions
    | activeSubscriptions => exact hsubscriptions
  · rintro ⟨hc, hs, hr⟩ k
    cases k <;> assumption
  · exact ⟨h .activeConnections, h .activeSessions, h .activeSubscriptions⟩

theorem drift_routed {r : Router Nat} (h : r.Tidy) (now : Nat) (calls : List PublishCall) :
    (routed now r calls).Tidy ∧ (routed now r calls).drift = r.drift := by
  induction calls generalizing r with
  | nil => exact ⟨h, rfl⟩
  | cons call calls ih =>
      obtain ⟨htidy, hdrift⟩ :=
        Router.drift_publish h call.topic call.payload call.qos call.retain now
      obtain ⟨hrest, heq⟩ := ih htidy
      exact ⟨hrest, heq.trans hdrift⟩

/-- What one effect does to the gauges. -/
theorem pushes_apply (h : l.router.Tidy) {e : Effect} (hdir : e.Toward dir) :
    (l.apply e).router.Tidy ∧ Drift.Pushes Ledger.drift dir (l.Fits e) l (l.apply e) := by
  cases e with
  | join i cid p =>
      obtain ⟨hconnections, hsessions⟩ := hdir
      obtain ⟨n, hn, hnew⟩ := l.clients.exists_size_set cid i
      obtain ⟨m, hm, hnew'⟩ := l.stored.exists_size_set cid p
      refine ⟨h, pushes_of n m 0 ?_ ?_ ?_ ?_⟩
      · simp only [Ledger.apply, hconnections]
        omega
      · simp only [Ledger.apply, hsessions]
        omega
      · simp [Ledger.apply]
      · simp [Ledger.Fits, hnew, hnew']
  | leave cid =>
      obtain ⟨n, hn, hthere⟩ := l.clients.exists_size_erase cid
      have hconnections : dir .activeConnections = -1 := hdir
      refine ⟨h, pushes_of n 0 0 ?_ ?_ ?_ ?_⟩
      · simp only [Ledger.apply, hconnections]
        omega
      · simp [Ledger.apply]
      · simp [Ledger.apply]
      · simp only [Ledger.Fits, hthere, and_true]
  | endSession cid =>
      obtain ⟨hsessions, hsubscriptions⟩ := hdir
      obtain ⟨n, hn, hthere⟩ := l.stored.exists_size_erase cid
      obtain ⟨htidy, m, hm, hplain⟩ := Router.drift_unsubscribeAll h cid
      refine ⟨htidy, pushes_of 0 n m ?_ ?_ ?_ ?_⟩
      · simp [Ledger.apply]
      · simp only [Ledger.apply, hsessions]
        omega
      · simp only [Ledger.apply, hsubscriptions, hm, one_mul]
      · simp only [Ledger.Fits, hthere, hplain, true_and]
  | subscribe filter sub =>
      obtain ⟨htidy, n, hn, hnew⟩ := Router.drift_subscribe h filter sub
      have hsubscriptions : dir .activeSubscriptions = 1 := hdir
      refine ⟨htidy, pushes_of 0 0 n ?_ ?_ ?_ ?_⟩
      · simp [Ledger.apply]
      · simp [Ledger.apply]
      · simp only [Ledger.apply, hsubscriptions, hn, one_mul]
      · simp only [Ledger.Fits, hnew, true_and]
  | unsubscribe filter clientID =>
      obtain ⟨htidy, n, hn, hthere⟩ := Router.drift_unsubscribe h filter clientID
      have hsubscriptions : dir .activeSubscriptions = -1 := hdir
      refine ⟨htidy, pushes_of 0 0 n ?_ ?_ ?_ ?_⟩
      · simp [Ledger.apply]
      · simp [Ledger.apply]
      · simp only [Ledger.apply, hsubscriptions, hn]
        ring
      · simp only [Ledger.Fits, hthere, true_and]
  | route now calls =>
      obtain ⟨htidy, hdrift⟩ := drift_routed h now calls
      refine ⟨htidy, Drift.Pushes.still (fun k => ?_) trivial⟩
      cases k with
      | activeConnections | activeSessions => rfl
      | activeSubscriptions => exact hdrift

end Pushes

section Effects

def grants (env : SubscribeEnv Nat) (subs : List SubscribeEntry) : List Effect :=
  (grantedEntries env subs).flatMap fun sub =>
    [.subscribe sub.filter (subscriberOf env (grantedQoS env sub))]

def removals (env : SubscribeEnv Nat) (filters : List GoString) : List Effect :=
  filters.flatMap fun filter =>
    if unsubscribeOutcome env filter = .ok then [.unsubscribe filter env.clientID] else []

/-- A packet that cannot be decoded has none. -/
def decodedEffects {σ α : Type} (decoded : Faulting.Outcome Protocol.DecodeError σ α)
    (eff : α → List Effect) : List Effect :=
  match decoded with
  | .ok a _ => eff a
  | _ => []

/-- The effects of a packet that reaches the switch. -/
def packetEffects (env : HandleEnv) (i : Nat) (fh : Protocol.FixedHeader) (body : List UInt8)
    (b : BrokerState) : List Effect :=
  match fh.type with
  | .connect =>
      match b.handleConnect env.handshake i body with
      | .accepted _ b' => (b'.conns i).sess.toList.map fun p => .join i (b'.conns i).conn.clientID p
      | _ => []
  | .subscribe =>
      decodedEffects (Protocol.decodeSubscribe (b.conns i).conn.version body) fun pkt =>
        grants (b.subscribeEnv env i) (entriesOf pkt.2)
  | .unsubscribe =>
      decodedEffects (Protocol.decodeUnsubscribe (b.conns i).conn.version body) fun pkt =>
        removals (b.subscribeEnv env i) pkt.2
  | _ => [.route env.checkedAt (b.dispatch env i fh body).calls]

/-- Cleanup of a connection that has taken an ID. -/
def cleanupEffects (now i : Nat) (b : BrokerState) : List Effect :=
  let cid := (b.conns i).conn.clientID
  if cid = [] then []
  else
    .leave cid :: match (b.conns i).sess with
      | none => []
      | some p =>
          let left := ((b.closeClient i).unregister cid).disconnect now cid p
          (if Ends now (b.sessions.heap p) then [.endSession cid] else []) ++
            [.route now (willCalls (left.sessions.heap p))]

def sweepEffects (now : Nat) (b : BrokerState) : List Effect :=
  (b.sessions.data.entries.map Prod.snd).flatMap fun p =>
    if (b.sessions.heap p).shouldExpireDisconnected now then
      [.endSession (b.sessions.heap p).clientID]
    else []

def effects (w : World) : Event → List Effect
  | .packet env i fh body =>
      let c := (w.broker.conns i).conn
      if c.state = .handshaking ∧ fh.type ≠ .connect then []
      else if c.clientID ≠ [] ∧ env.allow = false then []
      else packetEffects env i fh body w.broker
  | .cleanup now i => cleanupEffects now i w.broker
  | .restoreSession i subs =>
      subs.flatMap fun s => [.subscribe s.1 ⟨(w.broker.conns i).conn.clientID, s.2, some i⟩]
  | .route now call => [.route now [call]]
  | .sessionExpirySweep now => sweepEffects now w.broker
  | _ => []

variable {b b' : BrokerState}

theorem ledger_of_shared (h : b'.shared = b.shared) : b'.ledger = b.ledger := by
  have hfields := BrokerState.Shared.mk.inj h
  rw [BrokerState.ledger, hfields.1, hfields.2.1, hfields.2.2.1, hfields.2.2.2.1, hfields.2.2.2.2]
  rfl

theorem ledger_runDelivery {now : Nat} {d : Router.Delivery Nat}
    (h : b.runDelivery now d = some b') : b'.ledger = b.ledger := by
  rcases BrokerState.runDelivery_cases h with rfl | ⟨p, r, -, rfl⟩ <;> rfl

theorem ledger_deliveries {now : Nat} {ds : List (Router.Delivery Nat)}
    (h : Transition.run (BrokerState.runDelivery now) ds b = some b') : b'.ledger = b.ledger :=
  Transition.preserved_run (I := fun s => s.ledger = b.ledger)
    (fun _ _ _ hs hrun => (ledger_runDelivery hrun).trans hs) rfl h

theorem ledger_routeAll {now : Nat} {calls : List PublishCall}
    (h : b.routeAll now calls = some b') : b'.ledger = b.ledger.apply (.route now calls) := by
  induction calls generalizing b with
  | nil =>
      cases h
      rfl
  | cons call calls ih =>
      obtain ⟨u, hu, hrest⟩ := Option.bind_eq_some_iff.mp h
      rw [ih hrest, ledger_deliveries hu]
      rfl

/-- Effects on the router alone. -/
theorem foldl_router {α : Type} {eff : α → List Effect} {turn : Router Nat → α → Router Nat}
    (h : ∀ l a, (eff a).foldl Ledger.apply l = { l with router := turn l.router a }) (as : List α)
    (l : Ledger) :
    (as.flatMap eff).foldl Ledger.apply l = { l with router := as.foldl turn l.router } := by
  induction as generalizing l with
  | nil => rfl
  | cons a as ih => rw [List.flatMap_cons, List.foldl_append, h, ih, List.foldl_cons]

theorem foldl_grants (env : SubscribeEnv Nat) (subs : List SubscribeEntry) (l : Ledger) :
    (grants env subs).foldl Ledger.apply l =
      { l with router := (handleSubscribe env subs l.router).2 } := by
  rw [handleSubscribe_router]
  exact foldl_router (fun _ _ => rfl) (grantedEntries env subs) l

theorem foldl_removals (env : SubscribeEnv Nat) (filters : List GoString) (l : Ledger) :
    (removals env filters).foldl Ledger.apply l =
      { l with router := filters.foldl (unsubscribeTurn env) l.router } := by
  refine foldl_router (fun l filter => ?_) filters l
  rw [unsubscribeTurn]
  split_ifs <;> rfl

theorem ledger_takeover {cid : GoString} (h : b.takeover cid = some b') : b'.ledger = b.ledger := by
  rcases BrokerState.takeover_cases h with rfl | ⟨j, p, rfl⟩ <;> rfl

theorem data_getOrCreate (cid : GoString) (clean : Bool) (now : Nat) (s : Store) :
    (s.getOrCreate cid clean now).1.data = s.data.set cid (s.getOrCreate cid clean now).2.1 := by
  rcases Store.getOrCreate_cases cid clean now s with ⟨p, hp, -, hget, -⟩ | hnew
  · rw [hp]
    exact ((s.data.set_eq_self_iff cid p).mpr hget).symm
  · rw [hnew]
    rfl

theorem ledger_accept {env : HandshakeEnv} {i : Nat} {cid : GoString} {pkt : Protocol.ConnectPacket}
    {present : Bool} (h : b.accept env i cid pkt = .accepted present b') :
    ∃ p, (b'.conns i).sess = some p ∧ b'.ledger = b.ledger.apply (.join i cid p) := by
  rw [BrokerState.accept] at h
  split at h
  · cases h
  · next u htakeover =>
      have hdata := data_getOrCreate cid pkt.cleanSession env.now u.sessions
      rw [← ledger_takeover htakeover]
      cases h
      refine ⟨_, congrArg Client.sess (BrokerState.conns_setClient_self i _ _), ?_⟩
      exact congrArg (fun data => (⟨_, data, _, _, _⟩ : Ledger)) hdata

theorem ledger_connectPacket {env : HandleEnv} {i : Nat} {fh : Protocol.FixedHeader}
    {body : List UInt8} {goesOn : Bool} (htype : fh.type = .connect)
    (h : (b.connectPacket env i body).next = some (goesOn, b')) :
    b'.ledger = (packetEffects env i fh body b).foldl Ledger.apply b.ledger := by
  unfold BrokerState.connectPacket at h
  unfold packetEffects
  rw [htype]
  dsimp only
  split at h
  · next hconnect =>
      cases h
      obtain ⟨cid, pkt, u, hadmit, haccept⟩ := BrokerState.handleConnect_accepted hconnect
      obtain ⟨p, hsess, hledger⟩ := ledger_accept haccept
      have hshared := (BrokerState.admission_admitted hadmit).1.shared
      rw [hconnect, hledger, ledger_of_shared hshared]
      dsimp only
      rw [hsess, BrokerState.clientID_accept haccept]
      rfl
  · next hconnect =>
      cases h
      have hadmit := BrokerState.handleConnect_refused hconnect
      rw [hconnect]
      exact ledger_of_shared (BrokerState.admission_refused hadmit).1.shared
  · cases h

theorem ledger_handled {env : HandleEnv} {i : Nat} {p : Ptr} {r : Handled}
    {accepts : List Acceptance} {goesOn : Bool}
    (h : (b.handled env i p r accepts).next = some (goesOn, b')) :
    b'.ledger = b.ledger.apply (.route env.checkedAt (b.handled env i p r accepts).calls) := by
  obtain ⟨u, hu, hpair⟩ := Option.map_eq_some_iff.mp h
  cases hpair
  have hroute := ledger_routeAll hu
  exact hroute

theorem ledger_publishPacket {env : HandleEnv} {i : Nat} {pkt : PublishPacket} {p : Ptr}
    {goesOn : Bool} (h : (b.publishPacket env i pkt p).next = some (goesOn, b')) :
    b'.ledger = b.ledger.apply (.route env.checkedAt (b.publishPacket env i pkt p).calls) := by
  rw [BrokerState.publishPacket] at h ⊢
  split at h
  · cases h
    rfl
  · exact ledger_handled h

/-- A packet that is not for the router, or a publication. -/
theorem ledger_withPacket {σ α : Type} {decoded : Faulting.Outcome Protocol.DecodeError σ α}
    {handler : α → Ptr → Reply} {i now : Nat} {goesOn : Bool}
    (hhandler : ∀ a p, (handler a p).next = some (goesOn, b') →
      b'.ledger = b.ledger.apply (.route now (handler a p).calls))
    (h : (b.withPacket i decoded handler).next = some (goesOn, b')) :
    b'.ledger = b.ledger.apply (.route now (b.withPacket i decoded handler).calls) := by
  rcases withPacket_cases h with ⟨a, t, p, -, hreply⟩ | ⟨-, hreply⟩
  · rw [hreply] at h ⊢
    exact hhandler a p h
  · rw [hreply] at h ⊢
    cases h
    rfl

/-- A packet whose handler is told by what is decoded. -/
theorem ledger_decodedEffects {σ α : Type} {decoded : Faulting.Outcome Protocol.DecodeError σ α}
    {eff : α → List Effect} {next : α → BrokerState} {i : Nat} {goesOn : Bool}
    (heff : ∀ a, (eff a).foldl Ledger.apply b.ledger = (next a).ledger)
    (h : (b.withPacket i decoded fun a _ => .goOn (next a)).next = some (goesOn, b')) :
    b'.ledger = (decodedEffects decoded eff).foldl Ledger.apply b.ledger := by
  rcases withPacket_cases h with ⟨a, t, p, rfl, hreply⟩ | ⟨⟨err, rfl⟩, hreply⟩
  · rw [hreply] at h
    cases h
    exact (heff a).symm
  · rw [hreply] at h
    cases h
    rfl

theorem ledger_dispatch {env : HandleEnv} {i : Nat} {fh : Protocol.FixedHeader} {body : List UInt8}
    {goesOn : Bool} (h : (b.dispatch env i fh body).next = some (goesOn, b')) :
    b'.ledger = (packetEffects env i fh body b).foldl Ledger.apply b.ledger := by
  obtain ⟨type, flags, length⟩ := fh
  cases type with
  | connect =>
      have htype : (⟨.connect, flags, length⟩ : Protocol.FixedHeader).type = .connect := rfl
      exact ledger_connectPacket htype (dispatch_connect env i body b htype ▸ h)
  | subscribe =>
      exact ledger_decodedEffects
        (fun pkt => foldl_grants (b.subscribeEnv env i) (entriesOf pkt.2) b.ledger) h
  | unsubscribe =>
      refine ledger_decodedEffects (fun pkt => ?_) h
      have hrouter := unsubscribeFilters_router (b.subscribeEnv env i) pkt.2 b.router
      rw [foldl_removals]
      exact congrArg (fun r => { b.ledger with router := r }) hrouter.symm
  | publish =>
      exact ledger_withPacket (fun _ _ hp => ledger_publishPacket hp) h
  | pubrel =>
      exact ledger_withPacket (fun _ _ hp => ledger_handled hp) h
  | puback | pubcomp | pubrec =>
      refine ledger_withPacket (fun _ _ hp => ?_) h
      cases hp
      rfl
  | pingreq =>
      unfold packetEffects
      dsimp only [BrokerState.dispatch] at h ⊢
      split at h
      · cases h
        rfl
      · cases h
  | disconnect =>
      unfold packetEffects
      dsimp only [BrokerState.dispatch] at h ⊢
      split at h
      · cases h
        cases (b.conns i).sess <;> rfl
      · cases h
        rfl
      · cases h
  | reserved | connack | suback | unsuback | pingresp | auth =>
      cases h
      rfl

theorem ledger_disconnect (now : Nat) (cid : GoString) (p : Ptr) (b : BrokerState) :
    (b.disconnect now cid p).ledger =
      if Ends now (b.sessions.heap p) then b.ledger.apply (.endSession cid) else b.ledger := by
  obtain ⟨f, -, heq⟩ := disconnect_eq now cid p b
  rw [heq]
  split_ifs <;> rfl

theorem ledger_cleanup {now i : Nat} (h : b.cleanup now i = some b') :
    b'.ledger = (cleanupEffects now i b).foldl Ledger.apply b.ledger := by
  rw [cleanupEffects]
  rcases BrokerState.cleanup_cases h with ⟨hnil, rfl⟩ | ⟨hid, u, rfl, ⟨hsess, rfl⟩ | ⟨p, hsess, hu⟩⟩
  · rw [if_pos hnil]
    rfl
  · rw [if_neg hid, hsess]
    rfl
  · have hroute := ledger_routeAll hu
    rw [ledger_disconnect] at hroute
    have hheap : ((b.closeClient i).unregister (b.conns i).conn.clientID).sessions.heap p =
        b.sessions.heap p := rfl
    rw [hheap] at hroute
    rw [if_neg hid, hsess]
    dsimp only
    change { u.ledger with activeConnections := u.ledger.activeConnections - 1 } = _
    rw [hroute]
    split_ifs <;> rfl

theorem ledger_sweep (now : Nat) (b : BrokerState) :
    (Routed.sessionExpirySweep now b).ledger = (sweepEffects now b).foldl Ledger.apply
      b.ledger := by
  rw [Routed.sessionExpirySweep, sweepEffects]
  generalize b.sessions.data.entries.map Prod.snd = ps
  -- a purge leaves the sessions where they are, so all are looked at as in the beginning
  have hsweep (u : BrokerState) (hu : u.sessions.heap = b.sessions.heap) :
      (ps.foldl (Routed.sweepSession now) u).ledger =
        (ps.flatMap fun p => if (b.sessions.heap p).shouldExpireDisconnected now then
          [Effect.endSession (b.sessions.heap p).clientID] else []).foldl Ledger.apply
            u.ledger := by
    induction ps generalizing u with
    | nil => rfl
    | cons p ps ih =>
        rw [List.foldl_cons, List.flatMap_cons, List.foldl_append, ← hu, Routed.sweepSession]
        split_ifs
        · rw [hu]
          exact ih _ hu
        · rw [hu]
          exact ih u hu
  exact hsweep b rfl

theorem ledger_step {w w' : World} {e : Event} (h : step w e = some w') :
    w'.broker.ledger = (effects w e).foldl Ledger.apply w.broker.ledger := by
  cases e with
  | accept remoteAddr cert writeQueueSize =>
      cases h
      rfl
  | packet env i fh body =>
      rw [step] at h
      split at h
      · cases h
      · obtain ⟨⟨goesOn, b⟩, hnext, rfl⟩ := Option.map_eq_some_iff.mp h
        rw [BrokerState.handle] at hnext
        dsimp only [effects] at hnext ⊢
        split_ifs at hnext ⊢
        · cases hnext
          rfl
        · cases hnext
          rfl
        · exact ledger_dispatch hnext
  | readError i =>
      rw [step] at h
      split at h
      · cases h
      · cases h
        rfl
  | cleanup now i =>
      rw [step] at h
      split at h
      · cases h
      · obtain ⟨b, hb, rfl⟩ := Option.map_eq_some_iff.mp h
        exact ledger_cleanup hb
  | drainOfflineQueue now i =>
      obtain ⟨b, hb, rfl⟩ := Option.map_eq_some_iff.mp h
      obtain ⟨p, -, hrun⟩ := Option.bind_eq_some_iff.mp hb
      have hledger := ledger_deliveries hrun
      exact hledger
  | restoreSession i subs =>
      cases h
      have hturn (l : Ledger) (s : GoString × UInt8) :
          [Effect.subscribe s.1 ⟨(w.broker.conns i).conn.clientID, s.2, some i⟩].foldl
              Ledger.apply l =
            { l with
              router := l.router.subscribe s.1 ⟨(w.broker.conns i).conn.clientID, s.2, some i⟩ } :=
        rfl
      exact (foldl_router hturn subs w.broker.ledger).symm
  | deliver now d =>
      obtain ⟨b, hb, rfl⟩ := Option.map_eq_some_iff.mp h
      exact ledger_runDelivery hb
  | writeLoop i writeQ =>
      cases h
      rfl
  | route now call =>
      obtain ⟨b, hb, rfl⟩ := Option.map_eq_some_iff.mp h
      have hledger := ledger_deliveries hb
      exact hledger
  | sessionExpirySweep now =>
      cases h
      exact ledger_sweep now w.broker
  | addACLRule rule =>
      cases h
      rfl

end Effects

section Runs

/-- Every effect of the event moves the gauges as far as what they count, one after the other. -/
def Counted (w : World) (e : Event) : Prop :=
  Transition.Meets (fun l x => some (l.apply x)) Ledger.Fits (effects w e) w.broker.ledger

theorem mem_decodedEffects {σ α : Type} {decoded : Faulting.Outcome Protocol.DecodeError σ α}
    {eff : α → List Effect} {x : Effect} (h : x ∈ decodedEffects decoded eff) : ∃ a, x ∈ eff a := by
  cases decoded with
  | ok a t => exact ⟨a, h⟩
  | error | panic | timeout => cases h

/-- The effect of each element that passes a check. -/
theorem toward_flatMap {α : Type} {dir : Gauge → Int} {p : α → Prop} [DecidablePred p]
    {eff : α → Effect} (h : ∀ a, (eff a).Toward dir) (l : List α) :
    ∀ x ∈ l.flatMap fun a => if p a then [eff a] else [], x.Toward dir := by
  intro x hx
  obtain ⟨a, -, ha⟩ := List.mem_flatMap.mp hx
  split_ifs at ha
  · rw [List.mem_singleton.mp ha]
    exact h a
  · cases ha

theorem toward_cleanupEffects {dir : Gauge → Int} (hconnections : dir .activeConnections = -1)
    (hsessions : dir .activeSessions = -1) (hsubscriptions : dir .activeSubscriptions = 1)
    (now i : Nat) (b : BrokerState) : ∀ x ∈ cleanupEffects now i b, x.Toward dir := by
  intro x hx
  rw [cleanupEffects] at hx
  dsimp only at hx
  split_ifs at hx
  · cases hx
  · rcases List.mem_cons.mp hx with rfl | hx
    · exact hconnections
    · split at hx
      · cases hx
      · rcases List.mem_append.mp hx with hx | hx
        · split_ifs at hx
          · rw [List.mem_singleton.mp hx]
            exact ⟨hsessions, hsubscriptions⟩
          · cases hx
        · rw [List.mem_singleton.mp hx]
          trivial

/-- The effects of one packet drive no gauge both ways. An UNSUBSCRIBE alone drives one down. -/
theorem toward_packetEffects {dir : Gauge → Int} (hconnections : dir .activeConnections = 1)
    (hsessions : dir .activeSessions = 1) {fh : Protocol.FixedHeader}
    (hsubscriptions : dir .activeSubscriptions = if fh.type = .unsubscribe then -1 else 1)
    (env : HandleEnv) (i : Nat) (body : List UInt8) (b : BrokerState) :
    ∀ x ∈ packetEffects env i fh body b, x.Toward dir := by
  intro x hx
  unfold packetEffects at hx
  split at hx
  · split at hx
    · obtain ⟨p, -, rfl⟩ := List.mem_map.mp hx
      exact ⟨hconnections, hsessions⟩
    · cases hx
  case h_2 htype =>
      rw [htype, if_neg (by decide)] at hsubscriptions
      obtain ⟨pkt, hx⟩ := mem_decodedEffects hx
      obtain ⟨sub, -, hsub⟩ := List.mem_flatMap.mp hx
      rw [List.mem_singleton.mp hsub]
      exact hsubscriptions
  case h_3 htype =>
      rw [htype, if_pos rfl] at hsubscriptions
      obtain ⟨pkt, hx⟩ := mem_decodedEffects hx
      refine toward_flatMap (fun _ => ?_) _ x hx
      exact hsubscriptions
  · rw [List.mem_singleton.mp hx]
    trivial

/-- The effects of one event drive no gauge both ways. -/
theorem exists_toward (w : World) (e : Event) :
    ∃ dir : Gauge → Int, (∀ k, dir k ≠ 0) ∧ ∀ x ∈ effects w e, x.Toward dir := by
  have hsome (a c : Int) (ha : a ≠ 0) (hc : c ≠ 0) (k : Gauge) : Gauge.pick a a c k ≠ 0 := by
    cases k <;> assumption
  have hup := hsome 1 1 one_ne_zero one_ne_zero
  have hends := hsome (-1) 1 (by decide) one_ne_zero
  cases e with
  | packet env i fh body =>
      refine ⟨Gauge.pick 1 1 (if fh.type = .unsubscribe then -1 else 1),
        hsome _ _ one_ne_zero (by split_ifs <;> decide), ?_⟩
      intro x hx
      rw [effects] at hx
      split_ifs at hx
      · cases hx
      · cases hx
      · refine toward_packetEffects ?_ ?_ ?_ env i body w.broker x hx
        all_goals rfl
  | cleanup now i => exact ⟨_, hends, toward_cleanupEffects rfl rfl rfl now i w.broker⟩
  | restoreSession i subs =>
      refine ⟨_, hup, fun x hx => ?_⟩
      obtain ⟨s, -, hs⟩ := List.mem_flatMap.mp hx
      rw [List.mem_singleton.mp hs]
      rfl
  | route now call =>
      refine ⟨_, hup, fun x hx => ?_⟩
      rw [List.mem_singleton.mp hx]
      trivial
  | sessionExpirySweep now =>
      refine ⟨_, hends, toward_flatMap (fun p => ?_) _⟩
      exact ⟨rfl, rfl⟩
  | accept | readError | drainOfflineQueue | deliver | writeLoop | addACLRule =>
      exact ⟨_, hup, fun _ hx => absurd hx List.not_mem_nil⟩

theorem exact_step {w w' : World} {e : Event} (htidy : w.broker.router.Tidy)
    (h : step w e = some w') :
    w'.broker.router.Tidy ∧ (Exact w.broker → (Exact w'.broker ↔ Counted w e)) := by
  obtain ⟨dir, hdir, htoward⟩ := exists_toward w e
  obtain ⟨htidy', hpushes⟩ := Drift.pushes_foldl (I := fun l : Ledger => l.router.Tidy)
    (fun l hl x hx => pushes_apply hl (htoward x hx)) (s := w.broker.ledger) htidy
  rw [← ledger_step h] at htidy' hpushes
  refine ⟨htidy', fun hexact => ?_⟩
  rw [exact_iff] at hexact ⊢
  exact hpushes.zero_iff hdir hexact

/-- The gauges of a broker are exact all along a run precisely when every event is counted as
far as it changes what the gauges count. -/
theorem gauges_exact_iff {authn : Auth.Authenticator} {events : List Event} {w : World}
    (hrun : Transition.run step events (start authn Router.new) = some w) :
    (∀ before after t, events = before ++ after →
      Transition.run step before (start authn Router.new) = some t → Exact t.broker) ↔
        Transition.Meets step Counted events (start authn Router.new) := by
  refine Transition.always_iff_meets (I := fun t => Exact t.broker)
    (J := fun t => t.broker.router.Tidy)
    (fun _ _ _ htidy h => (exact_step htidy h).1)
    (fun _ _ _ htidy hexact h => (exact_step htidy h).2 hexact)
    Router.tidy_new ⟨rfl, rfl, ?_⟩ hrun
  exact Int.sub_eq_zero.mp Router.drift_new

/-- A check that implies the condition. It lets a session end when no client has a plain filter. -/
def Ledger.fits (l : Ledger) : Effect → Bool
  | .join _ cid _ => (l.clients.get cid).isNone && (l.stored.get cid).isNone
  | .leave cid => (l.clients.get cid).isSome
  | .endSession cid => (l.stored.get cid).isSome &&
      (List.finRange Router.numShards).all fun i => (l.router.shards i).children.isEmpty
  | .subscribe filter sub => (l.router.held sub.clientID filter).isNone
  | .unsubscribe filter clientID => (l.router.held clientID filter).isSome
  | .route _ _ => true

theorem held_of_no_children {r : Router Nat} {f : GoString}
    (hf : Protocol.parseSharedTopicFilter f = none) (h : ∀ i, (r.shards i).children = [])
    (c : GoString) : r.held c f = none := by
  rw [Router.held_plain r c hf]
  cases hsegs : Router.splitFilter f with
  | nil => exact absurd hsegs (Router.splitFilter_ne_nil f)
  | cons seg segs =>
      rw [Router.find_cons, Router.Node.child, h]
      rfl

theorem fits_of_check {l : Ledger} {e : Effect} (h : l.fits e = true) : l.Fits e := by
  cases e with
  | join i cid p => simpa [Ledger.fits, Ledger.Fits] using h
  | leave cid => simpa [Ledger.fits, Ledger.Fits, Option.isSome_iff_ne_none] using h
  | endSession cid =>
      simp only [Ledger.fits, Bool.and_eq_true, List.all_eq_true, List.isEmpty_iff,
        Option.isSome_iff_ne_none] at h
      exact ⟨h.1, fun f hf => held_of_no_children hf (fun i => h.2 i (List.mem_finRange i)) cid⟩
  | subscribe filter sub => simpa [Ledger.fits, Ledger.Fits] using h
  | unsubscribe filter clientID => exact fun _ => Option.isSome_iff_ne_none.mp h
  | route now calls => trivial

/-- The check for all effects of an event. -/
def Checked (w : World) (e : Event) : Prop :=
  Transition.Meets (fun l x => some (l.apply x)) (fun l x => l.fits x = true) (effects w e)
    w.broker.ledger

instance (w : World) (e : Event) : Decidable (Checked w e) := Transition.decidableMeets _ _ _ _

theorem meets_counted_of_checked {events : List Event} {w : World}
    (h : Transition.Meets step Checked events w) : Transition.Meets step Counted events w :=
  Transition.meets_of_invariant (I := fun _ => True) (fun _ _ _ _ _ _ => trivial)
    (fun _ _ _ hchecked => Transition.meets_of_invariant (I := fun _ => True)
      (fun _ _ _ _ _ _ => trivial)
      (fun _ _ _ hfits => fits_of_check hfits) trivial hchecked) trivial h

/-- A clean session with a shared subscription that is given up and made again, and the end of
the connection. -/
def sharedRun : List Event :=
  let body : List UInt8 := [0, 5, 0, 10] ++ str "$share/g/a"
  [.accept (str "r") none 16, Routed.sends .connect 0 (BrokerState.connectBytes 2 []),
    Routed.sends .subscribe 2 (body ++ [1]), Routed.sends .unsubscribe 2 body,
    Routed.sends .subscribe 2 (body ++ [1]), .readError 0, .cleanup 0 0]

theorem gauges_exact_shared :
    ∃ w, Transition.run step sharedRun Routed.sampleStart = some w ∧
      w.broker.router.metrics.subscribeTotal = 2 ∧
      ∀ before after t, sharedRun = before ++ after →
        Transition.run step before Routed.sampleStart = some t → Exact t.broker := by
  obtain ⟨w, hrun, htotal⟩ := Transition.reaches_of_any step sharedRun Routed.sampleStart
    (fun w => w.broker.router.metrics.subscribeTotal = 2) (by decide +kernel)
  have hchecked : Transition.Meets step Checked sharedRun Routed.sampleStart := by decide +kernel
  exact ⟨w, hrun, htotal, (gauges_exact_iff hrun).mpr (meets_counted_of_checked hchecked)⟩

/-- A persistent client connects, and does so again after its connection has ended. -/
def resumption : List Event :=
  let connects (i : Nat) : Event :=
    .packet Routed.sampleEnv i ⟨.connect, 0, 14⟩ (BrokerState.connectBytes 0 [])
  [.accept (str "r") none 16, connects 0, .readError 0, .cleanup 0 0,
    .accept (str "r") none 16, connects 1]

/-- A CONNECT that the plugins refuse, and the cleanup of its connection. -/
def refusal : List Event :=
  [.accept (str "r") none 16,
    .packet { Routed.sampleEnv with handshake := BrokerState.sampleEnv } 0 ⟨.connect, 0, 14⟩
      (BrokerState.connectBytes 0 []), .cleanup 0 0]

def connected : List Event :=
  [.accept (str "r") none 16, Routed.sends .connect 0 (BrokerState.connectBytes 0 [])]

def subscribesToA : Event := Routed.sends .subscribe 2 ([0, 5, 0, 1] ++ str "a" ++ [1])

def unsubscribesFromA : Event := Routed.sends .unsubscribe 2 ([0, 6, 0, 1] ++ str "a")

/-- A refused CONNECT leaves -1 connection, a resumed session is counted twice, an UNSUBSCRIBE
of nothing leaves -1 subscription, and a repeated SUBSCRIBE is counted again although the
same subscriptions are live as before. -/
theorem gauges_drift :
    (∃ w, Transition.run step refusal Routed.sampleStart = some w ∧
      w.broker.activeConnections = -1 ∧ w.broker.clients.size = 0) ∧
    (∃ w, Transition.run step resumption Routed.sampleStart = some w ∧
      w.broker.activeSessions = 2 ∧ w.broker.sessions.data.size = 1) ∧
    (∃ w, Transition.run step (connected ++ [unsubscribesFromA]) Routed.sampleStart = some w ∧
      w.broker.router.metrics.activeSubscriptions = -1) ∧
    ∃ w w', Transition.run step (connected ++ [subscribesToA]) Routed.sampleStart = some w ∧
      step w subscribesToA = some w' ∧ w.broker.router.metrics.activeSubscriptions = 1 ∧
      w'.broker.router.metrics.activeSubscriptions = 2 ∧
      w'.broker.router.liveSubscriptions = w.broker.router.liveSubscriptions := by
  refine ⟨?_, ?_, ?_, ?_⟩
  · exact Transition.reaches_of_any step refusal Routed.sampleStart
      (fun w => w.broker.activeConnections = -1 ∧ w.broker.clients.size = 0) (by decide +kernel)
  · exact Transition.reaches_of_any step resumption Routed.sampleStart
      (fun w => w.broker.activeSessions = 2 ∧ w.broker.sessions.data.size = 1) (by decide +kernel)
  · exact Transition.reaches_of_any step (connected ++ [unsubscribesFromA]) Routed.sampleStart
      (fun w => w.broker.router.metrics.activeSubscriptions = -1) (by decide +kernel)
  · obtain ⟨w, hrun, ⟨hone, hheld, heffects⟩, hagain⟩ := Transition.reaches_of_any step
      (connected ++ [subscribesToA]) Routed.sampleStart
      (fun w => (w.broker.router.metrics.activeSubscriptions = 1 ∧
          (w.broker.router.held (str "c1") (str "a")).isSome = true ∧
          effects w subscribesToA = [.subscribe (str "a") ⟨str "c1", 1, some 0⟩]) ∧
        (step w subscribesToA).any (fun w' =>
          decide (w'.broker.router.metrics.activeSubscriptions = 2)) = true) (by decide +kernel)
    obtain ⟨w', hstep, htwo⟩ := Transition.exists_of_any _ hagain
    have hledger := ledger_step hstep
    rw [heffects] at hledger
    have hrouter : w'.broker.router = w.broker.router.subscribe (str "a") ⟨str "c1", 1, some 0⟩ :=
      congrArg Ledger.router hledger
    refine ⟨w, w', hrun, hstep, hone, htwo, ?_⟩
    rw [hrouter, Router.liveSubscriptions_subscribe]
    exact Set.insert_eq_of_mem (Option.isSome_iff_ne_none.mp hheld)

end Runs

end LumaBroker.Broker
