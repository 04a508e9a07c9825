import LumaBroker.Broker.Routed
import LumaBroker.Router.Steers

/-!
The session of a connection is a nil pointer until a CONNECT has been accepted on it, and the
handlers, the takeover and the Deliver closures use it without a check. Nothing in the broker
recovers from a panic, so that one nil session would take down every client. What keeps them
apart is spread over the read loop, handleConnect, the map of the clients and the router.
-/

namespace LumaBroker.Broker.NilSession

open Auth Session Routed

/-- The handler has neither returned nor is it in a call of Router.Publish. -/
def Panics (r : Reply) : Prop := r.next = none ∧ r.calls = []

/-- A connection that the accept loop has started and that has a session. -/
def Used (opened : Nat) (b : BrokerState) (i : Nat) : Prop :=
  i < opened ∧ (b.conns i).sess.isSome = true

/-- Whoever is registered, and whoever the router has a closure of, has a session. -/
structure Seated (opened : Nat) (b : BrokerState) : Prop where
  registered : ∀ cid i, b.clients.get cid = some i → Used opened b i
  router : b.router.Each fun _ s => ∀ i, s.deliver = some i → Used opened b i

/-- Only a connection that has not come past its CONNECT has no session. -/
def Ready (b : BrokerState) (i : Nat) : Prop :=
  (b.conns i).conn.state ≠ .handshaking → (b.conns i).sess.isSome = true

/-- The goroutine restoreSession is launched by an accepted CONNECT. -/
def Launched (w : World) : Event → Prop
  | .restoreSession i _ => Used w.opened w.broker i
  | _ => True

instance decidableLaunched (w : World) : ∀ e, Decidable (Launched w e)
  | .restoreSession i _ =>
      inferInstanceAs (Decidable (i < w.opened ∧ (w.broker.conns i).sess.isSome = true))
  | .accept .. | .packet .. | .readError .. | .cleanup .. | .drainOfflineQueue .. | .deliver ..
  | .writeLoop .. | .route .. | .sessionExpirySweep .. | .addACLRule .. => isTrue trivial

/-- No connection is closed, and nobody is subscribed. -/
abbrev Steady : BrokerState → BrokerState → Prop := Frame { learns := true, ends := true }

/-- What a packet can do, by the branch of handle that it takes. Only a CONNECT gives a connection
another session or state, and only a SUBSCRIBE subscribes. -/
inductive Effect (env : HandleEnv) (i : Nat) (fh : Protocol.FixedHeader) (body : List UInt8)
    (b : BrokerState) :
    Bool → BrokerState → Prop
  | steady {goesOn : Bool} {b' : BrokerState} (hsteady : Steady b b') :
      Effect env i fh body b goesOn b'
  | accepted {cid : GoString} {pkt : Protocol.ConnectPacket} {present : Bool} {u b' : BrokerState}
      (htouched : BrokerState.Touched env.handshake i b u)
      (haccept : u.accept env.handshake i cid pkt = .accepted present b') :
        Effect env i fh body b true b'
  | refused {b' : BrokerState} (htouched : BrokerState.Touched env.handshake i b b') :
      Effect env i fh body b false b'
  | subscribed {pkt : UInt16 × List Protocol.Subscription} {t : Protocol.SliceReader} {p : Ptr}
      (hopen : (b.conns i).conn.state ≠ .handshaking)
      (hallow : ¬ ((b.conns i).conn.clientID ≠ [] ∧ env.allow = false))
      (htype : fh.type = .subscribe)
      (hdecode : Protocol.decodeSubscribe (b.conns i).conn.version body = .ok pkt t)
      (hsess : (b.conns i).sess = some p) (suback : Outbound) :
      Effect env i fh body b true (BrokerState.modifyConn i (Conn.enqueue suback) { b with router :=
        (handleSubscribe (b.subscribeEnv env i) (entriesOf pkt.2) b.router).2 })

section Effect
variable {env : HandleEnv} {i : Nat} {fh : Protocol.FixedHeader} {body : List UInt8}
    {b b' : BrokerState} {goesOn : Bool}

theorem effect_connectPacket (hnext : (b.connectPacket env i body).next = some (goesOn, b')) :
    Effect env i fh body b goesOn b' := by
  unfold BrokerState.connectPacket at hnext
  split at hnext
  · next present u haccepted =>
      cases hnext
      obtain ⟨cid, pkt, v, hadmit, haccept⟩ := BrokerState.handleConnect_accepted haccepted
      exact .accepted (BrokerState.admission_admitted hadmit).1 haccept
  · next err connack u hrefused =>
      cases hnext
      exact .refused (BrokerState.admission_refused (BrokerState.handleConnect_refused hrefused)).1
  · cases hnext

theorem effect_dispatch
    (hfirst : ¬ ((b.conns i).conn.state = .handshaking ∧ fh.type ≠ .connect))
    (hallow : ¬ ((b.conns i).conn.clientID ≠ [] ∧ env.allow = false))
    (hnext : (b.dispatch env i fh body).next = some (goesOn, b')) :
    Effect env i fh body b goesOn b' := by
  by_cases hconnect : fh.type = .connect
  · rw [BrokerState.dispatch, hconnect] at hnext
    exact effect_connectPacket hnext
  · by_cases hsubscribe : fh.type = .subscribe
    · have hopen (hstate : (b.conns i).conn.state = .handshaking) : False :=
        hfirst ⟨hstate, hconnect⟩
      rw [BrokerState.dispatch, hsubscribe] at hnext
      dsimp only [BrokerState.withPacket] at hnext
      split at hnext
      · next hdecode hsess =>
          cases hnext
          exact .subscribed hopen hallow hsubscribe hdecode hsess _
      · cases hnext
        exact .steady (.refl b)
      · cases hnext
    · exact .steady (Frame.dispatch hconnect (fun _ => rfl) (fun h => absurd h hsubscribe) hnext)

theorem effect_handle (hnext : (b.handle env i fh body).next = some (goesOn, b')) :
    Effect env i fh body b goesOn b' := by
  rw [BrokerState.handle] at hnext
  split at hnext
  · cases hnext
    exact .steady (.refl b)
  · next hfirst =>
      split at hnext
      · cases hnext
        exact .steady (.refl b)
      · next hallow => exact effect_dispatch hfirst hallow hnext

end Effect

section Invariant
variable {opened i : Nat} {b b' : BrokerState}

theorem Used.steady (h : Used opened b i) (hsteady : Steady b b') : Used opened b' i :=
  ⟨h.1, (hsteady.sess i).symm ▸ h.2⟩

theorem Ready.steady (h : Ready b i) (hsteady : Steady b b') : Ready b' i := by
  rw [Ready, (hsteady.conn i).state rfl, hsteady.sess i]
  exact h

namespace Seated

theorem steady (h : Seated opened b) (hsteady : Steady b b') : Seated opened b' where
  registered cid i hi := (h.registered cid i (hsteady.clients cid i hi)).steady hsteady
  router := (h.router.leaves (hsteady.router rfl)).mono fun _ _ hs i hi => (hs i hi).steady hsteady

/-- A connection that is in use takes another session. -/
theorem setClient (h : Seated opened b) {c : Client}
    (hc : c.sess.isSome = true ∨ ¬ Used opened b i) : Seated opened (b.setClient i c) := by
  have hused {j : Nat} (hj : Used opened b j) : Used opened (b.setClient i c) j := by
    by_cases hji : j = i
    · subst hji
      exact ⟨hj.1,
        by rw [BrokerState.conns_setClient_self]; exact hc.resolve_right (not_not.mpr hj)⟩
    · exact ⟨hj.1, by rw [BrokerState.conns_setClient_of_ne c b hji]; exact hj.2⟩
  exact ⟨fun cid j hj => hused (h.registered cid j hj),
    h.router.mono fun _ _ hs j hj => hused (hs j hj)⟩

theorem register (h : Seated opened b) (hi : Used opened b i) (cid : GoString) :
    Seated opened (b.register i cid) where
  registered id j hj := by
    rw [BrokerState.register, FinMap.get_set] at hj
    split_ifs at hj
    · cases hj
      exact hi
    · exact h.registered id j hj
  router := h.router

/-- The connection has its session before it is registered. -/
theorem seat (h : Seated opened b) (hi : i < opened) {c : Client} (hc : c.sess.isSome = true)
    (cid : GoString) : Seated opened ((b.setClient i c).register i cid) := by
  refine (h.setClient (.inl hc)).register ⟨hi, ?_⟩ cid
  rw [BrokerState.conns_setClient_self]
  exact hc

theorem of_sessions (h : Seated opened b) (sessions : Store)
    (activeConnections activeSessions : Int) :
    Seated opened { b with
      sessions := sessions
      activeConnections := activeConnections
      activeSessions := activeSessions } :=
  ⟨h.registered, h.router⟩

/-- Connections in use subscribe. -/
theorem subscribe (h : Seated opened b) {α : Type} {filter : α → GoString}
    {sub : α → Router.Subscriber Nat}
    (hsub : ∀ a i, (sub a).deliver = some i → Used opened b i) (as : List α) :
    Seated opened { b with
      router := as.foldl (fun r a => r.subscribe (filter a) (sub a)) b.router } := by
  have hrouter (r : Router Nat) (hr : r.Each fun _ s => ∀ i, s.deliver = some i → Used opened b i) :
      (as.foldl (fun r a => r.subscribe (filter a) (sub a)) r).Each
        fun _ s => ∀ i, s.deliver = some i → Used opened b i := by
    induction as generalizing r with
    | nil => exact hr
    | cons a as ih => exact ih _ (hr.subscribe (filter a) (hsub a))
  exact ⟨h.registered, hrouter b.router h.router⟩

theorem handleSubscribe (h : Seated opened b) (env : SubscribeEnv Nat)
    (hi : Used opened b env.deliver) (subs : List SubscribeEntry) :
    Seated opened { b with router := (Broker.handleSubscribe env subs b.router).2 } := by
  rw [handleSubscribe_router]
  refine h.subscribe (fun sub i hsub => ?_) (grantedEntries env subs)
  cases hsub
  exact hi

theorem restoreSession (h : Seated opened b) (hi : Used opened b i)
    (subs : List (GoString × UInt8)) : Seated opened (Routed.restoreSession i subs b) := by
  refine h.subscribe (fun row j hsub => ?_) subs
  cases hsub
  exact hi

/-- The nil check that takeover leaves out is not needed. -/
theorem takeover_returns (h : Seated opened b) (cid : GoString) : b.takeover cid ≠ none := by
  rw [BrokerState.takeover]
  split
  · exact Option.some_ne_none _
  · next j hj =>
      obtain ⟨p, hp⟩ := Option.isSome_iff_exists.mp (h.registered cid j hj).2
      rw [hp]
      exact Option.some_ne_none _

end Seated

/-- What the broker is like after a packet of connection i. -/
structure After (opened i : Nat) (b : BrokerState) (goesOn : Bool) (b' : BrokerState) : Prop where
  seated : Seated opened b'
  others : ∀ j, j ≠ i → Ready b j → Ready b' j
  ready : goesOn = true → Ready b' i

theorem Seated.touched {env : HandshakeEnv} (h : Seated opened b)
    (htouched : BrokerState.Touched env i b b') : Seated opened b' := by
  have hclients : b'.clients = b.clients := congrArg BrokerState.Shared.clients htouched.shared
  have hrouter : b'.router = b.router := congrArg BrokerState.Shared.router htouched.shared
  have hused {j : Nat} (hj : Used opened b j) : Used opened b' j := by
    by_cases hji : j = i
    · subst hji
      exact ⟨hj.1, htouched.sess.symm ▸ hj.2⟩
    · exact ⟨hj.1, (htouched.others j hji).symm ▸ hj.2⟩
  refine ⟨?_, ?_⟩
  · intro cid j hj
    rw [hclients] at hj
    exact hused (h.registered cid j hj)
  · rw [hrouter]
    exact h.router.mono fun _ _ hs j hj => hused (hs j hj)

theorem Ready.of_conns_eq {j : Nat} (h : Ready b j) (hconns : b'.conns j = b.conns j) :
    Ready b' j := by
  rw [Ready, hconns]
  exact h

theorem after_accept {env : HandshakeEnv} {cid : GoString} {pkt : Protocol.ConnectPacket}
    {present : Bool} (h : Seated opened b) (hi : i < opened)
    (haccept : b.accept env i cid pkt = .accepted present b') : After opened i b true b' := by
  rw [BrokerState.accept] at haccept
  split at haccept
  · cases haccept
  · next u htakeover =>
      have hsteady : Steady b u := Frame.takeover htakeover
      cases haccept
      refine ⟨?_, ?_, ?_⟩
      · refine Seated.of_sessions ?_ _ _ _
        exact Seated.seat ((h.steady hsteady).of_sessions _ _ _) hi rfl cid
      · intro j hj hready
        exact (hready.steady hsteady).of_conns_eq (BrokerState.conns_setClient_of_ne _ _ hj)
      · intro _ _
        exact congrArg (fun c : Client => c.sess.isSome) (Function.update_self i _ u.conns)

theorem handleConnect_returns {env : HandshakeEnv} (h : Seated opened b) (body : List UInt8) :
    b.handleConnect env i body ≠ .panicked := by
  have hdecode : (Protocol.decodeConnect body).Returns := (Protocol.safe_connectBody _).returns
  intro hpanic
  unfold BrokerState.handleConnect at hpanic
  split at hpanic
  · next cid pkt u hadmit =>
      obtain ⟨htouched, -⟩ := BrokerState.admission_admitted hadmit
      rw [BrokerState.accept] at hpanic
      split at hpanic
      · next hnone => exact (h.touched htouched).takeover_returns cid hnone
      · cases hpanic
  · cases hpanic
  · next hadmit =>
      unfold BrokerState.admission at hadmit
      split at hadmit
      · next hfault => simp [hfault, Faulting.Outcome.Returns] at hdecode
      · next hfault => simp [hfault, Faulting.Outcome.Returns] at hdecode
      · cases hadmit
      · dsimp only at hadmit
        split at hadmit
        · cases hadmit
        · split at hadmit
          · cases hadmit
          · split at hadmit <;> cases hadmit

section Packet
variable {σ α : Type} {decoded : Faulting.Outcome Protocol.DecodeError σ α}
    {handler : α → Ptr → Reply}

theorem withPacket_no_panic (hsess : (b.conns i).sess.isSome = true) (hreturns : decoded.Returns)
    (hhandler : ∀ a p, ¬ Panics (handler a p)) : ¬ Panics (b.withPacket i decoded handler) := by
  obtain ⟨p, hp⟩ := Option.isSome_iff_exists.mp hsess
  unfold BrokerState.withPacket
  rw [hp]
  cases decoded with
  | ok a t => exact hhandler a p
  | error err => exact fun hpanic => Option.some_ne_none _ hpanic.1
  | panic => cases hreturns
  | timeout => cases hreturns

end Packet

/-- A handler that goes on with calls of Router.Publish can only wait in one of them. -/
theorem handled_no_panic {env : HandleEnv} {p : Ptr} {r : Handled} {accepts : List Acceptance} :
    ¬ Panics (b.handled env i p r accepts) := by
  intro hpanic
  have hcalls : r.calls = [] := hpanic.2
  have hnone := hpanic.1
  rw [BrokerState.handled, hcalls] at hnone
  cases hnone

theorem goOn_no_panic (b : BrokerState) : ¬ Panics (.goOn b) :=
  fun hpanic => Option.some_ne_none _ hpanic.1

theorem ended_no_panic (b : BrokerState) : ¬ Panics (.ended b) :=
  fun hpanic => Option.some_ne_none _ hpanic.1

theorem publishPacket_no_panic {env : HandleEnv} {pkt : PublishPacket} {p : Ptr} :
    ¬ Panics (b.publishPacket env i pkt p) := by
  rw [BrokerState.publishPacket]
  split
  · exact ended_no_panic b
  · exact handled_no_panic

theorem dispatch_no_panic {env : HandleEnv} {fh : Protocol.FixedHeader} {body : List UInt8}
    (h : Seated opened b) (hsess : fh.type ≠ .connect → (b.conns i).sess.isSome = true) :
    ¬ Panics (b.dispatch env i fh body) := by
  rw [BrokerState.dispatch]
  cases htype : fh.type <;> simp only [htype, ne_eq, reduceCtorEq, not_false_eq_true, forall_const]
    at hsess ⊢
  case connect =>
    unfold BrokerState.connectPacket
    split
    · exact fun hpanic => Option.some_ne_none _ hpanic.1
    · exact ended_no_panic _
    · next hpanic => exact absurd hpanic (handleConnect_returns h body)
  case publish =>
    exact withPacket_no_panic hsess (Protocol.safe_publishBody _ _ fh _).returns fun _ _ =>
      publishPacket_no_panic
  case puback | pubcomp | pubrec =>
    exact withPacket_no_panic hsess (Protocol.decodePacketID_returns body) fun _ _ =>
      goOn_no_panic _
  case pubrel =>
    exact withPacket_no_panic hsess (Protocol.decodePacketID_returns body) fun _ _ =>
      handled_no_panic
  case subscribe =>
    exact withPacket_no_panic hsess (Protocol.safe_subscribeBody _ _).returns fun _ _ =>
      goOn_no_panic _
  case unsubscribe =>
    exact withPacket_no_panic hsess (Protocol.safe_unsubscribeBody _ _).returns fun _ _ =>
      goOn_no_panic _
  case pingreq =>
    obtain ⟨p, hp⟩ := Option.isSome_iff_exists.mp hsess
    rw [hp]
    exact goOn_no_panic _
  case disconnect =>
    have hreturns := Protocol.decodeDisconnect_returns (b.conns i).conn.version body
    split
    · exact ended_no_panic _
    · exact ended_no_panic _
    · next hok herror =>
        exfalso
        cases hdecode : Protocol.decodeDisconnect (b.conns i).conn.version body with
        | ok pkt t => exact hok pkt t hdecode
        | error err => exact herror err hdecode
        | panic => simp [hdecode, Faulting.Outcome.Returns] at hreturns
        | timeout => simp [hdecode, Faulting.Outcome.Returns] at hreturns
  all_goals exact ended_no_panic b

theorem after_handle {env : HandleEnv} {fh : Protocol.FixedHeader} {body : List UInt8}
    {goesOn : Bool} (h : Seated opened b) (hi : i < opened) (hready : Ready b i)
    (hnext : (b.handle env i fh body).next = some (goesOn, b')) : After opened i b goesOn b' := by
  cases effect_handle hnext with
  | steady hsteady =>
      exact ⟨h.steady hsteady, fun _ _ hj => hj.steady hsteady, fun _ => hready.steady hsteady⟩
  | accepted htouched haccept =>
      have hafter := after_accept (h.touched htouched) hi haccept
      exact ⟨hafter.seated, fun j hj hready =>
        hafter.others j hj (hready.of_conns_eq (htouched.others j hj)), hafter.ready⟩
  | refused htouched =>
      exact ⟨h.touched htouched, fun j hj hready => hready.of_conns_eq (htouched.others j hj),
        nofun⟩
  | subscribed _ _ _ _ hsess suback =>
      have hused : Used opened b i := ⟨hi, by rw [hsess]; rfl⟩
      have hsubscribed := h.handleSubscribe (b.subscribeEnv env i) hused
      have hready' {u : BrokerState} {j : Nat} (hj : Ready b j) (hconns : u.conns = b.conns) :
          Ready (u.modifyConn i (Conn.enqueue suback)) j :=
        (hj.of_conns_eq (congrFun hconns j)).steady (Frame.enqueue i suback u)
      exact ⟨(hsubscribed _).steady (Frame.enqueue i suback _), fun _ _ hj => hready' hj rfl,
        fun _ => hready' hready rfl⟩

theorem handle_no_panic {env : HandleEnv} {fh : Protocol.FixedHeader} {body : List UInt8}
    (h : Seated opened b) (hready : Ready b i) : ¬ Panics (b.handle env i fh body) := by
  rw [BrokerState.handle]
  split
  · exact ended_no_panic b
  · next hfirst =>
      split
      · exact ended_no_panic b
      · refine dispatch_no_panic h fun htype => hready ?_
        exact fun hstate => hfirst ⟨hstate, htype⟩

end Invariant

structure Inv (w : World) : Prop where
  seated : Seated w.opened w.broker
  reading : ∀ i, w.phase i = .reading → i < w.opened ∧ Ready w.broker i

section Run
variable {w t : World} {i : Nat}

theorem inv_start {authn : Authenticator} {router : Router Nat}
    (hrouter : router.Each fun _ _ => False) : Inv (start authn router) where
  seated := ⟨nofun, hrouter.mono fun _ _ h => h.elim⟩
  reading := nofun

theorem Inv.steady (h : Inv w) {b : BrokerState} (hsteady : Steady w.broker b) :
    Inv { w with broker := b } where
  seated := h.seated.steady hsteady
  reading i hi := ⟨(h.reading i hi).1, (h.reading i hi).2.steady hsteady⟩

theorem Inv.leaves (h : Inv w) (i : Nat) {phase : Phase} (hphase : phase ≠ .reading) :
    Inv { w with phase := Function.update w.phase i phase } where
  seated := h.seated
  reading j hj := by
    by_cases hji : j = i
    · subst hji
      exact absurd ((Function.update_self ..).symm.trans hj) hphase
    · exact h.reading j ((Function.update_of_ne hji ..).symm.trans hj)

theorem inv_accept (h : Inv w) (remoteAddr : GoString) (cert : Option Certificate)
    (writeQueueSize : Nat) :
    Inv { w with
      broker := w.broker.setClient w.opened (newClient remoteAddr cert writeQueueSize)
      opened := w.opened + 1
      phase := Function.update w.phase w.opened .reading } := by
  have hseated :
      Seated w.opened (w.broker.setClient w.opened (newClient remoteAddr cert writeQueueSize)) :=
    h.seated.setClient (.inr fun hused => Nat.lt_irrefl _ hused.1)
  have hmore {b : BrokerState} {j : Nat} (hj : Used w.opened b j) : Used (w.opened + 1) b j :=
    ⟨Nat.lt_succ_of_lt hj.1, hj.2⟩
  refine ⟨⟨fun cid j hj => hmore (hseated.registered cid j hj),
    hseated.router.mono fun _ _ hs j hj => hmore (hs j hj)⟩, ?_⟩
  intro j hj
  by_cases hnew : j = w.opened
  · subst hnew
    refine ⟨Nat.lt_succ_self _, fun hstate => ?_⟩
    rw [BrokerState.conns_setClient_self] at hstate
    exact absurd rfl hstate
  · obtain ⟨hlt, hready⟩ := h.reading j ((Function.update_of_ne hnew ..).symm.trans hj)
    exact ⟨Nat.lt_succ_of_lt hlt, hready.of_conns_eq (BrokerState.conns_setClient_of_ne _ _ hnew)⟩

theorem inv_packet (h : Inv w) {env : HandleEnv} {fh : Protocol.FixedHeader} {body : List UInt8}
    (hstep : step w (.packet env i fh body) = some t) : Inv t := by
  rw [step] at hstep
  split at hstep
  · cases hstep
  · next hreading =>
      obtain ⟨⟨goesOn, b⟩, hnext, rfl⟩ := Option.map_eq_some_iff.mp hstep
      obtain ⟨hi, hready⟩ := h.reading i (not_not.mp hreading)
      have hafter := after_handle h.seated hi hready hnext
      refine ⟨hafter.seated, ?_⟩
      intro j hj
      by_cases hji : j = i
      · subst hji
        cases goesOn with
        | true => exact ⟨hi, hafter.ready rfl⟩
        | false => cases (Function.update_self ..).symm.trans hj
      · have hold : w.phase j = .reading := by
          cases goesOn with
          | true => exact hj
          | false => exact (Function.update_of_ne hji ..).symm.trans hj
        exact ⟨(h.reading j hold).1, hafter.others j hji (h.reading j hold).2⟩

theorem inv_cleanup (h : Inv w) {now : Nat} {b : BrokerState}
    (hb : w.broker.cleanup now i = some b) :
    Inv { w with broker := b, phase := Function.update w.phase i .finished } := by
  have hclosed : Seated w.opened (w.broker.closeClient i) := by
    by_cases hused : Used w.opened w.broker i
    · exact h.seated.setClient (.inl hused.2)
    · exact h.seated.setClient (.inr hused)
  refine ⟨hclosed.steady (Frame.cleanup_closed rfl hb), ?_⟩
  intro j hj
  by_cases hji : j = i
  · subst hji
    cases (Function.update_self ..).symm.trans hj
  · obtain ⟨hlt, hready⟩ := h.reading j ((Function.update_of_ne hji ..).symm.trans hj)
    exact ⟨hlt, (hready.of_conns_eq (BrokerState.conns_setClient_of_ne _ _ hji)).steady
      (Frame.cleanup_closed rfl hb)⟩

theorem inv_step {e : Event} (h : Inv w) (hlaunched : Launched w e)
    (hstep : step w e = some t) : Inv t := by
  cases e with
  | accept remoteAddr cert writeQueueSize =>
      cases hstep
      exact inv_accept h remoteAddr cert writeQueueSize
  | packet env i fh body => exact inv_packet h hstep
  | readError i =>
      rw [step] at hstep
      split at hstep
      · cases hstep
      · cases hstep
        exact h.leaves i Phase.noConfusion
  | cleanup now i =>
      rw [step] at hstep
      split at hstep
      · cases hstep
      · obtain ⟨b, hb, rfl⟩ := Option.map_eq_some_iff.mp hstep
        exact inv_cleanup h hb
  | drainOfflineQueue now i =>
      obtain ⟨b, hb, rfl⟩ := Option.map_eq_some_iff.mp hstep
      exact h.steady (frame_drainOfflineQueue hb)
  | restoreSession i subs =>
      cases hstep
      exact ⟨h.seated.restoreSession hlaunched subs, h.reading⟩
  | deliver now d =>
      obtain ⟨b, hb, rfl⟩ := Option.map_eq_some_iff.mp hstep
      exact h.steady (Frame.runDelivery hb)
  | route now call =>
      obtain ⟨b, hb, rfl⟩ := Option.map_eq_some_iff.mp hstep
      exact h.steady (Frame.routerPublish hb)
  | writeLoop i writeQ =>
      cases hstep
      exact h.steady (Frame.setClient rfl ⟨rfl, fun _ => rfl, fun _ => rfl⟩)
  | sessionExpirySweep now =>
      cases hstep
      exact h.steady (frame_sessionExpirySweep rfl now w.broker)
  | addACLRule =>
      cases hstep
      exact h.steady (Frame.of_router rfl rfl rfl fun _ => .refl _)

end Run

/-- Whatever any number of clients send, in any order and with any takeover, expiry or routing
in between: no packet that is read makes its handler panic on a nil session or in a decoder,
no takeover meets one, and every closure that Router.Publish calls has a session. -/
theorem no_nil_session {authn : Authenticator} {router : Router Nat} {es : List Event} {w : World}
    (hrouter : router.Each fun _ _ => False)
    (hlaunched : Transition.Meets step Launched es (start authn router))
    (hrun : Transition.run step es (start authn router) = some w) :
    (∀ i env fh body, w.phase i = .reading → ¬ Panics (w.broker.handle env i fh body)) ∧
    (∀ cid, w.broker.takeover cid ≠ none) ∧
    (∀ call : PublishCall, ∀ now,
      ∀ d ∈ (w.broker.router.publish call.topic call.payload call.qos call.retain now).deliveries,
        (w.broker.conns d.deliver).sess.isSome = true) := by
  have hinv :=
    Transition.invariant_run (fun _ _ _ h hok hstep => inv_step h hok hstep) (inv_start hrouter)
    hlaunched hrun
  refine ⟨?_, hinv.seated.takeover_returns, ?_⟩
  · intro i env fh body hi
    exact handle_no_panic hinv.seated (hinv.reading i hi).2
  · intro call now d hd
    obtain ⟨c, s, hs, hdeliver, -⟩ := hinv.seated.router.deliveries hd
    exact (hs d.deliver hdeliver).2

/-- A client connects twice under one ID, its subscription is restored from the table, and a
third connection has not sent anything yet. -/
def connectsTwice : List Event :=
  let connect := BrokerState.connectBytes 0x04 [0, 1, 119, 0, 0]
  [.accept (str "r") none 16, .packet sampleEnv 0 ⟨.connect, 0, connect.length⟩ connect,
    .accept (str "r") none 16,
    .packet sampleEnv 1 ⟨.connect, 0, connect.length⟩ connect, .restoreSession 1 [(str "a", 1)],
    .accept (str "r") none 16]

theorem no_nil_session_connectsTwice :
    ∃ w, Transition.run step connectsTwice sampleStart = some w ∧ w.phase 0 = .reading ∧
      w.phase 2 = .reading ∧
      (∀ fh body, ¬ Panics (w.broker.handle sampleEnv 0 fh body)) ∧
      ∀ fh body, ¬ Panics (w.broker.handle sampleEnv 2 fh body) := by
  obtain ⟨w, hrun, hfirst, hthird⟩ := Transition.reaches_of_any step connectsTwice sampleStart
    (fun w => w.phase 0 = .reading ∧ w.phase 2 = .reading) (by decide +kernel)
  have hsafe := (no_nil_session Router.each_new (by decide +kernel) hrun).1
  exact ⟨w, hrun, hfirst, hthird, fun fh body => hsafe 0 sampleEnv fh body hfirst,
    fun fh body => hsafe 2 sampleEnv fh body hthird⟩

end LumaBroker.Broker.NilSession
