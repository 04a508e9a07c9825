import LumaBroker.Broker.Frame
import LumaBroker.Broker.Routed
import LumaBroker.Broker.Takeover

/-!
What a packet and a cleanup do to the registry: the map of connected clients, the store of
sessions and the IDs and sessions of the connections. A CONNECT that is accepted takes an
ID and a session, cleanup gives them up, and every other packet leaves the registry alone.
-/

namespace LumaBroker.Broker

open Session
open Routed (connectSession_topics)

/-- Every session is stored under its own client ID. -/
def Keyed (s : Store) : Prop := ∀ cid p, s.data.get cid = some p → (s.heap p).clientID = cid

/-- No session ends and nobody leaves the registry. -/
abbrev Calm : BrokerState → BrokerState → Prop :=
  Frame { closes := true, learns := true, subscribes := true }

theorem runDelivery_frame {now : Nat} {d : Router.Delivery Nat} {b b' : BrokerState}
    (h : BrokerState.runDelivery now b d = some b') :
    b'.clients = b.clients ∧ b'.sessions.data = b.sessions.data ∧ b'.router = b.router := by
  rcases BrokerState.runDelivery_cases h with rfl | ⟨p, r, -, rfl⟩ <;> exact ⟨rfl, rfl, rfl⟩

theorem held_routeAll {now : Nat} {calls : List PublishCall} {b b' : BrokerState}
    (h : b.routeAll now calls = some b') (c f : GoString) :
    b'.router.held c f = b.router.held c f := by
  refine Transition.preserved_run (I := fun s => s.router.held c f = b.router.held c f) ?_ rfl h
  intro s call t hs hrun
  have hrouter :
      t.router = (s.router.publish call.topic call.payload call.qos call.retain now).router :=
    Transition.preserved_run
      (I := fun u => u.router =
        (s.router.publish call.topic call.payload call.qos call.retain now).router)
      (fun _ _ _ hu hdeliver => (runDelivery_frame hdeliver).2.2.trans hu) rfl hrun
  rw [hrouter, Router.held_publish]
  exact hs

theorem connected_deliver {now : Nat} {m : Queued} {c : Conn} {s : Session} {r : Delivered}
    (h : deliver now m c s = some r) : r.sess.connected = s.connected := by
  rw [deliver] at h
  split at h
  · cases h
    exact Session.apply_enqueue Session.connected (fun _ _ => rfl) m s
  · split at h
    · cases h
      exact Session.apply_enqueue Session.connected (fun _ _ => rfl) m s
    · split at h
      · cases h
        rfl
      · obtain ⟨⟨pid, t⟩, hnext, rfl⟩ := Option.map_eq_some_iff.mp h
        obtain ⟨-, n, rfl⟩ := nextPacketID_spec hnext
        have hadd (msg : InFlight) (max : UInt16) (u : Session) :
            (u.addOutFlightLimited msg max).1.connected = u.connected := by
          rw [Session.addOutFlightLimited_fst]
        dsimp only
        rw [sendTracked]
        split
        · next u hu => exact (congrArg (fun e => e.1.connected) hu).symm.trans (hadd ..)
        · next u hu =>
            have henqueue := Session.apply_enqueue Session.connected (fun _ _ => rfl) m u
            exact henqueue.trans ((congrArg (fun e => e.1.connected) hu).symm.trans (hadd ..))

theorem connected_routeAll {now : Nat} {calls : List PublishCall} {b b' : BrokerState}
    (h : b.routeAll now calls = some b') (p : Ptr) :
    (b'.sessions.heap p).connected = (b.sessions.heap p).connected := by
  refine BrokerState.routeAll_preserves
    (I := fun s => (s.sessions.heap p).connected = (b.sessions.heap p).connected)
    (fun _ _ hs => hs) ?_ rfl h
  intro s d t hs hrun
  rcases BrokerState.runDelivery_cases hrun with rfl | ⟨q, r, hr, rfl⟩
  · exact hs
  · change ((s.sessions.modify q fun _ => r.sess).heap p).connected = _
    rw [Store.heap_modify]
    split
    · next hq => exact (connected_deliver hr).trans (hq ▸ hs)
    · exact hs

section Packets
variable {env : HandleEnv} {i : Nat} {b b' : BrokerState} {goesOn : Bool}

/-- A packet reaches its handler, or it cannot be decoded and the connection ends. -/
theorem withPacket_cases {σ α : Type} {decoded : Faulting.Outcome Protocol.DecodeError σ α}
    {handler : α → Ptr → Reply} (h : (b.withPacket i decoded handler).next = some (goesOn, b')) :
    (∃ a t p, decoded = .ok a t ∧ b.withPacket i decoded handler = handler a p) ∨
      (∃ err, decoded = .error err) ∧ b.withPacket i decoded handler = .ended b := by
  cases decoded with
  | ok a t =>
      cases hsess : (b.conns i).sess with
      | none =>
          simp only [BrokerState.withPacket, hsess] at h
          cases h
      | some p => exact .inl ⟨a, t, p, rfl, by simp only [BrokerState.withPacket, hsess]⟩
  | error err => exact .inr ⟨⟨err, rfl⟩, rfl⟩
  | panic | timeout => cases h

theorem dispatch_connect (env : HandleEnv) (i : Nat) (body : List UInt8) (b : BrokerState)
    {fh : Protocol.FixedHeader} (htype : fh.type = .connect) :
    b.dispatch env i fh body = b.connectPacket env i body := by
  obtain ⟨type, flags, length⟩ := fh
  cases htype
  rfl

end Packets

/-- The ID that a CONNECT gives to its connection, also when the plugins then refuse it. -/
def takenID (env : HandshakeEnv) (i : Nat) (body : List UInt8) (b : BrokerState) :
    Option GoString :=
  match Protocol.decodeConnect body with
  | .ok pkt _ =>
      match (authenticate env pkt (b.conns i).cert (b.conns i).username b.authn).error with
      | some _ => none
      | none => connectID env.now (b.conns i).remoteAddr pkt
  | _ => none

theorem takenID_ne_nil {env : HandshakeEnv} {i : Nat} {body : List UInt8} {b : BrokerState}
    {cid : GoString} (h : takenID env i body b = some cid) : cid ≠ [] := by
  unfold takenID at h
  split at h
  · split at h
    · cases h
    · exact BrokerState.connectID_ne_nil h
  · cases h

/-- What an accepted CONNECT does: connection i takes the ID and the session p. -/
structure Takes (i : Nat) (cid : GoString) (p : Ptr) (b b' : BrokerState) : Prop where
  clients : b'.clients = b.clients.set cid i
  clientID : (b'.conns i).conn.clientID = cid
  sess : (b'.conns i).sess = some p
  others : ∀ j, j ≠ i → (b'.conns j).conn.clientID = (b.conns j).conn.clientID ∧
    (b'.conns j).sess = (b.conns j).sess
  stored : b'.sessions.data.get cid = some p
  data : ∀ id, id ≠ cid → b'.sessions.data.get id = b.sessions.data.get id
  next : b.sessions.next ≤ b'.sessions.next
  owner : ∀ q, q < b.sessions.next → (b'.sessions.heap q).clientID = (b.sessions.heap q).clientID
  own : Keyed b.sessions → (b'.sessions.heap p).clientID = cid

section Connect
variable {env : HandshakeEnv} {i : Nat} {body : List UInt8} {b b' : BrokerState}

theorem getOrCreate_owner (cid : GoString) (clean : Bool) (now : Nat) (s : Store) :
    let result := s.getOrCreate cid clean now
    (∀ id, id ≠ cid → result.1.data.get id = s.data.get id) ∧
      (∀ q, q < s.next → result.1.heap q = s.heap q) ∧
      (Keyed s → (result.1.heap result.2.1).clientID = cid) := by
  dsimp only
  cases Store.getOrCreate_cases cid clean now s with
  | inl h =>
      obtain ⟨p, hp, -, hget, -⟩ := h
      rw [hp]
      exact ⟨fun _ _ => rfl, fun _ _ => rfl, fun hkeyed => hkeyed cid p hget⟩
  | inr h =>
      rw [h]
      refine ⟨fun id hid => ?_, fun q hq => ?_, fun _ => ?_⟩
      · exact FinMap.get_set_ne s.data s.next hid
      · exact Store.heap_create_of_ne cid clean now (Nat.ne_of_lt hq)
      · rw [Store.heap_create_self]
        rfl

theorem takes_accept {cid : GoString} {pkt : Protocol.ConnectPacket} {present : Bool}
    (h : b.accept env i cid pkt = .accepted present b') : ∃ p, Takes i cid p b b' := by
  have hid := BrokerState.clientID_accept h
  rw [BrokerState.accept] at h
  split at h
  · cases h
  · next u htakeover =>
      have hcalm : Calm b u := Frame.takeover htakeover
      obtain ⟨hclients, hkept⟩ := hcalm.kept rfl
      have hstored := Store.get_getOrCreate cid pkt.cleanSession env.now u.sessions
      have hnext := Store.next_getOrCreate cid pkt.cleanSession env.now u.sessions
      obtain ⟨hdata, hheap, hown⟩ := getOrCreate_owner cid pkt.cleanSession env.now u.sessions
      obtain ⟨sessions, p, present', hget⟩ : ∃ sessions p present',
          u.sessions.getOrCreate cid pkt.cleanSession env.now = (sessions, p, present') :=
            ⟨_, _, _, rfl⟩
      rw [hget] at h hstored hnext hdata hheap hown
      cases h
      have howner (q : Ptr) :
          ((sessions.modify p ((sessionPart pkt).connectSession env.now)).heap q).clientID =
          (sessions.heap q).clientID := by
        rw [Store.heap_modify]
        split
        · exact (connectSession_topics (sessionPart pkt) env.now (sessions.heap q)).1
        · rfl
      refine ⟨p, ?_, hid, ?_, ?_, hstored, ?_, ?_, ?_, ?_⟩
      · exact congrArg (fun clients => clients.set cid i) hclients
      · exact congrArg Client.sess (BrokerState.conns_setClient_self i _ _)
      · intro j hj
        have hsame (c : Client) : Function.update u.conns i c j = u.conns j :=
          Function.update_of_ne hj ..
        constructor
        · exact (congrArg (fun c => c.conn.clientID) (hsame _)).trans (hcalm.conn j).clientID
        · exact (congrArg Client.sess (hsame _)).trans (hcalm.sess j)
      · intro id hne
        exact (hdata id hne).trans (congrArg (fun data => data.get id) hkept)
      · exact hcalm.next ▸ hnext
      · intro q hq
        have hold := congrArg Session.clientID (hheap q (hcalm.next ▸ hq))
        exact (howner q).trans (hold.trans (hcalm.heap q).clientID)
      · intro hkeyed
        refine (howner p).trans (hown fun id q hq => ?_)
        rw [(hcalm.heap q).clientID]
        exact hkeyed id q (hkept ▸ hq)

theorem clientID_admission :
    (∀ err connack b', b.admission env i body = .refused err connack b' →
      (b'.conns i).conn.clientID = (takenID env i body b).getD (b.conns i).conn.clientID) ∧
    ∀ cid pkt b', b.admission env i body = .admitted cid pkt b' →
      takenID env i body b = some cid := by
  unfold BrokerState.admission takenID
  cases Protocol.decodeConnect body with
  | panic | timeout => exact ⟨fun _ _ _ h => (by cases h), fun _ _ _ h => (by cases h)⟩
  | error err =>
      refine ⟨fun _ _ _ h => ?_, fun _ _ _ h => (by cases h)⟩
      cases h
      rfl
  | ok pkt t =>
      dsimp only
      cases (authenticate env pkt (b.conns i).cert (b.conns i).username b.authn).error with
      | some err =>
          refine ⟨fun _ _ _ h => ?_, fun _ _ _ h => (by cases h)⟩
          cases h
          rw [BrokerState.conns_setClient_self]
          rfl
      | none =>
          dsimp only
          cases connectID env.now (b.conns i).remoteAddr pkt with
          | none =>
              refine ⟨fun _ _ _ h => ?_, fun _ _ _ h => (by cases h)⟩
              cases h
              rw [BrokerState.conns_setClient_self]
              rfl
          | some cid =>
              dsimp only
              split
              · refine ⟨fun _ _ _ h => ?_, fun _ _ _ h => (by cases h)⟩
                cases h
                rw [BrokerState.conns_setClient_self]
                rfl
              · refine ⟨fun _ _ _ h => (by cases h), fun _ _ _ h => ?_⟩
                cases h
                rfl

/-- A CONNECT is refused, and the connection keeps its session and ends; or it is accepted. -/
theorem connectPacket_cases {env : HandleEnv} {goesOn : Bool}
    (h : (b.connectPacket env i body).next = some (goesOn, b')) :
    (goesOn = false ∧ b'.shared = b.shared ∧ (b'.conns i).sess = (b.conns i).sess ∧
        (∀ j, j ≠ i → b'.conns j = b.conns j) ∧
        (b'.conns i).conn.clientID = (takenID env.handshake i body b).getD
        (b.conns i).conn.clientID) ∨
      goesOn = true ∧ ∃ cid p, takenID env.handshake i body b = some cid ∧ Takes i cid p b b' := by
  unfold BrokerState.connectPacket at h
  split at h
  · next hconnect =>
      cases h
      obtain ⟨cid, pkt, u, hadmit, haccept⟩ := BrokerState.handleConnect_accepted hconnect
      have htaken := clientID_admission.2 cid pkt u hadmit
      have htouched := (BrokerState.admission_admitted hadmit).1
      obtain ⟨p, htakes⟩ := takes_accept haccept
      have hclients : u.clients = b.clients := congrArg BrokerState.Shared.clients htouched.shared
      have hsessions : u.sessions = b.sessions :=
        congrArg BrokerState.Shared.sessions htouched.shared
      refine .inr ⟨rfl, cid, p, htaken, ?_, htakes.clientID, htakes.sess, ?_, htakes.stored,
        ?_, ?_, ?_, ?_⟩
      · rw [← hclients]
        exact htakes.clients
      · intro j hj
        rw [← htouched.others j hj]
        exact htakes.others j hj
      · rw [← hsessions]
        exact htakes.data
      · rw [← hsessions]
        exact htakes.next
      · rw [← hsessions]
        exact htakes.owner
      · rw [← hsessions]
        exact htakes.own
  · next hconnect =>
      cases h
      have hadmit := BrokerState.handleConnect_refused hconnect
      have htouched := (BrokerState.admission_refused hadmit).1
      exact .inl ⟨rfl, htouched.shared, htouched.sess, htouched.others,
        clientID_admission.1 _ _ _ hadmit⟩
  · cases h

end Connect

/-- A packet is handled without a change to the registry, or it is a CONNECT that the
limiter lets through. -/
theorem handle_cases {env : HandleEnv} {j : Nat} {b b' : BrokerState} {fh : Protocol.FixedHeader}
    {body : List UInt8} {goesOn : Bool}
    (h : (b.handle env j fh body).next = some (goesOn, b')) :
    (Calm b b' ∧ (fh.type = .connect → goesOn = false ∧ env.allow = false)) ∨
      fh.type = .connect ∧ ((b.conns j).conn.clientID ≠ [] → env.allow = true) ∧
        (b.connectPacket env j body).next = some (goesOn, b') := by
  rw [BrokerState.handle] at h
  split at h
  · next hfirst =>
      cases h
      exact .inl ⟨Frame.refl b, fun hconnect => absurd hconnect hfirst.2⟩
  · split at h
    · next hdenied =>
        cases h
        exact .inl ⟨Frame.refl b, fun _ => ⟨rfl, hdenied.2⟩⟩
    · next hallow =>
        by_cases htype : fh.type = .connect
        · refine .inr ⟨htype, fun hid => ?_, ?_⟩
          · simpa using fun hdenied => hallow ⟨hid, hdenied⟩
          · exact dispatch_connect env j body b htype ▸ h
        · have hcalm : Calm b b' := Frame.dispatch htype (fun _ => rfl) (fun _ => rfl) h
          exact .inl ⟨hcalm, fun hconnect => absurd hconnect htype⟩

/-- Cleanup ends the session: it is clean, or purged at once. -/
def Ends (now : Nat) (s : Session) : Prop :=
  s.cleanSession = true ∨ (disconnectSession now s).2 = true

instance (now : Nat) (s : Session) : Decidable (Ends now s) := inferInstanceAs (Decidable (_ ∨ _))

section Cleanup
variable {now i : Nat} {b b' : BrokerState}

/-- What the session part of cleanup does under an ID. -/
structure Disconnected (now : Nat) (cid : GoString) (p : Ptr) (b b' : BrokerState) : Prop where
  clients : b'.clients = b.clients
  data : ∀ id, id ≠ cid → b'.sessions.data.get id = b.sessions.data.get id
  connected : (b'.sessions.heap p).connected = false
  held : ∀ c f, b'.router.held c f =
    if Ends now (b.sessions.heap p) ∧ c = cid then none else b.router.held c f

/-- The session is marked as disconnected, and ended if need be. -/
theorem disconnect_eq (now : Nat) (cid : GoString) (p : Ptr) (b : BrokerState) :
    ∃ f : Session → Session, (f (b.sessions.heap p)).connected = false ∧
      b.disconnect now cid p = if Ends now (b.sessions.heap p) then
        (b.modifySession p f).endSession cid
        else b.modifySession p f := by
  have hheap (f : Session → Session) (s : Store) : (s.modify p f).heap p = f (s.heap p) := by
    rw [Store.heap_modify, if_pos rfl]
  have hfirst : ((b.modifySession p (Session.setConnected false now)).sessions.heap p) =
      (b.sessions.heap p).setConnected false now := hheap _ _
  have hkind : ((b.sessions.heap p).setConnected false now).cleanSession =
      (b.sessions.heap p).cleanSession := rfl
  rw [BrokerState.disconnect]
  dsimp only
  rw [hfirst, hkind]
  cases hclean : (b.sessions.heap p).cleanSession with
  | true =>
      refine ⟨Session.setConnected false now, rfl, ?_⟩
      rw [if_pos rfl, if_pos (.inl hclean)]
  | false =>
      refine ⟨fun s => ((s.setConnected false now).prepareDisconnectExpiry now).1, ?_, ?_⟩
      · rw [Takeover.connected_prepare]
        rfl
      · have htwice : (b.modifySession p (Session.setConnected false now)).modifySession p
            (fun s => (s.prepareDisconnectExpiry now).1) =
              b.modifySession p fun s =>
                ((s.setConnected false now).prepareDisconnectExpiry now).1 := by
          simp [BrokerState.modifySession, Store.modify]
        have hends : Ends now (b.sessions.heap p) ↔
            (((b.sessions.heap p).setConnected false now).prepareDisconnectExpiry now).2 =
              true := by
          rw [Ends, hclean]
          exact or_iff_right Bool.false_ne_true
        rw [if_neg Bool.false_ne_true, htwice]
        exact if_congr hends.symm rfl rfl

theorem disconnected_disconnect (now : Nat) (cid : GoString) (p : Ptr) (b : BrokerState) :
    Disconnected now cid p b (b.disconnect now cid p) := by
  obtain ⟨f, hconnected, heq⟩ := disconnect_eq now cid p b
  have hheap : ((b.modifySession p f).sessions.heap p).connected = false := by
    rw [BrokerState.modifySession, Store.heap_modify, if_pos rfl, hconnected]
  rw [heq]
  split_ifs with hends
  · refine ⟨rfl, fun id hid => FinMap.get_erase_ne _ hid, hheap, fun c f => ?_⟩
    change (b.router.unsubscribeAll cid).held c f = _
    rw [Router.held_unsubscribeAll]
    by_cases hc : c = cid <;> simp [hc, hends]
  · refine ⟨rfl, fun _ _ => rfl, hheap, fun c f => ?_⟩
    rw [if_neg fun h => hends h.1]
    rfl

theorem registry_cleanup (h : b.cleanup now i = some b') :
    b'.clients = (if (b.conns i).conn.clientID = [] then b.clients
      else b.clients.erase (b.conns i).conn.clientID) ∧
      ∀ id, ((b.conns i).conn.clientID ≠ [] → id ≠ (b.conns i).conn.clientID) →
        b'.sessions.data.get id = b.sessions.data.get id := by
  rcases BrokerState.cleanup_cases h with ⟨hnil, rfl⟩ | ⟨hid, u, rfl, ⟨-, rfl⟩ | ⟨p, -, hu⟩⟩
  · rw [if_pos hnil]
    exact ⟨rfl, fun _ _ => rfl⟩
  · rw [if_neg hid]
    exact ⟨rfl, fun _ _ => rfl⟩
  · rw [if_neg hid]
    have hcalm : Calm _ u := Frame.routeAll hu
    obtain ⟨hclients, hdata⟩ := hcalm.kept rfl
    have hdisconnected := disconnected_disconnect now (b.conns i).conn.clientID p
      ((b.closeClient i).unregister (b.conns i).conn.clientID)
    refine ⟨hclients.trans hdisconnected.clients, fun id hne => ?_⟩
    exact (congrArg (fun data => data.get id) hdata).trans (hdisconnected.data id (hne hid))

theorem cleanup_session {p : Ptr} (h : b.cleanup now i = some b')
    (hid : (b.conns i).conn.clientID ≠ []) (hsess : (b.conns i).sess = some p) :
    (b'.sessions.heap p).connected = false ∧
      ∀ c f, b'.router.held c f =
        if Ends now (b.sessions.heap p) ∧ c = (b.conns i).conn.clientID then none
        else b.router.held c f := by
  rcases BrokerState.cleanup_cases h with ⟨hnil, -⟩ | ⟨-, u, rfl, ⟨hnone, -⟩ | ⟨q, hq, hu⟩⟩
  · exact absurd hnil hid
  · rw [hsess] at hnone
    cases hnone
  · rw [hsess] at hq
    cases hq
    have hdisconnected := disconnected_disconnect now (b.conns i).conn.clientID p
      ((b.closeClient i).unregister (b.conns i).conn.clientID)
    exact ⟨(connected_routeAll hu p).trans hdisconnected.connected,
      fun c f => (held_routeAll hu c f).trans (hdisconnected.held c f)⟩

end Cleanup

end LumaBroker.Broker
