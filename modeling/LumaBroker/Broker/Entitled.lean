import LumaBroker.Broker.NilSession
import LumaBroker.Router.Publishing
import LumaBroker.Storage.Subscriptions

/-!
Who may read what. The access rules are consulted in handleSubscribe alone; from there a
subscription goes into the router and, for a persistent session, into the table in Postgres,
from which restoreSession of any broker puts it back without another look at the rules. What
SendRetained delivers it delivers for the subscription that was granted when it was started. The
handler of POST /mqtt/subscribe in internal/api/server.go writes to the same table. Any number
of brokers share the table, and the goroutines that read and write it run when they please.
-/

namespace LumaBroker.Broker.Entitled

open Auth Session Storage Transition

/-- An entry of a SUBSCRIBE and what handleSubscribe had before it when it granted it. -/
structure Grant where
  env : SubscribeEnv Nat
  entry : SubscribeEntry

def Grant.write (g : Grant) : Write UInt8 :=
  .saveSub g.env.clientID g.entry.filter (grantedQoS g.env g.entry)

/-- A goroutine in restoreSession that has read its rows. -/
structure Restore where
  broker : Nat
  conn : Nat
  clientID : GoString
  rows : List (GoString × UInt8)
  deriving DecidableEq

/-- A goroutine in SendRetained. -/
structure Send where
  broker : Nat
  filter : GoString
  sub : Router.Subscriber Nat

def Grant.send (n : Nat) (g : Grant) : Send :=
  ⟨n, g.entry.filter, subscriberOf g.env (grantedQoS g.env g.entry)⟩

structure World where
  brokers : Nat → Routed.World
  subs : Subscriptions UInt8
  pending : List (Write UInt8)
  restores : List Restore
  sends : List Send
  granted : List Grant
  requested : List (GoString × GoString × UInt8)

inductive Event where
  /-- A step of one of the brokers, its restoreSession apart. -/
  | broker (n : Nat) (e : Routed.Event)
  /-- restoreSession reads the rows, and has one of them back in the router. -/
  | load (n i : Nat)
  | restore (k : Nat)
  /-- A goroutine with SaveSub. -/
  | write (k : Nat)
  /-- DeleteSub and DeleteAllSubs, whoever has called them. -/
  | delete (write : Write UInt8)
  /-- POST /mqtt/subscribe -/
  | request (clientID filter : GoString) (qos : UInt8)

/-- The entries that a packet brings to the loop of handleSubscribe. -/
def subscribed (env : HandleEnv) (i : Nat) (fh : Protocol.FixedHeader) (body : List UInt8)
    (b : BrokerState) : List SubscribeEntry :=
  let c := (b.conns i).conn
  if c.state = .handshaking ∨ c.clientID ≠ [] ∧ env.allow = false ∨ fh.type ≠ .subscribe then []
  else b.subscribeEntries i body

def grantedOf (env : SubscribeEnv Nat) (subs : List SubscribeEntry) : List Grant :=
  (grantedEntries env subs).map fun sub => ⟨env, sub⟩

def grants (w : Routed.World) : Routed.Event → List Grant
  | .packet env i fh body =>
      if w.phase i = .reading then
        grantedOf (w.broker.subscribeEnv env i) (subscribed env i fh body w.broker)
      else []
  | _ => []

/-- The writes that handleSubscribe starts. -/
def saves (w : Routed.World) : Routed.Event → List (Write UInt8)
  | .packet env i fh body =>
      match (w.broker.conns i).sess with
      | some p =>
          if (w.broker.sessions.heap p).cleanSession then []
          else (grants w (.packet env i fh body)).map Grant.write
      | none => []
  | _ => []

def restores : Routed.Event → Bool
  | .restoreSession .. => true
  | _ => false

def World.clientID (w : World) (n i : Nat) : GoString :=
  ((w.brokers n).broker.conns i).conn.clientID

def subscribeRow (i : Nat) (row : GoString × UInt8) (w : Routed.World) : Routed.World :=
  { w with broker := Routed.restoreSession i [row] w.broker }

def deletes : Write UInt8 → Bool
  | .saveSub .. => false
  | .deleteSub .. | .deleteAllSubs .. => true

def step (w : World) : Event → Option World
  | .broker n e =>
      if restores e then none
      else
        (Routed.step (w.brokers n) e).map fun t =>
          { w with
            brokers := Function.update w.brokers n t
            pending := w.pending ++ saves (w.brokers n) e
            sends := w.sends ++ (grants (w.brokers n) e).map (Grant.send n)
            granted := grants (w.brokers n) e ++ w.granted }
  | .load n i =>
      let cid := w.clientID n i
      some { w with restores := w.restores ++ [⟨n, i, cid, w.subs.getSubs cid⟩] }
  | .restore k =>
      w.restores[k]?.bind fun g =>
        match g.rows with
        | [] => none
        | row :: rows =>
            some { w with
              brokers :=
                Function.update w.brokers g.broker (subscribeRow g.conn row (w.brokers g.broker))
              restores := w.restores.set k { g with rows := rows } }
  | .write k =>
      w.pending[k]?.map fun write =>
        { w with subs := write.exec w.subs, pending := w.pending.eraseIdx k }
  | .delete write => if deletes write then some { w with subs := write.exec w.subs } else none
  | .request clientID filter qos =>
      some (if clientID = [] ∨ filter = [] then w
        else { w with
          pending := w.pending ++ [.saveSub clientID filter qos]
          requested := (clientID, filter, qos) :: w.requested })

/-- Brokers that have just been started, with any rules, and an empty table. -/
def start (authn : Nat → Authenticator) : World where
  brokers n := Routed.start (authn n) Router.new
  subs := FinMap.empty
  pending := []
  restores := []
  sends := []
  granted := []
  requested := []

/-- The connection still has the client ID that the rows were read for. -/
def SameID (w : World) : Event → Prop
  | .restore k => ∀ g ∈ w.restores[k]?, w.clientID g.broker g.conn = g.clientID
  | _ => True

instance decidableSameID (w : World) : ∀ e, Decidable (SameID w e)
  | .restore k =>
      inferInstanceAs (Decidable (∀ g ∈ w.restores[k]?, w.clientID g.broker g.conn = g.clientID))
  | .broker .. | .load .. | .write .. | .delete .. | .request .. => isTrue trivial

/-- Some broker has granted the filter to the client at this QoS, or it was requested over HTTP. -/
def Origin (granted : List Grant) (requested : List (GoString × GoString × UInt8)) (c f : GoString)
    (q : UInt8) : Prop :=
  (∃ g ∈ granted, subscribeOutcome g.env g.entry = .ok ∧ g.write = .saveSub c f q) ∨
    (c, f, q) ∈ requested

def World.Origin (w : World) : GoString → GoString → UInt8 → Prop :=
  Entitled.Origin w.granted w.requested

/-- Everything that is, or can come, into a router has an origin. -/
structure Inv (w : World) : Prop where
  kept : ∀ n, (w.brokers n).broker.router.Kept
  router : ∀ n c f s, Router.held (w.brokers n).broker.router c f = some s → w.Origin c f s.qos
  rows : ∀ c f q, w.subs.row c f = some q → w.Origin c f q
  pending : ∀ c f q, .saveSub c f q ∈ w.pending → w.Origin c f q
  restores : ∀ g ∈ w.restores, ∀ row ∈ g.rows, w.Origin g.clientID row.1 row.2
  sends : ∀ s ∈ w.sends, w.Origin s.sub.clientID s.filter s.sub.qos

/-- The calls of a router that subscribe for such a reason. -/
def Subscribes (O : GoString → GoString → UInt8 → Prop) : Router.Event Nat → Prop
  | .call (.subscribe f s) => O s.clientID f s.qos
  | _ => True

section Router
variable {O : GoString → GoString → UInt8 → Prop} {r r' : Router Nat} {b b' : BrokerState}

theorem subscribes_of_leaves {e : Router.Event Nat} (h : e.Leaves) : Subscribes O e := by
  cases e with
  | call c =>
      cases c with
      | subscribe filter sub => exact h.elim
      | unsubscribe filter clientID | unsubscribeAll clientID => trivial
  | publish topic payload qos retain now => trivial

theorem steers_of_frame (h : NilSession.Steady b b') :
    Router.Steers (Subscribes O) b.router b'.router :=
  (h.router rfl).mono fun _ => subscribes_of_leaves

/-- What is held after some calls was held before, or one of them has subscribed it. -/
theorem held_of_steers (h : Router.Steers (Subscribes O) r r')
    (hr : ∀ c f s, Router.held r c f = some s → O c f s.qos) :
    ∀ c f s, Router.held r' c f = some s → O c f s.qos := by
  refine h.preserves (I := fun r => ∀ c f s, Router.held r c f = some s → O c f s.qos) ?_ hr
  intro r e hr he c f s hs
  cases e with
  | call call =>
      rw [Router.stepEvent, Router.held_exec] at hs
      cases call with
      | subscribe filter sub =>
          rw [Router.Table.exec] at hs
          dsimp only at hs
          split at hs
          · next hat =>
              cases hs
              rw [hat.1, hat.2]
              exact he
          · exact hr c f s hs
      | unsubscribe filter clientID | unsubscribeAll clientID =>
          rw [Router.Table.exec] at hs
          dsimp only at hs
          split at hs
          · cases hs
          · exact hr c f s hs
  | publish topic payload qos retain now =>
      rw [Router.stepEvent, Router.held_publish] at hs
      exact hr c f s hs

theorem steers_handleSubscribe {env : SubscribeEnv Nat} {subs : List SubscribeEntry}
    (hO : ∀ sub ∈ grantedEntries env subs, O env.clientID sub.filter (grantedQoS env sub))
    (r : Router Nat) : Router.Steers (Subscribes O) r (handleSubscribe env subs r).2 := by
  rw [handleSubscribe_router]
  exact Router.Steers.foldl
    (fun r sub hsub => .event (e := .call (.subscribe ..)) (hO sub hsub) r) r

theorem steers_restoreSession {i : Nat} {subs : List (GoString × UInt8)}
    (hO : ∀ row ∈ subs, O (b.conns i).conn.clientID row.1 row.2) :
    Router.Steers (Subscribes O) b.router (Routed.restoreSession i subs b).router :=
  Router.Steers.foldl (fun r row hrow => .event (e := .call (.subscribe ..)) (hO row hrow) r)
    b.router

end Router

/-- Only a SUBSCRIBE subscribes, and only what it grants. -/
theorem steers_handle {O : GoString → GoString → UInt8 → Prop} {b b' : BrokerState}
    {env : HandleEnv} {i : Nat} {fh : Protocol.FixedHeader} {body : List UInt8} {goesOn : Bool}
    (hO : ∀ g ∈ grantedOf (b.subscribeEnv env i) (subscribed env i fh body b),
      O g.env.clientID g.entry.filter (grantedQoS g.env g.entry))
    (hnext : (b.handle env i fh body).next = some (goesOn, b')) :
    Router.Steers (Subscribes O) b.router b'.router := by
  have htouched {u : BrokerState} (h : BrokerState.Touched env.handshake i b u) :
      u.router = b.router :=
    congrArg BrokerState.Shared.router h.shared
  cases NilSession.effect_handle hnext with
  | steady hsteady => exact steers_of_frame hsteady
  | refused h =>
      rw [htouched h]
      exact .refl _
  | @accepted cid pkt present v _ h haccept =>
      rw [← htouched h]
      rw [BrokerState.accept] at haccept
      split at haccept
      · cases haccept
      · next u htakeover =>
          have hsteady : Router.Steers (Subscribes O) v.router u.router :=
            steers_of_frame (Frame.takeover htakeover)
          cases haccept
          exact hsteady
  | @subscribed pkt _ _ hopen hallow htype hdecode hsess suback =>
      refine steers_handleSubscribe (fun sub hsub => ?_) b.router
      have hsubs : subscribed env i fh body b = entriesOf pkt.2 := by
        rw [subscribed, if_neg (not_or.mpr ⟨hopen, not_or.mpr ⟨hallow, not_not.mpr htype⟩⟩),
          BrokerState.subscribeEntries, hdecode, hsess]
      rw [hsubs] at hO
      exact hO ⟨b.subscribeEnv env i, sub⟩ (List.mem_map.mpr ⟨sub, hsub, rfl⟩)

/-- What a step of a broker does to its router. -/
theorem steers_step {O : GoString → GoString → UInt8 → Prop} {w t : Routed.World} {e : Routed.Event}
    (hrestore : restores e = false)
    (hO : ∀ g ∈ grants w e, O g.env.clientID g.entry.filter (grantedQoS g.env g.entry))
    (hstep : Routed.step w e = some t) :
    Router.Steers (Subscribes O) w.broker.router t.broker.router := by
  cases e with
  | accept remoteAddr cert writeQueueSize =>
      cases hstep
      exact .refl _
  | packet env i fh body =>
      rw [Routed.step] at hstep
      split at hstep
      · cases hstep
      · next hreading =>
          obtain ⟨⟨goesOn, b⟩, hnext, rfl⟩ := Option.map_eq_some_iff.mp hstep
          rw [grants, if_pos (not_not.mp hreading)] at hO
          exact steers_handle hO hnext
  | readError i =>
      rw [Routed.step] at hstep
      split at hstep
      · cases hstep
      · cases hstep
        exact .refl _
  | cleanup now i =>
      rw [Routed.step] at hstep
      split at hstep
      · cases hstep
      · obtain ⟨b, hb, rfl⟩ := Option.map_eq_some_iff.mp hstep
        have hclosed : Router.Steers (Subscribes O) (w.broker.closeClient i).router b.router :=
          steers_of_frame (Frame.cleanup_closed rfl hb)
        exact hclosed
  | drainOfflineQueue now i =>
      obtain ⟨b, hb, rfl⟩ := Option.map_eq_some_iff.mp hstep
      exact steers_of_frame (Routed.frame_drainOfflineQueue hb)
  | restoreSession i subs => cases hrestore
  | deliver now d =>
      obtain ⟨b, hb, rfl⟩ := Option.map_eq_some_iff.mp hstep
      exact steers_of_frame (Frame.runDelivery hb)
  | writeLoop i writeQ =>
      cases hstep
      exact .refl _
  | route now call =>
      obtain ⟨b, hb, rfl⟩ := Option.map_eq_some_iff.mp hstep
      exact steers_of_frame (Frame.routerPublish hb)
  | sessionExpirySweep now =>
      cases hstep
      exact steers_of_frame (Routed.frame_sessionExpirySweep rfl now w.broker)
  | addACLRule rule =>
      cases hstep
      exact .refl _

section Run
variable {w t : World}

theorem Origin.mono {granted granted' : List Grant}
    {requested requested' : List (GoString × GoString × UInt8)} {c f : GoString} {q : UInt8}
    (h : Origin granted requested c f q) (hgranted : granted ⊆ granted')
    (hrequested : requested ⊆ requested') : Origin granted' requested' c f q := by
  cases h with
  | inl hgrant =>
      obtain ⟨g, hg, hwas⟩ := hgrant
      exact .inl ⟨g, hgranted hg, hwas⟩
  | inr hrequest => exact .inr (hrequested hrequest)

theorem grantedOf_ok {env : SubscribeEnv Nat} {subs : List SubscribeEntry} {g : Grant}
    (h : g ∈ grantedOf env subs) : subscribeOutcome g.env g.entry = .ok := by
  obtain ⟨sub, hsub, rfl⟩ := List.mem_map.mp h
  exact of_decide_eq_true (List.mem_filter.mp hsub).2

theorem grants_ok {w : Routed.World} {e : Routed.Event} {g : Grant} (h : g ∈ grants w e) :
    subscribeOutcome g.env g.entry = .ok := by
  cases e with
  | packet env i fh body =>
      rw [grants] at h
      split at h
      · exact grantedOf_ok h
      · cases h
  | _ => cases h

theorem saves_granted {w : Routed.World} {e : Routed.Event} {write : Write UInt8}
    (h : write ∈ saves w e) : ∃ g ∈ grants w e, g.write = write := by
  cases e with
  | packet env i fh body =>
      rw [saves] at h
      split at h
      · split at h
        · cases h
        · exact List.mem_map.mp h
      · cases h
  | _ => cases h

/-- The logs only grow, and the rest of the world follows. -/
theorem Inv.grow (h : Inv w) {granted : List Grant} {requested : List (GoString × GoString × UInt8)}
    (hgranted : w.granted ⊆ granted) (hrequested : w.requested ⊆ requested) :
    Inv { w with granted := granted, requested := requested } where
  kept := h.kept
  router n c f s hs := (h.router n c f s hs).mono hgranted hrequested
  rows c f q hq := (h.rows c f q hq).mono hgranted hrequested
  pending c f q hq := (h.pending c f q hq).mono hgranted hrequested
  restores g hg row hrow := (h.restores g hg row hrow).mono hgranted hrequested
  sends s hs := (h.sends s hs).mono hgranted hrequested

theorem Inv.setBroker (h : Inv w) {n : Nat} {u : Routed.World}
    (hsteers : Router.Steers (Subscribes w.Origin) (w.brokers n).broker.router u.broker.router) :
    Inv { w with brokers := Function.update w.brokers n u } where
  kept m := by
    by_cases hm : m = n
    · subst hm
      dsimp only
      rw [Function.update_self]
      exact (h.kept m).steers hsteers
    · dsimp only
      rw [Function.update_of_ne hm]
      exact h.kept m
  router m c f s hs := by
    by_cases hm : m = n
    · subst hm
      dsimp only at hs
      rw [Function.update_self] at hs
      exact held_of_steers hsteers (h.router m) c f s hs
    · dsimp only at hs
      rw [Function.update_of_ne hm] at hs
      exact h.router m c f s hs
  rows := h.rows
  pending := h.pending
  restores := h.restores
  sends := h.sends

theorem Inv.start (authn : Nat → Authenticator) : Inv (start authn) where
  kept _ := Router.kept_new
  router n c f s hs := by
    have hnone := (Router.held_new c f).symm.trans hs
    cases hnone
  rows := nofun
  pending := nofun
  restores := nofun
  sends := nofun

theorem Inv.addPending (h : Inv w) {writes : List (Write UInt8)}
    (hwrites : ∀ c f q, .saveSub c f q ∈ writes → w.Origin c f q) :
    Inv { w with pending := w.pending ++ writes } where
  kept := h.kept
  router := h.router
  rows := h.rows
  pending c f q hq := (List.mem_append.mp hq).elim (h.pending c f q) (hwrites c f q)
  restores := h.restores
  sends := h.sends

theorem Inv.addSends (h : Inv w) {sends : List Send}
    (hsends : ∀ s ∈ sends, w.Origin s.sub.clientID s.filter s.sub.qos) :
    Inv { w with sends := w.sends ++ sends } where
  kept := h.kept
  router := h.router
  rows := h.rows
  pending := h.pending
  restores := h.restores
  sends s hs := (List.mem_append.mp hs).elim (h.sends s) (hsends s)

theorem inv_broker (h : Inv w) {n : Nat} {e : Routed.Event} {u : Routed.World}
    (hrestore : restores e = false) (hu : Routed.step (w.brokers n) e = some u) :
    Inv { w with
      brokers := Function.update w.brokers n u
      pending := w.pending ++ saves (w.brokers n) e
      sends := w.sends ++ (grants (w.brokers n) e).map (Grant.send n)
      granted := grants (w.brokers n) e ++ w.granted } := by
  have hgrown := h.grow (List.subset_append_right (grants (w.brokers n) e) w.granted)
    (List.Subset.refl w.requested)
  have horigin : ∀ g ∈ grants (w.brokers n) e,
      Origin (grants (w.brokers n) e ++ w.granted) w.requested
        g.env.clientID g.entry.filter (grantedQoS g.env g.entry) :=
    fun g hg => .inl ⟨g, List.mem_append_left _ hg, grants_ok hg, rfl⟩
  have hsaves : ∀ c f q, .saveSub c f q ∈ saves (w.brokers n) e →
      Origin (grants (w.brokers n) e ++ w.granted) w.requested c f q := by
    intro c f q hq
    obtain ⟨g, hg, hwrite⟩ := saves_granted hq
    exact .inl ⟨g, List.mem_append_left _ hg, grants_ok hg, hwrite⟩
  have hbroker := hgrown.setBroker (steers_step hrestore horigin hu)
  refine (hbroker.addPending hsaves).addSends fun s hs => ?_
  obtain ⟨g, hg, rfl⟩ := List.mem_map.mp hs
  exact horigin g hg

/-- A write is one that was started for a reason, or it deletes. -/
theorem row_exec_origin (h : Inv w) {write : Write UInt8}
    (hwrite : deletes write = true ∨ write ∈ w.pending) (c f : GoString) (q : UInt8)
    (hq : (write.exec w.subs).row c f = some q) : w.Origin c f q := by
  cases write with
  | saveSub clientID filter v =>
      rw [Write.exec, Subscriptions.row_saveSub] at hq
      split at hq
      · next hat =>
          cases hq
          rw [hat.1, hat.2]
          exact h.pending clientID filter q (hwrite.resolve_left Bool.false_ne_true)
      · exact h.rows c f q hq
  | deleteSub clientID filter =>
      rw [Write.exec, Subscriptions.row_deleteSub] at hq
      split at hq
      · cases hq
      · exact h.rows c f q hq
  | deleteAllSubs clientID =>
      rw [Write.exec, Subscriptions.row_deleteAllSubs] at hq
      split at hq
      · cases hq
      · exact h.rows c f q hq

theorem inv_restore (h : Inv w) {k : Nat} {g : Restore} {row : GoString × UInt8}
    {rows : List (GoString × UInt8)} (hg : w.restores[k]? = some g) (hrows : g.rows = row :: rows)
    (hsame : w.clientID g.broker g.conn = g.clientID) :
    Inv { w with
      brokers := Function.update w.brokers g.broker (subscribeRow g.conn row (w.brokers g.broker))
      restores := w.restores.set k { g with rows := rows } } := by
  have horigin := h.restores g (List.mem_of_getElem? hg)
  rw [hrows] at horigin
  obtain ⟨hrow, hrest⟩ := List.forall_mem_cons.mp horigin
  have hsteers : Router.Steers (Subscribes w.Origin) (w.brokers g.broker).broker.router
      (subscribeRow g.conn row (w.brokers g.broker)).broker.router := by
    refine steers_restoreSession fun row' hrow' => ?_
    rw [List.mem_singleton.mp hrow']
    rw [← hsame] at hrow
    exact hrow
  have hset := h.setBroker hsteers
  refine ⟨hset.kept, hset.router, h.rows, h.pending, fun g' hg' => ?_, h.sends⟩
  cases List.mem_or_eq_of_mem_set hg' with
  | inl hold => exact h.restores g' hold
  | inr hnew =>
      rw [hnew]
      exact hrest

theorem inv_step {e : Event} (h : Inv w) (hsame : SameID w e)
    (hstep : step w e = some t) : Inv t := by
  cases e with
  | broker n e =>
      rw [step] at hstep
      split at hstep
      · cases hstep
      · next hrestore =>
          obtain ⟨u, hu, rfl⟩ := Option.map_eq_some_iff.mp hstep
          exact inv_broker h (Bool.eq_false_iff.mpr hrestore) hu
  | load n i =>
      cases hstep
      refine ⟨h.kept, h.router, h.rows, h.pending, fun g hg row hrow => ?_, h.sends⟩
      cases List.mem_append.mp hg with
      | inl hold => exact h.restores g hold row hrow
      | inr hnew =>
          cases List.mem_singleton.mp hnew
          exact h.rows _ row.1 row.2 ((Subscriptions.mem_getSubs ..).mp hrow)
  | restore k =>
      obtain ⟨g, hg, hrest⟩ := Option.bind_eq_some_iff.mp hstep
      cases hrows : g.rows with
      | nil =>
          rw [hrows] at hrest
          cases hrest
      | cons row rows =>
          rw [hrows] at hrest
          cases hrest
          exact inv_restore h hg hrows (hsame g hg)
  | write k =>
      obtain ⟨write, hwrite, rfl⟩ := Option.map_eq_some_iff.mp hstep
      refine ⟨h.kept, h.router, row_exec_origin h (.inr (List.mem_of_getElem? hwrite)), ?_,
        h.restores, h.sends⟩
      exact fun c f q hq => h.pending c f q (List.mem_of_mem_eraseIdx hq)
  | delete write =>
      rw [step] at hstep
      split at hstep
      · next hdeletes =>
          cases hstep
          exact ⟨h.kept, h.router, row_exec_origin h (.inl hdeletes), h.pending,
            h.restores, h.sends⟩
      · cases hstep
  | request clientID filter qos =>
      rw [step] at hstep
      split at hstep
      · cases hstep
        exact h
      · cases hstep
        have hgrown := h.grow (List.Subset.refl w.granted)
          (List.subset_cons_self (clientID, filter, qos) w.requested)
        refine hgrown.addPending fun c f q hq => .inr ?_
        cases List.mem_singleton.mp hq
        exact List.mem_cons_self

end Run

/-- What a grant was checked for. -/
theorem checks_of_granted {env : SubscribeEnv Nat} {sub : SubscribeEntry}
    (h : subscribeOutcome env sub = .ok) :
    Protocol.validTopicFilter sub.filter = true ∧
      canSubscribe env.aclRules env.clientID (aclFilter sub.filter) = true ∧
      env.onSubscribe env.clientID sub.filter (grantedQoS env sub) = true := by
  refine ⟨?_, canSubscribe_of_granted h, ?_⟩
  · by_contra hinvalid
    rw [subscribeOutcome, if_pos (by simpa using hinvalid)] at h
    cases h
  · by_contra hplugin
    rw [subscribeOutcome] at h
    split at h
    · cases h
    · split at h
      · cases h
      · rw [if_pos (by simpa using hplugin)] at h
        cases h

/-- A message of this topic and QoS is delivered: by Publish, or by a visit of SendRetained to
the retained message of the topic. -/
inductive Delivers (w : World) (topic : GoString) (qos : UInt8)
    (d : Router.Delivery Nat) : Prop where
  | publish (n : Nat) (payload : List UInt8) (retain : Bool) (now : Nat)
      (h : d ∈ ((w.brokers n).broker.router.publish topic payload qos retain now).deliveries)
  | sendRetained (s : Send) (hs : s ∈ w.sends) (msg : Router.Retained)
      (hmsg : (w.brokers s.broker).broker.router.retained.get topic = some msg)
      (hqos : msg.qos = qos)
      (h : d ∈ Router.sendVisited s.filter s.sub topic msg)

/-- Behind every delivery is a filter that the topic matches and that has an origin. -/
theorem Inv.delivers {w : World} {topic : GoString} {qos : UInt8}
    {d : Router.Delivery Nat} (h : Inv w) (hd : Delivers w topic qos d) :
    ∃ f q, Router.topicMatchesFilter topic (Router.matchFilter f) = true ∧ d.topic = topic ∧
      d.qos = min qos q ∧ w.Origin d.clientID f q := by
  cases hd with
  | publish n payload retain now hd =>
      obtain ⟨f, s, hs, hmatch, -, htopic, hqos⟩ := (h.kept n).behind hd
      exact ⟨f, s.qos, hmatch, htopic, hqos, h.router n d.clientID f s hs⟩
  | sendRetained s hs msg _ hqos hd =>
      obtain ⟨hmatch, hcid, htopic, hmin⟩ := Router.sendVisited_spec hd
      rw [← hqos, hcid]
      exact ⟨s.filter, s.sub.qos, hmatch, htopic, hmin, h.sends s hs⟩

def sampleAuthn (_ : Nat) : Authenticator := Authenticator.new (str "k") (str "luma") 3 4

/-- A packet of the first connection of a broker. -/
def sends (n : Nat) (type : Protocol.PacketType) (flags : UInt8) (body : List UInt8) : Event :=
  .broker n (.packet Routed.sampleEnv 0 ⟨type, flags, body.length⟩ body)

def connectsAs (n : Nat) (last : UInt8) : Event :=
  sends n .connect 0 [0, 4, 77, 81, 84, 84, 4, 0, 0, 60, 0, 2, 99, last]

/-- Client c1 subscribes at one broker. -/
def subscribesAtFirst : List Event :=
  [.broker 0 (.accept (str "r") none 16), connectsAs 0 49,
    sends 0 .subscribe 2 [0, 1, 0, 1, 97, 1], .write 0]

/-- It goes on at another, where its subscription is restored. A message is retained at the
first before SendRetained has come to its topic. -/
def movesToSecond : List Event :=
  subscribesAtFirst ++ [.broker 1 (.accept (str "r") none 16), connectsAs 1 49,
    .load 1 0, .restore 0, .broker 0 (.route 0 ⟨str "a", [7], 2, true⟩)]

/-- Between reading the rows and subscribing, the connection sends another CONNECT: the other
client has got the subscription, and nobody has granted it anything. -/
theorem restored_for_another : ∃ w, run step (subscribesAtFirst ++
      [.broker 1 (.accept (str "r") none 16), connectsAs 1 49, .load 1 0, connectsAs 1 50,
        .restore 0])
        (start sampleAuthn) = some w ∧
    (Router.held (w.brokers 1).broker.router (str "c2") (str "a")).isSome = true ∧
    w.granted.all (fun g => g.env.clientID = str "c1") = true ∧ w.requested = [] :=
  reaches_of_any step _ (start sampleAuthn) (fun w =>
    (Router.held (w.brokers 1).broker.router (str "c2") (str "a")).isSome = true ∧
    w.granted.all (fun g => g.env.clientID = str "c1") = true ∧ w.requested = [])
      (by decide +kernel)

end LumaBroker.Broker.Entitled
