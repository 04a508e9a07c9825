import LumaBroker.Broker.Connect
import LumaBroker.Broker.Publish
import LumaBroker.Broker.Subscribe
import LumaBroker.Lib.Transition
import LumaBroker.Router.Held

/-!
Two connections under one client ID. takeover only closes the socket of the old one,
whose cleanup then runs beside the new one's handleConnect and acts by client ID. The
steps of both are the critical sections of internal/broker/client.go; a run is any
interleaving of them.
-/

namespace LumaBroker.Broker.Takeover

open Session Transition

variable {δ : Type}

/-- An entry of the broker's clients map: which connection it is, and its session. -/
structure Client where
  id : Nat
  sess : Ptr
  deriving DecidableEq

/-- The steps of handleConnect after authentication; connected when it has returned. -/
inductive ConnectPc where
  | takeover
  | getOrCreate
  | clearDisconnectExpiry
  | setProtocolAndExpiry
  | setWill
  | setKeepAlive
  | setConnected
  | register
  | connected
  deriving DecidableEq

def ConnectPc.rank : ConnectPc → Nat
  | .takeover => 0
  | .getOrCreate => 1
  | .clearDisconnectExpiry => 2
  | .setProtocolAndExpiry => 3
  | .setWill => 4
  | .setKeepAlive => 5
  | .setConnected => 6
  | .register => 7
  | .connected => 8

theorem ConnectPc.rank_injective {a b : ConnectPc} (h : a.rank = b.rank) : a = b := by
  cases a <;> cases b <;> first | rfl | cases h

/-- The steps of cleanup; the middle ones are those of a clean session and of
PurgePersistentSession alike. -/
inductive CleanupPc where
  | unregister
  | setConnected
  | endSession
  | unsubscribeAll
  | deleteSession
  | publishWill
  | finished
  deriving DecidableEq

/-- The two connections: the session of the old one, if it got that far, and the
CONNECT and subscription environment of the new one. -/
structure Params (δ : Type) where
  oldSess : Option Ptr
  newID : Nat
  pkt : ConnectPacket
  env : SubscribeEnv δ

def Params.cid (P : Params δ) : GoString := P.env.clientID

structure State (δ : Type) where
  clients : FinMap GoString Client
  sessions : Store
  router : Router δ
  cleanup : CleanupPc
  connect : ConnectPc
  sess : Option Ptr
  granted : List (GoString × Router.Subscriber δ)

inductive Action where
  | cleanup (now : Nat)
  | connect (now : Nat)
  | subscribe (sub : SubscribeEntry)

def publishWill (sess : Session) (now : Nat) (r : Router δ) : Router δ :=
  (willCalls sess).foldl
    (fun r call => (r.publish call.topic call.payload call.qos call.retain now).router) r

def cleanupStep (P : Params δ) (now : Nat) (s : State δ) : Option (State δ) :=
  match s.cleanup, P.oldSess with
  | .unregister, none =>
      some { s with clients := s.clients.erase P.cid, cleanup := .finished }
  | .unregister, some _ =>
      some { s with clients := s.clients.erase P.cid, cleanup := .setConnected }
  | .setConnected, some p =>
      some { s with
        sessions := s.sessions.modify p (Session.setConnected false now), cleanup := .endSession }
  | .endSession, some p =>
      if (s.sessions.heap p).cleanSession then some { s with cleanup := .unsubscribeAll }
      else
        let purge := ((s.sessions.heap p).prepareDisconnectExpiry now).2
        some { s with
          sessions := s.sessions.modify p fun sess => (sess.prepareDisconnectExpiry now).1
          cleanup := if purge then .unsubscribeAll else .publishWill }
  | .unsubscribeAll, some _ =>
      some { s with router := s.router.unsubscribeAll P.cid, cleanup := .deleteSession }
  | .deleteSession, some _ =>
      some { s with sessions := s.sessions.delete P.cid, cleanup := .publishWill }
  | .publishWill, some p =>
      some { s with
        router := publishWill (s.sessions.heap p) now s.router, cleanup := .finished }
  | _, _ => none

/-- A step that calls a method of the new connection's session. -/
def onSession (s : State δ) (next : ConnectPc) (f : Session → Session) : Option (State δ) :=
  s.sess.map fun p => { s with sessions := s.sessions.modify p f, connect := next }

def connectStep (P : Params δ) (now : Nat) (s : State δ) : Option (State δ) :=
  match s.connect with
  | .takeover =>
      -- the old socket is closed here, which lets the old cleanup start at the latest
      let sessions := match s.clients.get P.cid with
        | some existing => s.sessions.modify existing.sess Session.clearWill
        | none => s.sessions
      some { s with sessions := sessions, connect := .getOrCreate }
  | .getOrCreate =>
      let result := s.sessions.getOrCreate P.cid P.pkt.cleanSession now
      some { s with
        sessions := result.1, sess := some result.2.1, connect := .clearDisconnectExpiry }
  | .clearDisconnectExpiry => onSession s .setProtocolAndExpiry Session.clearDisconnectExpiry
  | .setProtocolAndExpiry =>
      onSession s .setWill
        (Session.setProtocolAndExpiry P.pkt.version P.pkt.cleanSession P.pkt.expirySec)
  | .setWill => onSession s .setKeepAlive P.pkt.setWill
  | .setKeepAlive => onSession s .setConnected P.pkt.setKeepAlive
  | .setConnected => onSession s .register (Session.setConnected true now)
  | .register =>
      s.sess.map fun p =>
        { s with clients := s.clients.set P.cid ⟨P.newID, p⟩, connect := .connected }
  | .connected => none

def newSubscriber (P : Params δ) (sub : SubscribeEntry) : Router.Subscriber δ :=
  { clientID := P.cid, qos := grantedQoS P.env sub, deliver := some P.env.deliver }

/-- One entry of a SUBSCRIBE of the new connection, recorded when it is granted. -/
def subscribeStep (P : Params δ) (sub : SubscribeEntry) (s : State δ) : Option (State δ) :=
  if s.connect ≠ .connected then none
  else if subscribeOutcome P.env sub ≠ .ok then some s
  else
    some { s with
      router := s.router.subscribe sub.filter (newSubscriber P sub)
      granted := (sub.filter, newSubscriber P sub) :: s.granted }

def step (P : Params δ) (s : State δ) : Action → Option (State δ)
  | .cleanup now => cleanupStep P now s
  | .connect now => connectStep P now s
  | .subscribe sub => subscribeStep P sub s

/-- Before either connection has taken a step. The rest of the broker is arbitrary. -/
structure Start (P : Params δ) (s : State δ) : Prop where
  cleanup : s.cleanup = .unregister
  connect : s.connect = .takeover
  sess : s.sess = none
  granted : s.granted = []
  allocated : ∀ p, P.oldSess = some p → p < s.sessions.next

/-- The new connection is the registered one, its session is stored, connected and
without a deadline, and the router holds what it was granted. -/
structure Kept (P : Params δ) (s : State δ) (p : Ptr) : Prop where
  sess : s.sess = some p
  registered : s.clients.get P.cid = some ⟨P.newID, p⟩
  stored : s.sessions.data.get P.cid = some p
  connected : (s.sessions.heap p).connected = true
  noDeadline : (s.sessions.heap p).disconnectExpireAt = none
  subscribed : ∀ f sub, s.granted.lookup f = some sub → s.router.held P.cid f = some sub

/-- The new connection has taken this step. -/
def ConnectPc.Passed (op pc : ConnectPc) : Prop := op.rank < pc.rank

instance (op pc : ConnectPc) : Decidable (op.Passed pc) := inferInstanceAs (Decidable (_ < _))

/-- A disconnect of this session leaves it with a deadline. -/
def Schedules (sess : Session) : Prop :=
  sess.cleanSession = false ∧ sess.protocolLevel = mqttProtoV50 ∧
    sess.sessionExpirySec ≠ 0 ∧ sess.sessionExpirySec ≠ 0xFFFFFFFF

instance (sess : Session) : Decidable (Schedules sess) := inferInstanceAs (Decidable (_ ∧ _))

/-- A step of the old cleanup comes before the new connection has written what the
step overwrites or removes. -/
def CleanupFirst (P : Params δ) (s : State δ) : Action → Prop
  | .cleanup _ =>
      (s.cleanup = .unregister → ¬ ConnectPc.register.Passed s.connect) ∧
      (s.cleanup = .setConnected → ConnectPc.setConnected.Passed s.connect →
        s.sess ≠ P.oldSess) ∧
      (s.cleanup = .endSession → ConnectPc.clearDisconnectExpiry.Passed s.connect →
        s.sess = P.oldSess → ∀ p ∈ P.oldSess, ¬ Schedules (s.sessions.heap p)) ∧
      (s.cleanup = .unsubscribeAll → s.granted.isEmpty) ∧
      (s.cleanup = .deleteSession → ¬ ConnectPc.getOrCreate.Passed s.connect)
  | _ => True

instance (P : Params δ) (s : State δ) (a : Action) : Decidable (CleanupFirst P s a) :=
  match a with
  | .cleanup _ => inferInstanceAs (Decidable (_ ∧ _))
  | .connect _ => isTrue trivial
  | .subscribe _ => isTrue trivial

/-- What the new connection has established so far. -/
structure Inv (P : Params δ) (s : State δ) : Prop where
  allocated : ∀ p, P.oldSess = some p → p < s.sessions.next
  stored : ConnectPc.getOrCreate.Passed s.connect →
    ∃ p, s.sess = some p ∧ s.sessions.data.get P.cid = some p
  noDeadline : ConnectPc.clearDisconnectExpiry.Passed s.connect →
    ∀ p, s.sess = some p → (s.sessions.heap p).disconnectExpireAt = none
  connected : ConnectPc.setConnected.Passed s.connect →
    ∀ p, s.sess = some p → (s.sessions.heap p).connected = true
  registered : ConnectPc.register.Passed s.connect →
    ∀ p, s.sess = some p → s.clients.get P.cid = some ⟨P.newID, p⟩
  subscribed : ∀ f sub, s.granted.lookup f = some sub → s.router.held P.cid f = some sub

/-- Until it has its session the new connection has established nothing. -/
theorem inv_early {P : Params δ} {s : State δ} (hpc : s.connect.rank ≤ 1)
    (halloc : ∀ p, P.oldSess = some p → p < s.sessions.next)
    (hsub : ∀ f sub, s.granted.lookup f = some sub → s.router.held P.cid f = some sub) :
    Inv P s := by
  have hnot (op : ConnectPc) (hop : 1 ≤ op.rank) : ¬ op.Passed s.connect := by
    simp only [ConnectPc.Passed]
    omega
  exact ⟨halloc, fun hp => absurd hp (hnot _ (by decide)), fun hp => absurd hp (hnot _ (by decide)),
    fun hp => absurd hp (hnot _ (by decide)), fun hp => absurd hp (hnot _ (by decide)), hsub⟩

theorem inv_start {P : Params δ} {s : State δ} (h : Start P s) : Inv P s := by
  refine inv_early ?_ h.allocated ?_
  · rw [h.connect]
    decide
  · intro f sub hf
    simp [h.granted] at hf

theorem Inv.kept {P : Params δ} {s : State δ} (h : Inv P s) (hdone : s.connect = .connected) :
    ∃ p, Kept P s p := by
  have hpassed (op : ConnectPc) (hop : op.rank < 8) : op.Passed s.connect := by
    rw [hdone]
    exact hop
  obtain ⟨p, hsess, hstored⟩ := h.stored (hpassed _ (by decide))
  exact ⟨p, hsess, h.registered (hpassed _ (by decide)) p hsess, hstored,
    h.connected (hpassed _ (by decide)) p hsess, h.noDeadline (hpassed _ (by decide)) p hsess,
    h.subscribed⟩

theorem Inv.modify {P : Params δ} {s : State δ} (h : Inv P s) (p : Ptr) (f : Session → Session)
    (hdeadline : ConnectPc.clearDisconnectExpiry.Passed s.connect → s.sess = some p →
      (s.sessions.heap p).disconnectExpireAt = none →
        (f (s.sessions.heap p)).disconnectExpireAt = none)
    (hconnected : ConnectPc.setConnected.Passed s.connect → s.sess = some p →
      (s.sessions.heap p).connected = true → (f (s.sessions.heap p)).connected = true) :
    Inv P { s with sessions := s.sessions.modify p f } where
  allocated := h.allocated
  stored := h.stored
  noDeadline hp q hq := by
    have hold := h.noDeadline hp q hq
    simp only [Store.heap_modify]
    split_ifs with hqp
    · subst hqp
      exact hdeadline hp hq hold
    · exact hold
  connected hp q hq := by
    have hold := h.connected hp q hq
    simp only [Store.heap_modify]
    split_ifs with hqp
    · subst hqp
      exact hconnected hp hq hold
    · exact hold
  registered := h.registered
  subscribed := h.subscribed

/-- The cleanup's own program counter is no concern of the new connection. -/
theorem Inv.goto {P : Params δ} {s : State δ} (h : Inv P s) (pc : CleanupPc) :
    Inv P { s with cleanup := pc } :=
  ⟨h.allocated, h.stored, h.noDeadline, h.connected, h.registered, h.subscribed⟩

theorem Inv.unregister {P : Params δ} {s : State δ} (h : Inv P s)
    (hok : ¬ ConnectPc.register.Passed s.connect) (clients : FinMap GoString Client) :
    Inv P { s with clients := clients } :=
  ⟨h.allocated, h.stored, h.noDeadline, h.connected, fun hp => absurd hp hok, h.subscribed⟩

theorem Inv.deleteSession {P : Params δ} {s : State δ} (h : Inv P s)
    (hok : ¬ ConnectPc.getOrCreate.Passed s.connect) :
    Inv P { s with sessions := s.sessions.delete P.cid } :=
  ⟨h.allocated, fun hp => absurd hp hok, h.noDeadline, h.connected, h.registered, h.subscribed⟩

theorem Inv.router {P : Params δ} {s : State δ} (h : Inv P s) (r : Router δ)
    (hr : ∀ f sub, s.granted.lookup f = some sub → r.held P.cid f = some sub) :
    Inv P { s with router := r } :=
  ⟨h.allocated, h.stored, h.noDeadline, h.connected, h.registered, hr⟩

theorem disconnectExpireAt_prepare {sess : Session} (now : Nat) (h : ¬ Schedules sess)
    (hnone : sess.disconnectExpireAt = none) :
    (sess.prepareDisconnectExpiry now).1.disconnectExpireAt = none := by
  simp only [prepareDisconnectExpiry]
  split_ifs with hlevel hzero hmax
  · exact hnone
  · rfl
  · rfl
  · refine absurd ⟨?_, ?_, hzero, hmax⟩ h
    · simpa using fun hc => hlevel (.inl hc)
    · exact Classical.not_not.mp fun hv => hlevel (.inr hv)

theorem connected_prepare (sess : Session) (now : Nat) :
    (sess.prepareDisconnectExpiry now).1.connected = sess.connected := by
  rw [prepareDisconnectExpiry_fst]

theorem held_publishWill (sess : Session) (now : Nat) (r : Router δ) (c f : GoString) :
    (publishWill sess now r).held c f = r.held c f := by
  rw [publishWill, willCalls]
  split_ifs
  · exact Router.held_publish _ _ _ _ _ _ _ _
  · rfl

theorem inv_cleanup {P : Params δ} {s t : State δ} {now : Nat} (h : Inv P s)
    (hok : CleanupFirst P s (.cleanup now)) (ht : cleanupStep P now s = some t) : Inv P t := by
  obtain ⟨hunregister, hset, hend, hunsubscribe, hdelete⟩ := hok
  cases hpc : s.cleanup <;> cases hold : P.oldSess <;>
    simp only [cleanupStep, hpc, hold, reduceCtorEq, Option.some.injEq] at ht
  case unregister.none =>
      subst ht
      exact (h.unregister (hunregister hpc) _).goto _
  case unregister.some p =>
      subst ht
      exact (h.unregister (hunregister hpc) _).goto _
  case setConnected.some p =>
      subst ht
      refine (h.modify p _ ?_ ?_).goto _
      · intro _ _ hnone
        exact hnone
      · intro hp hsess _
        exact absurd (hsess.trans hold.symm) (hset hpc hp)
  case endSession.some p =>
      cases hclean : (s.sessions.heap p).cleanSession with
      | true =>
          simp only [hclean, if_true, Option.some.injEq] at ht
          subst ht
          exact h.goto _
      | false =>
          simp only [hclean, Bool.false_eq_true, if_false, Option.some.injEq] at ht
          subst ht
          refine (h.modify p (fun sess => (sess.prepareDisconnectExpiry now).1) ?_ ?_).goto _
          · intro hp hsess hnone
            exact disconnectExpireAt_prepare now (hend hpc hp (hsess.trans hold.symm) p hold) hnone
          · intro _ _ hconn
            rw [connected_prepare]
            exact hconn
  case unsubscribeAll.some p =>
      subst ht
      refine (h.router (s.router.unsubscribeAll P.cid) ?_).goto _
      intro f sub hf
      simp [List.isEmpty_iff.mp (hunsubscribe hpc)] at hf
  case deleteSession.some p =>
      subst ht
      exact (h.deleteSession (hdelete hpc)).goto _
  case publishWill.some p =>
      subst ht
      refine (h.router (publishWill (s.sessions.heap p) now s.router) ?_).goto _
      intro f sub hf
      rw [held_publishWill]
      exact h.subscribed f sub hf

/-- A step of handleConnect on the new session: it may establish something more, and
keeps what the steps before it established. -/
theorem Inv.onSession {P : Params δ} {s t : State δ} (h : Inv P s) {pc next : ConnectPc}
    {f : Session → Session} (hpc : s.connect = pc) (ht : Takeover.onSession s next f = some t)
    (hnext : next.rank = pc.rank + 1) (hpast : 1 < pc.rank) (hfuture : pc.rank < 7)
    (hdeadline : ∀ sess, (pc = .clearDisconnectExpiry ∨ sess.disconnectExpireAt = none) →
      (f sess).disconnectExpireAt = none)
    (hconnected : ∀ sess, (pc = .setConnected ∨ sess.connected = true) →
      (f sess).connected = true) : Inv P t := by
  subst hpc
  simp only [Takeover.onSession, Option.map_eq_some_iff] at ht
  obtain ⟨p, hsess, rfl⟩ := ht
  have hpassed (op : ConnectPc) (hp : op.Passed next) : s.connect = op ∨ op.Passed s.connect := by
    have hle : op.rank ≤ s.connect.rank := by
      change op.rank < next.rank at hp
      omega
    cases Nat.eq_or_lt_of_le hle with
    | inl heq => exact .inl (ConnectPc.rank_injective heq.symm)
    | inr hlt => exact .inr hlt
  have hheap (q : Ptr) (hq : s.sess = some q) :
      (s.sessions.modify p f).heap q = f (s.sessions.heap q) := by
    rw [hsess] at hq
    cases hq
    simp [Store.heap_modify]
  constructor
  · exact h.allocated
  · intro _
    exact h.stored hpast
  · intro hp q hq
    change ((s.sessions.modify p f).heap q).disconnectExpireAt = none
    rw [hheap q hq]
    exact hdeadline _ ((hpassed _ hp).imp_right fun hp => h.noDeadline hp q hq)
  · intro hp q hq
    change ((s.sessions.modify p f).heap q).connected = true
    rw [hheap q hq]
    exact hconnected _ ((hpassed _ hp).imp_right fun hp => h.connected hp q hq)
  · intro hp q hq
    change 7 < next.rank at hp
    omega
  · exact h.subscribed

theorem Inv.getOrCreate {P : Params δ} {s : State δ} (h : Inv P s) (now : Nat) :
    Inv P { s with
      sessions := (s.sessions.getOrCreate P.cid P.pkt.cleanSession now).1
      sess := some (s.sessions.getOrCreate P.cid P.pkt.cleanSession now).2.1
      connect := .clearDisconnectExpiry } := by
  constructor
  · intro p hp
    exact Nat.lt_of_lt_of_le (h.allocated p hp) (Store.next_getOrCreate _ _ _ _)
  · intro _
    exact ⟨_, rfl, Store.get_getOrCreate _ _ _ _⟩
  · intro hp
    change 2 < 2 at hp
    omega
  · intro hp
    change 6 < 2 at hp
    omega
  · intro hp
    change 7 < 2 at hp
    omega
  · exact h.subscribed

theorem Inv.register {P : Params δ} {s : State δ} (h : Inv P s) (hpc : s.connect = .register)
    {p : Ptr} (hsess : s.sess = some p) :
    Inv P { s with clients := s.clients.set P.cid ⟨P.newID, p⟩, connect := .connected } := by
  have hpassed (op : ConnectPc) (hop : op.rank < 7) : op.Passed s.connect := by
    rw [hpc]
    exact hop
  constructor
  · exact h.allocated
  · intro _
    exact h.stored (hpassed _ (by decide))
  · intro _
    exact h.noDeadline (hpassed _ (by decide))
  · intro _
    exact h.connected (hpassed _ (by decide))
  · intro _ q hq
    change s.sess = some q at hq
    rw [hsess] at hq
    cases hq
    exact FinMap.get_set_self _ _ _
  · exact h.subscribed

theorem inv_connect {P : Params δ} {s t : State δ} {now : Nat} (h : Inv P s)
    (ht : connectStep P now s = some t) : Inv P t := by
  cases hpc : s.connect <;> simp only [connectStep, hpc, reduceCtorEq] at ht
  case takeover =>
      cases ht
      refine inv_early (Nat.le_refl 1) ?_ h.subscribed
      intro p hp
      have hlt := h.allocated p hp
      cases s.clients.get P.cid with
      | none => exact hlt
      | some existing => exact hlt
  case getOrCreate =>
      cases ht
      exact h.getOrCreate now
  case clearDisconnectExpiry =>
      refine h.onSession hpc ht rfl (by decide) (by decide) ?_ ?_
      · intro sess _
        rfl
      · intro sess hs
        exact hs.resolve_left (by decide)
  case setProtocolAndExpiry =>
      refine h.onSession hpc ht rfl (by decide) (by decide) ?_ ?_
      · intro sess hs
        have hnone := hs.resolve_left (by decide)
        simp only [Session.setProtocolAndExpiry]
        split_ifs <;> first | exact hnone | rfl
      · intro sess hs
        have hconn := hs.resolve_left (by decide)
        rw [Session.setProtocolAndExpiry_eq]
        exact hconn
  case setWill =>
      refine h.onSession hpc ht rfl (by decide) (by decide) ?_ ?_
      · intro sess hs
        have hnone := hs.resolve_left (by decide)
        simp only [ConnectPacket.setWill]
        split <;> exact hnone
      · intro sess hs
        have hconn := hs.resolve_left (by decide)
        simp only [ConnectPacket.setWill]
        split <;> exact hconn
  case setKeepAlive =>
      refine h.onSession hpc ht rfl (by decide) (by decide) ?_ ?_
      · intro sess hs
        have hnone := hs.resolve_left (by decide)
        simp only [ConnectPacket.setKeepAlive]
        split_ifs <;> exact hnone
      · intro sess hs
        have hconn := hs.resolve_left (by decide)
        simp only [ConnectPacket.setKeepAlive]
        split_ifs <;> exact hconn
  case setConnected =>
      refine h.onSession hpc ht rfl (by decide) (by decide) ?_ ?_
      · intro sess hs
        exact hs.resolve_left (by decide)
      · intro sess _
        rfl
  case register =>
      obtain ⟨p, hsess, rfl⟩ := Option.map_eq_some_iff.mp ht
      exact h.register hpc hsess

theorem inv_subscribe {P : Params δ} {s t : State δ} {sub : SubscribeEntry} (h : Inv P s)
    (ht : subscribeStep P sub s = some t) : Inv P t := by
  simp only [subscribeStep] at ht
  split_ifs at ht with hpc hout
  · cases ht
    exact h
  · cases ht
    refine ⟨h.allocated, h.stored, h.noDeadline, h.connected, h.registered, ?_⟩
    intro f sub' hf
    rw [Router.held_subscribe]
    by_cases hfe : f = sub.filter
    · subst hfe
      simpa [newSubscriber] using hf
    · have hrest : s.granted.lookup f = some sub' := by
        simpa [List.lookup_cons, beq_eq_false_iff_ne.mpr hfe] using hf
      simpa [hfe] using h.subscribed f sub' hrest

theorem inv_step {P : Params δ} {s t : State δ} {a : Action} (h : Inv P s)
    (hok : CleanupFirst P s a) (ht : step P s a = some t) : Inv P t := by
  cases a with
  | cleanup now => exact inv_cleanup h hok ht
  | connect now => exact inv_connect h ht
  | subscribe sub => exact inv_subscribe h ht

/-- If every step of the old cleanup comes before the new connection's write to the same
entry, the new connection is kept whole from the moment its handshake is over. -/
theorem new_connection_kept (P : Params δ) (s t : State δ) (actions : List Action)
    (hstart : Start P s) (hok : Meets (step P) (CleanupFirst P) actions s)
    (hrun : run (step P) actions s = some t) (hdone : t.connect = .connected) :
    ∃ p, Kept P t p := by
  have hinv := invariant_run (fun _ _ _ h hok ht => inv_step h hok ht) (inv_start hstart) hok hrun
  exact hinv.kept hdone

/-- A client that reconnects with a CONNECT like its first one. -/
def reconnect (clean : Bool) : Params Unit where
  oldSess := some 0
  newID := 2
  pkt := ⟨Protocol.v50, clean, 30, 60, 0, 0, 0, none⟩
  env := ⟨str "c1", Protocol.v50, 2, [], fun _ _ _ => true, ()⟩

/-- The broker while the first connection is up. -/
def connectedOnce (clean : Bool) : State Unit where
  clients := FinMap.empty.set (str "c1") ⟨1, 0⟩
  sessions := (((Store.newStore.create (str "c1") clean 0).modify 0
    (Session.setProtocolAndExpiry Protocol.v50 clean 60)).modify 0 (Session.setConnected true 0))
  router := Router.new
  cleanup := .unregister
  connect := .takeover
  sess := none
  granted := []

def handshake : List Action := List.replicate 8 (.connect 1)

theorem start_connectedOnce (clean : Bool) : Start (reconnect clean) (connectedOnce clean) where
  cleanup := rfl
  connect := rfl
  sess := rfl
  granted := rfl
  allocated p hp := by
    cases hp
    exact Nat.zero_lt_one

/-- The old cleanup and the handshake take turns, the old one always a little ahead. -/
def alternating : List Action :=
  [.connect 1, .cleanup 1, .connect 1, .cleanup 1, .cleanup 1, .connect 1, .connect 1, .connect 1,
    .cleanup 1, .connect 1, .connect 1, .connect 1, .subscribe ⟨str "a/b", 1⟩]

theorem new_connection_kept_alternating :
    ∃ t, run (step (reconnect false)) alternating (connectedOnce false) = some t ∧
      t.cleanup = .finished ∧ t.granted.length = 1 ∧ ∃ p, Kept (reconnect false) t p := by
  obtain ⟨t, hrun, hfinished, hconnected, hgranted⟩ :=
    reaches_of_any (step (reconnect false)) alternating (connectedOnce false)
      (fun t => t.cleanup = .finished ∧ t.connect = .connected ∧ t.granted.length = 1)
      (by decide +kernel)
  exact ⟨t, hrun, hfinished, hgranted, new_connection_kept _ _ t alternating
    (start_connectedOnce false) (by decide +kernel) hrun hconnected⟩

theorem not_kept_of_unregistered {P : Params δ} {s : State δ} (h : s.clients.get P.cid = none) :
    ¬ ∃ p, Kept P s p := by
  intro ⟨p, hkept⟩
  rw [hkept.registered] at h
  cases h

def lateCleanup (n : Nat) : List Action :=
  handshake ++ [.subscribe ⟨str "a/b", 1⟩] ++ List.replicate n (.cleanup 2)

/-- The old cleanup runs after the handshake and a granted SUBSCRIBE. With a persistent
session the new connection is unregistered and its session marked disconnected with a
deadline; with a clean one its session and its subscription are gone as well. -/
theorem late_cleanup_breaks_takeover :
    (∃ t, run (step (reconnect false)) (lateCleanup 4) (connectedOnce false) = some t ∧
      (t.cleanup = .finished ∧ t.connect = .connected ∧ t.sess = some 0 ∧
        t.clients.get (str "c1") = none ∧ (t.sessions.heap 0).connected = false ∧
        (t.sessions.heap 0).disconnectExpireAt = some 60000000002) ∧
      ¬ ∃ p, Kept (reconnect false) t p) ∧
    ∃ t, run (step (reconnect true)) (lateCleanup 6) (connectedOnce true) = some t ∧
      (t.cleanup = .finished ∧ t.connect = .connected ∧ t.sess = some 1 ∧
        t.clients.get (str "c1") = none ∧ t.sessions.data.get (str "c1") = none ∧
        t.granted.length = 1 ∧ (t.router.held (str "c1") (str "a/b")).isNone) ∧
      ¬ ∃ p, Kept (reconnect true) t p := by
  constructor
  · obtain ⟨t, hrun, hvals⟩ := reaches_of_any (step (reconnect false)) (lateCleanup 4)
      (connectedOnce false)
      (fun t => t.cleanup = .finished ∧ t.connect = .connected ∧ t.sess = some 0 ∧
        t.clients.get (str "c1") = none ∧ (t.sessions.heap 0).connected = false ∧
        (t.sessions.heap 0).disconnectExpireAt = some 60000000002) (by decide +kernel)
    exact ⟨t, hrun, hvals, not_kept_of_unregistered hvals.2.2.2.1⟩
  · obtain ⟨t, hrun, hvals⟩ := reaches_of_any (step (reconnect true)) (lateCleanup 6)
      (connectedOnce true)
      (fun t => t.cleanup = .finished ∧ t.connect = .connected ∧ t.sess = some 1 ∧
        t.clients.get (str "c1") = none ∧ t.sessions.data.get (str "c1") = none ∧
        t.granted.length = 1 ∧ (t.router.held (str "c1") (str "a/b")).isNone)
      (by decide +kernel)
    exact ⟨t, hrun, hvals, not_kept_of_unregistered hvals.2.2.2.1⟩

end LumaBroker.Broker.Takeover
