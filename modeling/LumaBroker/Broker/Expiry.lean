import LumaBroker.Broker.Connect
import LumaBroker.Lib.Transition

/-!
How long the broker keeps the session of a client that is away: the session parts of
handleConnect, handleDisconnect and cleanup of internal/broker/client.go and the expiry
sweep of internal/broker/server.go, for clients whose connections do not overlap. What one
client sees of the store is a machine of its own, which the store as a whole follows.
-/

namespace LumaBroker.Broker.Expiry

open Session Transition

/-- A connection after its CONNECT, until cleanup has run. It reads no more packets once
its DISCONNECT has been handled. -/
structure Connection where
  sess : Ptr
  present : Bool
  closing : Bool
  deriving DecidableEq

structure World where
  sessions : Store
  conns : FinMap GoString Connection

def start : World := ⟨Store.newStore, FinMap.empty⟩

/-- The messages of a session, which publishes and acknowledgements change. -/
structure Messages where
  inFlight : FinMap UInt16 InFlight
  outFlight : FinMap UInt16 InFlight
  queue : List Queued
  deriving DecidableEq

inductive Event where
  | connect (cid : GoString) (pkt : ConnectPacket) (now : Nat)
  | disconnect (cid : GoString) (expiry : Option UInt32)
  /-- The connection ends and cleanup runs. -/
  | ended (cid : GoString) (now : Nat)
  /-- The sweep looks at the sessions in some order of the map. -/
  | sweep (now : Nat) (order : List Ptr)
  /-- What else the broker does to the session of a client. -/
  | traffic (cid : GoString) (messages : Messages)

def messages (s : Session) : Messages := ⟨s.inFlight, s.outFlight, s.queue⟩

def setMessages (m : Messages) (s : Session) : Session :=
  { s with inFlight := m.inFlight, outFlight := m.outFlight, queue := m.queue }

namespace World

def connect (cid : GoString) (pkt : ConnectPacket) (now : Nat) (w : World) : World :=
  let (sessions, p, present) := w.sessions.getOrCreate cid pkt.cleanSession now
  ⟨sessions.modify p (pkt.connectSession now), w.conns.set cid ⟨p, present, false⟩⟩

def disconnect (cid : GoString) (expiry : Option UInt32) (c : Connection) (w : World) : World :=
  ⟨w.sessions.modify c.sess (handleDisconnect expiry), w.conns.set cid { c with closing := true }⟩

/-- sessions.Delete for a clean session, and in PurgePersistentSession. -/
def cleanup (cid : GoString) (now : Nat) (c : Connection) (w : World) : World :=
  let purge :=
    (w.sessions.heap c.sess).cleanSession || (disconnectSession now (w.sessions.heap c.sess)).2
  let sessions := w.sessions.modify c.sess fun s => (disconnectSession now s).1
  ⟨if purge then sessions.delete cid else sessions, w.conns.erase cid⟩

def sweepOne (now : Nat) (s : Store) (p : Ptr) : Store :=
  if (s.heap p).shouldExpireDisconnected now then s.delete (s.heap p).clientID else s

end World

def step (w : World) : Event → Option World
  | .connect cid pkt now => if (w.conns.get cid).isSome then none else some (w.connect cid pkt now)
  | .disconnect cid expiry =>
      match w.conns.get cid with
      | some c => if c.closing then none else some (w.disconnect cid expiry c)
      | none => none
  | .ended cid now => (w.conns.get cid).map fun c => w.cleanup cid now c
  | .sweep now order =>
      if order.Perm (w.sessions.data.entries.map Prod.snd) then
        some { w with sessions := order.foldl (World.sweepOne now) w.sessions }
      else none
  | .traffic cid m =>
      (w.sessions.data.get cid).map fun p =>
        { w with sessions := w.sessions.modify p (setMessages m) }

/-- What one client sees: its connection and its session. -/
structure View where
  conn : Option Connection
  sess : Option (Ptr × Session)

/-- The session that the store holds under an ID. -/
def held (cid : GoString) (s : Store) : Option (Ptr × Session) :=
  (s.data.get cid).map fun p => (p, s.heap p)

def view (cid : GoString) (w : World) : View := ⟨w.conns.get cid, held cid w.sessions⟩

namespace View

/-- The session a CONNECT gets, where a new one would be put at the given place. -/
def getOrCreate (cid : GoString) (clean : Bool) (now next : Nat) (v : View) :
    Ptr × Session × Bool :=
  match v.sess with
  | some (p, s) =>
      if clean || s.cleanSession then (next, Session.new cid clean now, false) else (p, s, true)
  | none => (next, Session.new cid clean now, false)

def connect (cid : GoString) (pkt : ConnectPacket) (now next : Nat) (v : View) : View :=
  let (p, s, present) := v.getOrCreate cid pkt.cleanSession now next
  ⟨some ⟨p, present, false⟩, some (p, pkt.connectSession now s)⟩

def cleanup (now : Nat) (v : View) : View where
  conn := none
  sess := v.sess.bind fun (p, s) =>
    if s.cleanSession || (disconnectSession now s).2 then none
    else some (p, (disconnectSession now s).1)

/-- A step of the broker as the client sees it. -/
def step (cid : GoString) (next : Ptr) (v : View) : Event → Option View
  | .connect id pkt now =>
      if id ≠ cid then some v else if v.conn.isSome then none else some (v.connect cid pkt now next)
  | .disconnect id expiry =>
      if id ≠ cid then some v
      else
        match v.conn with
        | some c =>
            if c.closing then none
            else some ⟨some { c with closing := true },
              v.sess.map fun e => (e.1, handleDisconnect expiry e.2)⟩
        | none => none
  | .ended id now => if id ≠ cid then some v else v.conn.map fun _ => v.cleanup now
  | .sweep now _ => some { v with sess := v.sess.filter fun e => !e.2.shouldExpireDisconnected now }
  | .traffic id m =>
      if id ≠ cid then some v
      else v.sess.map fun e => { v with sess := some (e.1, setMessages m e.2) }

/-- The session is the client's own, and that of its connection while there is one. -/
structure Good (cid : GoString) (v : View) : Prop where
  keyed : ∀ p s, v.sess = some (p, s) → s.clientID = cid
  held : ∀ c, v.conn = some c → ∃ s, v.sess = some (c.sess, s) ∧ s.connected = true

end View

section Store
variable {cid id : GoString} {s : Store}

theorem held_eq_some {p : Ptr} {sess : Session} :
    held cid s = some (p, sess) ↔ s.data.get cid = some p ∧ s.heap p = sess := by
  simp [held]

theorem held_modify (cid : GoString) (p : Ptr) (f : Session → Session) (s : Store) :
    held cid (s.modify p f) = (held cid s).map fun e => if e.1 = p then (e.1, f e.2) else e := by
  cases h : s.data.get cid with
  | none => simp [held, Store.modify, h]
  | some q =>
      have hdata : (s.modify p f).data.get cid = some q := h
      simp only [held, h, hdata, Option.map_some, Store.heap_modify]
      split <;> rfl

theorem held_delete (cid id : GoString) (s : Store) :
    held cid (s.delete id) = if cid = id then none else held cid s := by
  simp only [held, Store.delete, FinMap.get_erase]
  split <;> rfl

theorem held_create (cid id : GoString) (clean : Bool) (now : Nat) (s : Store) :
    held cid (s.create id clean now) =
      if cid = id then some (s.next, Session.new id clean now) else held cid s := by
  have hdata : (s.create id clean now).data.get cid = if cid = id then some s.next
      else s.data.get cid :=
    FinMap.get_set ..
  by_cases hid : cid = id
  · subst hid
    simp [held, hdata, Store.heap_create_self]
  · cases h : s.data.get cid with
    | none => simp [held, hdata, hid, h]
    | some p =>
        have hne : p ≠ s.next := Nat.ne_of_lt (s.allocated cid p h)
        simp [held, hdata, hid, h, Store.heap_create_of_ne _ _ _ hne]

theorem getOrCreate_held {v : View} (clean : Bool) (now : Nat) (hv : v.sess = held cid s) {p : Ptr}
    {sess : Session} {present : Bool}
    (hget : v.getOrCreate cid clean now s.next = (p, sess, present)) :
    ∃ s', s.getOrCreate cid clean now = (s', p, present) ∧ held cid s' = some (p, sess) := by
  have hcreate := held_create cid cid clean now s
  rw [if_pos rfl] at hcreate
  rw [View.getOrCreate, hv] at hget
  cases hdata : s.data.get cid with
  | none =>
      simp only [held, hdata, Option.map_none] at hget
      cases hget
      exact ⟨_, by cases clean <;> simp [Store.getOrCreate, hdata], hcreate⟩
  | some q =>
      have hheld : held cid s = some (q, s.heap q) := held_eq_some.mpr ⟨hdata, rfl⟩
      simp only [hheld] at hget
      cases clean with
      | true =>
          cases hget
          exact ⟨_, rfl, hcreate⟩
      | false =>
          cases hc : (s.heap q).cleanSession with
          | true =>
              simp only [hc, Bool.or_true, if_true] at hget
              cases hget
              exact ⟨_, by simp [Store.getOrCreate, hdata, hc], hcreate⟩
          | false =>
              simp only [hc, Bool.or_self, Bool.false_eq_true, if_false] at hget
              cases hget
              exact ⟨s, by simp [Store.getOrCreate, hdata, hc], hheld⟩

theorem held_sweepOne (cid : GoString) (now : Nat) (s : Store) (p : Ptr) :
    held cid (World.sweepOne now s p) =
      if (s.heap p).shouldExpireDisconnected now ∧ cid = (s.heap p).clientID then none
      else held cid s := by
  rw [World.sweepOne]
  by_cases h : (s.heap p).shouldExpireDisconnected now = true <;> simp [h, held_delete]

theorem heap_sweepOne (now : Nat) (s : Store) (p : Ptr) :
    (World.sweepOne now s p).heap = s.heap := by
  rw [World.sweepOne]
  split <;> rfl

theorem held_sweep_eq (cid : GoString) (now : Nat) (order : List Ptr) (s : Store) :
    held cid (order.foldl (World.sweepOne now) s) =
      if ∃ p ∈ order, (s.heap p).shouldExpireDisconnected now ∧ cid = (s.heap p).clientID then none
      else held cid s := by
  induction order generalizing s with
  | nil => simp
  | cons p order ih =>
      rw [List.foldl_cons, ih, heap_sweepOne, held_sweepOne]
      simp only [List.mem_cons, exists_eq_or_imp]
      by_cases hp : (s.heap p).shouldExpireDisconnected now = true ∧ cid = (s.heap p).clientID
      · simp [hp]
      · simp only [hp, false_or, if_false]

/-- The sweep takes the session of a client exactly if it has expired. -/
theorem held_sweep {now : Nat} {order : List Ptr}
    (hkeyed : ∀ id p sess, held id s = some (p, sess) → sess.clientID = id)
    (horder : order.Perm (s.data.entries.map Prod.snd)) :
    held cid (order.foldl (World.sweepOne now) s) =
      (held cid s).filter fun e => !e.2.shouldExpireDisconnected now := by
  have hmem (p : Ptr) : p ∈ order ↔ ∃ id, s.data.get id = some p := by
    rw [horder.mem_iff, List.mem_map]
    simp [FinMap.mem_entries]
  have hkey {id : GoString} {p : Ptr} (h : s.data.get id = some p) : (s.heap p).clientID = id :=
    hkeyed id p _ (held_eq_some.mpr ⟨h, rfl⟩)
  rw [held_sweep_eq]
  cases hget : s.data.get cid with
  | none =>
      have hnone : held cid s = none := by rw [held, hget]; rfl
      rw [hnone]
      split <;> rfl
  | some p =>
      have hsome : held cid s = some (p, s.heap p) := by rw [held, hget]; rfl
      have hiff : (∃ q ∈ order, (s.heap q).shouldExpireDisconnected now = true ∧
          cid = (s.heap q).clientID) ↔
          (s.heap p).shouldExpireDisconnected now = true := by
        constructor
        · rintro ⟨q, hq, hexpired, hid⟩
          obtain ⟨id, hid'⟩ := (hmem q).mp hq
          rw [hkey hid'] at hid
          subst hid
          rw [hget] at hid'
          cases hid'
          exact hexpired
        · intro hexpired
          exact ⟨p, (hmem p).mpr ⟨cid, hget⟩, hexpired, (hkey hget).symm⟩
      rw [hsome]
      simp only [hiff]
      by_cases hexpired : (s.heap p).shouldExpireDisconnected now = true <;>
        simp [hexpired, Option.filter]

end Store

section Follows
variable {w w' : World} {cid id : GoString}

theorem held_modify_of_ptr_ne {p : Ptr} {s : Store}
    (h : ∀ q sess, held cid s = some (q, sess) → q ≠ p) (f : Session → Session) :
    held cid (s.modify p f) = held cid s := by
  rw [held_modify]
  cases hq : held cid s with
  | none => rfl
  | some e => simp [h e.1 e.2 hq]

theorem held_modify_of_ne (hgood : ∀ cid, (view cid w).Good cid) {p : Ptr} (hid : id ≠ cid)
    (hp : w.sessions.data.get id = some p) (f : Session → Session) :
    held cid (w.sessions.modify p f) = held cid w.sessions := by
  refine held_modify_of_ptr_ne ?_ f
  intro q sess hq heq
  have hown := (hgood cid).keyed q sess hq
  have hother := (hgood id).keyed p (w.sessions.heap p) (held_eq_some.mpr ⟨hp, rfl⟩)
  rw [← (held_eq_some.mp hq).2, heq, hother] at hown
  exact hid hown

theorem held_modify_self {p : Ptr} {sess : Session} {s : Store} (h : held cid s = some (p, sess))
    (f : Session → Session) : held cid (s.modify p f) = some (p, f sess) := by
  rw [held_modify, h]
  simp

theorem data_of_conn (hgood : ∀ cid, (view cid w).Good cid) {c : Connection}
    (hc : w.conns.get id = some c) : w.sessions.data.get id = some c.sess := by
  obtain ⟨s, hs, -⟩ := (hgood id).held c hc
  exact (held_eq_some.mp hs).1

theorem view_connect (cid : GoString) (pkt : ConnectPacket) (now : Nat) (w : World) :
    view cid (w.connect cid pkt now) = (view cid w).connect cid pkt now w.sessions.next := by
  obtain ⟨s', hs', hheld⟩ := getOrCreate_held (v := view cid w) pkt.cleanSession now rfl rfl
  rw [World.connect, hs', view, held_modify_self hheld, FinMap.get_set_self]
  rfl

theorem view_connect_of_ne (hgood : ∀ cid, (view cid w).Good cid) (pkt : ConnectPacket) (now : Nat)
    (hid : id ≠ cid) : view cid (w.connect id pkt now) = view cid w := by
  have hconn (c : Connection) : (w.conns.set id c).get cid = w.conns.get cid :=
    FinMap.get_set_ne _ c hid.symm
  cases Store.getOrCreate_cases id pkt.cleanSession now w.sessions with
  | inl h =>
      obtain ⟨p, hp, -, hdata, -⟩ := h
      rw [World.connect, hp, view, view, hconn, held_modify_of_ne hgood hid hdata]
  | inr h =>
      have hcreate : held cid (w.sessions.create id pkt.cleanSession now) =
          held cid w.sessions := by
        rw [held_create, if_neg hid.symm]
      rw [World.connect, h, view, view, hconn, held_modify_of_ptr_ne, hcreate]
      rw [hcreate]
      intro q sess hq
      exact Nat.ne_of_lt (w.sessions.allocated cid q (held_eq_some.mp hq).1)

theorem view_disconnect (hgood : ∀ cid, (view cid w).Good cid) (expiry : Option UInt32)
    {c : Connection} (hc : w.conns.get id = some c) :
    view cid (w.disconnect id expiry c) =
      if id ≠ cid then view cid w
      else ⟨some { c with closing := true },
        (view cid w).sess.map fun e => (e.1, handleDisconnect expiry e.2)⟩ := by
  rw [World.disconnect, view]
  split
  · next hid =>
      rw [FinMap.get_set_ne _ _ hid.symm, held_modify_of_ne hgood hid (data_of_conn hgood hc), view]
  · next hid =>
      obtain rfl : id = cid := not_not.mp hid
      obtain ⟨s, hs, -⟩ := (hgood id).held c hc
      rw [FinMap.get_set_self, held_modify_self hs, hs]
      rfl

theorem view_cleanup (hgood : ∀ cid, (view cid w).Good cid) (now : Nat) {c : Connection}
    (hc : w.conns.get id = some c) :
    view cid (w.cleanup id now c) = if id ≠ cid then view cid w else (view cid w).cleanup now := by
  rw [World.cleanup, view]
  dsimp only
  by_cases hid : id ≠ cid
  · have hother := held_modify_of_ne hgood hid (data_of_conn hgood hc) fun s =>
      (disconnectSession now s).1
    rw [if_pos hid, FinMap.get_erase_ne _ hid.symm, view]
    split
    · rw [held_delete, if_neg hid.symm, hother]
    · rw [hother]
  · obtain rfl : id = cid := not_not.mp hid
    obtain ⟨s, hs, -⟩ := (hgood id).held c hc
    rw [if_neg hid, FinMap.get_erase_self, View.cleanup, hs, (held_eq_some.mp hs).2,
      Option.bind_some]
    dsimp only
    split
    · rw [held_delete, if_pos rfl]
    · rw [held_modify_self hs]

/-- The broker follows the machine that each client sees. -/
theorem view_step (hgood : ∀ cid, (view cid w).Good cid) {e : Event} (hstep : step w e = some w') :
    (view cid w).step cid w.sessions.next e = some (view cid w') := by
  cases e with
  | connect id pkt now =>
      simp only [step] at hstep
      split at hstep
      · cases hstep
      · next hfree =>
          cases hstep
          rw [View.step]
          split
          · next hid => rw [view_connect_of_ne hgood pkt now hid]
          · next hid =>
              obtain rfl : id = cid := not_not.mp hid
              exact (if_neg hfree).trans (congrArg some (view_connect id pkt now w).symm)
  | disconnect id expiry =>
      simp only [step] at hstep
      split at hstep
      · next c hc =>
          split at hstep
          · cases hstep
          · next hopen =>
              cases hstep
              rw [View.step, view_disconnect hgood expiry hc]
              split
              · rfl
              · next hid =>
                  obtain rfl : id = cid := not_not.mp hid
                  have hconn : (view id w).conn = some c := hc
                  simp only [hconn, hopen]
                  rfl
      · cases hstep
  | ended id now =>
      simp only [step] at hstep
      obtain ⟨c, hc, rfl⟩ := Option.map_eq_some_iff.mp hstep
      rw [View.step, view_cleanup hgood now hc]
      split
      · rfl
      · next hid =>
          obtain rfl : id = cid := not_not.mp hid
          have hconn : (view id w).conn = some c := hc
          rw [hconn]
          rfl
  | sweep now order =>
      simp only [step] at hstep
      split at hstep
      · next horder =>
          cases hstep
          have hkeyed (id : GoString) (p : Ptr) (sess : Session)
              (h : held id w.sessions = some (p, sess)) :=
            (hgood id).keyed p sess h
          rw [View.step]
          exact congrArg (fun sess => some (View.mk _ sess)) (held_sweep hkeyed horder).symm
      · cases hstep
  | traffic id m =>
      simp only [step] at hstep
      obtain ⟨p, hp, rfl⟩ := Option.map_eq_some_iff.mp hstep
      rw [View.step]
      split
      · next hid => rw [view, view, held_modify_of_ne hgood hid hp]
      · next hid =>
          obtain rfl : id = cid := not_not.mp hid
          have hs : held id w.sessions = some (p, w.sessions.heap p) := held_eq_some.mpr ⟨hp, rfl⟩
          rw [view, view, held_modify_self hs, hs]
          rfl

end Follows

/-- A session while its last connection lasts: its version and the expiry interval so far. -/
structure Open (cid : GoString) (version : UInt8) (expiry : UInt32) (s : Session) : Prop where
  clientID : s.clientID = cid
  connected : s.connected = true
  persistent : s.cleanSession = false
  protocolLevel : s.protocolLevel = version
  sessionExpirySec : version = Protocol.v50 → s.sessionExpirySec = expiry
  disconnectExpireAt : s.disconnectExpireAt = none

/-- A session whose last connection has ended, with the time it expires at, if it does. -/
structure Away (deadline : Option Nat) (s : Session) : Prop where
  connected : s.connected = false
  persistent : s.cleanSession = false
  disconnectExpireAt : s.disconnectExpireAt = deadline

/-- When a session expires whose last connection ended at the given time. -/
def deadline (version : UInt8) (expiry : UInt32) (now : Nat) : Option Nat :=
  if version = Protocol.v50 ∧ expiry ≠ 0xFFFFFFFF then some (now + expiry.toNat * 1000000000)
  else none

/-- The expiry interval of a connection after an event. -/
def interval (cid : GoString) (expiry : UInt32) : Event → UInt32
  | .disconnect id (some sec) => if id = cid then sec else expiry
  | _ => expiry

/-- The interval of the CONNECT, unless the DISCONNECT brought another one. -/
def finalInterval (cid : GoString) (expiry : UInt32) (events : List Event) : UInt32 :=
  events.foldl (interval cid) expiry

def messagesAfter (cid : GoString) (m : Messages) : Event → Messages
  | .traffic id m' => if id = cid then m' else m
  | _ => m

/-- The messages that the rest of the broker has left in the session. -/
def lastMessages (cid : GoString) (m : Messages) (events : List Event) : Messages :=
  events.foldl (messagesAfter cid) m

/-- The time of a sweep. -/
def sweepTime : Event → Option Nat
  | .sweep now _ => some now
  | _ => none

section Sessions
variable {cid : GoString} {version : UInt8} {expiry : UInt32} {s : Session}

/-- The will and the keep-alive apart, connecting is these three steps. -/
theorem connectSession_eq (pkt : ConnectPacket) (now : Nat) (s : Session) :
    ∃ will willSet keepAlive, pkt.connectSession now s =
      { (s.clearDisconnectExpiry.setProtocolAndExpiry pkt.version pkt.cleanSession
        pkt.expirySec).setConnected
          true now with will := will, willSet := willSet, keepAlive := keepAlive } := by
  have hwill (s : Session) : ∃ will willSet, pkt.setWill s =
      { s with will := will, willSet := willSet } := by
    rw [ConnectPacket.setWill]
    split <;> exact ⟨_, _, rfl⟩
  have hkeepAlive (s : Session) :
      ∃ keepAlive, pkt.setKeepAlive s = { s with keepAlive := keepAlive } := by
    rw [ConnectPacket.setKeepAlive]
    split <;> exact ⟨_, rfl⟩
  obtain ⟨will, willSet, hw⟩ :=
    hwill (s.clearDisconnectExpiry.setProtocolAndExpiry pkt.version pkt.cleanSession pkt.expirySec)
  obtain ⟨keepAlive, hk⟩ := hkeepAlive
    (pkt.setWill (s.clearDisconnectExpiry.setProtocolAndExpiry pkt.version pkt.cleanSession
      pkt.expirySec))
  refine ⟨will, willSet, keepAlive, ?_⟩
  rw [ConnectPacket.connectSession, hk, hw]
  rfl

theorem open_connectSession {pkt : ConnectPacket} (now : Nat) (hid : s.clientID = cid)
    (hpkt : pkt.cleanSession = false) (hs : s.cleanSession = false) :
    Open cid pkt.version pkt.sessionExpiryInterval (pkt.connectSession now s) := by
  obtain ⟨will, willSet, keepAlive, heq⟩ := connectSession_eq pkt now s
  rw [heq, setProtocolAndExpiry, hpkt]
  dsimp only
  split
  · exact ⟨hid, rfl, hs, rfl, fun hv => if_pos hv, rfl⟩
  · next hv => exact ⟨hid, rfl, hs, rfl, fun h => absurd ⟨h, rfl⟩ hv, rfl⟩

theorem clientID_connectSession (pkt : ConnectPacket) (now : Nat) (s : Session) :
    (pkt.connectSession now s).clientID = s.clientID ∧
      (pkt.connectSession now s).connected = true := by
  obtain ⟨will, willSet, keepAlive, heq⟩ := connectSession_eq pkt now s
  rw [heq, setProtocolAndExpiry_eq]
  exact ⟨rfl, rfl⟩

theorem clientID_handleDisconnect (sec : Option UInt32) (s : Session) :
    (handleDisconnect sec s).clientID = s.clientID ∧
      (handleDisconnect sec s).connected = s.connected := by
  cases sec <;> exact ⟨rfl, rfl⟩

theorem clientID_disconnectSession (now : Nat) (s : Session) :
    (disconnectSession now s).1.clientID = s.clientID := by
  rw [disconnectSession, prepareDisconnectExpiry_fst]
  rfl

theorem Open.handleDisconnect (h : Open cid version expiry s) (sec : Option UInt32) :
    Open cid version (sec.getD expiry) (handleDisconnect sec s) := by
  cases sec with
  | none => exact ⟨h.1, h.2, h.3, h.4, h.5, h.6⟩
  | some sec => exact ⟨h.1, h.2, h.3, h.4, fun _ => rfl, h.6⟩

/-- The end of the connection: an interval of 0 ends the session with it. -/
theorem Open.disconnectSession (h : Open cid version expiry s) (now : Nat) :
    if version = Protocol.v50 ∧ expiry = 0 then (disconnectSession now s).2 = true
    else (disconnectSession now s).2 = false ∧
      Away (deadline version expiry now) (disconnectSession now s).1 := by
  have hpersistent : ¬ (s.cleanSession = true) := by simp [h.persistent]
  have hprotocol := h.protocolLevel
  simp only [Broker.disconnectSession, prepareDisconnectExpiry, setConnected, deadline]
  by_cases hv : version = Protocol.v50
  · have hkept : ¬ (s.cleanSession = true ∨ s.protocolLevel ≠ mqttProtoV50) := by
      rintro (hclean | hlevel)
      · exact hpersistent hclean
      · exact hlevel (hprotocol.trans hv)
    simp only [hkept, if_false, h.sessionExpirySec hv, hv, true_and]
    by_cases hzero : expiry = 0
    · simp [hzero]
    · by_cases hmax : expiry = 0xFFFFFFFF
      · simp only [hmax]
        exact ⟨rfl, rfl, h.persistent, rfl⟩
      · simp only [hzero, hmax, if_false, ne_eq, not_false_iff, if_true]
        exact ⟨trivial, rfl, h.persistent, rfl⟩
  · have hlevel : s.cleanSession = true ∨ s.protocolLevel ≠ mqttProtoV50 :=
      .inr fun heq => hv (hprotocol.symm.trans heq)
    simp only [hlevel, if_true, hv, false_and, if_false]
    exact ⟨trivial, rfl, h.persistent, h.disconnectExpireAt⟩

theorem Away.shouldExpireDisconnected {d : Option Nat} (h : Away d s) (now : Nat) :
    s.shouldExpireDisconnected now = true ↔ ∃ due ∈ d, due ≤ now := by
  simp only [Session.shouldExpireDisconnected, h.connected, h.persistent, h.disconnectExpireAt,
    Bool.or_self, Bool.false_eq_true, if_false]
  cases d <;> simp

theorem messages_of_tables {t : Session} (h : tables s = tables t) : messages s = messages t :=
  congrArg (fun t : Tables => Messages.mk t.inFlight t.outFlight t.queue) h

end Sessions

section Views
variable {cid : GoString} {next : Ptr} {v v' : View} {e : Event}

/-- The client whose event it is; a sweep is nobody's. -/
def Event.client : Event → Option GoString
  | .connect id _ _ | .disconnect id _ | .ended id _ | .traffic id _ => some id
  | .sweep _ _ => none

/-- What an event can do to what a client sees. -/
inductive View.Steps (cid : GoString) (next : Ptr) (v : View) : Event → View → Prop where
  | other (e : Event) (id : GoString) (hclient : e.client = some id) (hid : id ≠ cid) :
      Steps cid next v e v
  | connect (pkt : ConnectPacket) (now : Nat) (hconn : v.conn = none) :
      Steps cid next v (.connect cid pkt now) (v.connect cid pkt now next)
  | disconnect (expiry : Option UInt32) (c : Connection) (hconn : v.conn = some c) :
      Steps cid next v (.disconnect cid expiry)
        ⟨some { c with closing := true }, v.sess.map fun e => (e.1, handleDisconnect expiry e.2)⟩
  | ended (now : Nat) (c : Connection) (hconn : v.conn = some c) :
      Steps cid next v (.ended cid now) (v.cleanup now)
  | sweep (now : Nat) (order : List Ptr) :
      Steps cid next v (.sweep now order)
        { v with sess := v.sess.filter fun e => !e.2.shouldExpireDisconnected now }
  | traffic (m : Messages) (p : Ptr) (s : Session) (hsess : v.sess = some (p, s)) :
      Steps cid next v (.traffic cid m) { v with sess := some (p, setMessages m s) }

theorem View.steps_of_step (h : v.step cid next e = some v') : v.Steps cid next e v' := by
  by_cases hother : ∃ id, e.client = some id ∧ id ≠ cid
  · obtain ⟨id, hclient, hid⟩ := hother
    have hsame : v.step cid next e = some v := by
      cases e with
      | sweep now order => cases hclient
      | connect | disconnect | ended | traffic =>
          cases hclient
          exact if_pos hid
    rw [hsame] at h
    cases h
    exact .other e id hclient hid
  · have hown (id : GoString) (hclient : e.client = some id) : id = cid :=
      not_not.mp fun hid => hother ⟨id, hclient, hid⟩
    cases e with
    | connect id pkt now =>
        obtain rfl := hown id rfl
        rw [View.step, if_neg (not_not.mpr rfl)] at h
        split_ifs at h with hconn
        cases h
        exact .connect pkt now (Option.not_isSome_iff_eq_none.mp hconn)
    | disconnect id expiry =>
        obtain rfl := hown id rfl
        rw [View.step, if_neg (not_not.mpr rfl)] at h
        split at h
        · next c hc =>
            split_ifs at h
            cases h
            exact .disconnect expiry c hc
        · cases h
    | ended id now =>
        obtain rfl := hown id rfl
        rw [View.step, if_neg (not_not.mpr rfl)] at h
        obtain ⟨c, hc, rfl⟩ := Option.map_eq_some_iff.mp h
        exact .ended now c hc
    | sweep now order =>
        cases h
        exact .sweep now order
    | traffic id m =>
        obtain rfl := hown id rfl
        rw [View.step, if_neg (not_not.mpr rfl)] at h
        obtain ⟨⟨p, s⟩, hs, rfl⟩ := Option.map_eq_some_iff.mp h
        exact .traffic m p s hs

section Other
variable {id : GoString} (hclient : e.client = some id) (hid : id ≠ cid)
include hclient hid

theorem interval_other (expiry : UInt32) : interval cid expiry e = expiry := by
  cases e with
  | disconnect id' sec =>
      cases hclient
      cases sec with
      | none => rfl
      | some sec => exact if_neg hid
  | connect | ended | sweep | traffic => rfl

theorem messagesAfter_other (m : Messages) : messagesAfter cid m e = m := by
  cases e with
  | traffic id' m' =>
      cases hclient
      exact if_neg hid
  | connect | disconnect | ended | sweep => rfl

end Other

theorem sweepTime_of_client {id : GoString} (hclient : e.client = some id) :
    sweepTime e = none := by
  cases e with
  | sweep => cases hclient
  | connect | disconnect | ended | traffic => rfl

theorem getOrCreate_clientID (hgood : v.Good cid) (clean : Bool) (now : Nat) :
    (v.getOrCreate cid clean now next).2.1.clientID = cid := by
  rw [View.getOrCreate]
  split
  · next p s hs =>
      split
      · rfl
      · exact hgood.keyed p s hs
  · rfl

theorem View.Good.step (hgood : v.Good cid) (hstep : v.step cid next e = some v') :
    v'.Good cid := by
  cases View.steps_of_step hstep with
  | other => exact hgood
  | connect pkt now hconn =>
      obtain ⟨hid, hconnected⟩ :=
        clientID_connectSession pkt now (v.getOrCreate cid pkt.cleanSession now next).2.1
      constructor
      · intro p s hs
        cases hs
        exact hid.trans (getOrCreate_clientID hgood _ now)
      · intro c hc
        cases hc
        exact ⟨_, rfl, hconnected⟩
  | disconnect expiry c hc =>
      obtain ⟨s, hs, hconnected⟩ := hgood.held c hc
      obtain ⟨hid, hsame⟩ := clientID_handleDisconnect expiry s
      constructor
      · intro p t ht
        simp only [hs, Option.map_some] at ht
        cases ht
        exact hid.trans (hgood.keyed _ s hs)
      · intro c' hc'
        cases hc'
        exact ⟨_, by rw [hs]; rfl, hsame.trans hconnected⟩
  | ended now c hc =>
      obtain ⟨s, hs, -⟩ := hgood.held c hc
      constructor
      · intro p t ht
        simp only [View.cleanup, hs, Option.bind_some] at ht
        split at ht
        · cases ht
        · cases ht
          exact (clientID_disconnectSession now s).trans (hgood.keyed _ s hs)
      · intro c' hc'
        cases hc'
  | sweep now order =>
      constructor
      · intro p s hs
        exact hgood.keyed p s (Option.filter_eq_some_iff.mp hs).1
      · intro c hc
        obtain ⟨s, hs, hconnected⟩ := hgood.held c hc
        refine ⟨s, ?_, hconnected⟩
        rw [hs]
        simp [Option.filter, shouldExpireDisconnected, hconnected]
  | traffic m p s hs =>
      constructor
      · intro q t ht
        cases ht
        exact hgood.keyed p s hs
      · intro c hc
        obtain ⟨t, ht, hconnected⟩ := hgood.held c hc
        rw [hs] at ht
        cases ht
        exact ⟨_, rfl, hconnected⟩

/-- The client is connected, for a persistent session. -/
structure Online (cid : GoString) (version : UInt8) (expiry : UInt32) (p : Ptr)
    (v : View) : Prop where
  conn : ∃ c, v.conn = some c ∧ c.sess = p
  sess : ∃ s, v.sess = some (p, s) ∧ Open cid version expiry s

/-- The client is not connected and the broker keeps its session. -/
structure Kept (p : Ptr) (d : Option Nat) (m : Messages) (v : View) : Prop where
  conn : v.conn = none
  sess : ∃ s, v.sess = some (p, s) ∧ Away d s ∧ messages s = m

/-- The broker has no session of the client. -/
structure Gone (v : View) : Prop where
  conn : v.conn = none
  sess : v.sess = none

theorem online_connect {pkt : ConnectPacket} {now : Nat} (hgood : v.Good cid)
    (hpkt : pkt.cleanSession = false) (hstep : v.step cid next (.connect cid pkt now) = some v') :
    ∃ p, Online cid pkt.version pkt.sessionExpiryInterval p v' := by
  simp only [View.step, ne_eq, not_true, if_false] at hstep
  split at hstep
  · cases hstep
  · cases hstep
    have hclean : (v.getOrCreate cid pkt.cleanSession now next).2.1.cleanSession = false := by
      rw [View.getOrCreate, hpkt]
      split
      · split
        · rfl
        · next hs => simpa using hs
      · rfl
    have hopen := open_connectSession now (getOrCreate_clientID hgood _ now) hpkt hclean
    exact ⟨_, ⟨_, rfl, rfl⟩, _, rfl, hopen⟩

section Online
variable {version : UInt8} {expiry : UInt32} {p : Ptr}

theorem Online.step (h : Online cid version expiry p v) (he : ∀ now, e ≠ .ended cid now)
    (hstep : v.step cid next e = some v') : Online cid version (interval cid expiry e) p v' := by
  obtain ⟨⟨c, hc, rfl⟩, s, hs, hopen⟩ := h
  cases View.steps_of_step hstep with
  | other _ id hclient hid =>
      rw [interval_other hclient hid]
      exact ⟨⟨c, hc, rfl⟩, s, hs, hopen⟩
  | connect pkt now hconn =>
      rw [hc] at hconn
      cases hconn
  | disconnect sec c' hc' =>
      rw [hc] at hc'
      cases hc'
      have hlast : interval cid expiry (.disconnect cid sec) = sec.getD expiry := by
        cases sec <;> simp [interval]
      rw [hlast]
      exact ⟨⟨_, rfl, rfl⟩, _, by rw [hs]; rfl, hopen.handleDisconnect sec⟩
  | ended now => exact absurd rfl (he now)
  | sweep now order =>
      refine ⟨⟨c, hc, rfl⟩, s, ?_, hopen⟩
      rw [hs]
      simp [Option.filter, shouldExpireDisconnected, hopen.connected]
  | traffic m q t ht =>
      rw [hs] at ht
      cases ht
      exact ⟨⟨c, hc, rfl⟩, _, rfl, hopen.1, hopen.2, hopen.3, hopen.4, hopen.5, hopen.6⟩

theorem Online.ended {now : Nat} {s : Session} (h : Online cid version expiry p v)
    (hs : v.sess = some (p, s)) (hstep : v.step cid next (.ended cid now) = some v') :
    if version = Protocol.v50 ∧ expiry = 0 then Gone v'
    else Kept p (deadline version expiry now) (messages s) v' := by
  obtain ⟨⟨c, hc, rfl⟩, t, ht, hopen⟩ := h
  rw [hs] at ht
  cases ht
  simp only [View.step, ne_eq, not_true, if_false, hc, Option.map_some, View.cleanup, hs,
    Option.bind_some, hopen.persistent, Bool.false_or] at hstep
  have hend := hopen.disconnectSession now
  split at hend
  · next hzero =>
      rw [if_pos hzero]
      simp only [hend, if_true] at hstep
      cases hstep
      exact ⟨rfl, rfl⟩
  · next hzero =>
      rw [if_neg hzero]
      simp only [hend.1] at hstep
      cases hstep
      exact ⟨rfl, _, rfl, hend.2, messages_of_tables (tables_disconnectSession now s)⟩

end Online

/-- Without a connection of the client only sweeps and traffic reach its session. -/
theorem step_cases (hconn : v.conn = none) (he : ∀ pkt now, e ≠ .connect cid pkt now)
    (hstep : v.step cid next e = some v') :
    (v' = v ∧ sweepTime e = none ∧ ∀ m, messagesAfter cid m e = m) ∨
      (∃ now order, e = .sweep now order ∧
        v' = { v with sess := v.sess.filter fun e => !e.2.shouldExpireDisconnected now }) ∨
      (∃ m p s, e = .traffic cid m ∧ v.sess = some (p, s) ∧
        v' = { v with sess := some (p, setMessages m s) }) := by
  cases View.steps_of_step hstep with
  | other _ id hclient hid =>
      exact .inl ⟨rfl, sweepTime_of_client hclient, messagesAfter_other hclient hid⟩
  | connect pkt now => exact absurd rfl (he pkt now)
  | disconnect expiry c hc | ended now c hc =>
      rw [hconn] at hc
      cases hc
  | sweep now order => exact .inr (.inl ⟨now, order, rfl, rfl⟩)
  | traffic m p s hs => exact .inr (.inr ⟨m, p, s, rfl, hs, rfl⟩)

theorem Gone.step (h : Gone v) (he : ∀ pkt now, e ≠ .connect cid pkt now)
    (hstep : v.step cid next e = some v') : Gone v' := by
  obtain ⟨rfl, -⟩ | ⟨now, order, -, rfl⟩ | ⟨m, p, s, -, hs, -⟩ := step_cases h.conn he hstep
  · exact h
  · exact ⟨h.conn, by rw [h.sess]; rfl⟩
  · rw [h.sess] at hs
    cases hs

/-- A sweep takes the session when its time has come. -/
theorem Kept.step {p : Ptr} {d : Option Nat} {m : Messages} (h : Kept p d m v)
    (he : ∀ pkt now, e ≠ .connect cid pkt now) (hstep : v.step cid next e = some v') :
    if ∃ t ∈ sweepTime e, ∃ due ∈ d, due ≤ t then Gone v'
    else Kept p d (messagesAfter cid m e) v' := by
  obtain ⟨s, hs, haway, hm⟩ := h.sess
  obtain ⟨rfl, hsweep, hmessages⟩ | ⟨now, order, rfl, rfl⟩ | ⟨m', q, t, rfl, ht, rfl⟩ :=
    step_cases h.conn he hstep
  · rw [hmessages, hsweep, if_neg (by simp)]
    exact h
  · have hexpire := haway.shouldExpireDisconnected now
    by_cases hdue : ∃ due ∈ d, due ≤ now
    · rw [if_pos ⟨now, rfl, hdue⟩]
      exact ⟨h.conn, by simp [hs, Option.filter, hexpire.mpr hdue]⟩
    · have hkept : s.shouldExpireDisconnected now = false :=
        Bool.eq_false_iff.mpr fun h => hdue (hexpire.mp h)
      rw [if_neg (by simpa [sweepTime] using hdue)]
      exact ⟨h.conn, s, by simp [hs, Option.filter, hkept], haway, hm⟩
  · rw [hs] at ht
    cases ht
    rw [if_neg (by simp [sweepTime])]
    exact ⟨h.conn, _, rfl, ⟨haway.1, haway.2, haway.3⟩, (if_pos rfl).symm⟩

end Views

section Runs
variable {cid : GoString} {w w' : World}

theorem good_start (cid : GoString) : (view cid start).Good cid :=
  ⟨fun _ _ h => (by cases h), fun _ h => (by cases h)⟩

theorem good_step {e : Event} (hgood : ∀ cid, (view cid w).Good cid) (hstep : step w e = some w') :
    ∀ cid, (view cid w').Good cid :=
  fun cid => (hgood cid).step (view_step hgood hstep)

theorem good_run {es : List Event} (hrun : run step es start = some w) :
    ∀ cid, (view cid w).Good cid :=
  preserved_run (fun _ _ _ => good_step) good_start hrun

theorem online_run {version : UInt8} {expiry : UInt32} {p : Ptr} {es : List Event}
    (hgood : ∀ cid, (view cid w).Good cid) (h : Online cid version expiry p (view cid w))
    (hes : ∀ now, .ended cid now ∉ es) (hrun : run step es w = some w') :
    Online cid version (finalInterval cid expiry es) p (view cid w') := by
  induction es generalizing w expiry with
  | nil =>
      cases hrun
      exact h
  | cons e es ih =>
      obtain ⟨u, hu, hrest⟩ := Option.bind_eq_some_iff.mp hrun
      have he (now : Nat) : e ≠ .ended cid now := fun heq => hes now (heq ▸ List.mem_cons_self)
      exact ih (good_step hgood hu) (h.step he (view_step hgood hu))
        (fun now hmem => hes now (List.mem_cons_of_mem e hmem)) hrest

theorem gone_run {es : List Event} (hgood : ∀ cid, (view cid w).Good cid) (h : Gone (view cid w))
    (hes : ∀ pkt now, .connect cid pkt now ∉ es) (hrun : run step es w = some w') :
    Gone (view cid w') := by
  have hmeets : Meets step (fun _ e => ∀ pkt now, e ≠ .connect cid pkt now) es w :=
    meets_of_forall_mem fun e he _ pkt now heq => hes pkt now (heq ▸ he)
  refine (invariant_run (I := fun w => (∀ cid, (view cid w).Good cid) ∧ Gone (view cid w))
    ?_ ⟨hgood, h⟩
    hmeets hrun).2
  intro u e u' ⟨hgood, hgone⟩ he hu
  exact ⟨good_step hgood hu, hgone.step he (view_step hgood hu)⟩

theorem kept_run {p : Ptr} {d : Option Nat} {m : Messages} {es : List Event}
    (hgood : ∀ cid, (view cid w).Good cid) (h : Kept p d m (view cid w))
    (hes : ∀ pkt now, .connect cid pkt now ∉ es) (hrun : run step es w = some w') :
    if ∃ t ∈ es.filterMap sweepTime, ∃ due ∈ d, due ≤ t then Gone (view cid w')
    else Kept p d (lastMessages cid m es) (view cid w') := by
  induction es generalizing w m with
  | nil =>
      cases hrun
      rw [if_neg (by simp)]
      exact h
  | cons e es ih =>
      obtain ⟨u, hu, hrest⟩ := Option.bind_eq_some_iff.mp hrun
      have he (pkt : ConnectPacket) (now : Nat) : e ≠ .connect cid pkt now :=
        fun heq => hes pkt now (heq ▸ List.mem_cons_self)
      have hes' (pkt : ConnectPacket) (now : Nat) : .connect cid pkt now ∉ es :=
        fun hmem => hes pkt now (List.mem_cons_of_mem e hmem)
      have hgood' := good_step hgood hu
      have hstep := h.step he (view_step hgood hu)
      split at hstep
      · next hdue =>
          obtain ⟨t, ht, hdue⟩ := hdue
          rw [if_pos ⟨t, List.mem_filterMap.mpr ⟨e, List.mem_cons_self, ht⟩, hdue⟩]
          exact gone_run hgood' hstep hes' hrest
      · next hearly =>
          have hiff : (∃ t ∈ (e :: es).filterMap sweepTime, ∃ due ∈ d, due ≤ t) ↔
              ∃ t ∈ es.filterMap sweepTime, ∃ due ∈ d, due ≤ t := by
            cases htime : sweepTime e with
            | none => rw [List.filterMap_cons_none htime]
            | some t =>
                rw [List.filterMap_cons_some htime]
                simp only [List.mem_cons, exists_eq_or_imp]
                exact or_iff_right fun hdue => hearly ⟨t, htime, hdue⟩
          simp only [hiff]
          exact ih hgood' hstep hes' hrest

theorem connect_kept {p : Ptr} {d : Option Nat} {m : Messages} (h : Kept p d m (view cid w))
    {pkt : ConnectPacket} (hpkt : pkt.cleanSession = false) (now : Nat) :
    ∃ w', step w (.connect cid pkt now) = some w' ∧ w'.conns.get cid = some ⟨p, true, false⟩ ∧
      w'.sessions.data.get cid = some p ∧ messages (w'.sessions.heap p) = m := by
  obtain ⟨s, hs, haway, rfl⟩ := h.sess
  have hconn : w.conns.get cid = none := h.conn
  have hview := view_connect cid pkt now w
  rw [View.connect, View.getOrCreate, hs, hpkt] at hview
  simp only [haway.persistent, Bool.or_self, Bool.false_eq_true, if_false] at hview
  have hheld := held_eq_some.mp (congrArg View.sess hview)
  refine ⟨w.connect cid pkt now, by simp [step, hconn], congrArg View.conn hview, hheld.1, ?_⟩
  rw [hheld.2]
  exact messages_of_tables (tables_connectSession pkt now s)

theorem Kept.data {p : Ptr} {d : Option Nat} {m : Messages} (h : Kept p d m (view cid w)) :
    w.sessions.data.get cid = some p := by
  obtain ⟨s, hs, -⟩ := h.sess
  exact (held_eq_some.mp hs).1

theorem Gone.data (h : Gone (view cid w)) : w.sessions.data.get cid = none :=
  Option.map_eq_none_iff.mp h.sess

end Runs

/-- A persistent connection holds its session while it lasts. When it has ended with an expiry
interval of 0 the session is gone; otherwise the first sweep at or after its deadline takes it,
if it has one, and a CONNECT before that resumes it with the messages it holds. -/
theorem session_expiry (cid : GoString) (before during after : List Event) (pkt : ConnectPacket)
    (connectedAt t : Nat) (w₁ w₂ w₃ w₄ : World) (hpersistent : pkt.cleanSession = false)
    (hconnect : run step (before ++ [.connect cid pkt connectedAt]) start = some w₁)
    (hduring : run step during w₁ = some w₂) (hopen : ∀ now, .ended cid now ∉ during)
    (hended : step w₂ (.ended cid t) = some w₃) (hafter : run step after w₃ = some w₄)
    (haway : ∀ pkt now, .connect cid pkt now ∉ after) :
    ∃ p, w₂.sessions.data.get cid = some p ∧
      (pkt.version = Protocol.v50 →
        let E := finalInterval cid pkt.sessionExpiryInterval during
        (E = 0 → w₄.sessions.data.get cid = none) ∧
        (E = 0xFFFFFFFF → w₄.sessions.data.get cid = some p) ∧
        (E ≠ 0 → E ≠ 0xFFFFFFFF → w₄.sessions.data.get cid =
          if ∃ now ∈ after.filterMap sweepTime, t + E.toNat * 1000000000 ≤ now then none
          else some p)) ∧
      (pkt.version ≠ Protocol.v50 → w₄.sessions.data.get cid = some p) ∧
      (w₄.sessions.data.get cid ≠ none → ∀ pkt' now, pkt'.cleanSession = false →
        ∃ w₅, step w₄ (.connect cid pkt' now) = some w₅ ∧ w₅.conns.get cid = some ⟨p, true, false⟩ ∧
          w₅.sessions.data.get cid = some p ∧
          messages (w₅.sessions.heap p) =
            lastMessages cid (messages (w₂.sessions.heap p)) after) := by
  rw [run_append] at hconnect
  obtain ⟨w₀, hbefore, hconnect⟩ := Option.bind_eq_some_iff.mp hconnect
  obtain ⟨u, hu, hw₁⟩ := Option.bind_eq_some_iff.mp hconnect
  cases hw₁
  have hgood₀ := good_run hbefore
  have hgood₁ := good_step hgood₀ hu
  have hgood₂ : ∀ cid, (view cid w₂).Good cid :=
    preserved_run (fun _ _ _ => good_step) hgood₁ hduring
  have hgood₃ := good_step hgood₂ hended
  obtain ⟨p, honline₁⟩ := online_connect (hgood₀ cid) hpersistent (view_step hgood₀ hu)
  have honline := online_run hgood₁ honline₁ hopen hduring
  obtain ⟨s, hs, -⟩ := honline.sess
  obtain ⟨hdata, rfl⟩ := held_eq_some.mp hs
  have hend := honline.ended hs (view_step hgood₂ hended)
  refine ⟨p, hdata, ?_⟩
  generalize hE : finalInterval cid pkt.sessionExpiryInterval during = E at hend
  split at hend
  · next hzero =>
      obtain ⟨hv, rfl⟩ := hzero
      have hgone := (gone_run hgood₃ hend haway hafter).data
      refine ⟨fun _ => ⟨fun _ => hgone, ?_, fun hne => absurd rfl hne⟩,
        fun hne => absurd hv hne, ?_⟩
      · intro hmax
        cases hmax
      · intro hheld
        exact absurd hgone hheld
  · next hkeep =>
      have hlast := kept_run hgood₃ hend haway hafter
      have hnever (hnone : deadline pkt.version E t = none) :
          w₄.sessions.data.get cid = some p := by
        rw [hnone, if_neg (by simp)] at hlast
        exact hlast.data
      refine ⟨fun hv => ⟨fun hzero => absurd ⟨hv, hzero⟩ hkeep, ?_, ?_⟩, ?_, ?_⟩
      · intro hmax
        exact hnever (by simp [deadline, hmax])
      · intro _ hmax
        have hdeadline : deadline pkt.version E t = some (t + E.toNat * 1000000000) :=
          if_pos ⟨hv, hmax⟩
        simp only [hdeadline, Option.mem_def, Option.some.injEq, exists_eq_left'] at hlast
        split at hlast
        · next hdue => rw [if_pos hdue, hlast.data]
        · next hdue => rw [if_neg hdue, hlast.data]
      · intro hv
        exact hnever (by simp [deadline, hv])
      · intro hheld pkt' now hpkt'
        split at hlast
        · exact absurd hlast.data hheld
        · exact connect_kept hlast hpkt' now

def sampleConnect (version : UInt8) (expiry : UInt32) : ConnectPacket :=
  ⟨version, false, 60, expiry, 0, 0, 0, none⟩

def sampleMessages : Messages := ⟨FinMap.empty, FinMap.empty, [⟨str "t", [1], 1, false⟩]⟩

/-- The interval of 2 seconds becomes 10 with the DISCONNECT, the connection ends after a second
and a message is queued before the sweep. -/
def sampleDuring : List Event := [.disconnect (str "c1") (some 10)]

def sampleAfter : List Event := [.traffic (str "c1") sampleMessages, .sweep 10000000000 [0]]

/-- A sweep after ten seconds keeps the session and a CONNECT finds the message. -/
theorem session_expiry_sample :
    ∃ w₄ w₅ p, run step (.connect (str "c1") (sampleConnect 5 2) 0 ::
        (sampleDuring ++ .ended (str "c1") 1000000000 :: sampleAfter)) start = some w₄ ∧
      w₄.sessions.data.get (str "c1") = some p ∧
      step w₄ (.connect (str "c1") (sampleConnect 4 0) 20000000000) = some w₅ ∧
      w₅.conns.get (str "c1") = some ⟨p, true, false⟩ ∧
        messages (w₅.sessions.heap p) = sampleMessages := by
  obtain ⟨w₄, hrun, -⟩ := reaches_of_any step (.connect (str "c1") (sampleConnect 5 2) 0 ::
    (sampleDuring ++ .ended (str "c1") 1000000000 :: sampleAfter)) start (fun _ => True)
      (by decide +kernel)
  obtain ⟨w₁, h₁, hrest⟩ := Option.bind_eq_some_iff.mp hrun
  rw [run_append] at hrest
  obtain ⟨w₂, h₂, hrest⟩ := Option.bind_eq_some_iff.mp hrest
  obtain ⟨w₃, h₃, h₄⟩ := Option.bind_eq_some_iff.mp hrest
  obtain ⟨p, -, hv5, -, hresume⟩ :=
    session_expiry (str "c1") [] sampleDuring sampleAfter (sampleConnect 5 2) 0
    1000000000 w₁ w₂ w₃ w₄ rfl (by rw [List.nil_append, run, h₁]; rfl) h₂
      (by simp [sampleDuring]) h₃ h₄
    (by simp [sampleAfter])
  have hkept := (hv5 rfl).2.2 (by decide) (by decide)
  rw [if_neg (by decide)] at hkept
  obtain ⟨w₅, h₅, hconn, -, hmessages⟩ :=
    hresume (by simp [hkept]) (sampleConnect 4 0) 20000000000 rfl
  exact ⟨w₄, w₅, p, hrun, hkept, h₅, hconn, hmessages⟩

end LumaBroker.Broker.Expiry
