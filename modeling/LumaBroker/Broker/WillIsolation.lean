import LumaBroker.Broker.Frame
import LumaBroker.Broker.Takeover

/-!
The wills of the connections under one client ID. A will lives in the session, which the
connections of a persistent client share, and cleanup publishes what it finds there. The
steps are the critical sections of handleConnect, handleDisconnect and cleanup in
internal/broker/client.go; any number of connections take them in any order. Every
connection sends one CONNECT. Other packets leave the will of a session alone.
-/

namespace LumaBroker.Broker.WillIsolation

open Session Takeover

/-- A CONNECT that the plugins let in has yet to look for the connection it takes over.
Once connected the connection is in its read loop. -/
inductive Phase where
  | arriving
  | connecting (pc : ConnectPc)
  | cleaning (pc : CleanupPc)
  deriving DecidableEq

/-- A connection with its CONNECT, the connection that takeover has found for it, how it
ended and what its cleanup has published. -/
structure Client where
  pkt : ConnectPacket
  phase : Phase
  existing : Option Nat
  sess : Option Ptr
  disconnected : Bool
  takenOver : Bool
  published : List PublishCall

structure World where
  clients : FinMap GoString Nat
  sessions : Store
  opened : Nat
  conns : Nat → Client

inductive Event where
  | connect (pkt : ConnectPacket)
  /-- A CONNECT under the ID that the plugins refuse. -/
  | refuse (pkt : ConnectPacket)
  | connectStep (now i : Nat)
  | disconnect (i : Nat) (pkt : Protocol.DisconnectPacket)
  /-- The read loop ends without a DISCONNECT. -/
  | readError (i : Nat)
  | cleanup (now i : Nat)
  /-- The HTTP interface disconnects a client that it has found in the map before. -/
  | forceDisconnect (i : Nat)
  /-- The sweep purges the session of the ID, which it may have looked at before. -/
  | purgePersistentSession

def newClient (pkt : ConnectPacket) (phase : Phase) : Client :=
  ⟨pkt, phase, none, none, false, false, []⟩

/-- No connection yet. The store may hold a session of earlier connections. -/
def start (sessions : Store) : World where
  clients := FinMap.empty
  sessions := sessions
  opened := 0
  conns _ := newClient ⟨0, false, 0, 0, 0, 0, 0, none⟩ (.cleaning .finished)

namespace World

def setClient (i : Nat) (c : Client) (w : World) : World :=
  { w with conns := Function.update w.conns i c }

def modify (p : Ptr) (f : Session → Session) (w : World) : World :=
  { w with sessions := w.sessions.modify p f }

def goto (i : Nat) (phase : Phase) (w : World) : World :=
  w.setClient i { w.conns i with phase := phase }

def accept (c : Client) (w : World) : World :=
  { w.setClient w.opened c with opened := w.opened + 1 }

/-- A step that calls a method of the connection's session. -/
def onSession (i : Nat) (next : Phase) (f : Session → Session) (w : World) : Option World :=
  (w.conns i).sess.map fun p => (w.modify p f).goto i next

theorem conns_setClient_self (i : Nat) (c : Client) (w : World) : (w.setClient i c).conns i = c :=
  Function.update_self ..

theorem conns_setClient_of_ne {i j : Nat} (c : Client) (w : World) (h : j ≠ i) :
    (w.setClient i c).conns j = w.conns j :=
  Function.update_of_ne h ..

end World

/-- The connection has not left its read loop. -/
def Phase.running : Phase → Bool
  | .cleaning _ => false
  | _ => true

/-- Closing the socket ends a connection that has not ended otherwise. -/
def Client.closedByTakeover (c : Client) : Client :=
  if c.phase.running then { c with takenOver := true } else c

def connectStep (cid : GoString) (now i : Nat) (w : World) : Option World :=
  let c := w.conns i
  match c.phase with
  | .arriving =>
      some (w.setClient i { c with existing := w.clients.get cid, phase := .connecting .takeover })
  | .connecting .takeover =>
      match c.existing with
      | none => some (w.goto i (.connecting .getOrCreate))
      | some j =>
          (w.conns j).sess.map fun p =>
            ((w.modify p Session.clearWill).setClient j (w.conns j).closedByTakeover).goto i
              (.connecting .getOrCreate)
  | .connecting .getOrCreate =>
      let (sessions, p, _) := w.sessions.getOrCreate cid c.pkt.cleanSession now
      some ({ w with sessions := sessions }.setClient i
        { c with sess := some p, phase := .connecting .clearDisconnectExpiry })
  | .connecting .clearDisconnectExpiry =>
      w.onSession i (.connecting .setProtocolAndExpiry) Session.clearDisconnectExpiry
  | .connecting .setProtocolAndExpiry =>
      w.onSession i (.connecting .setWill)
        (Session.setProtocolAndExpiry c.pkt.version c.pkt.cleanSession c.pkt.expirySec)
  | .connecting .setWill => w.onSession i (.connecting .setKeepAlive) c.pkt.setWill
  | .connecting .setKeepAlive => w.onSession i (.connecting .setConnected) c.pkt.setKeepAlive
  | .connecting .setConnected =>
      w.onSession i (.connecting .register) (Session.setConnected true now)
  | .connecting .register =>
      some { w.goto i (.connecting .connected) with clients := w.clients.set cid i }
  | .connecting .connected | .cleaning _ => none

def cleanupStep (cid : GoString) (now i : Nat) (w : World) : Option World :=
  let c := w.conns i
  match c.phase, c.sess with
  | .cleaning .unregister, none =>
      some { w.goto i (.cleaning .finished) with clients := w.clients.erase cid }
  | .cleaning .unregister, some _ =>
      some { w.goto i (.cleaning .setConnected) with clients := w.clients.erase cid }
  | .cleaning .setConnected, some p =>
      some ((w.modify p (Session.setConnected false now)).goto i (.cleaning .endSession))
  | .cleaning .endSession, some p =>
      if (w.sessions.heap p).cleanSession then some (w.goto i (.cleaning .unsubscribeAll))
      else
        let purge := ((w.sessions.heap p).prepareDisconnectExpiry now).2
        some ((w.modify p fun s => (s.prepareDisconnectExpiry now).1).goto i
          (.cleaning (if purge then .unsubscribeAll else .publishWill)))
  | .cleaning .unsubscribeAll, some _ => some (w.goto i (.cleaning .deleteSession))
  | .cleaning .deleteSession, some _ =>
      some ({ w with sessions := w.sessions.delete cid }.goto i (.cleaning .publishWill))
  | .cleaning .publishWill, some p =>
      some (w.setClient i { c with
        published := c.published ++ willCalls (w.sessions.heap p)
        phase := .cleaning .finished })
  | _, _ => none

def step (cid : GoString) (w : World) : Event → Option World
  | .connect pkt => some (w.accept (newClient pkt .arriving))
  | .refuse pkt => some (w.accept (newClient pkt (.cleaning .unregister)))
  | .connectStep now i => connectStep cid now i w
  | .disconnect i pkt =>
      if (w.conns i).phase ≠ .connecting .connected then none
      else
        (w.conns i).sess.map fun p =>
          (w.modify p (BrokerState.disconnectWith pkt)).setClient i
            { w.conns i with disconnected := true, phase := .cleaning .unregister }
  | .readError i =>
      if (w.conns i).phase ≠ .connecting .connected then none
      else some (w.goto i (.cleaning .unregister))
  | .cleanup now i => cleanupStep cid now i w
  | .forceDisconnect i => (w.conns i).sess.map fun p => w.modify p Session.clearWill
  | .purgePersistentSession => some { w with sessions := w.sessions.delete cid }

/-- The will is that of the connection's CONNECT, and the connection was not ended by
DISCONNECT or takeover. -/
def Client.Owns (c : Client) (will : Will) : Prop :=
  c.pkt.will = some will ∧ c.disconnected = false ∧ c.takenOver = false

/-- The cleanup has published nothing, or once the connection's own will. -/
def Client.Isolated (c : Client) : Prop :=
  c.published = [] ∨
    ∃ will, c.Owns will ∧ c.published = [⟨will.topic, will.payload, will.qos, will.retain⟩]

/-- The connection has passed the point where it leaves its will in the session. -/
def Phase.Past : Phase → Prop
  | .arriving => False
  | .connecting pc => ConnectPc.setWill.Passed pc
  | .cleaning _ => True

instance decidablePast : ∀ phase : Phase, Decidable phase.Past
  | .arriving => isFalse id
  | .connecting _ => inferInstanceAs (Decidable (ConnectPc.Passed _ _))
  | .cleaning _ => isTrue trivial

/-- The cleanup of the connection will still look for a will in the session. -/
def Phase.Holds (phase : Phase) : Prop := phase.Past ∧ phase ≠ .cleaning .finished

instance (phase : Phase) : Decidable phase.Holds := inferInstanceAs (Decidable (_ ∧ _))

/-- A step of a connection in which it leaves no will. -/
def Phase.Advances (phase next : Phase) : Prop :=
  phase ≠ .cleaning .finished ∧ (phase.Past → next.Past) ∧ (next.Holds → phase.Holds)

instance (phase next : Phase) : Decidable (phase.Advances next) :=
  inferInstanceAs (Decidable (_ ∧ _))

/-- A connection leaves its will in a session that no other connection still holds, and
one without a will finds none there. -/
def WillFree (w : World) : Event → Prop
  | .connectStep _ i =>
      (w.conns i).phase = .connecting .setWill → ∀ p ∈ (w.conns i).sess,
        if (w.conns i).pkt.will.isSome then
          ∀ j < w.opened, j ≠ i → (w.conns j).phase.Holds → (w.conns j).sess ≠ some p
        else (w.sessions.heap p).willSet = false
  | _ => True

instance decidableWillFree (w : World) : ∀ e, Decidable (WillFree w e)
  | .connectStep _ i =>
      inferInstanceAs
        (Decidable ((w.conns i).phase = .connecting .setWill → ∀ p ∈ (w.conns i).sess, ite _ _ _))
  | .connect _ | .refuse _ | .disconnect .. | .readError _ | .cleanup .. | .forceDisconnect _
  | .purgePersistentSession => isTrue trivial

/-- No session has got a will. -/
def NoNewWill (heap heap' : Ptr → Session) : Prop :=
  ∀ p, (heap' p).willSet = true → (heap p).willSet = true ∧ (heap' p).will = (heap p).will

theorem NoNewWill.refl (heap : Ptr → Session) : NoNewWill heap heap := fun _ h => ⟨h, rfl⟩

theorem noNewWill_modify {s : Store} {p : Ptr} {f : Session → Session}
    (hf : NoNewTopic (s.heap p) (f (s.heap p))) : NoNewWill s.heap (s.modify p f).heap := by
  intro q hq
  rw [Store.heap_modify] at hq ⊢
  split at hq
  · next hqp =>
      subst hqp
      rw [if_pos rfl]
      exact hf.will hq
  · next hqp =>
      rw [if_neg hqp]
      exact ⟨hq, rfl⟩

theorem noNewWill_getOrCreate (cid : GoString) (clean : Bool) (now : Nat) (s : Store) :
    NoNewWill s.heap (s.getOrCreate cid clean now).1.heap := by
  rcases Store.getOrCreate_cases cid clean now s with ⟨p, hsame, -⟩ | hnew
  · rw [hsame]
    exact NoNewWill.refl s.heap
  · rw [hnew]
    intro p hp
    by_cases hnext : p = s.next
    · subst hnext
      rw [Store.heap_create_self] at hp
      cases hp
    · rw [Store.heap_create_of_ne cid clean now hnext] at hp ⊢
      exact ⟨hp, rfl⟩

/-- What is known of one connection. -/
structure Sound (heap : Ptr → Session) (c : Client) : Prop where
  fresh : ¬ c.phase.Past → c.disconnected = false ∧ c.takenOver = false
  own : c.phase.Holds → ∀ p, c.sess = some p → (heap p).willSet = true → c.Owns (heap p).will
  unpublished : c.phase ≠ .cleaning .finished → c.published = []
  isolated : c.Isolated

section Sound
variable {heap heap' : Ptr → Session} {c : Client}

theorem Sound.mono (h : Sound heap c) (hheap : NoNewWill heap heap') : Sound heap' c where
  fresh := h.fresh
  own hholds p hp hset := by
    obtain ⟨hset, hsame⟩ := hheap p hset
    rw [hsame]
    exact h.own hholds p hp hset
  unpublished := h.unpublished
  isolated := h.isolated

theorem sound_newClient (heap : Ptr → Session) (pkt : ConnectPacket) (phase : Phase) :
    Sound heap (newClient pkt phase) where
  fresh _ := ⟨rfl, rfl⟩
  own _ _ hp := by cases hp
  unpublished _ := rfl
  isolated := .inl rfl

/-- A connection that has published nothing, at a point where its session has no will or
is not looked at. -/
theorem sound_of_unpublished (hpub : c.published = [])
    (hfresh : ¬ c.phase.Past → c.disconnected = false ∧ c.takenOver = false)
    (hown : c.phase.Holds → ∀ p, c.sess = some p → (heap p).willSet = true → c.Owns (heap p).will) :
    Sound heap c :=
  ⟨hfresh, hown, fun _ => hpub, .inl hpub⟩

theorem Sound.goto (h : Sound heap c) {next : Phase} (hadv : c.phase.Advances next) :
    Sound heap { c with phase := next } :=
  sound_of_unpublished (h.unpublished hadv.1) (fun hnot => h.fresh (fun hp => hnot (hadv.2.1 hp)))
    (fun hh => h.own (hadv.2.2 hh))

end Sound

/-- The connection is there and has passed its will. -/
def World.Passed (w : World) (i : Nat) : Prop := i < w.opened ∧ (w.conns i).phase.Past

/-- What is known of a run: a connection that others can find has passed its will. -/
structure Inv (cid : GoString) (w : World) : Prop where
  sound : ∀ i, Sound w.sessions.heap (w.conns i)
  registered : ∀ i, w.clients.get cid = some i → w.Passed i
  existing : ∀ i j, (w.conns i).existing = some j → w.Passed j
  opened : ∀ i, w.opened ≤ i → (w.conns i).phase = .cleaning .finished

section Inv
variable {cid : GoString} {w t : World} {i : Nat}

theorem inv_start (cid : GoString) (sessions : Store) : Inv cid (start sessions) where
  sound _ := sound_newClient ..
  registered _ h := by cases h
  existing _ _ h := by cases h
  opened _ _ := rfl

theorem Inv.lt_opened (h : Inv cid w) (hrun : (w.conns i).phase ≠ .cleaning .finished) :
    i < w.opened := by
  by_contra hge
  exact hrun (h.opened i (Nat.le_of_not_gt hge))

theorem Inv.sessions (h : Inv cid w) {sessions : Store}
    (hheap : NoNewWill w.sessions.heap sessions.heap) : Inv cid { w with sessions := sessions } :=
  ⟨fun i => (h.sound i).mono hheap, h.registered, h.existing, h.opened⟩

theorem Inv.modify (h : Inv cid w) {p : Ptr} {f : Session → Session}
    (hf : NoNewTopic (w.sessions.heap p) (f (w.sessions.heap p))) : Inv cid (w.modify p f) :=
  h.sessions (noNewWill_modify hf)

theorem Inv.deleteSession (h : Inv cid w) : Inv cid { w with sessions := w.sessions.delete cid } :=
  h.sessions (NoNewWill.refl _)

/-- One connection is replaced by one that is sound and has passed its will if others can
find it. -/
theorem Inv.update (h : Inv cid w) {c : Client} {n : Nat} (hn : w.opened ≤ n) (hlt : i < n)
    (hsound : Sound w.sessions.heap c) (hpast : w.Passed i → c.phase.Past)
    (hexisting : ∀ j, c.existing = some j → w.Passed j) :
    Inv cid { w.setClient i c with opened := n } := by
  have hself := World.conns_setClient_self i c w
  have hother (j : Nat) (hj : j ≠ i) := World.conns_setClient_of_ne c w hj
  have hkeeps (j : Nat) (hj : w.Passed j) :
      World.Passed { w.setClient i c with opened := n } j := by
    refine ⟨Nat.lt_of_lt_of_le hj.1 hn, ?_⟩
    by_cases hji : j = i
    · subst hji
      exact hself.symm ▸ hpast hj
    · exact (hother j hji).symm ▸ hj.2
  refine ⟨?_, ?_, ?_, ?_⟩
  · intro j
    by_cases hji : j = i
    · subst hji
      exact hself.symm ▸ hsound
    · exact (hother j hji).symm ▸ h.sound j
  · intro j hj
    exact hkeeps j (h.registered j hj)
  · intro j k hk
    by_cases hji : j = i
    · subst hji
      exact hkeeps k (hexisting k (hself ▸ hk))
    · exact hkeeps k (h.existing j k (hother j hji ▸ hk))
  · intro j hj
    have hji : j ≠ i := Nat.ne_of_gt (Nat.lt_of_lt_of_le hlt hj)
    exact (hother j hji).symm ▸ h.opened j (Nat.le_trans hn hj)

theorem Inv.setClient (h : Inv cid w) {c : Client} (hlt : i < w.opened)
    (hsound : Sound w.sessions.heap c) (hpast : (w.conns i).phase.Past → c.phase.Past)
    (hexisting : ∀ j, c.existing = some j → w.Passed j) : Inv cid (w.setClient i c) :=
  h.update (Nat.le_refl _) hlt hsound (fun hp => hpast hp.2) hexisting

theorem Inv.accept (h : Inv cid w) (pkt : ConnectPacket) (phase : Phase) :
    Inv cid (w.accept (newClient pkt phase)) := by
  refine h.update (Nat.le_succ _) (Nat.lt_succ_self _) (sound_newClient ..) ?_ ?_
  · intro hp
    exact absurd hp.1 (Nat.lt_irrefl _)
  · intro j hj
    cases hj

theorem Inv.goto (h : Inv cid w) {next : Phase} (hadv : (w.conns i).phase.Advances next) :
    Inv cid (w.goto i next) :=
  h.setClient (h.lt_opened hadv.1) ((h.sound i).goto hadv) hadv.2.1 (h.existing i)

theorem Inv.clients (h : Inv cid w) {clients : FinMap GoString Nat}
    (hreg : ∀ i, clients.get cid = some i → w.Passed i) : Inv cid { w with clients := clients } :=
  ⟨h.sound, hreg, h.existing, h.opened⟩

theorem Inv.unregister (h : Inv cid w) : Inv cid { w with clients := w.clients.erase cid } := by
  apply h.clients
  intro i hi
  rw [FinMap.get_erase, if_pos rfl] at hi
  cases hi

theorem Inv.onSession (h : Inv cid w) {next : Phase} {f : Session → Session}
    (hadv : (w.conns i).phase.Advances next) (hf : ∀ s, NoNewTopic s (f s))
    (hstep : w.onSession i next f = some t) : Inv cid t := by
  obtain ⟨p, -, rfl⟩ := Option.map_eq_some_iff.mp hstep
  exact (h.modify (hf _)).goto hadv

/-- The session of a connection that is taken over has no will any more. -/
theorem Inv.closedByTakeover (h : Inv cid w) {j : Nat} {p : Ptr} (hj : w.Passed j)
    (hp : (w.conns j).sess = some p) :
    Inv cid ((w.modify p Session.clearWill).setClient j (w.conns j).closedByTakeover) := by
  have hcleared : Inv cid (w.modify p Session.clearWill) := h.modify (NoNewTopic.clearWill _)
  rw [Client.closedByTakeover]
  split
  · next hrunning =>
      have hrun : (w.conns j).phase ≠ .cleaning .finished := by
        intro hfinished
        rw [hfinished] at hrunning
        cases hrunning
      refine hcleared.setClient hj.1 ?_ (fun hpast => hpast) (h.existing j)
      refine sound_of_unpublished ((h.sound j).unpublished hrun) (fun hnot => absurd hj.2 hnot) ?_
      intro _ q hq hset
      cases hp.symm.trans hq
      rw [World.modify, Store.heap_modify, if_pos rfl] at hset
      cases hset
  · exact hcleared.setClient hj.1 (hcleared.sound j) (fun hpast => hpast) (h.existing j)

/-- What the connection leaves in the session is no other connection's concern. -/
theorem Inv.modify_setWill (h : Inv cid w) {p : Ptr} (hnot : ¬ (w.conns i).phase.Past)
    (hfree : (w.conns i).pkt.will.isSome → ∀ j < w.opened, j ≠ i → (w.conns j).phase.Holds →
      (w.conns j).sess ≠ some p) : Inv cid (w.modify p (w.conns i).pkt.setWill) := by
  refine ⟨?_, h.registered, h.existing, h.opened⟩
  intro j
  refine ⟨(h.sound j).fresh, ?_, (h.sound j).unpublished, (h.sound j).isolated⟩
  intro hholds q hq hset
  rw [World.modify, Store.heap_modify] at hset ⊢
  split at hset
  · next hqp =>
      rw [if_pos hqp]
      cases hwill : (w.conns i).pkt.will with
      | none =>
          rw [ConnectPacket.setWill, hwill] at hset ⊢
          exact (h.sound j).own hholds q hq hset
      | some will =>
          have hji : j ≠ i := fun hji => hnot (hji ▸ hholds.1)
          exact absurd (hqp ▸ hq) (hfree (hwill ▸ rfl) j (h.lt_opened hholds.2) hji hholds)
  · next hqp =>
      rw [if_neg hqp]
      exact (h.sound j).own hholds q hq hset

/-- The one step that leaves a will in a session. -/
theorem Inv.setWill (h : Inv cid w) {now : Nat} (hphase : (w.conns i).phase = .connecting .setWill)
    (hfree : WillFree w (.connectStep now i))
    (hstep : w.onSession i (.connecting .setKeepAlive) (w.conns i).pkt.setWill = some t) :
    Inv cid t := by
  obtain ⟨p, hp, rfl⟩ := Option.map_eq_some_iff.mp hstep
  have hfree := hfree hphase p hp
  have hrun : (w.conns i).phase ≠ .cleaning .finished := hphase ▸ by decide
  have hnot : ¬ (w.conns i).phase.Past := hphase ▸ by decide
  have hleft : Inv cid (w.modify p (w.conns i).pkt.setWill) :=
    h.modify_setWill hnot (fun hsome => by rwa [if_pos hsome] at hfree)
  refine hleft.setClient (h.lt_opened hrun) ?_ (fun hpast => absurd hpast hnot) (h.existing i)
  refine sound_of_unpublished ((h.sound i).unpublished hrun) (fun _ => (h.sound i).fresh hnot) ?_
  intro _ q hq hset
  cases hp.symm.trans hq
  rw [World.modify, Store.heap_modify, if_pos rfl] at hset ⊢
  cases hwill : (w.conns i).pkt.will with
  | none =>
      -- nothing is left, and nothing was there
      rw [ConnectPacket.setWill, hwill] at hset
      rw [hwill] at hfree
      cases hset.symm.trans hfree
  | some will =>
      rw [ConnectPacket.setWill, hwill]
      exact ⟨hwill, (h.sound i).fresh hnot⟩

/-- Before its will the connection may learn of others and get its session. -/
theorem Inv.early (h : Inv cid w) {pc : ConnectPc} {existing : Option Nat} {sess : Option Ptr}
    (hnot : ¬ (w.conns i).phase.Past) (hpc : ¬ ConnectPc.setWill.Passed pc)
    (hexisting : ∀ j, existing = some j → w.Passed j) :
    Inv cid (w.setClient i
      { w.conns i with existing := existing, sess := sess, phase := .connecting pc }) := by
  have hrun : (w.conns i).phase ≠ .cleaning .finished := by
    intro hfinished
    exact hnot (hfinished ▸ trivial)
  refine h.setClient (h.lt_opened hrun) ?_ (fun hpast => absurd hpast hnot) hexisting
  exact sound_of_unpublished ((h.sound i).unpublished hrun) (fun _ => (h.sound i).fresh hnot)
    (fun hholds => absurd hholds.1 hpc)

theorem inv_takeover {j : Nat} {p : Ptr} (h : Inv cid w)
    (hphase : (w.conns i).phase = .connecting .takeover) (hj : (w.conns i).existing = some j)
    (hp : (w.conns j).sess = some p) :
    Inv cid (((w.modify p Session.clearWill).setClient j (w.conns j).closedByTakeover).goto i
      (.connecting .getOrCreate)) := by
  have hpassed := h.existing i j hj
  have hne : i ≠ j := by
    intro hij
    have hpast := hij.symm ▸ hpassed.2
    rw [hphase] at hpast
    exact absurd hpast (by decide)
  apply (h.closedByTakeover hpassed hp).goto
  rw [World.conns_setClient_of_ne _ _ hne]
  exact hphase ▸ (by decide : Phase.Advances (.connecting .takeover) (.connecting .getOrCreate))

theorem inv_register (h : Inv cid w) (hphase : (w.conns i).phase = .connecting .register) :
    Inv cid { w.goto i (.connecting .connected) with clients := w.clients.set cid i } := by
  have hadv : (w.conns i).phase.Advances (.connecting .connected) := hphase ▸ by decide
  have hgone := h.goto hadv
  apply hgone.clients
  intro j hj
  rw [FinMap.get_set, if_pos rfl] at hj
  cases hj
  refine ⟨h.lt_opened hadv.1, ?_⟩
  rw [World.goto, World.conns_setClient_self]
  exact (by decide : Phase.Past (.connecting .connected))

theorem inv_connectStep {now : Nat} (h : Inv cid w) (hfree : WillFree w (.connectStep now i))
    (hstep : connectStep cid now i w = some t) : Inv cid t := by
  cases hphase : (w.conns i).phase with
  | arriving =>
      rw [connectStep, hphase] at hstep
      cases hstep
      exact h.early (hphase ▸ by decide) (by decide) h.registered
  | connecting pc =>
      rw [connectStep, hphase] at hstep
      cases pc with
      | takeover =>
          dsimp only at hstep
          split at hstep
          · cases hstep
            exact h.goto (hphase ▸ by decide)
          · next j hj =>
              obtain ⟨p, hp, rfl⟩ := Option.map_eq_some_iff.mp hstep
              exact inv_takeover h hphase hj hp
      | getOrCreate =>
          cases hstep
          have hcreated :=
            h.sessions (noNewWill_getOrCreate cid (w.conns i).pkt.cleanSession now w.sessions)
          exact hcreated.early (hphase ▸ by decide) (by decide) (h.existing i)
      | clearDisconnectExpiry =>
          exact h.onSession (hphase ▸ by decide) NoNewTopic.clearDisconnectExpiry hstep
      | setProtocolAndExpiry =>
          exact h.onSession (hphase ▸ by decide) (NoNewTopic.setProtocolAndExpiry _ _ _) hstep
      | setWill => exact h.setWill hphase hfree hstep
      | setKeepAlive => exact h.onSession (hphase ▸ by decide) (NoNewTopic.setKeepAlive _) hstep
      | setConnected =>
          exact h.onSession (hphase ▸ by decide) (NoNewTopic.setConnected true now) hstep
      | register =>
          cases hstep
          exact inv_register h hphase
      | connected => cases hstep
  | cleaning pc =>
      rw [connectStep, hphase] at hstep
      cases hstep

/-- The end of cleanup: the will in the session is the connection's own. -/
theorem inv_publishWill {p : Ptr} (h : Inv cid w)
    (hphase : (w.conns i).phase = .cleaning .publishWill) (hp : (w.conns i).sess = some p) :
    Inv cid (w.setClient i { w.conns i with
      published := (w.conns i).published ++ willCalls (w.sessions.heap p)
      phase := .cleaning .finished }) := by
  have hrun : (w.conns i).phase ≠ .cleaning .finished := hphase ▸ by decide
  have hholds : (w.conns i).phase.Holds := hphase ▸ by decide
  refine h.setClient (h.lt_opened hrun) ⟨?_, ?_, ?_, ?_⟩ (fun _ => trivial) (h.existing i)
  · intro hnot
    exact absurd trivial hnot
  · intro hfinished
    exact absurd rfl hfinished.2
  · intro hnot
    exact absurd rfl hnot
  · rw [(h.sound i).unpublished hrun, List.nil_append, willCalls]
    split
    · next hset => exact .inr ⟨_, (h.sound i).own hholds p hp hset, rfl⟩
    · exact .inl rfl

theorem inv_cleanupStep {now : Nat} (h : Inv cid w) (hstep : cleanupStep cid now i w = some t) :
    Inv cid t := by
  rw [cleanupStep] at hstep
  dsimp only at hstep
  split at hstep
  · next hphase _ =>
      cases hstep
      exact (h.goto (hphase ▸ by decide)).unregister
  · next hphase _ =>
      cases hstep
      exact (h.goto (hphase ▸ by decide)).unregister
  · next hphase _ =>
      cases hstep
      exact (h.modify (NoNewTopic.setConnected false now _)).goto (hphase ▸ by decide)
  · next p hphase _ =>
      split at hstep
      · cases hstep
        exact h.goto (hphase ▸ by decide)
      · cases hstep
        refine (h.modify (p := p) (NoNewTopic.prepareDisconnectExpiry now _)).goto ?_
        split <;> exact hphase ▸ by decide
  · next hphase _ =>
      cases hstep
      exact h.goto (hphase ▸ by decide)
  · next hphase _ =>
      cases hstep
      exact h.deleteSession.goto (hphase ▸ by decide)
  · next p hphase hp =>
      cases hstep
      exact inv_publishWill h hphase hp
  · cases hstep

theorem inv_disconnect {p : Ptr} {pkt : Protocol.DisconnectPacket} (h : Inv cid w)
    (hphase : (w.conns i).phase = .connecting .connected) (hp : (w.conns i).sess = some p) :
    Inv cid ((w.modify p (BrokerState.disconnectWith pkt)).setClient i
      { w.conns i with disconnected := true, phase := .cleaning .unregister }) := by
  have hrun : (w.conns i).phase ≠ .cleaning .finished := hphase ▸ by decide
  have hcleared : Inv cid (w.modify p (BrokerState.disconnectWith pkt)) :=
    h.modify (NoNewTopic.disconnectWith pkt _)
  refine hcleared.setClient (h.lt_opened hrun) ?_ (fun _ => trivial) (h.existing i)
  refine sound_of_unpublished ((h.sound i).unpublished hrun) (fun hnot => absurd trivial hnot) ?_
  intro _ q hq hset
  cases hp.symm.trans hq
  rw [World.modify, Store.heap_modify, if_pos rfl, BrokerState.willSet_disconnectWith] at hset
  cases hset

theorem inv_step {e : Event} (h : Inv cid w) (hfree : WillFree w e)
    (hstep : step cid w e = some t) : Inv cid t := by
  cases e with
  | connect pkt =>
      cases hstep
      exact h.accept pkt .arriving
  | refuse pkt =>
      cases hstep
      exact h.accept pkt (.cleaning .unregister)
  | connectStep now i => exact inv_connectStep h hfree hstep
  | disconnect i pkt =>
      rw [step] at hstep
      split at hstep
      · cases hstep
      · next hphase =>
          obtain ⟨p, hp, rfl⟩ := Option.map_eq_some_iff.mp hstep
          exact inv_disconnect h (not_not.mp hphase) hp
  | readError i =>
      rw [step] at hstep
      split at hstep
      · cases hstep
      · next hphase =>
          cases hstep
          exact h.goto (not_not.mp hphase ▸ by decide)
  | cleanup now i => exact inv_cleanupStep h hstep
  | forceDisconnect i =>
      obtain ⟨p, -, rfl⟩ := Option.map_eq_some_iff.mp hstep
      exact h.modify (NoNewTopic.clearWill _)
  | purgePersistentSession =>
      cases hstep
      exact h.deleteSession

end Inv

/-- If every connection leaves its will where no other one looks for it, and none comes
upon the will of an earlier one, what a cleanup publishes is the connection's own will. -/
theorem will_isolated (cid : GoString) (sessions : Store) (es : List Event) (w : World)
    (hfree : Transition.Meets (step cid) WillFree es (start sessions))
    (hrun : Transition.run (step cid) es (start sessions) = some w) (i : Nat) :
    (w.conns i).Isolated :=
  have hinv : Inv cid w :=
    Transition.invariant_run (fun _ _ _ h hok hstep => inv_step h hok hstep)
      (inv_start cid sessions) hfree hrun
  (hinv.sound i).isolated

def samplePacket (clean : Bool) (will : Option Will) : ConnectPacket :=
  ⟨4, clean, 60, 0, 0, 0, 0, will⟩

def sampleWill (topic : GoString) : Will := ⟨topic, [1], 1, true⟩

/-- The whole of handleConnect for connection i. -/
def connects (i : Nat) (pkt : ConnectPacket) : List Event :=
  .connect pkt :: List.replicate 9 (.connectStep 0 i)

/-- A connection breaks; a persistent session has four steps of cleanup, a clean one six. -/
def breaks (i steps : Nat) : List Event := .readError i :: List.replicate steps (.cleanup 0 i)

/-- After a connection that breaks, one is taken over by a third, whose session is clean. -/
def sampleRun : List Event :=
  connects 0 (samplePacket false (some (sampleWill (str "a")))) ++ breaks 0 4 ++
    connects 1 (samplePacket false (some (sampleWill (str "b")))) ++
    connects 2 (samplePacket true (some (sampleWill (str "c")))) ++ breaks 1 4 ++ breaks 2 6

theorem will_isolated_sample :
    ∃ w, Transition.run (step (str "c1")) sampleRun (start Store.newStore) = some w ∧
      (w.conns 0).published = [⟨str "a", [1], 1, true⟩] ∧
      ((w.conns 1).takenOver = true ∧ (w.conns 1).published = []) ∧
      (w.conns 2).published = [⟨str "c", [1], 1, true⟩] ∧
      (w.conns 0).Isolated ∧ (w.conns 1).Isolated ∧ (w.conns 2).Isolated := by
  obtain ⟨w, hrun, h0, h1, h2⟩ :=
    Transition.reaches_of_any (step (str "c1")) sampleRun (start Store.newStore)
    (fun w => (w.conns 0).published = [⟨str "a", [1], 1, true⟩] ∧
      ((w.conns 1).takenOver = true ∧ (w.conns 1).published = []) ∧
      (w.conns 2).published = [⟨str "c", [1], 1, true⟩]) (by decide +kernel)
  have hisolated := will_isolated (str "c1") Store.newStore sampleRun w (by decide +kernel) hrun
  exact ⟨w, hrun, h0, h1, h2, hisolated 0, hisolated 1, hisolated 2⟩

/-- A connection without a will publishes the one of an earlier connection, and one that is
taken over publishes the will of the connection that took it over. -/
theorem stale_and_foreign_will :
    (∃ w, Transition.run (step (str "c1"))
        (connects 0 (samplePacket false (some (sampleWill (str "a")))) ++ breaks 0 4 ++
          connects 1 (samplePacket false none) ++ breaks 1 4) (start Store.newStore) = some w ∧
      (w.conns 1).pkt.will = none ∧ (w.conns 1).published = [⟨str "a", [1], 1, true⟩]) ∧
    ∃ w, Transition.run (step (str "c1"))
        (connects 0 (samplePacket false (some (sampleWill (str "a")))) ++
          connects 1 (samplePacket false (some (sampleWill (str "b")))) ++ breaks 0 4)
          (start Store.newStore) =
          some w ∧
      (w.conns 0).takenOver = true ∧ (w.conns 0).published = [⟨str "b", [1], 1, true⟩] :=
  ⟨Transition.reaches_of_any _ _ _ _ (by decide +kernel),
    Transition.reaches_of_any _ _ _ _ (by decide +kernel)⟩

end LumaBroker.Broker.WillIsolation
