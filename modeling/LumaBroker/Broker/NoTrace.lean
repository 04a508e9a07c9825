import LumaBroker.Broker.Registry

/-!
What cleanup leaves behind of a connection. The handshake state gates the first packet
only, so a later CONNECT may give the connection another client ID and another session,
while cleanup goes by the ID and the session that the connection has at its end. The
packets of one connection are run through the dispatcher, and in between the rest of the
broker may do whatever does not use the IDs of this connection.
-/

namespace LumaBroker.Broker

open Session

namespace NoTrace

open Transition

/-- The broker, whether connection i still reads packets, the sessions it has marked
connected, and its subscriptions, newest first, each with the client ID, the filter and
whether the session was clean when it was granted. -/
structure State where
  broker : BrokerState
  reading : Bool
  marked : List Ptr
  granted : List ((GoString × GoString) × Bool)

inductive Event where
  /-- A packet that a connection has read, of this or of another one. -/
  | packet (env : HandleEnv) (j : Nat) (fh : Protocol.FixedHeader) (body : List UInt8)
  /-- The cleanup of another connection. -/
  | ended (now j : Nat)
  /-- A message of the HTTP interface or of another broker. -/
  | route (now : Nat) (call : PublishCall)

def grants (env : HandleEnv) (i : Nat) (body : List UInt8) (b : BrokerState) :
    List ((GoString × GoString) × Bool) :=
  match (b.conns i).sess with
  | some p =>
      let made := grantedEntries (b.subscribeEnv env i) (b.subscribeEntries i body)
      made.reverse.map fun sub =>
        (((b.conns i).conn.clientID, sub.filter), (b.sessions.heap p).cleanSession)
  | none => []

/-- One turn of the read loop of connection i. A CONNECT after which the loop goes on has
been accepted. -/
def ownPacket (env : HandleEnv) (i : Nat) (fh : Protocol.FixedHeader) (body : List UInt8)
    (s : State) : Option State :=
  if s.reading then
    (s.broker.handle env i fh body).next.map fun r =>
      { broker := r.2
        reading := r.1
        marked :=
          if fh.type = .connect ∧ r.1 then (r.2.conns i).sess.toList ++ s.marked else s.marked
        granted := if fh.type = .subscribe ∧ r.1 then grants env i body s.broker ++ s.granted
          else s.granted }
  else none

def step (i : Nat) (s : State) : Event → Option State
  | .packet env j fh body =>
      if j = i then ownPacket env i fh body s
      else (s.broker.handle env j fh body).next.map fun r => { s with broker := r.2 }
  | .ended now j =>
      if j = i then none else (s.broker.cleanup now j).map fun b => { s with broker := b }
  | .route now call => (s.broker.routeAll now [call]).map fun b => { s with broker := b }

/-- The ID is neither the one of connection i nor one that it is registered under. -/
def Foreign (i : Nat) (b : BrokerState) (cid : GoString) : Prop :=
  cid ≠ (b.conns i).conn.clientID ∧ b.clients.get cid ≠ some i

instance (i : Nat) (b : BrokerState) (cid : GoString) : Decidable (Foreign i b cid) :=
  inferInstanceAs (Decidable (_ ∧ _))

/-- No other connection uses the IDs of connection i. -/
def OthersApart (i : Nat) (s : State) : Event → Prop
  | .packet env j fh body =>
      j ≠ i → fh.type = .connect → ∀ cid ∈ takenID env.handshake j body s.broker,
        Foreign i s.broker cid
  | .ended _ j =>
      (s.broker.conns j).conn.clientID ≠ [] → Foreign i s.broker (s.broker.conns j).conn.clientID
  | .route _ _ => True

instance (i : Nat) (s : State) : ∀ e, Decidable (OthersApart i s e)
  | .packet _ _ _ _ => inferInstanceAs (Decidable (_ → _))
  | .ended _ _ => inferInstanceAs (Decidable (_ → _))
  | .route _ _ => isTrue trivial

/-- A connection that has a session takes no other ID. -/
def KeepsID (i : Nat) (s : State) : Event → Prop
  | .packet env j fh body =>
      j = i → fh.type = .connect → env.allow = true → (s.broker.conns i).sess.isSome →
        ∀ cid ∈ takenID env.handshake i body s.broker, cid = (s.broker.conns i).conn.clientID
  | _ => True

instance (i : Nat) (s : State) : ∀ e, Decidable (KeepsID i s e)
  | .packet _ _ _ _ => inferInstanceAs (Decidable (_ → _))
  | .ended _ _ => isTrue trivial
  | .route _ _ => isTrue trivial

/-- Connection i has sent nothing. -/
structure Start (i : Nat) (s : State) : Prop where
  sess : (s.broker.conns i).sess = none
  unregistered : ∀ cid, s.broker.clients.get cid ≠ some i
  keyed : Keyed s.broker.sessions
  marked : s.marked = []
  granted : s.granted = []

/-- After cleanup the connection is not registered, no session that is stored is connected
because of it, and the router has none of its subscriptions of a clean session. -/
structure Untraced (i : Nat) (s : State) (b : BrokerState) : Prop where
  unregistered : ∀ cid, b.clients.get cid ≠ some i
  disconnected : ∀ cid p, b.sessions.data.get cid = some p → p ∈ s.marked →
    (b.sessions.heap p).connected = false
  unsubscribed : ∀ cid f, s.granted.lookup (cid, f) = some true → b.router.held cid f = none

/-- When cleanup begins, a clean session's subscription that the router still has belongs to
a session that cleanup ends. -/
def EndsGranted (now i : Nat) (s : State) : Prop :=
  ∀ cid f, s.granted.lookup (cid, f) = some true → s.broker.router.held cid f ≠ none →
    ∃ p, (s.broker.conns i).sess = some p ∧ Ends now (s.broker.sessions.heap p)

/-- What leaves connection i its ID, its session, and its entries in the map and the store. -/
structure Apart (i : Nat) (b b' : BrokerState) : Prop where
  clientID : (b'.conns i).conn.clientID = (b.conns i).conn.clientID
  sess : (b'.conns i).sess = (b.conns i).sess
  clients : ∀ cid, b'.clients.get cid = some i ↔ b.clients.get cid = some i
  stored : b'.sessions.data.get (b.conns i).conn.clientID =
    b.sessions.data.get (b.conns i).conn.clientID
  next : b.sessions.next ≤ b'.sessions.next
  owner : ∀ p, p < b.sessions.next → (b'.sessions.heap p).clientID = (b.sessions.heap p).clientID
  keyed : Keyed b.sessions → Keyed b'.sessions

section Frame
variable {i : Nat} {b b' : BrokerState}

theorem apart_of_calm (h : Calm b b') (i : Nat) : Apart i b b' where
  clientID := (h.conn i).clientID
  sess := h.sess i
  clients cid := by rw [(h.kept rfl).1]
  stored := by rw [(h.kept rfl).2]
  next := Nat.le_of_eq h.next.symm
  owner p _ := (h.heap p).clientID
  keyed hkeyed cid p hp := (h.heap p).clientID.trans (hkeyed cid p (h.data cid p hp))

theorem keyed_takes {j : Nat} {cid : GoString} {p : Ptr} (h : Takes j cid p b b')
    (hkeyed : Keyed b.sessions) : Keyed b'.sessions := by
  intro id q hq
  by_cases hid : id = cid
  · subst hid
    rw [h.stored] at hq
    cases hq
    exact h.own hkeyed
  · rw [h.data id hid] at hq
    exact (h.owner q (b.sessions.allocated id q hq)).trans (hkeyed id q hq)

theorem apart_takes {j : Nat} {cid : GoString} {p : Ptr} (hj : j ≠ i) (h : Takes j cid p b b')
    (hforeign : Foreign i b cid) : Apart i b b' where
  clientID := (h.others i hj.symm).1
  sess := (h.others i hj.symm).2
  clients id := by
    rw [h.clients, FinMap.get_set]
    split
    · next hid =>
        subst hid
        exact iff_of_false (fun heq => hj (Option.some.inj heq)) hforeign.2
    · exact Iff.rfl
  stored := h.data _ hforeign.1.symm
  next := h.next
  owner := h.owner
  keyed := keyed_takes h

theorem apart_refused {j : Nat} (hj : j ≠ i) (hshared : b'.shared = b.shared)
    (hothers : ∀ k, k ≠ j → b'.conns k = b.conns k) : Apart i b b' := by
  have hsessions : b'.sessions = b.sessions := congrArg BrokerState.Shared.sessions hshared
  have hclients : b'.clients = b.clients := congrArg BrokerState.Shared.clients hshared
  have hconn := hothers i hj.symm
  refine ⟨by rw [hconn], by rw [hconn], fun cid => by rw [hclients], by rw [hsessions],
    by rw [hsessions], ?_, ?_⟩
  · intro p _
    rw [hsessions]
  · intro hkeyed
    rw [hsessions]
    exact hkeyed

theorem apart_handle {env : HandleEnv} {j : Nat} {fh : Protocol.FixedHeader} {body : List UInt8}
    {goesOn : Bool} (hj : j ≠ i)
    (hforeign : fh.type = .connect → ∀ cid ∈ takenID env.handshake j body b, Foreign i b cid)
    (h : (b.handle env j fh body).next = some (goesOn, b')) : Apart i b b' := by
  rcases handle_cases h with ⟨hcalm, -⟩ | ⟨htype, -, hconnect⟩
  · exact apart_of_calm hcalm i
  · rcases connectPacket_cases hconnect with ⟨-, hshared, -, hothers, -⟩ |
      ⟨-, cid, p, htaken, htakes⟩
    · exact apart_refused hj hshared hothers
    · exact apart_takes hj htakes (hforeign htype cid htaken)

theorem apart_cleanup {now j : Nat}
    (hforeign : (b.conns j).conn.clientID ≠ [] → Foreign i b (b.conns j).conn.clientID)
    (h : b.cleanup now j = some b') : Apart i b b' := by
  have hquiet : Routed.Quiet b b' := Frame.cleanup rfl rfl h
  obtain ⟨hclients, hdata⟩ := registry_cleanup h
  refine ⟨(hquiet.conn i).clientID, hquiet.sess i, fun cid => ?_, ?_,
    Nat.le_of_eq hquiet.next.symm, ?_, ?_⟩
  · rw [hclients]
    split
    · exact Iff.rfl
    · next hid =>
        rw [FinMap.get_erase]
        split
        · next hcid => exact iff_of_false (fun heq => (by cases heq)) (hcid ▸ (hforeign hid).2)
        · exact Iff.rfl
  · exact hdata _ fun hid => (hforeign hid).1.symm
  · intro p _
    exact (hquiet.heap p).clientID
  · intro hkeyed cid p hp
    exact (hquiet.heap p).clientID.trans (hkeyed cid p (hquiet.data cid p hp))

theorem mem_grants {env : HandleEnv} {body : List UInt8} {e : (GoString × GoString) × Bool}
    (h : e ∈ grants env i body b) :
    e.1.1 = (b.conns i).conn.clientID ∧ (b.conns i).sess ≠ none := by
  rw [grants] at h
  split at h
  · next hsess =>
      obtain ⟨sub, -, rfl⟩ := List.mem_map.mp h
      exact ⟨rfl, hsess ▸ Option.some_ne_none _⟩
  · cases h

end Frame

/-- A refused CONNECT, as the connection sees it. -/
structure Refused (i : Nat) (taken : Option GoString) (s t : State) : Prop where
  reading : t.reading = false
  marked : t.marked = s.marked
  shared : t.broker.shared = s.broker.shared
  sess : (t.broker.conns i).sess = (s.broker.conns i).sess
  clientID : (t.broker.conns i).conn.clientID = taken.getD (s.broker.conns i).conn.clientID

/-- A packet of connection i moves no entry but perhaps adds subscriptions, or it is a
CONNECT that is refused or accepted. -/
theorem ownPacket_cases {env : HandleEnv} {i : Nat} {fh : Protocol.FixedHeader} {body : List UInt8}
    {s t : State} (h : ownPacket env i fh body s = some t) :
    s.reading = true ∧
      ((Calm s.broker t.broker ∧ (fh.type = .connect → env.allow = false) ∧ t.marked = s.marked ∧
        ∃ new, t.granted = new ++ s.granted ∧
          ∀ e ∈ new, e.1.1 = (s.broker.conns i).conn.clientID ∧ (s.broker.conns i).sess ≠ none) ∨
        fh.type = .connect ∧ ((s.broker.conns i).conn.clientID ≠ [] → env.allow = true) ∧
          t.granted = s.granted ∧
          (Refused i (takenID env.handshake i body s.broker) s t ∨
            ∃ cid p, takenID env.handshake i body s.broker = some cid ∧
              Takes i cid p s.broker t.broker ∧ t.marked = p :: s.marked)) := by
  rw [ownPacket] at h
  split at h
  · next hreading =>
      obtain ⟨⟨goesOn, b⟩, hnext, rfl⟩ := Option.map_eq_some_iff.mp h
      refine ⟨hreading, ?_⟩
      dsimp only
      rcases handle_cases hnext with ⟨hcalm, hended⟩ | ⟨htype, hallow, hconnect⟩
      · refine .inl ⟨hcalm, fun htype => (hended htype).2, ?_, ?_⟩
        · rw [if_neg]
          rintro ⟨htype, hon⟩
          rw [(hended htype).1] at hon
          cases hon
        · split
          · exact ⟨_, rfl, fun e he => mem_grants he⟩
          · exact ⟨[], rfl, fun e he => (by cases he)⟩
      · refine .inr ⟨htype, hallow, ?_, ?_⟩
        · rw [if_neg]
          rintro ⟨hsubscribe, -⟩
          rw [htype] at hsubscribe
          cases hsubscribe
        · rcases connectPacket_cases hconnect with ⟨rfl, hshared, hsess, -, hid⟩ |
              ⟨rfl, cid, p, htaken, htakes⟩
          · refine .inl ⟨rfl, ?_, hshared, hsess, hid⟩
            exact if_neg fun hon => Bool.false_ne_true hon.2
          · refine .inr ⟨cid, p, htaken, htakes, ?_⟩
            rw [if_pos ⟨htype, rfl⟩, htakes.sess]
            rfl
  · cases h

/-- A step that is no packet of connection i leaves it alone if the others keep apart. -/
theorem step_cases {i : Nat} {s t : State} {e : Event} (hapart : OthersApart i s e)
    (h : step i s e = some t) :
    (∃ b, Apart i s.broker b ∧ t = { s with broker := b }) ∨
      ∃ env fh body, e = .packet env i fh body ∧ ownPacket env i fh body s = some t := by
  cases e with
  | packet env j fh body =>
      rw [step] at h
      split at h
      · next hj => exact .inr ⟨env, fh, body, by rw [hj], h⟩
      · next hj =>
          obtain ⟨⟨goesOn, b⟩, hnext, rfl⟩ := Option.map_eq_some_iff.mp h
          exact .inl ⟨b, apart_handle hj (hapart hj) hnext, rfl⟩
  | ended now j =>
      rw [step] at h
      split at h
      · cases h
      · obtain ⟨b, hb, rfl⟩ := Option.map_eq_some_iff.mp h
        exact .inl ⟨b, apart_cleanup hapart hb, rfl⟩
  | route now call =>
      obtain ⟨b, hb, rfl⟩ := Option.map_eq_some_iff.mp h
      exact .inl ⟨b, apart_of_calm (Frame.routeAll hb) i, rfl⟩

/-- Without a session the connection has left nothing yet; with one it is registered under
its ID for as long as it reads. -/
structure Base (i : Nat) (s : State) : Prop where
  fresh : (s.broker.conns i).sess = none →
    (∀ cid, s.broker.clients.get cid ≠ some i) ∧ s.marked = [] ∧ s.granted = []
  named : (s.broker.conns i).sess ≠ none → (s.broker.conns i).conn.clientID ≠ []
  registered : s.reading = true → (s.broker.conns i).sess ≠ none →
    s.broker.clients.get (s.broker.conns i).conn.clientID = some i

/-- All that the connection has left is under its one ID. -/
structure Single (i : Nat) (s : State) : Prop where
  only : ∀ cid, s.broker.clients.get cid = some i → cid = (s.broker.conns i).conn.clientID
  stored : ∀ p, (s.broker.conns i).sess = some p →
    s.broker.sessions.data.get (s.broker.conns i).conn.clientID = some p
  allocated : ∀ q ∈ s.marked, q < s.broker.sessions.next
  marked : ∀ q ∈ s.marked, (s.broker.sessions.heap q).clientID = (s.broker.conns i).conn.clientID
  granted : ∀ e ∈ s.granted, e.1.1 = (s.broker.conns i).conn.clientID
  keyed : Keyed s.broker.sessions

section Step
variable {i : Nat} {s t : State}

theorem base_start (h : Start i s) : Base i s :=
  ⟨fun _ => ⟨h.unregistered, h.marked, h.granted⟩, fun hsess => absurd h.sess hsess,
    fun _ hsess => absurd h.sess hsess⟩

theorem single_start (h : Start i s) : Single i s := by
  refine ⟨fun cid hcid => absurd hcid (h.unregistered cid), fun p hp => ?_, ?_, ?_, ?_, h.keyed⟩
  · rw [h.sess] at hp
    cases hp
  all_goals
    intro q hq
    first | rw [h.marked] at hq | rw [h.granted] at hq
    cases hq

theorem Base.apart (h : Base i s) (hapart : Apart i s.broker t.broker)
    (hreading : t.reading = true → s.reading = true)
    (hghost : (s.broker.conns i).sess = none → t.marked = s.marked ∧ t.granted = s.granted) :
    Base i t := by
  constructor
  · intro hsess
    rw [hapart.sess] at hsess
    obtain ⟨hclients, hmarked, hgranted⟩ := h.fresh hsess
    obtain ⟨hmarked', hgranted'⟩ := hghost hsess
    exact ⟨fun cid hcid => hclients cid ((hapart.clients cid).mp hcid), hmarked'.trans hmarked,
      hgranted'.trans hgranted⟩
  · rw [hapart.sess, hapart.clientID]
    exact h.named
  · rw [hapart.sess, hapart.clientID]
    intro hon hsess
    exact (hapart.clients _).mpr (h.registered (hreading hon) hsess)

theorem Single.apart (h : Single i s) (hapart : Apart i s.broker t.broker)
    (hmarked : t.marked = s.marked)
    (hgranted : ∀ e ∈ t.granted, e.1.1 = (s.broker.conns i).conn.clientID) : Single i t := by
  constructor
  · intro cid hcid
    rw [hapart.clientID]
    exact h.only cid ((hapart.clients cid).mp hcid)
  · intro p hp
    rw [hapart.sess] at hp
    rw [hapart.clientID, hapart.stored]
    exact h.stored p hp
  · intro q hq
    rw [hmarked] at hq
    exact Nat.lt_of_lt_of_le (h.allocated q hq) hapart.next
  · intro q hq
    rw [hmarked] at hq
    rw [hapart.owner q (h.allocated q hq), hapart.clientID]
    exact h.marked q hq
  · rw [hapart.clientID]
    exact hgranted
  · exact hapart.keyed h.keyed

theorem base_refused {taken : Option GoString} (h : Base i s) (hr : Refused i taken s t)
    (hgranted : t.granted = s.granted) (htaken : ∀ cid ∈ taken, cid ≠ []) : Base i t := by
  have hclients : t.broker.clients = s.broker.clients :=
    congrArg BrokerState.Shared.clients hr.shared
  constructor
  · intro hsess
    rw [hr.sess] at hsess
    rw [hclients, hr.marked, hgranted]
    exact h.fresh hsess
  · intro hsess
    rw [hr.sess] at hsess
    rw [hr.clientID]
    cases taken with
    | none => exact h.named hsess
    | some cid => exact htaken cid rfl
  · intro hon
    rw [hr.reading] at hon
    cases hon

theorem base_takes {cid : GoString} {p : Ptr} (htakes : Takes i cid p s.broker t.broker)
    (hne : cid ≠ []) : Base i t := by
  constructor
  · intro hsess
    rw [htakes.sess] at hsess
    cases hsess
  · intro _
    rw [htakes.clientID]
    exact hne
  · intro _ _
    rw [htakes.clientID, htakes.clients]
    exact FinMap.get_set_self _ _ _

theorem base_step {e : Event} (h : Base i s) (hapart : OthersApart i s e)
    (ht : step i s e = some t) : Base i t := by
  rcases step_cases hapart ht with ⟨b, hb, rfl⟩ | ⟨env, fh, body, -, hown⟩
  · exact h.apart hb (fun hon => hon) (fun _ => ⟨rfl, rfl⟩)
  · obtain ⟨hreading, hcases⟩ := ownPacket_cases hown
    rcases hcases with ⟨hcalm, -, hmarked, new, hgranted, hnew⟩ |
      ⟨-, -, hgranted, hr | ⟨cid, p, htaken, htakes, -⟩⟩
    · refine h.apart (apart_of_calm hcalm i) (fun _ => hreading) fun hsess => ⟨hmarked, ?_⟩
      cases new with
      | nil => exact hgranted
      | cons e new => exact absurd hsess (hnew e List.mem_cons_self).2
    · exact base_refused h hr hgranted fun cid hcid => takenID_ne_nil hcid
    · exact base_takes htakes (takenID_ne_nil htaken)

theorem single_refused {taken : Option GoString} (hbase : Base i s) (h : Single i s)
    (hr : Refused i taken s t) (hgranted : t.granted = s.granted)
    (hkeeps : (s.broker.conns i).sess ≠ none →
      ∀ cid ∈ taken, cid = (s.broker.conns i).conn.clientID) :
    Single i t := by
  have hclients : t.broker.clients = s.broker.clients :=
    congrArg BrokerState.Shared.clients hr.shared
  have hsessions : t.broker.sessions = s.broker.sessions :=
    congrArg BrokerState.Shared.sessions hr.shared
  by_cases hsess : (s.broker.conns i).sess = none
  · -- nothing has been left under the old ID
    obtain ⟨hnone, hmarked, hnothing⟩ := hbase.fresh hsess
    refine ⟨fun cid hcid => ?_, fun p hp => ?_, fun q hq => ?_, fun q hq => ?_, fun e he => ?_, ?_⟩
    · rw [hclients] at hcid
      exact absurd hcid (hnone cid)
    · rw [hr.sess, hsess] at hp
      cases hp
    · rw [hr.marked, hmarked] at hq
      cases hq
    · rw [hr.marked, hmarked] at hq
      cases hq
    · rw [hgranted, hnothing] at he
      cases he
    · rw [hsessions]
      exact h.keyed
  · have hid : (t.broker.conns i).conn.clientID = (s.broker.conns i).conn.clientID := by
      rw [hr.clientID]
      cases taken with
      | none => rfl
      | some cid => exact hkeeps hsess cid rfl
    refine h.apart (t := t) ⟨hid, hr.sess, fun cid => by rw [hclients], by rw [hsessions],
      by rw [hsessions],
      fun q _ => by rw [hsessions], fun hkeyed => by rw [hsessions]; exact hkeyed⟩ hr.marked ?_
    rw [hgranted]
    exact h.granted

theorem single_takes {cid : GoString} {p : Ptr} (hbase : Base i s) (h : Single i s)
    (htakes : Takes i cid p s.broker t.broker) (hmarked : t.marked = p :: s.marked)
    (hgranted : t.granted = s.granted)
    (hkeeps : (s.broker.conns i).sess ≠ none → cid = (s.broker.conns i).conn.clientID) :
    Single i t := by
  have hallocated := t.broker.sessions.allocated cid p htakes.stored
  have hown := htakes.own h.keyed
  have hkeyed := keyed_takes htakes h.keyed
  -- what the connection has left before is under the same ID
  have hold (x : GoString) (hne : (s.broker.conns i).sess ≠ none)
      (hx : x = (s.broker.conns i).conn.clientID) :
      x = cid := hx.trans (hkeeps hne).symm
  refine ⟨fun x hx => ?_, fun q hq => ?_, fun q hq => ?_, fun q hq => ?_, fun e he => ?_, hkeyed⟩
  · rw [htakes.clientID]
    rw [htakes.clients, FinMap.get_set] at hx
    split at hx
    · next heq => exact heq
    · exact hold x (fun hnone => (hbase.fresh hnone).1 x hx) (h.only x hx)
  · rw [htakes.sess] at hq
    cases hq
    rw [htakes.clientID]
    exact htakes.stored
  · rw [hmarked] at hq
    cases hq with
    | head => exact hallocated
    | tail _ hq => exact Nat.lt_of_lt_of_le (h.allocated q hq) htakes.next
  · rw [hmarked] at hq
    rw [htakes.clientID]
    cases hq with
    | head => exact hown
    | tail _ hq =>
        have hne : (s.broker.conns i).sess ≠ none := by
          intro hnone
          rw [(hbase.fresh hnone).2.1] at hq
          cases hq
        rw [htakes.owner q (h.allocated q hq)]
        exact hold _ hne (h.marked q hq)
  · rw [hgranted] at he
    rw [htakes.clientID]
    have hne : (s.broker.conns i).sess ≠ none := by
      intro hnone
      rw [(hbase.fresh hnone).2.2] at he
      cases he
    exact hold _ hne (h.granted e he)

theorem single_step {e : Event} (hbase : Base i s) (h : Single i s) (hapart : OthersApart i s e)
    (hkeeps : KeepsID i s e) (ht : step i s e = some t) : Single i t := by
  rcases step_cases hapart ht with ⟨b, hb, rfl⟩ | ⟨env, fh, body, rfl, hown⟩
  · exact h.apart hb rfl h.granted
  · obtain ⟨-, hcases⟩ := ownPacket_cases hown
    rcases hcases with ⟨hcalm, -, hmarked, new, hgranted, hnew⟩ |
      ⟨htype, hallow, hgranted, hconnect⟩
    · refine h.apart (apart_of_calm hcalm i) hmarked fun e he => ?_
      rw [hgranted] at he
      rcases List.mem_append.mp he with he | he
      · exact (hnew e he).1
      · exact h.granted e he
    · have hsame (hne : (s.broker.conns i).sess ≠ none) :=
        hkeeps rfl htype (hallow (hbase.named hne)) (Option.isSome_iff_ne_none.mpr hne)
      rcases hconnect with hr | ⟨cid, p, htaken, htakes, hmarked⟩
      · exact single_refused hbase h hr hgranted hsame
      · exact single_takes hbase h htakes hmarked hgranted fun hne => hsame hne cid htaken

/-- The connection is registered under an ID that is not its own. -/
def Stale (i : Nat) (s : State) : Prop :=
  ∃ cid, s.broker.clients.get cid = some i ∧ cid ≠ (s.broker.conns i).conn.clientID

theorem registered_connect {taken : Option GoString} {x : GoString}
    (hx : s.broker.clients.get x = some i) (h : Refused i taken s t ∨ ∃ cid p, taken = some cid ∧
      Takes i cid p s.broker t.broker ∧ t.marked = p :: s.marked) :
    t.broker.clients.get x = some i := by
  rcases h with hr | ⟨cid, p, -, htakes, -⟩
  · have hclients : t.broker.clients = s.broker.clients :=
      congrArg BrokerState.Shared.clients hr.shared
    rw [hclients]
    exact hx
  · rw [htakes.clients, FinMap.get_set]
    split
    · rfl
    · exact hx

theorem stale_step {e : Event} (hbase : Base i s) (h : Stale i s) (hapart : OthersApart i s e)
    (ht : step i s e = some t) : Stale i t := by
  obtain ⟨cid, hcid, hne⟩ := h
  have hkept {b : BrokerState} (hb : Apart i s.broker b) :
      b.clients.get cid = some i ∧ cid ≠ (b.conns i).conn.clientID := by
    rw [hb.clientID]
    exact ⟨(hb.clients cid).mpr hcid, hne⟩
  rcases step_cases hapart ht with ⟨b, hb, rfl⟩ | ⟨env, fh, body, -, hown⟩
  · exact ⟨cid, hkept hb⟩
  · obtain ⟨hreading, hcases⟩ := ownPacket_cases hown
    rcases hcases with ⟨hcalm, -, -⟩ | ⟨-, -, -, hconnect⟩
    · exact ⟨cid, hkept (apart_of_calm hcalm i)⟩
    · -- of two entries at least one is not under the new ID
      have hsess : (s.broker.conns i).sess ≠ none := fun hnone => (hbase.fresh hnone).1 cid hcid
      have hown := hbase.registered hreading hsess
      by_cases heq : cid = (t.broker.conns i).conn.clientID
      · exact ⟨_, registered_connect hown hconnect, fun hsame => hne (heq.trans hsame.symm)⟩
      · exact ⟨cid, registered_connect hcid hconnect, heq⟩

/-- A CONNECT under another ID leaves the entry of the first. -/
theorem stale_of_other {e : Event} (hbase : Base i s) (hother : ¬ KeepsID i s e)
    (ht : step i s e = some t) : Stale i t := by
  cases e with
  | ended now j => exact absurd trivial hother
  | route now call => exact absurd trivial hother
  | packet env j fh body =>
      simp only [KeepsID, Classical.not_imp, Classical.not_forall] at hother
      obtain ⟨rfl, htype, hallow, hsess, cid, hcid, hne⟩ := hother
      rw [step, if_pos rfl] at ht
      obtain ⟨hreading, hcases⟩ := ownPacket_cases ht
      have hown := hbase.registered hreading (Option.isSome_iff_ne_none.mp hsess)
      rcases hcases with ⟨-, hdenied, -, -⟩ | ⟨-, -, -, hconnect⟩
      · rw [hdenied htype] at hallow
        cases hallow
      · refine ⟨_, registered_connect hown hconnect, fun hsame => hne ?_⟩
        rcases hconnect with hr | ⟨cid', p, htaken, htakes, -⟩
        · rw [hr.clientID, hcid] at hsame
          exact hsame.symm
        · rw [htakes.clientID] at hsame
          rw [htaken] at hcid
          cases hcid
          exact hsame.symm

theorem single_run {events : List Event} (hstart : Start i s)
    (hothers : Meets (step i) (OthersApart i) events s)
    (hkeeps : Meets (step i) (KeepsID i) events s) (hrun : run (step i) events s = some t) :
    Base i t ∧ Single i t :=
  invariant_run (I := fun s => Base i s ∧ Single i s)
    (fun _ _ _ h hok ht => ⟨base_step h.1 hok.1 ht, single_step h.1 h.2 hok.1 hok.2 ht⟩)
    ⟨base_start hstart, single_start hstart⟩ (hothers.and hkeeps) hrun

variable {now : Nat} {b : BrokerState}

theorem unregistered_cleanup (h : Single i s) (hcleanup : s.broker.cleanup now i = some b)
    (hnamed : ∀ cid, s.broker.clients.get cid = some i → cid ≠ []) (cid : GoString) :
    b.clients.get cid ≠ some i := by
  rw [(registry_cleanup hcleanup).1]
  split
  · next hid =>
      intro hcid
      exact hnamed cid hcid ((h.only cid hcid).trans hid)
  · rw [FinMap.get_erase]
    split
    · exact fun heq => (by cases heq)
    · next hne => exact fun hcid => hne (h.only cid hcid)

/-- Cleanup disconnects the session of the connection, which is the only one of its ID that
is stored. -/
theorem disconnected_cleanup (hbase : Base i s) (h : Single i s)
    (hcleanup : s.broker.cleanup now i = some b) {cid : GoString} {q : Ptr}
    (hstored : b.sessions.data.get cid = some q) (hmarked : q ∈ s.marked) :
    (b.sessions.heap q).connected = false := by
  cases hsess : (s.broker.conns i).sess with
  | none =>
      rw [(hbase.fresh hsess).2.1] at hmarked
      cases hmarked
  | some p =>
      have hid := hbase.named (hsess ▸ Option.some_ne_none p)
      have hquiet : Routed.Quiet s.broker b := Frame.cleanup rfl rfl hcleanup
      have hbefore := hquiet.data cid q hstored
      have hcid : cid = (s.broker.conns i).conn.clientID :=
        (h.keyed cid q hbefore).symm.trans (h.marked q hmarked)
      have hsame := h.stored p hsess
      rw [← hcid, hbefore] at hsame
      cases hsame
      exact (cleanup_session hcleanup hid hsess).1

theorem unsubscribed_cleanup_iff (hbase : Base i s) (h : Single i s)
    (hcleanup : s.broker.cleanup now i = some b) :
    (∀ cid f, s.granted.lookup (cid, f) = some true → b.router.held cid f = none) ↔
      EndsGranted now i s := by
  -- a subscription that was granted is under the ID of a connection with a session
  have hheld (cid f : GoString) (hgrant : s.granted.lookup (cid, f) = some true) :
      ∃ p, (s.broker.conns i).sess = some p ∧ b.router.held cid f =
        if Ends now (s.broker.sessions.heap p) then none else s.broker.router.held cid f := by
    obtain ⟨before, after, hsplit, -⟩ := List.lookup_eq_some_iff.mp hgrant
    have hmem : ((cid, f), true) ∈ s.granted := by
      rw [hsplit]
      exact List.mem_append_right _ List.mem_cons_self
    cases hsess : (s.broker.conns i).sess with
    | none =>
        rw [(hbase.fresh hsess).2.2] at hmem
        cases hmem
    | some p =>
        have hid := hbase.named (hsess ▸ Option.some_ne_none p)
        have hcid : cid = (s.broker.conns i).conn.clientID := h.granted _ hmem
        refine ⟨p, rfl, ?_⟩
        rw [(cleanup_session hcleanup hid hsess).2 cid f]
        simp only [hcid, and_true]
  constructor
  · intro hnone cid f hgrant hsome
    obtain ⟨p, hsess, heq⟩ := hheld cid f hgrant
    refine ⟨p, hsess, Classical.byContradiction fun hends => hsome ?_⟩
    rw [if_neg hends] at heq
    exact heq.symm.trans (hnone cid f hgrant)
  · intro hends cid f hgrant
    obtain ⟨p, hsess, heq⟩ := hheld cid f hgrant
    rw [heq]
    split
    · rfl
    · next hnot =>
        refine Classical.byContradiction fun hsome => hnot ?_
        obtain ⟨q, hq, hended⟩ := hends cid f hgrant hsome
        rw [hsess] at hq
        cases hq
        exact hended

end Step

/-- After its cleanup nothing is left of a connection exactly if it never took another ID
once it had a session, and no subscription of a clean session is left to a session that
outlives the connection. -/
theorem untraced_iff (now i : Nat) (s t : State) (b : BrokerState) (events : List Event)
    (hstart : Start i s) (hothers : Meets (step i) (OthersApart i) events s)
    (hrun : run (step i) events s = some t) (hcleanup : t.broker.cleanup now i = some b) :
    Untraced i t b ↔ Meets (step i) (KeepsID i) events s ∧ EndsGranted now i t := by
  constructor
  · intro huntraced
    have hstale : ¬ Stale i t := by
      rintro ⟨cid, hcid, hne⟩
      refine huntraced.unregistered cid ?_
      rw [(registry_cleanup hcleanup).1]
      split
      · exact hcid
      · rw [FinMap.get_erase, if_neg hne]
        exact hcid
    have hkeeps := meets_of_unmarked (fun _ _ _ hbase hapart ht => base_step hbase hapart ht)
      (fun _ _ _ hbase hother ht => stale_of_other hbase hother ht)
      (fun _ _ _ hbase hapart h ht => stale_step hbase h hapart ht) (base_start hstart)
        hothers hrun hstale
    obtain ⟨hbase, hsingle⟩ := single_run hstart hothers hkeeps hrun
    exact ⟨hkeeps, (unsubscribed_cleanup_iff hbase hsingle hcleanup).mp huntraced.unsubscribed⟩
  · rintro ⟨hkeeps, hends⟩
    obtain ⟨hbase, hsingle⟩ := single_run hstart hothers hkeeps hrun
    refine ⟨unregistered_cleanup hsingle hcleanup ?_, fun cid q => ?_, ?_⟩
    · intro cid hcid
      rw [hsingle.only cid hcid]
      exact hbase.named fun hnone => (hbase.fresh hnone).1 cid hcid
    · exact disconnected_cleanup hbase hsingle hcleanup
    · exact (unsubscribed_cleanup_iff hbase hsingle hcleanup).mpr hends

/-- A broker whose connections have sent nothing. -/
def sampleState : State where
  broker := { Routed.sampleStart.broker with conns := fun _ => Routed.newClient (str "r") none 16 }
  reading := true
  marked := []
  granted := []

theorem start_sampleState : Start 0 sampleState where
  sess := rfl
  unregistered _ h := by cases h
  keyed _ _ h := by cases h
  marked := rfl
  granted := rfl

/-- A CONNECT of protocol level 4 as c and a digit; flag 2 asks for a clean session. -/
def connects (j : Nat) (flags digit : UInt8) : Event :=
  .packet Routed.sampleEnv j ⟨.connect, 0, 14⟩
    [0, 4, 77, 81, 84, 84, 4, flags, 0, 60, 0, 2, 99, digit]

/-- A SUBSCRIBE to topic a with QoS 1. -/
def subscribesToA : Event := .packet Routed.sampleEnv 0 ⟨.subscribe, 2, 6⟩ [0, 5, 0, 1, 97, 1]

/-- A clean session with a subscription, and a second CONNECT like the first, while another
client connects and leaves. -/
def sampleEvents : List Event :=
  [connects 0 2 49, connects 1 0 50, subscribesToA, connects 0 2 49, .ended 0 1, subscribesToA]

theorem untraced_sample :
    ∃ t b, run (step 0) sampleEvents sampleState = some t ∧ t.broker.cleanup 0 0 = some b ∧
      t.granted.length = 2 ∧ Untraced 0 t b := by
  obtain ⟨t, hrun, ⟨hcleanup, hgranted⟩, hsess, hends⟩ :=
    reaches_of_any (step 0) sampleEvents sampleState
      (fun t => ((t.broker.cleanup 0 0).isSome ∧ t.granted.length = 2) ∧
        (t.broker.conns 0).sess = some 2 ∧
        Ends 0 (t.broker.sessions.heap 2)) (by decide +kernel)
  obtain ⟨b, hb⟩ := Option.isSome_iff_exists.mp hcleanup
  refine ⟨t, b, hrun, hb, hgranted, ?_⟩
  exact (untraced_iff 0 0 sampleState t b sampleEvents start_sampleState (by decide +kernel)
    hrun hb).mpr
    ⟨by decide +kernel, fun _ _ _ _ => ⟨2, hsess, hends⟩⟩

/-- Two IDs on one connection: after its cleanup it is still registered under the first, whose
session is stored as connected. And a clean session with a subscription followed by a
persistent one under the same ID: the subscription stays in the router. -/
theorem cleanup_leaves_traces :
    (∃ t, run (step 0) [connects 0 0 49, connects 0 0 50] sampleState = some t ∧
      ∃ b, t.broker.cleanup 0 0 = some b ∧ b.clients.get (str "c1") = some 0 ∧
        b.sessions.data.get (str "c1") = some 0 ∧ 0 ∈ t.marked ∧
          (b.sessions.heap 0).connected = true) ∧
    ∃ t, run (step 0) [connects 0 2 49, subscribesToA, connects 0 0 49] sampleState = some t ∧
      ∃ b, t.broker.cleanup 0 0 = some b ∧ t.granted.lookup (str "c1", str "a") = some true ∧
        (b.router.held (str "c1") (str "a")).isSome := by
  constructor
  · obtain ⟨t, hrun, hany⟩ := reaches_of_any (step 0) [connects 0 0 49, connects 0 0 50] sampleState
      (fun t => (t.broker.cleanup 0 0).any (fun b => decide (b.clients.get (str "c1") = some 0 ∧
        b.sessions.data.get (str "c1") = some 0 ∧ 0 ∈ t.marked ∧
          (b.sessions.heap 0).connected = true)) = true)
      (by decide +kernel)
    exact ⟨t, hrun, exists_of_any _ hany⟩
  · obtain ⟨t, hrun, hany⟩ :=
      reaches_of_any (step 0) [connects 0 2 49, subscribesToA, connects 0 0 49] sampleState
        (fun t => (t.broker.cleanup 0 0).any (fun b => decide (
          t.granted.lookup (str "c1", str "a") = some true ∧
            (b.router.held (str "c1") (str "a")).isSome)) = true)
        (by decide +kernel)
    exact ⟨t, hrun, exists_of_any _ hany⟩

end NoTrace
end LumaBroker.Broker
