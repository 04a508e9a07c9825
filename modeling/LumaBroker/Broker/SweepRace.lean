import LumaBroker.Broker.Takeover

/-!
The expiry sweep of internal/broker/server.go beside a client that comes back. The sweep
takes its snapshot of the store, checks a session and purges it in separate steps, with no
lock held from one to the next, and purges by client ID. The client's steps are those of
Takeover; its earlier connection is gone.
-/

namespace LumaBroker.Broker.SweepRace

open Session Transition
open Takeover (ConnectPc Params)

variable {δ : Type}

/-- Where the sweep loop is: waiting for a tick, in the loop of Each over the rest of the
snapshot, or in PurgePersistentSession. -/
inductive SweepPc where
  | idle
  | each (now : Nat) (rest : List Ptr)
  | unsubscribeAll (clientID : GoString) (now : Nat) (rest : List Ptr)
  | deleteSession (clientID : GoString) (now : Nat) (rest : List Ptr)
  deriving DecidableEq

structure State (δ : Type) where
  broker : Takeover.State δ
  sweep : SweepPc

inductive Action where
  /-- The tick, with the sessions in the order in which Each finds them in the map. -/
  | tick (now : Nat) (order : List Ptr)
  | sweep
  | connect (now : Nat)
  | subscribe (sub : SubscribeEntry)

def tickStep (now : Nat) (order : List Ptr) (s : State δ) : Option (State δ) :=
  if s.sweep = .idle ∧ order.Perm (s.broker.sessions.data.entries.map Prod.snd) then
    some { s with sweep := .each now order }
  else none

def sweepStep (s : State δ) : Option (State δ) :=
  match s.sweep with
  | .idle => none
  | .each _ [] => some { s with sweep := .idle }
  | .each now (p :: rest) =>
      let sess := s.broker.sessions.heap p
      some { s with
        sweep := if sess.shouldExpireDisconnected now then .unsubscribeAll sess.clientID now rest
          else .each now rest }
  | .unsubscribeAll clientID now rest =>
      some {
        broker := { s.broker with router := s.broker.router.unsubscribeAll clientID }
        sweep := .deleteSession clientID now rest }
  | .deleteSession clientID now rest =>
      some {
        broker := { s.broker with sessions := s.broker.sessions.delete clientID }
        sweep := .each now rest }

def step (P : Params δ) (s : State δ) : Action → Option (State δ)
  | .tick now order => tickStep now order s
  | .sweep => sweepStep s
  | .connect now => (Takeover.connectStep P now s.broker).map fun b => { s with broker := b }
  | .subscribe sub => (Takeover.subscribeStep P sub s.broker).map fun b => { s with broker := b }

/-- The client has no connection, and its CONNECT is about to be handled. -/
structure Start (P : Params δ) (s : State δ) : Prop where
  oldSess : P.oldSess = none
  connect : s.broker.connect = .takeover
  sess : s.broker.sess = none
  granted : s.broker.granted = []
  sweep : s.sweep = .idle

/-- The session of the connection is the stored one, and the router holds what it was
granted. -/
structure Live (P : Params δ) (s : State δ) : Prop where
  stored : ∃ p, s.broker.sess = some p ∧ s.broker.sessions.data.get P.cid = some p
  subscribed : ∀ f sub, s.broker.granted.lookup f = some sub →
    s.broker.router.held P.cid f = some sub

/-- The sweep deletes the session of the client only before the client asks for it. -/
def DeletesFirst (P : Params δ) (s : State δ) : Action → Prop
  | .sweep =>
      match s.sweep with
      | .deleteSession clientID _ _ =>
          clientID = P.cid → ¬ ConnectPc.getOrCreate.Passed s.broker.connect
      | _ => True
  | _ => True

instance (P : Params δ) (s : State δ) : ∀ a, Decidable (DeletesFirst P s a)
  | .tick _ _ => isTrue trivial
  | .sweep =>
      match h : s.sweep with
      | .deleteSession clientID _ _ =>
          decidable_of_iff (clientID = P.cid → ¬ ConnectPc.getOrCreate.Passed s.broker.connect)
            (by simp only [DeletesFirst, h])
      | .idle => isTrue (by simp only [DeletesFirst, h])
      | .each _ _ => isTrue (by simp only [DeletesFirst, h])
      | .unsubscribeAll _ _ _ => isTrue (by simp only [DeletesFirst, h])
  | .connect _ => isTrue trivial
  | .subscribe _ => isTrue trivial

theorem sweepStep_cases {s t : State δ} (h : sweepStep s = some t) :
    (t.broker = s.broker ∧ ∀ clientID now rest, s.sweep ≠ .deleteSession clientID now rest) ∨
      (∃ clientID now rest, s.sweep = .unsubscribeAll clientID now rest ∧
        t = ⟨{ s.broker with router := s.broker.router.unsubscribeAll clientID },
          .deleteSession clientID now rest⟩) ∨
      ∃ clientID now rest, s.sweep = .deleteSession clientID now rest ∧
        t = ⟨{ s.broker with sessions := s.broker.sessions.delete clientID }, .each now rest⟩ := by
  cases hpc : s.sweep with
  | idle =>
      simp only [sweepStep, hpc] at h
      cases h
  | each now rest =>
      cases rest with
      | nil =>
          simp only [sweepStep, hpc, Option.some.injEq] at h
          subst h
          exact .inl ⟨rfl, fun _ _ _ hdelete => (by cases hdelete)⟩
      | cons p rest =>
          simp only [sweepStep, hpc, Option.some.injEq] at h
          subst h
          exact .inl ⟨rfl, fun _ _ _ hdelete => (by cases hdelete)⟩
  | unsubscribeAll clientID now rest =>
      simp only [sweepStep, hpc, Option.some.injEq] at h
      exact .inr (.inl ⟨clientID, now, rest, rfl, h.symm⟩)
  | deleteSession clientID now rest =>
      simp only [sweepStep, hpc, Option.some.injEq] at h
      exact .inr (.inr ⟨clientID, now, rest, rfl, h.symm⟩)

theorem tickStep_cases {s t : State δ} {now : Nat} {order : List Ptr}
    (h : tickStep now order s = some t) :
    s.sweep = .idle ∧ t = { s with sweep := .each now order } := by
  simp only [tickStep] at h
  split_ifs at h with hidle
  cases h
  exact ⟨hidle.1, rfl⟩

def GrantsLate (b : Takeover.State δ) : Prop := b.granted ≠ [] → b.connect = .connected

/-- Until the sweep takes the session away under it, the connection has what it has
established; after UnsubscribeAll it may be short of subscriptions, and Delete is next. -/
structure Inv (P : Params δ) (s : State δ) : Prop where
  late : GrantsLate s.broker
  kept : Takeover.Inv P s.broker ∨
    ConnectPc.getOrCreate.Passed s.broker.connect ∧
      ∃ now rest, s.sweep = .deleteSession P.cid now rest

theorem inv_start {P : Params δ} {s : State δ} (h : Start P s) : Inv P s := by
  refine ⟨fun hne => absurd h.granted hne, .inl (Takeover.inv_early ?_ ?_ ?_)⟩
  · rw [h.connect]
    decide
  · intro p hp
    rw [h.oldSess] at hp
    cases hp
  · intro f sub hf
    rw [h.granted] at hf
    cases hf

theorem connectStep_forward {P : Params δ} {b b' : Takeover.State δ} {now : Nat}
    (h : Takeover.connectStep P now b = some b') :
    b.connect.rank < b'.connect.rank ∧ b'.granted = b.granted ∧ b.connect ≠ .connected ∧
      (ConnectPc.getOrCreate.Passed b.connect → b'.sessions.data = b.sessions.data) := by
  have hsession {next : ConnectPc} {f : Session → Session}
      (hon : Takeover.onSession b next f = some b') :
      b'.connect = next ∧ b'.granted = b.granted ∧ b'.sessions.data = b.sessions.data := by
    obtain ⟨p, -, rfl⟩ := Option.map_eq_some_iff.mp hon
    exact ⟨rfl, rfl, rfl⟩
  cases hpc : b.connect <;> simp only [Takeover.connectStep, hpc, reduceCtorEq] at h
  case takeover =>
      cases h
      exact ⟨Nat.lt_succ_self _, rfl, by decide, fun hp => absurd hp (by decide)⟩
  case getOrCreate =>
      cases h
      exact ⟨Nat.lt_succ_self _, rfl, by decide, fun hp => absurd hp (by decide)⟩
  case register =>
      obtain ⟨p, -, rfl⟩ := Option.map_eq_some_iff.mp h
      exact ⟨Nat.lt_succ_self _, rfl, by decide, fun _ => rfl⟩
  all_goals
    obtain ⟨hnext, hgranted, hdata⟩ := hsession h
    rw [hnext]
    exact ⟨by decide, hgranted, by decide, fun _ => hdata⟩

theorem subscribeStep_frame {P : Params δ} {b b' : Takeover.State δ} {sub : SubscribeEntry}
    (h : Takeover.subscribeStep P sub b = some b') :
    b.connect = .connected ∧ b'.connect = b.connect ∧ b'.sessions = b.sessions := by
  simp only [Takeover.subscribeStep] at h
  split_ifs at h with hpc hout
  · cases h
    exact ⟨Classical.not_not.mp hpc, rfl, rfl⟩
  · cases h
    exact ⟨Classical.not_not.mp hpc, rfl, rfl⟩

/-- A purge of another client. -/
theorem inv_unsubscribeAll_ne {P : Params δ} {b : Takeover.State δ} (h : Takeover.Inv P b)
    {clientID : GoString} (hne : P.cid ≠ clientID) :
    Takeover.Inv P { b with router := b.router.unsubscribeAll clientID } := by
  refine h.router _ fun f sub hf => ?_
  rw [Router.held_unsubscribeAll, if_neg hne]
  exact h.subscribed f sub hf

theorem inv_delete_ne {P : Params δ} {b : Takeover.State δ} (h : Takeover.Inv P b)
    {clientID : GoString} (hne : P.cid ≠ clientID) :
    Takeover.Inv P { b with sessions := b.sessions.delete clientID } := by
  refine ⟨h.allocated, fun hp => ?_, h.noDeadline, h.connected, h.registered, h.subscribed⟩
  obtain ⟨p, hsess, hget⟩ := h.stored hp
  refine ⟨p, hsess, ?_⟩
  change (b.sessions.data.erase clientID).get P.cid = some p
  rw [FinMap.get_erase, if_neg hne]
  exact hget

theorem granted_of_not_passed {b : Takeover.State δ} (h : GrantsLate b)
    (hp : ¬ ConnectPc.getOrCreate.Passed b.connect) : b.granted = [] := by
  refine Classical.byContradiction fun hne => hp ?_
  rw [h hne]
  decide

theorem inv_sweep {P : Params δ} {s t : State δ} (h : Inv P s) (hok : DeletesFirst P s .sweep)
    (ht : sweepStep s = some t) : Inv P t := by
  rcases sweepStep_cases ht with ⟨hbroker, hpc⟩ | ⟨clientID, now, rest, hpc, rfl⟩ |
      ⟨clientID, now, rest, hpc, rfl⟩
  · refine ⟨hbroker ▸ h.late, .inl (hbroker ▸ h.kept.resolve_right ?_)⟩
    rintro ⟨-, now, rest, hdelete⟩
    exact hpc _ _ _ hdelete
  · refine ⟨h.late, ?_⟩
    have hinv : Takeover.Inv P s.broker := by
      refine h.kept.resolve_right ?_
      rintro ⟨-, now', rest', hdelete⟩
      rw [hpc] at hdelete
      cases hdelete
    by_cases hid : P.cid = clientID
    · subst hid
      by_cases hp : ConnectPc.getOrCreate.Passed s.broker.connect
      · exact .inr ⟨hp, now, rest, rfl⟩
      · refine .inl (hinv.router _ fun f sub hf => ?_)
        rw [granted_of_not_passed h.late hp] at hf
        cases hf
    · exact .inl (inv_unsubscribeAll_ne hinv hid)
  · refine ⟨h.late, .inl ?_⟩
    simp only [DeletesFirst, hpc] at hok
    by_cases hid : P.cid = clientID
    · subst hid
      have hinv := h.kept.resolve_right fun hdoomed => hok rfl hdoomed.1
      exact hinv.deleteSession (hok rfl)
    · refine inv_delete_ne (h.kept.resolve_right ?_) hid
      rintro ⟨-, now', rest', hdelete⟩
      rw [hpc] at hdelete
      cases hdelete
      exact hid rfl

theorem inv_connect {P : Params δ} {s : State δ} {b : Takeover.State δ} {now : Nat} (h : Inv P s)
    (hb : Takeover.connectStep P now s.broker = some b) : Inv P { s with broker := b } := by
  obtain ⟨hrank, hgranted, hpc, -⟩ := connectStep_forward hb
  constructor
  · intro hne
    rw [hgranted] at hne
    exact absurd (h.late hne) hpc
  · cases h.kept with
    | inl hinv => exact .inl (Takeover.inv_connect hinv hb)
    | inr hdoomed => exact .inr ⟨Nat.lt_trans hdoomed.1 hrank, hdoomed.2⟩

theorem inv_subscribe {P : Params δ} {s : State δ} {b : Takeover.State δ} {sub : SubscribeEntry}
    (h : Inv P s) (hb : Takeover.subscribeStep P sub s.broker = some b) :
    Inv P { s with broker := b } := by
  obtain ⟨hconnected, hconnect, -⟩ := subscribeStep_frame hb
  refine ⟨fun _ => hconnect.trans hconnected, ?_⟩
  cases h.kept with
  | inl hinv => exact .inl (Takeover.inv_subscribe hinv hb)
  | inr hdoomed =>
      refine .inr ⟨?_, hdoomed.2⟩
      rw [hconnect]
      exact hdoomed.1

theorem inv_step {P : Params δ} {s t : State δ} {a : Action} (h : Inv P s)
    (hok : DeletesFirst P s a) (ht : step P s a = some t) : Inv P t := by
  cases a with
  | tick now order =>
      obtain ⟨hidle, rfl⟩ := tickStep_cases ht
      refine ⟨h.late, .inl (h.kept.resolve_right ?_)⟩
      rintro ⟨-, now', rest, hdelete⟩
      rw [hidle] at hdelete
      cases hdelete
  | sweep => exact inv_sweep h hok ht
  | connect now =>
      obtain ⟨b, hb, rfl⟩ := Option.map_eq_some_iff.mp ht
      exact inv_connect h hb
  | subscribe sub =>
      obtain ⟨b, hb, rfl⟩ := Option.map_eq_some_iff.mp ht
      exact inv_subscribe h hb

theorem Inv.live {P : Params δ} {s : State δ} (h : Inv P s)
    (hconnect : s.broker.connect = .connected) (hsweep : s.sweep = .idle) : Live P s := by
  have hinv : Takeover.Inv P s.broker := by
    refine h.kept.resolve_right ?_
    rintro ⟨-, now, rest, hdelete⟩
    rw [hsweep] at hdelete
    cases hdelete
  refine ⟨hinv.stored ?_, hinv.subscribed⟩
  rw [hconnect]
  decide

/-- The connection has taken its session from the store, and the store has none. -/
def Dead (P : Params δ) (s : State δ) : Prop :=
  ConnectPc.getOrCreate.Passed s.broker.connect ∧ s.broker.sessions.data.get P.cid = none

/-- Nothing puts the session back. -/
theorem dead_step {P : Params δ} {s t : State δ} {a : Action} (h : Dead P s)
    (ht : step P s a = some t) : Dead P t := by
  obtain ⟨hp, hnone⟩ := h
  cases a with
  | tick now order =>
      obtain ⟨-, rfl⟩ := tickStep_cases ht
      exact ⟨hp, hnone⟩
  | sweep =>
      rcases sweepStep_cases ht with ⟨hbroker, -⟩ | ⟨clientID, now, rest, -, rfl⟩ |
          ⟨clientID, now, rest, -, rfl⟩
      · rw [Dead, hbroker]
        exact ⟨hp, hnone⟩
      · exact ⟨hp, hnone⟩
      · refine ⟨hp, ?_⟩
        change (s.broker.sessions.data.erase clientID).get P.cid = none
        rw [FinMap.get_erase, hnone, ite_self]
  | connect now =>
      obtain ⟨b, hb, rfl⟩ := Option.map_eq_some_iff.mp ht
      obtain ⟨hrank, -, -, hdata⟩ := connectStep_forward hb
      refine ⟨Nat.lt_trans hp hrank, ?_⟩
      rw [hdata hp]
      exact hnone
  | subscribe sub =>
      obtain ⟨b, hb, rfl⟩ := Option.map_eq_some_iff.mp ht
      obtain ⟨-, hconnect, hsessions⟩ := subscribeStep_frame hb
      refine ⟨?_, ?_⟩
      · rw [hconnect]
        exact hp
      · rw [hsessions]
        exact hnone

theorem dead_of_late {P : Params δ} {s t : State δ} {a : Action} (hlate : ¬ DeletesFirst P s a)
    (ht : step P s a = some t) : Dead P t := by
  cases a with
  | tick now order => exact absurd trivial hlate
  | connect now => exact absurd trivial hlate
  | subscribe sub => exact absurd trivial hlate
  | sweep =>
      cases hpc : s.sweep with
      | deleteSession clientID now rest =>
          simp only [DeletesFirst, hpc, Classical.not_imp, Classical.not_not] at hlate
          obtain ⟨rfl, hp⟩ := hlate
          simp only [step, sweepStep, hpc, Option.some.injEq] at ht
          subst ht
          refine ⟨hp, ?_⟩
          change (s.broker.sessions.data.erase P.cid).get P.cid = none
          rw [FinMap.get_erase, if_pos rfl]
      | idle | each _ _ | unsubscribeAll _ _ _ =>
          simp only [DeletesFirst, hpc, not_true_eq_false] at hlate

/-- Once the sweep and the handshake are over, the connection has its session in the store
and its subscriptions in the router exactly if the sweep never deleted the session after
the connection took it. -/
theorem sweep_spares_live_iff (P : Params δ) (s t : State δ) (actions : List Action)
    (hstart : Start P s) (hrun : run (step P) actions s = some t)
    (hconnect : t.broker.connect = .connected) (hsweep : t.sweep = .idle) :
    Live P t ↔ Meets (step P) (DeletesFirst P) actions s := by
  constructor
  · intro hlive
    refine meets_of_unmarked (J := fun _ => True) (fun _ _ _ _ _ _ => trivial)
      (fun _ _ _ _ hlate ht => dead_of_late hlate ht)
      (fun _ _ _ _ _ hdead ht => dead_step hdead ht) trivial
      (meets_of_forall_mem fun _ _ _ => trivial) hrun ?_
    intro hdead
    obtain ⟨p, -, hget⟩ := hlive.stored
    rw [hdead.2] at hget
    cases hget
  · intro hok
    have hinv := invariant_run (fun _ _ _ h hok ht => inv_step h hok ht) (inv_start hstart) hok hrun
    exact hinv.live hconnect hsweep

/-- A v5 client that comes back with the session it left, which expires after a minute. -/
def returning : Params Unit := { Takeover.reconnect false with oldSess := none }

/-- The broker after the client's disconnect at time 0. -/
def disconnected : State Unit where
  broker := { Takeover.connectedOnce false with
    clients := FinMap.empty
    sessions := (Takeover.connectedOnce false).sessions.modify 0 fun sess =>
      ((sess.setConnected false 0).prepareDisconnectExpiry 0).1 }
  sweep := .idle

theorem start_disconnected : Start returning disconnected := ⟨rfl, rfl, rfl, rfl, rfl⟩

def handshake : List Action := List.replicate 8 (.connect 60000000001)

/-- The deadline has passed. The sweep of the session ends before the client asks for it. -/
def sweptFirst : List Action :=
  [.tick 60000000000 [0], .connect 60000000000, .sweep, .sweep, .sweep,
    .connect 60000000001, .sweep] ++
    List.replicate 6 (.connect 60000000001) ++ [.subscribe ⟨str "a/b", 1⟩]

theorem sweep_spares_live_sample :
    ∃ t, run (step returning) sweptFirst disconnected = some t ∧ t.broker.granted.length = 1 ∧
      Live returning t := by
  obtain ⟨t, hrun, hconnect, hsweep, hgranted⟩ :=
    reaches_of_any (step returning) sweptFirst disconnected
      (fun t => t.broker.connect = .connected ∧ t.sweep = .idle ∧ t.broker.granted.length = 1)
      (by decide +kernel)
  refine ⟨t, hrun, hgranted, ?_⟩
  exact (sweep_spares_live_iff _ _ t sweptFirst start_disconnected hrun hconnect hsweep).mpr
    (by decide +kernel)

/-- The check finds the session expired; then the client comes back, resumes it and
subscribes; then the purge runs. -/
def purgedLate : List Action :=
  [.tick 60000000000 [0], .sweep] ++ handshake ++
    [.subscribe ⟨str "a/b", 1⟩, .sweep, .sweep, .sweep]

/-- The session of the connected client is gone from the store, and so is its
subscription from the router. -/
theorem sweep_removes_live_session :
    Start returning disconnected ∧ ∃ t, run (step returning) purgedLate disconnected = some t ∧
      t.broker.connect = .connected ∧ t.sweep = .idle ∧ t.broker.sess = some 0 ∧
      (t.broker.sessions.heap 0).connected = true ∧ t.broker.sessions.data.get (str "c1") = none ∧
      t.broker.granted.length = 1 ∧ (t.broker.router.held (str "c1") (str "a/b")).isNone :=
  ⟨start_disconnected, reaches_of_any (step returning) purgedLate disconnected
    (fun t => t.broker.connect = .connected ∧ t.sweep = .idle ∧ t.broker.sess = some 0 ∧
      (t.broker.sessions.heap 0).connected = true ∧ t.broker.sessions.data.get (str "c1") = none ∧
      t.broker.granted.length = 1 ∧ (t.broker.router.held (str "c1") (str "a/b")).isNone)
    (by decide +kernel)⟩

end LumaBroker.Broker.SweepRace
