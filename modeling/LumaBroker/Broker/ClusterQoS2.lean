import LumaBroker.Broker.InboundQoS2

/-!
Inbound QoS 2 on a broker of a cluster. The router of this broker sees a message when its
PUBREL comes, while handlePublish of internal/broker/client.go starts a goroutine that hands
the message to the other brokers for every PUBLISH it accepts. The goroutines run when the
scheduler lets them.
-/

namespace LumaBroker.Broker.ClusterQoS2

open Session Transition InboundQoS2

/-- A goroutine that will hand a message to Redis: the place of its PUBLISH among the packets
handled, and the packet ID. -/
structure Launch where
  position : Nat
  id : UInt16
  msg : Cluster.ClusterMsg

/-- A message handed to Redis, with the number of packets handled by then. -/
structure Emission where
  launch : Launch
  handled : Nat

structure State where
  inbound : InboundQoS2.State
  pending : List Launch
  emitted : List Emission

inductive Event where
  | handle (e : InboundQoS2.Event)
  | publishCluster (j : Nat)

/-- The goroutines that handling an event starts. -/
def launches (env : PublishEnv) (s : InboundQoS2.State) : InboundQoS2.Event → List Launch
  | .publish now pkt =>
      match handlePublish env now pkt s.conn s.sess with
      | some h => h.fanout.map fun msg => ⟨s.history.length, pkt.packetID, msg⟩
      | none => []
  | _ => []

def step (env : PublishEnv) (topicAliasMax : UInt16) (s : State) : Event → Option State
  | .handle e =>
      (InboundQoS2.step env topicAliasMax s.inbound e).map fun t =>
        { s with inbound := t, pending := s.pending ++ launches env s.inbound e }
  | .publishCluster j =>
      s.pending[j]?.map fun l =>
        { s with
          pending := s.pending.eraseIdx j
          emitted := s.emitted ++ [⟨l, s.inbound.history.length⟩] }

/-- A PUBREL of the ID has come after the PUBLISH. -/
def Released (history : List Packet) (l : Launch) : Prop :=
  .pubrel l.id ∈ history.drop (l.position + 1)

instance (history : List Packet) (l : Launch) : Decidable (Released history l) :=
  inferInstanceAs (Decidable (_ ∈ _))

/-- Each exchange that is completed reaches the other brokers once: as often as the router of
this one, when no goroutine is left, and not before its PUBREL. -/
structure OncePerExchange (s : State) : Prop where
  calls : s.inbound.calls = expectedCalls s.inbound.history
  count : s.pending = [] → s.emitted.length = s.inbound.calls.length
  released : ∀ e ∈ s.emitted, Released (s.inbound.history.take e.handled) e.launch

/-- An accepted PUBLISH is the first send of its message, and no goroutine runs before the
PUBREL of its message. -/
def InOrder (env : PublishEnv) (s : State) : Event → Prop
  | .handle (.publish now pkt) =>
      recorded env now pkt s.inbound.conn ≠ [] → s.inbound.sess.getInFlight pkt.packetID = none
  | .publishCluster j => ∀ l ∈ s.pending[j]?, Released s.inbound.history l
  | _ => True

instance decidableInOrder (env : PublishEnv) (s : State) : ∀ e : Event, Decidable (InOrder env s e)
  | .handle (.publish now pkt) =>
      inferInstanceAs (Decidable (recorded env now pkt s.inbound.conn ≠ [] →
        s.inbound.sess.getInFlight pkt.packetID = none))
  | .publishCluster j =>
      inferInstanceAs (Decidable (∀ l ∈ s.pending[j]?, Released s.inbound.history l))
  | .handle (.pubrel _) | .handle (.reconnect _ _) | .handle (.enqueue _) | .handle .write =>
      isTrue trivial

/-- Every message in flight still has its goroutine ahead of it. -/
structure Inv (s : State) : Prop where
  inbound : InboundQoS2.Inv s.inbound
  count : s.emitted.length + s.pending.length =
    s.inbound.calls.length + s.inbound.sess.inFlight.entries.length
  ahead : ∀ id, s.inbound.sess.inFlight.get id ≠ none →
    ∃ l ∈ s.pending, l.id = id ∧ ¬ Released s.inbound.history l
  places : ∀ l ∈ s.pending, l.position < s.inbound.history.length
  emitted : ∀ e ∈ s.emitted, e.handled ≤ s.inbound.history.length ∧
    Released (s.inbound.history.take e.handled) e.launch

theorem inv_once {s : State} (h : Inv s) : OncePerExchange s where
  calls := h.inbound.calls
  count hquiet := by
    have hcount := h.count
    have hempty : s.inbound.sess.inFlight.entries = [] := by
      refine List.eq_nil_iff_forall_not_mem.mpr fun ⟨id, msg⟩ hmem => ?_
      have hget := (FinMap.mem_entries _ id msg).mp hmem
      obtain ⟨l, hl, -⟩ := h.ahead id (by rw [hget]; exact Option.some_ne_none msg)
      rw [hquiet] at hl
      cases hl
    rw [hquiet, hempty] at hcount
    simpa using hcount
  released e he := (h.emitted e he).2

theorem released_append {history : List Packet} {l : Launch} (h : l.position < history.length)
    (p : Packet) : Released (history ++ [p]) l ↔ Released history l ∨ p = .pubrel l.id := by
  rw [Released, Released, List.drop_append_of_le_length h, List.mem_append,
    List.mem_singleton, eq_comm]

section Steps
variable {env : PublishEnv} {topicAliasMax : UInt16} {s t : State}

/-- A packet more on record releases no launch but those of its ID. -/
theorem Inv.append {inbound : InboundQoS2.State} (h : Inv s) {p : Packet}
    (hhistory : inbound.history = s.inbound.history ++ [p]) {l : Launch} (hl : l ∈ s.pending)
    (hrest : ¬ Released s.inbound.history l) (hp : p ≠ .pubrel l.id) :
    ¬ Released inbound.history l := by
  rw [hhistory, released_append (h.places l hl)]
  rintro (hreleased | heq)
  · exact hrest hreleased
  · exact hp heq

theorem Inv.emitted_append (h : Inv s) (ps : List Packet) : ∀ e ∈ s.emitted,
    e.handled ≤ (s.inbound.history ++ ps).length ∧
      Released ((s.inbound.history ++ ps).take e.handled) e.launch := by
  intro e he
  obtain ⟨hle, hreleased⟩ := h.emitted e he
  rw [List.take_append_of_le_length hle]
  exact ⟨hle.trans (by simp), hreleased⟩

theorem Inv.unmoved {inbound : InboundQoS2.State} (h : Inv s) (hinbound : InboundQoS2.Inv inbound)
    (hinFlight : inbound.sess.inFlight = s.inbound.sess.inFlight)
    (hcalls : inbound.calls = s.inbound.calls) (hhistory : inbound.history = s.inbound.history) :
    Inv { s with inbound := inbound } where
  inbound := hinbound
  count := by rw [hcalls, hinFlight]; exact h.count
  ahead := by rw [hinFlight, hhistory]; exact h.ahead
  places := by rw [hhistory]; exact h.places
  emitted := by rw [hhistory]; exact h.emitted

/-- The first send of a message: its goroutine is the last one. -/
theorem Inv.first_send {inbound : InboundQoS2.State} (h : Inv s)
    (hinbound : InboundQoS2.Inv inbound) {id : UInt16} {msg : InFlight} {call : PublishCall}
    (m : Cluster.ClusterMsg) (hfree : s.inbound.sess.inFlight.get id = none)
    (hinFlight : inbound.sess.inFlight = s.inbound.sess.inFlight.set id msg)
    (hcalls : inbound.calls = s.inbound.calls)
    (hhistory : inbound.history = s.inbound.history ++ [.publish id call]) :
    Inv { s with
      inbound := inbound, pending := s.pending ++ [⟨s.inbound.history.length, id, m⟩] } where
  inbound := hinbound
  count := by
    have hperm := (s.inbound.sess.inFlight.entries_set_perm id msg).length_eq
    rw [FinMap.erase_of_get_none hfree, List.length_cons] at hperm
    have hcount := h.count
    simp only [hcalls, hinFlight, List.length_append, List.length_singleton]
    omega
  ahead := by
    intro j hj
    rw [hinFlight] at hj
    by_cases hid : j = id
    · refine ⟨_, List.mem_append_right _ (List.mem_singleton_self _), hid.symm, ?_⟩
      simp [Released, hhistory]
    · rw [FinMap.get_set_ne _ _ hid] at hj
      obtain ⟨l, hl, hlid, hrest⟩ := h.ahead j hj
      exact ⟨l, List.mem_append_left _ hl, hlid, h.append hhistory hl hrest (by simp)⟩
  places := by
    intro l hl
    rw [hhistory, List.length_append, List.length_singleton]
    rcases List.mem_append.mp hl with hl | hl
    · exact Nat.lt_succ_of_lt (h.places l hl)
    · rw [List.mem_singleton.mp hl]
      exact Nat.lt_succ_self _
  emitted := by
    rw [hhistory]
    exact h.emitted_append _

theorem inv_publish {now : Nat} {pkt : PublishPacket} (h : Inv s)
    (henabled : env.clusterEnabled = true) (hok : InOrder env s (.handle (.publish now pkt)))
    (ht : step env topicAliasMax s (.handle (.publish now pkt)) = some t) : Inv t := by
  obtain ⟨u, hu, rfl⟩ := Option.map_eq_some_iff.mp ht
  have hinbound := InboundQoS2.inv_publish h.inbound hu
  simp only [InboundQoS2.step] at hu
  split_ifs at hu with hqos
  have hqos : pkt.qos = 2 := not_not.mp hqos
  obtain ⟨r, hr, rfl⟩ := Option.map_eq_some_iff.mp hu
  have hlaunch : launches env s.inbound (.publish now pkt) =
      r.fanout.map fun msg => ⟨s.inbound.history.length, pkt.packetID, msg⟩ := by
    simp only [launches, hr]
  rw [hlaunch]
  cases recorded_cases hr with
  | inl hnone =>
      obtain ⟨hrecorded, hcalls, hfanout, hsess⟩ := hnone
      rw [hfanout, List.map_nil, List.append_nil]
      exact h.unmoved hinbound (by rw [hsess]) (by simp [hcalls]) (by simp [hrecorded])
  | inr hacc =>
      obtain ⟨topic, c', hacc, rfl⟩ := hacc
      have hrecorded := recorded_of_accepted hacc
      have hfree : s.inbound.sess.inFlight.get pkt.packetID = none := hok (by simp [hrecorded])
      have hstored : (storeInFlight topic now pkt s.inbound.sess).inFlight =
          s.inbound.sess.inFlight.set pkt.packetID (inFlightOf topic now pkt) := by
        simp only [storeInFlight, getInFlight, hfree]
        rfl
      rw [acceptPublish_qos2 hqos, henabled] at hinbound ⊢
      exact h.first_send hinbound _ hfree hstored (List.append_nil _) (congrArg _ hrecorded)

theorem inv_pubrel {id : UInt16} (h : Inv s)
    (ht : step env topicAliasMax s (.handle (.pubrel id)) = some t) : Inv t := by
  simp only [step, InboundQoS2.step, Option.map_some, launches, List.append_nil] at ht
  cases ht
  have hinbound := InboundQoS2.inv_pubrel id h.inbound
  refine ⟨hinbound, ?_, ?_, ?_, h.emitted_append _⟩
  · have hcount := h.count
    cases hget : s.inbound.sess.inFlight.get id with
    | none =>
        simpa [handlePubrel, ackInFlight, hget, FinMap.erase_of_get_none hget] using hcount
    | some msg =>
        have hperm := (FinMap.entries_erase_perm hget).length_eq
        rw [List.length_cons] at hperm
        simp only [handlePubrel, ackInFlight, hget, List.length_append, List.length_singleton]
        omega
  · intro j hj
    simp only [handlePubrel, ackInFlight] at hj
    by_cases hid : j = id
    · rw [hid, FinMap.get_erase_self] at hj
      exact absurd rfl hj
    · rw [FinMap.get_erase_ne _ hid] at hj
      obtain ⟨l, hl, rfl, hrest⟩ := h.ahead j hj
      exact ⟨l, hl, rfl, h.append rfl hl hrest (by simpa using Ne.symm hid)⟩
  · intro l hl
    exact Nat.lt_of_lt_of_le (h.places l hl) (by simp)

/-- A goroutine whose message is released is not one of those that are still ahead. -/
theorem inv_publishCluster {j : Nat} (h : Inv s) (hok : InOrder env s (.publishCluster j))
    (ht : step env topicAliasMax s (.publishCluster j) = some t) : Inv t := by
  obtain ⟨l, hl, rfl⟩ := Option.map_eq_some_iff.mp ht
  have hreleased : Released s.inbound.history l := hok l hl
  obtain ⟨hj, hget⟩ := List.getElem?_eq_some_iff.mp hl
  refine ⟨h.inbound, ?_, ?_, ?_, ?_⟩
  · have hcount := h.count
    simp only [List.length_append, List.length_singleton, List.length_eraseIdx_of_lt hj]
    omega
  · intro id hid
    obtain ⟨l', hl', hlid, hrest⟩ := h.ahead id hid
    refine ⟨l', ?_, hlid, hrest⟩
    obtain ⟨i, hi⟩ := List.mem_iff_getElem?.mp hl'
    refine List.mem_eraseIdx_iff_getElem?.mpr ⟨i, ?_, hi⟩
    rintro rfl
    rw [hl] at hi
    cases hi
    exact hrest hreleased
  · intro l' hl'
    exact h.places l' (List.mem_of_mem_eraseIdx hl')
  · intro e he
    rcases List.mem_append.mp he with he | he
    · exact h.emitted e he
    · rw [List.mem_singleton.mp he]
      exact ⟨Nat.le_refl _, by rw [List.take_length]; exact hreleased⟩

theorem inv_step {e : Event} (henabled : env.clusterEnabled = true) (h : Inv s)
    (hok : InOrder env s e) (ht : step env topicAliasMax s e = some t) : Inv t := by
  cases e with
  | publishCluster j => exact inv_publishCluster h hok ht
  | handle e =>
      cases e with
      | publish now pkt => exact inv_publish h henabled hok ht
      | pubrel id => exact inv_pubrel h ht
      | reconnect now pkt =>
          obtain ⟨u, hu, rfl⟩ := Option.map_eq_some_iff.mp ht
          have hinbound := InboundQoS2.inv_step h.inbound hu
          simp only [InboundQoS2.step, reconnected] at hu
          split_ifs at hu
          cases hu
          have htables :=
            (tables_connectSession pkt now (disconnectSession now s.inbound.sess).1).trans
            (tables_disconnectSession now s.inbound.sess)
          simp only [launches, List.append_nil]
          exact h.unmoved hinbound (congrArg Tables.inFlight htables) rfl rfl
      | enqueue data =>
          simp only [step, InboundQoS2.step, Option.map_some, launches, List.append_nil] at ht
          cases ht
          exact h.unmoved ⟨h.inbound.stored, h.inbound.calls⟩ rfl rfl rfl
      | write =>
          simp only [step, InboundQoS2.step, Option.map_some, launches, List.append_nil] at ht
          cases ht
          exact h.unmoved ⟨h.inbound.stored, h.inbound.calls⟩ rfl rfl rfl

end Steps

structure Start (s : State) : Prop where
  inbound : InboundQoS2.Start s.inbound
  pending : s.pending = []
  emitted : s.emitted = []

theorem inv_start {s : State} (h : Start s) : Inv s where
  inbound := InboundQoS2.inv_start h.inbound
  count := by
    rw [h.pending, h.emitted, h.inbound.calls, h.inbound.inFlight]
    rfl
  ahead id hid := by
    rw [h.inbound.inFlight] at hid
    exact absurd rfl hid
  places := by simp [h.pending]
  emitted := by simp [h.emitted]

/-- If every accepted PUBLISH is a first send and every goroutine comes after the PUBREL, each
completed exchange reaches the other brokers once. -/
theorem fanout_once_per_exchange (env : PublishEnv) (topicAliasMax : UInt16) (s t : State)
    (events : List Event) (henabled : env.clusterEnabled = true) (hstart : Start s)
    (hok : Meets (step env topicAliasMax) (InOrder env) events s)
    (hrun : run (step env topicAliasMax) events s = some t) : OncePerExchange t :=
  inv_once (invariant_run (fun _ _ _ h hok ht => inv_step henabled h hok ht)
    (inv_start hstart) hok hrun)

def clusterBroker : PublishEnv := { openBroker with clusterEnabled := true }

def sampleStart : State := ⟨justConnected, [], []⟩

theorem start_sampleStart : Start sampleStart := ⟨start_justConnected, rfl, rfl⟩

/-- The goroutine runs after the PUBREL. -/
def lateFanout : List Event :=
  [.handle (.publish 0 (reading false [1])), .handle (.pubrel 7), .publishCluster 0]

theorem fanout_once_late :
    ∃ t, run (step clusterBroker 0) lateFanout sampleStart = some t ∧ t.pending = [] ∧
      t.emitted.length = 1 ∧ OncePerExchange t := by
  obtain ⟨t, hrun, hpending, hlength⟩ :=
    reaches_of_any (step clusterBroker 0) lateFanout sampleStart
    (fun t => t.pending.length = 0 ∧ t.emitted.length = 1) (by decide +kernel)
  exact ⟨t, hrun, List.eq_nil_of_length_eq_zero hpending, hlength,
    fanout_once_per_exchange clusterBroker 0 sampleStart t lateFanout rfl start_sampleStart
      (by decide +kernel) hrun⟩

/-- A message that is sent, sent again with DUP and released, where every goroutine runs at once. -/
def resent : List Event :=
  [.handle (.publish 0 (reading false [1])), .publishCluster 0,
    .handle (.publish 1 (reading true [1])), .publishCluster 0, .handle (.pubrel 7)]

/-- The other brokers get it twice, for the first time before its PUBREL, and the router once. -/
theorem resend_fanned_out_twice :
    ∃ t, run (step clusterBroker 0) resent sampleStart = some t ∧ t.pending.length = 0 ∧
      t.emitted.length = 2 ∧ t.inbound.calls.length = 1 ∧
      t.emitted.head?.map Emission.handled = some 1 ∧
      .pubrel 7 ∉ t.inbound.history.take 1 :=
  reaches_of_any (step clusterBroker 0) resent sampleStart
    (fun t => t.pending.length = 0 ∧ t.emitted.length = 2 ∧ t.inbound.calls.length = 1 ∧
      t.emitted.head?.map Emission.handled = some 1 ∧ .pubrel 7 ∉ t.inbound.history.take 1)
        (by decide +kernel)

end LumaBroker.Broker.ClusterQoS2
