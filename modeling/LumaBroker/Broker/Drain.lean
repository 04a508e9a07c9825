import LumaBroker.Broker.Deliver
import LumaBroker.Broker.Routed
import LumaBroker.Lib.History
import LumaBroker.Session.ReceiveMaximum

/-!
Draining the offline queue. drainOfflineQueue of internal/broker/client.go takes the whole
queue of the session and hands its messages to the closure of the new connection, which may
put a message back onto the queue that was just emptied. Alone, with room in the write queue
and with packet IDs left, each message has one of two fates, and the order of the queue is
kept on both sides.
-/

namespace LumaBroker.Broker

open Session Transition

/-- One turn of the loop. -/
def drainTurn (now : Nat) (st : Conn × Session) (m : Queued) : Option (Conn × Session) :=
  (deliver now m st.1 st.2).map fun r => (r.conn, r.sess)

/-- drainOfflineQueue on a connection with this session; none if a call does not return. -/
def drainOfflineQueue (now : Nat) (c : Conn) (s : Session) : Option (Conn × Session) :=
  let (s, msgs) := s.drainQueue
  run (drainTurn now) msgs (c, s)

/-- What becomes of a message: it is sent, with a packet ID, or goes back to the queue because
of its size or because of the Receive Maximum. -/
inductive Fate where
  | sent (pid : UInt16)
  | tooBig
  | windowFull
  deriving DecidableEq

namespace Fate

def packet (version : UInt8) (m : Queued) : Fate → Option Outbound
  | .sent pid => some (.publish version m.topic m.payload m.qos m.retain pid)
  | _ => none

def kept (m : Queued) : Fate → Option Queued
  | .sent _ => none
  | _ => some m

/-- The entry of the in-flight table for a message that is sent with QoS 1 or 2. -/
def tracked (now : Nat) (m : Queued) : Fate → Option (UInt16 × InFlight)
  | .sent pid =>
      if m.qos = 0 then none
      else some (pid, ⟨pid, m.topic, m.payload, m.qos, m.retain, now, .published⟩)
  | _ => none

end Fate

/-- So many packet IDs are not in use. -/
def FreeIDs (s : Session) (n : Nat) : Prop :=
  ∃ ids : List UInt16, ids.Nodup ∧ n ≤ ids.length ∧ ∀ id ∈ ids, id ≠ 0 ∧ s.outFlight.get id = none

/-- The size that the closure compares with the maximum packet size of the client. -/
def approxBytes (c : Conn) (m : Queued) : Nat :=
  approxClientOutboundPublishBytes c.version m.topic m.payload.length m.qos

/-- A call of the closure that drops nothing, by the fate of its message. -/
inductive Settled (now : Nat) (m : Queued) (c : Conn) (s : Session) :
    Fate → Conn → Session → Prop where
  | tooBig (hmax : c.peerMaxPacketSize > 0) (hsize : c.peerMaxPacketSize.toNat < approxBytes c m) :
      Settled now m c s .tooBig c { s with queue := s.queue ++ [m] }
  | untracked (hqos : m.qos = 0) :
      Settled now m c s (.sent 0)
        { c with writeQ := c.writeQ ++ [.publish c.version m.topic m.payload m.qos m.retain 0] } s
  | windowFull (n : UInt32) (hqos : m.qos ≠ 0) (hlim : recvLim c > 0)
      (hfull : (recvLim c).toNat ≤ inFlightCount s) :
      Settled now m c s .windowFull c { s with nextPktID := n, queue := s.queue ++ [m] }
  | tracked (pid : UInt16) (n : UInt32) (hqos : m.qos ≠ 0) (hne : pid ≠ 0)
      (hfree : s.outFlight.get pid = none) :
      Settled now m c s (.sent pid)
        { c with writeQ := c.writeQ ++ [.publish c.version m.topic m.payload m.qos m.retain pid] }
        { s with
          nextPktID := n
          outFlight :=
            s.outFlight.set pid ⟨pid, m.topic, m.payload, m.qos, m.retain, now, .published⟩ }

/-- The packets of the messages that are sent, in order. -/
def sentPackets (version : UInt8) (fates : List (Queued × Fate)) : List Outbound :=
  fates.filterMap fun e => e.2.packet version e.1

/-- The messages that go back, in order. -/
def keptBack (fates : List (Queued × Fate)) : List Queued := fates.filterMap fun e => e.2.kept e.1

def newEntries (now : Nat) (fates : List (Queued × Fate)) : List (UInt16 × InFlight) :=
  fates.filterMap fun e => e.2.tracked now e.1

/-- What the drain leaves behind when these are the fates of its messages. -/
structure Drained (now : Nat) (c : Conn) (s : Session) (fates : List (Queued × Fate)) (c' : Conn)
    (s' : Session) : Prop where
  sent : c' = { c with writeQ := c.writeQ ++ sentPackets c.version fates }
  queue : s'.queue = s.queue ++ keptBack fates
  /-- The new entries of the in-flight table are the messages sent with QoS 1 or 2. -/
  outFlight : ∀ id msg, s'.outFlight.get id = some msg ↔
    s.outFlight.get id = some msg ∨ (id, msg) ∈ newEntries now fates
  distinct : ((newEntries now fates).map Prod.fst).Nodup
  fresh : ∀ e ∈ newEntries now fates, e.1 ≠ 0 ∧ s.outFlight.get e.1 = none
  count : inFlightCount s' = inFlightCount s + (newEntries now fates).length
  rest : s' = { s with nextPktID := s'.nextPktID, outFlight := s'.outFlight, queue := s'.queue }
  size : ∀ m, (m, Fate.tooBig) ∈ fates →
    c.peerMaxPacketSize > 0 ∧ c.peerMaxPacketSize.toNat < approxBytes c m
  /-- The count had reached the Receive Maximum when a message was kept back for it. -/
  window : History.Each (fun before e => e.2 = Fate.windowFull → e.1.qos ≠ 0 ∧ recvLim c > 0 ∧
    (recvLim c).toNat ≤ inFlightCount s + (newEntries now before).length) fates

section Call
variable {now : Nat} {m : Queued} {c : Conn} {s : Session}

theorem enqueue_of_room (hstate : c.state = .connected) (hroom : c.writeQ.length < c.writeQueueSize)
    (data : Outbound) : c.enqueue data = { c with writeQ := c.writeQ ++ [data] } := by
  rw [Conn.enqueue, if_pos]
  refine ⟨?_, hroom⟩
  rw [hstate]
  decide

theorem enqueue_of_fits (hclean : s.cleanSession = false) (hfits : s.queue.length < s.maxQueue)
    (m : Queued) : (s.enqueue m).1 = { s with queue := s.queue ++ [m] } := by
  have hfull : ¬ s.queue.length ≥ s.maxQueue := Nat.not_le.mpr hfits
  rw [Session.enqueue_of_persistent hclean, if_neg hfull]

/-- The conversion to uint32 makes a size no larger. -/
theorem lt_of_lt_ofNat {max : UInt32} {n : Nat} (h : UInt32.ofNat n > max) : max.toNat < n := by
  have hlt : max.toNat < (UInt32.ofNat n).toNat := UInt32.lt_iff_toNat_lt.mp h
  rw [UInt32.toNat_ofNat'] at hlt
  exact Nat.lt_of_lt_of_le hlt (Nat.mod_le _ _)

theorem deliver_settled (hstate : c.state = .connected) (hroom : c.writeQ.length < c.writeQueueSize)
    (hclean : s.cleanSession = false) (hfits : s.queue.length < s.maxQueue) {id : UInt16}
    (hid : id ≠ 0) (hfree : s.outFlight.get id = none) (now : Nat) (m : Queued) :
    ∃ fate r, deliver now m c s = some r ∧ Settled now m c s fate r.conn r.sess := by
  have hopen : ¬ c.state ≠ .connected := not_not.mpr hstate
  simp only [deliver, if_neg hopen]
  split_ifs with hsize hqos
  · refine ⟨.tooBig, _, rfl, ?_⟩
    rw [qEnqueue, enqueue_of_fits hclean hfits]
    exact .tooBig hsize.1 (lt_of_lt_ofNat hsize.2)
  · refine ⟨.sent 0, _, rfl, ?_⟩
    simp only [sendPublish, enqueue_of_room hstate hroom]
    exact .untracked hqos
  · obtain ⟨⟨pid, s₁⟩, hnext⟩ := Option.isSome_iff_exists.mp (nextPacketID_isSome hid hfree)
    obtain ⟨hpid, n, rfl⟩ := nextPacketID_spec hnext
    have hne : pid ≠ 0 := nextPacketIDFrom_ne_zero hnext
    simp only [hnext, Option.map_some]
    simp only [sendTracked, addOutFlightLimited, hqos, if_false]
    split_ifs with hfull
    · refine ⟨.windowFull, _, rfl, ?_⟩
      have henqueue := @enqueue_of_fits { s with nextPktID := n } hclean hfits m
      simp only [qEnqueue, henqueue]
      exact .windowFull n hqos hfull.1 hfull.2
    · refine ⟨.sent pid, _, rfl, ?_⟩
      simp only [sendPublish, enqueue_of_room hstate hroom]
      exact .tracked pid n hqos hne hpid

end Call

section Loop
variable {now : Nat} {m : Queued} {fate : Fate} {c c₁ c' : Conn} {s s₁ s' : Session}
  {fates fates' : List (Queued × Fate)}

theorem inFlightCount_tracked {pid : UInt16} (hfree : s.outFlight.get pid = none) {msg : InFlight}
    (hqos : msg.qos ≠ 0) (n : UInt32) :
    inFlightCount { s with nextPktID := n, outFlight := s.outFlight.set pid msg } =
      inFlightCount s + 1 := by
  have hset := inFlightCount_set hfree msg
  rw [if_pos (qos_pos_iff.mpr hqos)] at hset
  exact hset

theorem drained_nil (now : Nat) (c : Conn) (s : Session) : Drained now c s [] c s where
  sent := by simp [sentPackets]
  queue := (List.append_nil _).symm
  outFlight _ _ := by simp [newEntries]
  distinct := List.nodup_nil
  fresh _ h := absurd h List.not_mem_nil
  count := rfl
  rest := rfl
  size _ h := absurd h List.not_mem_nil
  window := History.each_nil _

/-- A single call. -/
theorem Settled.drained (h : Settled now m c s fate c₁ s₁) : Drained now c s [(m, fate)] c₁ s₁ := by
  cases h with
  | tooBig hmax hsize =>
      refine ⟨by simp [sentPackets, Fate.packet], rfl, by simp [newEntries, Fate.tracked],
        List.nodup_nil, fun _ he => absurd he List.not_mem_nil, rfl, rfl, ?_, ?_⟩
      · intro m' hm'
        cases List.mem_singleton.mp hm'
        exact ⟨hmax, hsize⟩
      · exact History.each_singleton.mpr Fate.noConfusion
  | untracked hqos =>
      have hnew : newEntries now [(m, .sent 0)] = [] := by simp [newEntries, Fate.tracked, hqos]
      refine ⟨rfl, (List.append_nil _).symm, by simp [hnew], by simp [hnew], by simp [hnew],
        by simp [hnew], rfl, by simp, ?_⟩
      exact History.each_singleton.mpr Fate.noConfusion
  | windowFull n hqos hlim hfull =>
      refine ⟨by simp [sentPackets, Fate.packet], rfl, by simp [newEntries, Fate.tracked],
        List.nodup_nil, fun _ he => absurd he List.not_mem_nil, rfl, rfl, by simp, ?_⟩
      exact History.each_singleton.mpr fun _ => ⟨hqos, hlim, hfull⟩
  | tracked pid n hqos hne hfree =>
      have hnew : newEntries now [(m, .sent pid)] =
          [(pid, ⟨pid, m.topic, m.payload, m.qos, m.retain, now, .published⟩)] := by
        simp [newEntries, Fate.tracked, hqos]
      refine ⟨rfl, (List.append_nil _).symm, ?_, by simp [hnew], by simpa [hnew] using ⟨hne, hfree⟩,
        by rw [hnew]; exact inFlightCount_tracked hfree hqos n, rfl, by simp, ?_⟩
      · intro id msg
        rw [hnew, FinMap.get_set, List.mem_singleton, Prod.mk.injEq]
        by_cases hid : id = pid
        · subst hid
          simp [hfree, eq_comm]
        · simp [hid]
      · exact History.each_singleton.mpr Fate.noConfusion

/-- One stretch of the loop after another. -/
theorem Drained.trans (h : Drained now c s fates c₁ s₁) (h' : Drained now c₁ s₁ fates' c' s') :
    Drained now c s (fates ++ fates') c' s' := by
  have hconn := h.sent
  have hnew : newEntries now (fates ++ fates') = newEntries now fates ++ newEntries now fates' :=
    List.filterMap_append
  have hbytes (m : Queued) : approxBytes c₁ m = approxBytes c m := by rw [hconn]; rfl
  have hlim : recvLim c₁ = recvLim c := by rw [hconn]; rfl
  refine ⟨?_, ?_, ?_, ?_, ?_, ?_, ?_, ?_, ?_⟩
  · rw [h'.sent, hconn]
    simp [sentPackets, List.append_assoc]
  · rw [h'.queue, h.queue, keptBack, keptBack, keptBack, List.filterMap_append, List.append_assoc]
  · intro id msg
    rw [h'.outFlight, h.outFlight, hnew, List.mem_append, or_assoc]
  · rw [hnew, List.map_append]
    refine List.nodup_append.mpr ⟨h.distinct, h'.distinct, fun id hid id' hid' heq => ?_⟩
    obtain ⟨e, he, rfl⟩ := List.mem_map.mp hid
    obtain ⟨e', he', rfl⟩ := List.mem_map.mp hid'
    have hused := (h.outFlight e.1 e.2).mpr (.inr he)
    rw [heq, (h'.fresh e' he').2] at hused
    cases hused
  · intro e he
    rw [hnew] at he
    rcases List.mem_append.mp he with he | he
    · exact h.fresh e he
    · refine ⟨(h'.fresh e he).1, ?_⟩
      cases hget : s.outFlight.get e.1 with
      | none => rfl
      | some msg =>
          have hused := (h.outFlight e.1 msg).mpr (.inl hget)
          rw [(h'.fresh e he).2] at hused
          cases hused
  · rw [h'.count, h.count, hnew, List.length_append, Nat.add_assoc]
  · rw [h'.rest, h.rest]
  · intro m hm
    rcases List.mem_append.mp hm with hm | hm
    · exact h.size m hm
    · have hsize := h'.size m hm
      rw [hbytes, hconn] at hsize
      exact hsize
  · refine History.each_append.mpr ⟨h.window, fun before e after heq hfull => ?_⟩
    have hwindow := h'.window before e after heq hfull
    rw [hlim, h.count] at hwindow
    rw [newEntries, List.filterMap_append, List.length_append, ← Nat.add_assoc]
    exact hwindow

theorem FreeIDs.exists {n : Nat} (h : FreeIDs s (n + 1)) :
    ∃ id, id ≠ 0 ∧ s.outFlight.get id = none := by
  obtain ⟨ids, -, hlen, hids⟩ := h
  cases ids with
  | nil => cases hlen
  | cons id ids => exact ⟨id, hids id List.mem_cons_self⟩

/-- A call uses one packet ID at most. -/
theorem FreeIDs.settled {n : Nat} (h : FreeIDs s (n + 1)) (hset : Settled now m c s fate c₁ s₁) :
    FreeIDs s₁ n := by
  obtain ⟨ids, hnodup, hlen, hids⟩ := h
  cases hset with
  | tooBig | untracked | windowFull => exact ⟨ids, hnodup, by omega, hids⟩
  | tracked pid n' hqos hne hfree =>
      refine ⟨ids.erase pid, hnodup.erase pid, ?_, fun id hid => ?_⟩
      · have herase := List.length_erase (a := pid) (l := ids)
        split_ifs at herase <;> omega
      · obtain ⟨hidne, hid⟩ := hnodup.mem_erase_iff.mp hid
        refine ⟨(hids id hid).1, ?_⟩
        rw [FinMap.get_set_ne _ _ hidne]
        exact (hids id hid).2

/-- Room for so many messages, wherever they go. -/
structure Roomy (c : Conn) (s : Session) (n : Nat) : Prop where
  connected : c.state = .connected
  writeQ : c.writeQ.length + n ≤ c.writeQueueSize
  persistent : s.cleanSession = false
  queue : s.queue.length + n ≤ s.maxQueue
  ids : FreeIDs s n

theorem Roomy.settled {n : Nat} (h : Roomy c s (n + 1)) (hset : Settled now m c s fate c₁ s₁) :
    Roomy c₁ s₁ n := by
  have hids := h.ids.settled hset
  have hwrite := h.writeQ
  have hqueue := h.queue
  cases hset with
  | tooBig | windowFull =>
      refine ⟨h.connected, Nat.le_of_succ_le h.writeQ, h.persistent, ?_, hids⟩
      simp only [List.length_append, List.length_singleton]
      omega
  | untracked | tracked =>
      refine ⟨h.connected, ?_, h.persistent, Nat.le_of_succ_le h.queue, hids⟩
      simp only [List.length_append, List.length_singleton]
      omega

/-- The invariant of the loop: room for the messages to come. -/
theorem exists_drained (now : Nat) (msgs : List Queued) (h : Roomy c s msgs.length) :
    ∃ fates c' s', run (drainTurn now) msgs (c, s) = some (c', s') ∧ fates.map Prod.fst = msgs ∧
      Drained now c s fates c' s' := by
  induction msgs generalizing c s with
  | nil => exact ⟨[], c, s, rfl, rfl, drained_nil now c s⟩
  | cons m msgs ih =>
      obtain ⟨id, hid, hfree⟩ := h.ids.exists
      have hwrite := h.writeQ
      have hqueue := h.queue
      rw [List.length_cons] at hwrite hqueue
      obtain ⟨fate, r, hdeliver, hset⟩ :=
        deliver_settled h.connected (by omega) h.persistent (by omega) hid hfree now m
      obtain ⟨fates, c', s', hrun, hfates, hdrained⟩ := ih (h.settled hset)
      refine ⟨(m, fate) :: fates, c', s', ?_, ?_, hset.drained.trans hdrained⟩
      · rw [run, drainTurn, hdeliver, Option.map_some, Option.bind_some, hrun]
      · rw [List.map_cons, hfates]

end Loop

section Bound

/-- The functions of the session that change its queue. -/
inductive QueueOp where
  | enqueue (m : Queued)
  | drainQueue

def QueueOp.exec (s : Session) : QueueOp → Session
  | .enqueue m => (s.enqueue m).1
  | .drainQueue => s.drainQueue.1

theorem length_enqueue_le {s : Session} (hmax : 1 ≤ s.maxQueue)
    (hfits : s.queue.length ≤ s.maxQueue) (m : Queued) :
    (s.enqueue m).1.queue.length ≤ s.maxQueue := by
  cases hclean : s.cleanSession with
  | true =>
      rw [Session.enqueue_of_clean hclean]
      exact hfits
  | false =>
      rw [Session.enqueue_of_persistent hclean]
      simp only [List.length_append, List.length_singleton]
      split
      · rw [List.length_tail]
        omega
      · omega

/-- A queue never outgrows its maximum: Enqueue drops the oldest message first. -/
theorem queue_fits (clientID : GoString) (clean : Bool) (now : Nat) (ops : List QueueOp) :
    let s := ops.foldl QueueOp.exec (Session.new clientID clean now)
    s.maxQueue = defaultMaxQueue ∧ s.queue.length ≤ s.maxQueue := by
  have hrun (s : Session) (hmax : s.maxQueue = defaultMaxQueue)
      (hfits : s.queue.length ≤ s.maxQueue) :
      (ops.foldl QueueOp.exec s).maxQueue = defaultMaxQueue ∧
        (ops.foldl QueueOp.exec s).queue.length ≤ (ops.foldl QueueOp.exec s).maxQueue := by
    induction ops generalizing s with
    | nil => exact ⟨hmax, hfits⟩
    | cons op ops ih =>
        cases op with
        | drainQueue => exact ih _ hmax (Nat.zero_le _)
        | enqueue m =>
            have hsame : (s.enqueue m).1.maxQueue = s.maxQueue :=
              Session.apply_enqueue Session.maxQueue (fun _ _ => rfl) m s
            have hle : (s.enqueue m).1.queue.length ≤ s.maxQueue :=
              length_enqueue_le (by rw [hmax]; decide) hfits m
            exact ih _ (hsame.trans hmax) (hsame.symm ▸ hle)
  exact hrun _ rfl (Nat.zero_le _)

end Bound

section Broker
variable {i : Nat} {p : Ptr}

/-- The broker with this connection and this session in the places of a client. -/
def withDrained (i : Nat) (p : Ptr) (b : BrokerState) (st : Conn × Session) : BrokerState :=
  (b.modifySession p fun _ => st.2).setClient i { b.conns i with conn := st.1 }

theorem runDelivery_withDrained {b : BrokerState} (hsess : (b.conns i).sess = some p) (now : Nat)
    (st : Conn × Session) (m : Queued) (cid : GoString) :
    BrokerState.runDelivery now (withDrained i p b st)
      ⟨cid, i, m.topic, m.payload, m.qos, m.retain, 0⟩ =
      (drainTurn now st m).map (withDrained i p b) := by
  have hconn : (withDrained i p b st).conns i = { b.conns i with conn := st.1 } :=
    BrokerState.conns_setClient_self ..
  have hheap : (withDrained i p b st).sessions.heap p = st.2 := Function.update_self ..
  simp only [BrokerState.runDelivery, hconn, hsess, hheap, drainTurn, Option.map_map]
  congr 1
  funext r
  simp [withDrained, BrokerState.modifySession, BrokerState.setClient, Store.modify,
    Function.update_idem, hsess]

/-- The goroutine of a connection in the broker does this to its connection and its session,
and nothing else. -/
theorem drainOfflineQueue_broker {b : BrokerState} (hsess : (b.conns i).sess = some p) (now : Nat) :
    Routed.drainOfflineQueue now i b =
      (drainOfflineQueue now (b.conns i).conn (b.sessions.heap p)).map (withDrained i p b) := by
  have hrun (msgs : List Queued) (st : Conn × Session) :
      run (BrokerState.runDelivery now) (msgs.map fun m =>
          ⟨(b.conns i).conn.clientID, i, m.topic, m.payload, m.qos, m.retain, 0⟩)
            (withDrained i p b st) =
        (run (drainTurn now) msgs st).map (withDrained i p b) := by
    induction msgs generalizing st with
    | nil => rfl
    | cons m msgs ih =>
        rw [List.map_cons, run, runDelivery_withDrained hsess, run]
        cases drainTurn now st m with
        | none => rfl
        | some st' => exact ih st'
  have hstart : withDrained i p b ((b.conns i).conn, { b.sessions.heap p with queue := [] }) =
      b.modifySession p fun _ => { b.sessions.heap p with queue := [] } := by
    simp [withDrained, BrokerState.setClient, BrokerState.modifySession, Function.update_eq_self]
  rw [Routed.drainOfflineQueue, hsess]
  exact (congrArg _ hstart.symm).trans (hrun _ _)

end Broker

/-- Alone, on a connected client with room in its write queue and with packet IDs for all
messages, the drain gives each message of the queue its fate: the packets that are sent and the
queue that is left partition the old queue, in its order. -/
theorem drain_partitions_queue (now : Nat) (c : Conn) (s : Session)
    (hpersistent : s.cleanSession = false) (hconnected : c.state = .connected)
    (hroom : c.writeQ.length + s.queue.length ≤ c.writeQueueSize) (hids : FreeIDs s s.queue.length)
    (hqueue : s.queue.length ≤ s.maxQueue) :
    ∃ fates c' s', drainOfflineQueue now c s = some (c', s') ∧ fates.map Prod.fst = s.queue ∧
      Drained now c { s with queue := [] } fates c' s' := by
  refine exists_drained now s.queue ⟨hconnected, hroom, hpersistent, ?_, hids⟩
  rw [List.length_nil, Nat.zero_add]
  exact hqueue

/-- Under a Receive Maximum of 1, and with a message that is too big. -/
def drainingConn : Conn :=
  ⟨str "c1", Protocol.v50, .connected, [], 8, FinMap.empty, 1, 20, 0⟩

def queuedSession : Session :=
  { Session.new (str "c1") false 0 with
    queue := [⟨str "t", [1], 1, false⟩, ⟨str "t", [2], 2, false⟩, ⟨str "t", [3], 0, false⟩,
      ⟨str "t", List.replicate 40 0, 0, false⟩] }

theorem drain_partitions_queue_sample :
    ∃ fates c' s', drainOfflineQueue 5 drainingConn queuedSession = some (c', s') ∧
    fates.map Prod.fst = queuedSession.queue ∧ c'.writeQ = sentPackets Protocol.v50 fates ∧
      s'.queue = keptBack fates := by
  have hfree : ∀ id ∈ ([1, 2, 3, 4] : List UInt16), id ≠ 0 := by simp
  obtain ⟨fates, c', s', hrun, hfates, hdrained⟩ :=
    drain_partitions_queue 5 drainingConn queuedSession rfl rfl
    (by decide) ⟨[1, 2, 3, 4], by decide, by decide, fun id hid => ⟨hfree id hid, rfl⟩⟩ (by decide)
  refine ⟨fates, c', s', hrun, hfates, ?_, hdrained.queue⟩
  rw [hdrained.sent]
  rfl

end LumaBroker.Broker
