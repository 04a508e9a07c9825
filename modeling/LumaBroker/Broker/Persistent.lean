import LumaBroker.Broker.Deliver

/-!
A persistent session through any number of connections. Every message that a delivery
closure was called with, and that has neither been acknowledged nor dropped from a full
offline queue, is accounted for: it is in the queue, in the in-flight table, or in the
hands of a drain that has not finished. Nothing takes a message out of the in-flight
table again but an acknowledgment.
-/

namespace LumaBroker.Broker.Persistent

open Session Transition

/-- A connection of the session, and how far its drainOfflineQueue has come: not started
when drained is false, else with these messages still to deliver. -/
structure Link where
  conn : Conn
  drained : Bool
  draining : List Queued

/-- The logs record the messages closures were called with, those acknowledged and those
evicted, and each PUBLISH passed to the write queue of a connection. -/
structure State where
  links : List Link
  sess : Session
  delivered : List Queued
  acked : List Queued
  evicted : List Queued
  handed : List (Nat × Outbound)

inductive Event where
  | connect (now : Nat) (pkt : ConnectPacket)
  | handleDisconnect (expiry : Option UInt32)
  | disconnect (i now : Nat)
  | deliver (i now : Nat) (m : Queued)
  | drainQueue (i : Nat)
  | drainNext (i now : Nat)
  | write (i : Nat)
  | ack (id : UInt16)
  | pubrec (id : UInt16)

/-- The parameters of the server's configuration. -/
structure Config where
  clientID : GoString
  writeQueueSize : Nat
  topicAliasMax : UInt16

/-- The closure of a connection is called; drain says what is left of its drain. -/
def callClosure (i now : Nat) (m : Queued) (l : Link) (drain : List Queued) (s : State) :
    Option State :=
  (Broker.deliver now m l.conn s.sess).map fun r =>
    { s with
      links := s.links.set i { l with conn := r.conn, draining := drain }
      sess := r.sess
      evicted := s.evicted ++ r.evicted
      handed := s.handed ++ r.handed.map fun p => (i, p) }

/-- A clean CONNECT and a disconnect that purges do not resume the session. -/
def step (cfg : Config) (s : State) : Event → Option State
  | .connect now pkt =>
      if pkt.cleanSession then none
      else
        let conn := pkt.newConn cfg.clientID cfg.writeQueueSize cfg.topicAliasMax !s.links.isEmpty
        some { s with
          links := s.links ++ [⟨conn, false, []⟩], sess := pkt.connectSession now s.sess }
  | .handleDisconnect expiry => some { s with sess := Broker.handleDisconnect expiry s.sess }
  | .disconnect i now =>
      s.links[i]?.bind fun l =>
        if (disconnectSession now s.sess).2 then none
        else
          some { s with
            links := s.links.set i { l with conn := { l.conn with state := .closed } }
            sess := (disconnectSession now s.sess).1 }
  | .deliver i now m =>
      s.links[i]?.bind fun l =>
        (callClosure i now m l l.draining s).map fun t => { t with delivered := t.delivered ++ [m] }
  | .drainQueue i =>
      s.links[i]?.bind fun l =>
        if l.drained then none
        else
          let (sess, msgs) := s.sess.drainQueue
          some { s with
            links := s.links.set i { l with drained := true, draining := msgs }, sess := sess }
  | .drainNext i now =>
      s.links[i]?.bind fun l =>
        match l.draining with
        | [] => none
        | m :: rest => callClosure i now m l rest s
  | .write i =>
      s.links[i]?.map fun l => { s with links := s.links.set i { l with conn := l.conn.write } }
  | .ack id =>
      let (sess, msg) := s.sess.ackOutFlight id
      some { s with sess := sess, acked := s.acked ++ (msg.map ofInFlight).toList }
  | .pubrec id => some { s with sess := s.sess.setOutFlightPhase id .received }

/-- The messages that drains have taken and not yet delivered. -/
def inDrains (links : List Link) : List Queued := links.flatMap Link.draining

/-- A new persistent session. -/
structure Start (s : State) : Prop where
  persistent : s.sess.cleanSession = false
  outFlight : s.sess.outFlight = FinMap.empty
  queue : s.sess.queue = []
  links : s.links = []
  logs : s.delivered = [] ∧ s.acked = [] ∧ s.evicted = [] ∧ s.handed = []

structure Inv (s : State) : Prop where
  persistent : s.sess.cleanSession = false
  undrained : ∀ l ∈ s.links, l.drained = false → l.draining = []
  count : ∀ m : Queued, m.qos ≠ 0 → s.delivered.count m =
    s.acked.count m + s.evicted.count m + held s.sess m + (inDrains s.links).count m
  handed : ∀ id msg, s.sess.outFlight.get id = some msg →
    ∃ i version, i < s.links.length ∧
      (i, Outbound.publish version msg.topic msg.payload msg.qos msg.retain id) ∈ s.handed

theorem inv_start {s : State} (h : Start s) : Inv s := by
  obtain ⟨hdelivered, hacked, hevicted, _⟩ := h.logs
  refine ⟨h.persistent, ?_, ?_, ?_⟩
  · simp [h.links]
  · intro m _
    simp [hdelivered, hacked, hevicted, held, h.queue, inFlightMessages, h.outFlight, h.links,
      inDrains, FinMap.empty]
  · intro id msg hmsg
    rw [h.outFlight] at hmsg
    cases hmsg

theorem count_inDrains_set {links : List Link} {i : Nat} {l : Link} (hl : links[i]? = some l)
    (l' : Link) (m : Queued) :
    (inDrains (links.set i l')).count m + l.draining.count m =
      (inDrains links).count m + l'.draining.count m := by
  induction links generalizing i with
  | nil => cases hl
  | cons a links ih =>
      cases i with
      | zero =>
          cases hl
          simp only [List.set_cons_zero, inDrains, List.flatMap_cons, List.count_append]
          omega
      | succ i =>
          have hrest := ih hl
          simp only [inDrains] at hrest
          simp only [List.set_cons_succ, inDrains, List.flatMap_cons, List.count_append]
          omega

theorem undrained_set {links : List Link} {i : Nat} {l' : Link}
    (h : ∀ l ∈ links, l.drained = false → l.draining = [])
    (hl' : l'.drained = false → l'.draining = []) :
    ∀ l ∈ links.set i l', l.drained = false → l.draining = [] := by
  intro l hl
  cases List.mem_or_eq_of_mem_set hl with
  | inl hmem => exact h l hmem
  | inr heq => exact heq ▸ hl'

theorem inv_unmoved {s : State} (h : Inv s) {links : List Link} {sess : Session}
    (htables : tables sess = tables s.sess)
    (hundrained : ∀ l ∈ links, l.drained = false → l.draining = [])
    (hdrains : ∀ m, (inDrains links).count m = (inDrains s.links).count m)
    (hlength : s.links.length ≤ links.length) :
    Inv { s with links := links, sess := sess } := by
  have hflight : sess.outFlight = s.sess.outFlight := congrArg Tables.outFlight htables
  have hqueue : sess.queue = s.sess.queue := congrArg Tables.queue htables
  have hheld (m : Queued) : held sess m = held s.sess m := by
    simp only [held, inFlightMessages, hflight, hqueue]
  refine ⟨(congrArg Tables.cleanSession htables).trans h.persistent, hundrained, ?_, ?_⟩
  · intro m hm
    change s.delivered.count m =
      s.acked.count m + s.evicted.count m + held sess m + (inDrains links).count m
    rw [hheld, hdrains]
    exact h.count m hm
  · intro id msg hmsg
    obtain ⟨i, version, hi, hmem⟩ := h.handed id msg (hflight ▸ hmsg)
    exact ⟨i, version, Nat.lt_of_lt_of_le hi hlength, hmem⟩

theorem inv_set_link {s : State} (h : Inv s) {i : Nat} {l : Link} (hl : s.links[i]? = some l)
    (conn : Conn) {sess : Session} (htables : tables sess = tables s.sess) :
    Inv { s with links := s.links.set i { l with conn := conn }, sess := sess } := by
  refine inv_unmoved h htables ?_ ?_ (Nat.le_of_eq List.length_set.symm)
  · exact undrained_set h.undrained (h.undrained l (List.mem_of_getElem? hl))
  · intro m
    exact Nat.add_right_cancel (count_inDrains_set hl { l with conn := conn } m)

/-- A call of a closure with a message that its caller holds: a message that comes from the
drain leaves it, any other message is new. -/
theorem inv_callClosure {s t : State} {i now : Nat} {m : Queued} {l : Link}
    {drain : List Queued} (h : Inv s) (hl : s.links[i]? = some l)
    (hdrain : l.drained = false → drain = []) (ht : callClosure i now m l drain s = some t)
    {delivered : List Queued}
    (hdelivered : ∀ x : Queued, x.qos ≠ 0 →
      delivered.count x + l.draining.count x =
        s.delivered.count x + drain.count x + [m].count x) :
    Inv { t with delivered := delivered } := by
  obtain ⟨r, hr, rfl⟩ := Option.map_eq_some_iff.mp ht
  have hkept := kept_deliver h.persistent hr
  refine ⟨hkept.persistent, undrained_set h.undrained hdrain, ?_, ?_⟩
  · intro x hx
    have hcount := h.count x hx
    have hcall := hkept.count x hx
    have hset := count_inDrains_set hl { l with conn := r.conn, draining := drain } x
    have hnew := hdelivered x hx
    change delivered.count x = s.acked.count x + (s.evicted ++ r.evicted).count x + held r.sess x +
      (inDrains (s.links.set i { l with conn := r.conn, draining := drain })).count x
    rw [List.count_append]
    simp only at hset
    omega
  · intro id msg hmsg
    simp only [List.length_set]
    cases hkept.accounted id msg hmsg with
    | inl hold =>
        obtain ⟨j, version, hj, hmem⟩ := h.handed id msg hold
        exact ⟨j, version, hj, List.mem_append_left _ hmem⟩
    | inr hnew =>
        obtain ⟨version, hmem⟩ := hnew
        obtain ⟨hi, _⟩ := List.getElem?_eq_some_iff.mp hl
        exact ⟨i, version, hi, List.mem_append_right _ (List.mem_map_of_mem hmem)⟩

theorem inv_drainQueue {s : State} (h : Inv s) {i : Nat} {l : Link} (hl : s.links[i]? = some l)
    (hnot : l.drained = false) :
    Inv { s with
      links := s.links.set i { l with drained := true, draining := s.sess.queue }
      sess := { s.sess with queue := [] } } := by
  have hempty : l.draining = [] := h.undrained l (List.mem_of_getElem? hl) hnot
  refine ⟨h.persistent, undrained_set h.undrained (fun hc => nomatch hc), ?_, ?_⟩
  · intro m hm
    have hcount := h.count m hm
    have hset := count_inDrains_set hl { l with drained := true, draining := s.sess.queue } m
    rw [hempty] at hset
    simp only [held, List.count_nil, inFlightMessages] at hcount hset ⊢
    omega
  · simp only [List.length_set]
    exact h.handed

theorem inv_ackOutFlight {s : State} (h : Inv s) (id : UInt16) :
    Inv { s with
      sess := { s.sess with outFlight := s.sess.outFlight.erase id }
      acked := s.acked ++ ((s.sess.outFlight.get id).map ofInFlight).toList } := by
  refine ⟨h.persistent, h.undrained, ?_, ?_⟩
  · intro m hm
    have hcount := h.count m hm
    cases hget : s.sess.outFlight.get id with
    | none =>
        rw [FinMap.erase_of_get_none hget]
        simpa using hcount
    | some msg =>
        have hmoved := count_inFlightMessages_erase hget m
        simp only [held, Option.map_some, Option.toList_some, List.count_append] at hcount ⊢
        omega
  · intro id' msg hmsg
    change (s.sess.outFlight.erase id).get id' = some msg at hmsg
    rw [FinMap.get_erase] at hmsg
    split_ifs at hmsg
    exact h.handed id' msg hmsg

theorem inv_setOutFlightPhase {s : State} (h : Inv s) (id : UInt16) (phase : QoS2Phase) :
    Inv { s with sess := s.sess.setOutFlightPhase id phase } := by
  have hpersistent : (s.sess.setOutFlightPhase id phase).cleanSession = s.sess.cleanSession := by
    rw [setOutFlightPhase_eq]
  have hqueue : (s.sess.setOutFlightPhase id phase).queue = s.sess.queue := by
    rw [setOutFlightPhase_eq]
  refine ⟨hpersistent.trans h.persistent, h.undrained, ?_, ?_⟩
  · intro m hm
    have hcount := h.count m hm
    simp only [held, hqueue, count_inFlightMessages_phase] at hcount ⊢
    exact hcount
  · intro id' msg hmsg
    cases hget : s.sess.outFlight.get id with
    | none =>
        simp only [setOutFlightPhase, hget] at hmsg
        exact h.handed id' msg hmsg
    | some old =>
        simp only [setOutFlightPhase, hget, FinMap.get_set] at hmsg
        split_ifs at hmsg with hid
        · cases hmsg
          rw [hid]
          exact h.handed id old hget
        · exact h.handed id' msg hmsg

theorem inv_step (cfg : Config) (s : State) (e : Event) (t : State) (h : Inv s)
    (ht : step cfg s e = some t) : Inv t := by
  cases e with
  | connect now pkt =>
      simp only [step] at ht
      split_ifs at ht
      cases ht
      refine inv_unmoved h (tables_connectSession pkt now s.sess) ?_ ?_ (by simp)
      · intro l hl
        cases List.mem_append.mp hl with
        | inl hold => exact h.undrained l hold
        | inr hnew =>
            rw [List.mem_singleton.mp hnew]
            exact fun _ => rfl
      · intro m
        simp [inDrains]
  | handleDisconnect expiry =>
      cases ht
      exact inv_unmoved h (tables_handleDisconnect expiry s.sess) h.undrained (fun _ => rfl) le_rfl
  | disconnect i now =>
      obtain ⟨l, hl, ht⟩ := Option.bind_eq_some_iff.mp ht
      split_ifs at ht
      cases ht
      exact inv_set_link h hl _ (tables_disconnectSession now s.sess)
  | deliver i now m =>
      obtain ⟨l, hl, ht⟩ := Option.bind_eq_some_iff.mp ht
      obtain ⟨u, hu, rfl⟩ := Option.map_eq_some_iff.mp ht
      have hlog : u.delivered = s.delivered := by
        obtain ⟨r, _, rfl⟩ := Option.map_eq_some_iff.mp hu
        rfl
      refine inv_callClosure h hl (h.undrained l (List.mem_of_getElem? hl)) hu ?_
      intro x _
      rw [hlog, List.count_append]
      omega
  | drainQueue i =>
      obtain ⟨l, hl, ht⟩ := Option.bind_eq_some_iff.mp ht
      split_ifs at ht with hdrained
      cases ht
      exact inv_drainQueue h hl (Bool.not_eq_true _ ▸ hdrained)
  | drainNext i now =>
      obtain ⟨l, hl, ht⟩ := Option.bind_eq_some_iff.mp ht
      have hundrained := h.undrained l (List.mem_of_getElem? hl)
      cases hdrain : l.draining with
      | nil => simp [hdrain] at ht
      | cons m rest =>
          simp only [hdrain] at ht
          have hlog : t.delivered = s.delivered := by
            obtain ⟨r, _, rfl⟩ := Option.map_eq_some_iff.mp ht
            rfl
          refine inv_callClosure h hl ?_ ht ?_
          · intro hnot
            cases hdrain.symm.trans (hundrained hnot)
          · intro x _
            rw [hlog, hdrain, List.count_cons, List.count_singleton]
            omega
  | write i =>
      obtain ⟨l, hl, rfl⟩ := Option.map_eq_some_iff.mp ht
      exact inv_set_link h hl _ rfl
  | ack id =>
      cases ht
      exact inv_ackOutFlight h id
  | pubrec id =>
      cases ht
      exact inv_setOutFlightPhase h id .received

def defaults : Config := ⟨str "c1", 512, 0⟩

/-- A persistent v3.1.1 client. -/
def client : ConnectPacket := ⟨Protocol.v311, false, 30, 0, 0, 0, 0, none⟩

def fresh : State := ⟨[], Session.new (str "c1") false 0, [], [], [], []⟩

theorem start_fresh : Start fresh := ⟨rfl, rfl, rfl, rfl, rfl, rfl, rfl, rfl⟩

def alarm : Queued := ⟨str "t", [1], 1, false⟩

/-- The alarm is delivered while the client is offline, taken by the drain of the next
connection and acknowledged. -/
def offline : List Event :=
  [.connect 0 client, .drainQueue 0, .disconnect 0 1, .deliver 0 2 alarm, .connect 3 client,
    .drainQueue 1, .drainNext 1 4, .write 1, .ack 1]

/-- The connection is lost before the client has acknowledged the alarm. -/
def interrupted : List Event :=
  [.connect 0 client, .drainQueue 0, .deliver 0 1 alarm, .disconnect 0 2, .connect 3 client,
    .drainQueue 1]

end LumaBroker.Broker.Persistent
