import LumaBroker.Go.Strings
import LumaBroker.Lib.Total
import LumaBroker.Lib.Transition

/-!
The registry of WebSocket clients in internal/api/server.go. The map of the clients is kept
under a lock and their number in an atomic counter beside it. A connection has two goroutines,
the handler with the read pump and the write pump, and each removes the client when it ends;
any number of connections come and go side by side. In front of the handler stands the chain of
middlewares, one of which wraps the response writer in a type that cannot give its connection
away, so that no handshake gets as far as add.
-/

namespace LumaBroker.Api

open Transition

/-- The struct wsClient, without its socket and its channel. -/
structure WSClient where
  id : GoString
  deriving DecidableEq

structure WSHub where
  clients : FinMap GoString WSClient
  count : Int
  wsConnectionsActive : Int
  deriving DecidableEq

namespace WSHub

def new : WSHub := ⟨FinMap.empty, 0, 0⟩

/-- The critical section of add. -/
def add (c : WSClient) (h : WSHub) : WSHub := { h with clients := h.clients.set c.id c }

/-- The critical section of remove. -/
def remove (id : GoString) (h : WSHub) : WSHub := { h with clients := h.clients.erase id }

/-- What add and remove do to the counter and to the gauge of the metrics. -/
def addCount (n : Int) (h : WSHub) : WSHub :=
  { h with count := h.count + n, wsConnectionsActive := h.wsConnectionsActive + n }

end WSHub

namespace Hub

/-- How far a pump is: before its call of remove, in it behind the critical section, and
behind it. -/
inductive Pump where
  | running
  | removing
  | exited
  deriving DecidableEq

inductive Side where
  | read
  | write
  deriving DecidableEq

/-- A call of handleWebSocket: whether its add has returned, and its pumps. -/
structure Connection where
  added : Bool
  readPump : Pump
  writePump : Pump
  deriving DecidableEq

namespace Connection

def pump (c : Connection) : Side → Pump
  | .read => c.readPump
  | .write => c.writePump

def withPump (c : Connection) (p : Pump) : Side → Connection
  | .read => { c with readPump := p }
  | .write => { c with writePump := p }

/-- Neither pump has removed the client. -/
def Registered (c : Connection) : Prop := c.readPump = .running ∧ c.writePump = .running

instance (c : Connection) : Decidable c.Registered := inferInstanceAs (Decidable (_ ∧ _))

/-- Both pumps have removed the client. -/
def Gone (c : Connection) : Prop := c.readPump = .exited ∧ c.writePump = .exited

/-- No call of add or remove is in progress. -/
def Settled (c : Connection) : Prop :=
  c.added = true ∧ c.readPump ≠ .removing ∧ c.writePump ≠ .removing

instance (c : Connection) : Decidable c.Settled := inferInstanceAs (Decidable (_ ∧ _))

end Connection

/-- The hub and the connections so far, by the id of their client. A connection that has
ended stays in the table: uuid.New gives no id twice. -/
structure State where
  hub : WSHub
  connections : FinMap GoString Connection
  deriving DecidableEq

inductive Action where
  | add (id : GoString)
  | addCount (id : GoString)
  | remove (id : GoString) (side : Side)
  | removeCount (id : GoString) (side : Side)

def start : State := ⟨WSHub.new, FinMap.empty⟩

def step (s : State) : Action → Option State
  | .add id =>
      match s.connections.get id with
      | some _ => none
      | none => some ⟨s.hub.add ⟨id⟩, s.connections.set id ⟨false, .running, .running⟩⟩
  | .addCount id =>
      match s.connections.get id with
      | some c =>
          if c.added then none
          else some ⟨s.hub.addCount 1, s.connections.set id { c with added := true }⟩
      | none => none
  | .remove id side =>
      match s.connections.get id with
      | some c =>
          -- the pumps start when add has returned
          if c.added ∧ c.pump side = .running then
            some ⟨s.hub.remove id, s.connections.set id (c.withPump .removing side)⟩
          else none
      | none => none
  | .removeCount id side =>
      match s.connections.get id with
      | some c =>
          if c.pump side = .removing then
            some ⟨s.hub.addCount (-1), s.connections.set id (c.withPump .exited side)⟩
          else none
      | none => none

/-- A state between operations. -/
def Idle (s : State) : Prop := ∀ id c, s.connections.get id = some c → c.Settled

/-- What a connection adds to the counter beyond what it adds to the map. -/
def Connection.offset (c : Connection) : Int :=
  (if c.added then 1 else 0) - (if c.readPump = .exited then 1 else 0) -
    (if c.writePump = .exited then 1 else 0) - (if c.Registered then 1 else 0)

/-- The map has the clients that no pump has removed, and the counter is off by the offsets. -/
structure Balanced (s : State) : Prop where
  registered : ∀ id, (s.hub.clients.get id).isSome = true ↔
    ∃ c, s.connections.get id = some c ∧ c.Registered
  count : s.hub.count = s.hub.clients.size + s.connections.total Connection.offset

section Steps
variable {s t : State} {a : Action}

/-- What a step can do. -/
theorem step_cases (h : step s a = some t) :
    (∃ id, s.connections.get id = none ∧
      t = ⟨s.hub.add ⟨id⟩, s.connections.set id ⟨false, .running, .running⟩⟩) ∨
    (∃ id c, s.connections.get id = some c ∧ c.added = false ∧
      t = ⟨s.hub.addCount 1, s.connections.set id { c with added := true }⟩) ∨
    (∃ id side c, s.connections.get id = some c ∧ c.pump side = .running ∧
      t = ⟨s.hub.remove id, s.connections.set id (c.withPump .removing side)⟩) ∨
    ∃ id side c, s.connections.get id = some c ∧ c.pump side = .removing ∧
      t = ⟨s.hub.addCount (-1), s.connections.set id (c.withPump .exited side)⟩ := by
  cases a with
  | add id =>
      simp only [step] at h
      split at h
      · cases h
      · next hnew =>
          cases h
          exact .inl ⟨id, hnew, rfl⟩
  | addCount id =>
      simp only [step] at h
      split at h
      · next c hc =>
          split_ifs at h with hadded
          cases h
          exact .inr (.inl ⟨id, c, hc, Bool.eq_false_iff.mpr hadded, rfl⟩)
      · cases h
  | remove id side =>
      simp only [step] at h
      split at h
      · next c hc =>
          split_ifs at h with hrunning
          cases h
          exact .inr (.inr (.inl ⟨id, side, c, hc, hrunning.2, rfl⟩))
      · cases h
  | removeCount id side =>
      simp only [step] at h
      split at h
      · next c hc =>
          split_ifs at h with hremoving
          cases h
          exact .inr (.inr (.inr ⟨id, side, c, hc, hremoving, rfl⟩))
      · cases h

theorem offset_added {c : Connection} (h : c.added = false) :
    ({ c with added := true } : Connection).offset = c.offset + 1 := by
  obtain ⟨added, readPump, writePump⟩ := c
  obtain rfl : added = false := h
  cases readPump <;> cases writePump <;> rfl

theorem offset_removing {c : Connection} {side : Side} (h : c.pump side = .running) :
    (c.withPump .removing side).offset = c.offset + if c.Registered then 1 else 0 := by
  obtain ⟨added, readPump, writePump⟩ := c
  cases side with
  | read =>
      obtain rfl : readPump = .running := h
      cases added <;> cases writePump <;> rfl
  | write =>
      obtain rfl : writePump = .running := h
      cases added <;> cases readPump <;> rfl

theorem offset_exited {c : Connection} {side : Side} (h : c.pump side = .removing) :
    (c.withPump .exited side).offset = c.offset - 1 := by
  obtain ⟨added, readPump, writePump⟩ := c
  cases side with
  | read =>
      obtain rfl : readPump = .removing := h
      cases added <;> cases writePump <;> rfl
  | write =>
      obtain rfl : writePump = .removing := h
      cases added <;> cases readPump <;> rfl

theorem not_registered_withPump {p : Pump} (hp : p ≠ .running) (c : Connection) (side : Side) :
    ¬ (c.withPump p side).Registered := by
  cases side with
  | read => exact fun h => hp h.1
  | write => exact fun h => hp h.2

theorem not_registered_of_pump {c : Connection} {side : Side} (h : c.pump side ≠ .running) :
    ¬ c.Registered := by
  cases side with
  | read => exact fun hreg => h hreg.1
  | write => exact fun hreg => h hreg.2

/-- One connection changes, and its entry in the map with it. -/
theorem Balanced.registered_set (h : Balanced s) {clients : FinMap GoString WSClient}
    {id : GoString} {c : Connection} (hat : (clients.get id).isSome = true ↔ c.Registered)
    (hother : ∀ id', id' ≠ id → clients.get id' = s.hub.clients.get id') (id' : GoString) :
    (clients.get id').isSome = true ↔ ∃ c', (s.connections.set id c).get id' = some c' ∧
      c'.Registered := by
  by_cases hid : id' = id
  · subst hid
    rw [hat, FinMap.get_set_self]
    exact ⟨fun hreg => ⟨c, rfl, hreg⟩, fun ⟨c', hc', hreg⟩ => Option.some.inj hc' ▸ hreg⟩
  · rw [hother id' hid, FinMap.get_set_ne _ _ hid]
    exact h.registered id'

theorem Balanced.isSome_iff (h : Balanced s) {id : GoString} {c : Connection}
    (hc : s.connections.get id = some c) : (s.hub.clients.get id).isSome = true ↔ c.Registered := by
  rw [h.registered id, hc]
  exact ⟨fun ⟨c', hc', hreg⟩ => Option.some.inj hc' ▸ hreg, fun hreg => ⟨c, rfl, hreg⟩⟩

theorem balanced_start : Balanced start where
  registered id := by simp [start, WSHub.new]
  count := rfl

theorem Balanced.add (h : Balanced s) {id : GoString} (hnew : s.connections.get id = none) :
    Balanced ⟨s.hub.add ⟨id⟩, s.connections.set id ⟨false, .running, .running⟩⟩ := by
  have hcount := h.count
  have hget : s.hub.clients.get id = none := by
    rw [← Option.not_isSome_iff_eq_none, h.registered id, hnew]
    rintro ⟨c, hc, -⟩
    cases hc
  refine ⟨h.registered_set ?_ fun id' hid => FinMap.get_set_ne _ _ hid, ?_⟩
  · change ((s.hub.clients.set id ⟨id⟩).get id).isSome = true ↔ _
    rw [FinMap.get_set_self]
    exact iff_of_true rfl ⟨rfl, rfl⟩
  · have hsize := FinMap.size_set_of_get_none (⟨id⟩ : WSClient) hget
    have htotal := FinMap.total_set_of_get_none Connection.offset ⟨false, .running, .running⟩ hnew
    have hoffset : Connection.offset ⟨false, .running, .running⟩ = -1 := rfl
    simp only [WSHub.add]
    omega

/-- The counter moves by as much as the connection's offset does. -/
theorem Balanced.addCount (h : Balanced s) {id : GoString} {c c' : Connection} {n : Int}
    (hc : s.connections.get id = some c) (hsame : c.Registered ↔ c'.Registered)
    (hoffset : c'.offset = c.offset + n) :
    Balanced ⟨s.hub.addCount n, s.connections.set id c'⟩ := by
  have hcount := h.count
  refine ⟨h.registered_set ((h.isSome_iff hc).trans hsame) fun _ _ => rfl, ?_⟩
  have htotal := FinMap.total_set_of_get_some Connection.offset c' hc
  simp only [WSHub.addCount]
  omega

theorem Balanced.remove (h : Balanced s) {id : GoString} {side : Side} {c : Connection}
    (hc : s.connections.get id = some c) (hrunning : c.pump side = .running) :
    Balanced ⟨s.hub.remove id, s.connections.set id (c.withPump .removing side)⟩ := by
  have hcount := h.count
  refine ⟨h.registered_set ?_ fun id' hid => FinMap.get_erase_ne _ hid, ?_⟩
  · change ((s.hub.clients.erase id).get id).isSome = true ↔ _
    rw [FinMap.get_erase_self]
    exact iff_of_false Bool.false_ne_true (not_registered_withPump (by decide) c side)
  · have htotal := FinMap.total_set_of_get_some Connection.offset (c.withPump .removing side) hc
    rw [offset_removing hrunning] at htotal
    simp only [WSHub.remove]
    by_cases hreg : c.Registered
    · obtain ⟨client, hclient⟩ := Option.isSome_iff_exists.mp ((h.isSome_iff hc).mpr hreg)
      have hsize := FinMap.size_erase hclient
      rw [if_pos hreg] at htotal
      omega
    · -- the other pump has removed the client before
      have hclient := Option.not_isSome_iff_eq_none.mp (mt (h.isSome_iff hc).mp hreg)
      rw [if_neg hreg] at htotal
      rw [FinMap.erase_of_get_none hclient]
      omega

theorem balanced_step (h : Balanced s) (ht : step s a = some t) : Balanced t := by
  rcases step_cases ht with ⟨id, hnew, rfl⟩ | ⟨id, c, hc, hadded, rfl⟩ |
    ⟨id, side, c, hc, hrunning, rfl⟩ |
    ⟨id, side, c, hc, hremoving, rfl⟩
  · exact h.add hnew
  · exact h.addCount hc Iff.rfl (offset_added hadded)
  · exact h.remove hc hrunning
  · have hpump : c.pump side ≠ .running := by
      rw [hremoving]
      decide
    have hleft : ¬ (c.withPump .exited side).Registered :=
      not_registered_withPump (by decide) c side
    exact h.addCount hc (iff_of_false (not_registered_of_pump hpump) hleft)
      (offset_exited hremoving)

theorem balanced_run {actions : List Action} (hrun : run step actions start = some t) :
    Balanced t :=
  preserved_run (fun _ _ _ => balanced_step) balanced_start hrun

end Steps

/-- Between operations a connection puts the counter off just when both of its pumps have
removed the client. -/
theorem offset_of_settled {c : Connection} (h : c.Settled) :
    c.offset ≤ 0 ∧ (c.offset = 0 ↔ ¬ c.Gone) := by
  obtain ⟨added, readPump, writePump⟩ := c
  obtain ⟨rfl, hread, hwrite⟩ := h
  cases readPump <;> cases writePump <;>
    simp_all [Connection.offset, Connection.Registered, Connection.Gone]

/-- For the hub by itself, whoever adds clients: in a state between operations, after any
interleaving, Count is the number of entries, and 0 once all clients have gone, exactly if no
connection has had both of its pumps remove the client. Each connection that has puts the
counter down by one for good. -/
theorem hub_count_exact_iff (actions : List Action) (t : State)
    (hrun : run step actions start = some t) (hidle : Idle t) :
    (t.hub.count = t.hub.clients.size ∧
        ((∀ id c, t.connections.get id = some c → c.Gone) → t.hub.count = 0)) ↔
      ∀ id c, t.connections.get id = some c → ¬ c.Gone := by
  have hbalanced := balanced_run hrun
  have hzero : t.connections.total Connection.offset = 0 ↔
      ∀ id c, t.connections.get id = some c → c.offset = 0 :=
    FinMap.total_eq_zero_iff fun id c hc => (offset_of_settled (hidle id c hc)).1
  have hexact : t.hub.count = t.hub.clients.size ↔ ∀ id c, t.connections.get id = some c →
      ¬ c.Gone := by
    have hcount : t.hub.count = t.hub.clients.size ↔ t.connections.total Connection.offset = 0 := by
      rw [hbalanced.count]
      omega
    rw [hcount, hzero]
    exact forall_congr' fun id => forall_congr' fun c => forall_congr' fun hc =>
      (offset_of_settled (hidle id c hc)).2
  refine ⟨fun h => hexact.mp h.1, fun h => ⟨hexact.mpr h, fun hgone => ?_⟩⟩
  have hempty : t.hub.clients = FinMap.empty := by
    refine FinMap.ext_get fun id => ?_
    rw [FinMap.get_empty, ← Option.not_isSome_iff_eq_none, hbalanced.registered id]
    rintro ⟨c, hc, -⟩
    exact h id c hc (hgone id c hc)
  rw [hexact.mpr h, hempty]
  rfl

/-- One client comes, and its read pump and then its write pump end. -/
def comeAndGo (id : GoString) : List Action :=
  [.add id, .addCount id, .remove id .read, .removeCount id .read, .remove id .write,
    .removeCount id .write]

instance (s : State) : Decidable (Idle s) :=
  decidable_of_iff (∀ e ∈ s.connections.entries, e.2.Settled)
    ⟨fun h id c hc => h (id, c) ((s.connections.mem_entries id c).mpr hc),
      fun h e he => h e.1 e.2 ((s.connections.mem_entries e.1 e.2).mp he)⟩

/-- A client that comes and goes would leave the counter at -1 with no entry in the map. -/
example : ∃ t, run step (comeAndGo (str "u1")) start = some t ∧ Idle t ∧ t.hub.count = -1 ∧
    t.hub.clients = FinMap.empty :=
  reaches_of_any step (comeAndGo (str "u1")) start _ (by decide +kernel)

/-! The way of a request to the hub. -/

/-- A request for the path of handleWebSocket. What the rate limiter answers and what uuid.New
gives come with it. -/
structure Handshake where
  method : GoString
  origin : GoString
  allowed : Bool
  id : GoString

/-- An http.ResponseWriter: the one of net/http, or the struct responseWriter around another. -/
inductive ResponseWriter where
  | netHTTP
  | responseWriter (w : ResponseWriter)

/-- It implements http.Hijacker. The struct embeds the interface ResponseWriter, which has no
method Hijack, and has no method Unwrap. -/
def ResponseWriter.hijacker : ResponseWriter → Bool
  | .netHTTP => true
  | .responseWriter _ => false

/-- The method Upgrade of the websocket library, with the status of its refusal. It takes the
connection from the writer and cannot do without a Hijacker. -/
structure Upgrader where
  upgrade : ResponseWriter → Handshake → Except Nat Unit
  upgrade_hijacker : ∀ w r, upgrade w r = .ok () → w.hijacker = true

inductive Response where
  | status (code : Nat)
  | upgraded
  deriving DecidableEq

abbrev Handler := ResponseWriter → Handshake → Response

def originAllowed (allowed : List GoString) (origin : GoString) : Bool :=
  if allowed = [] then false
  else if origin = [] then true
  else allowed.any fun o => o = str "*" ∨ o = origin

/-- Up to the call of add. -/
def handleWebSocket (up : Upgrader) (allowedOrigins : List GoString) : Handler := fun w r =>
  if !originAllowed allowedOrigins r.origin then .status 403
  else
    match up.upgrade w r with
    | .error code => .status code
    | .ok () => .upgraded

/-- The pattern GET /ws, which takes HEAD too. -/
def mux (next : Handler) : Handler := fun w r =>
  if r.method = str "GET" ∨ r.method = str "HEAD" then next w r else .status 405

def rateLimitMiddleware (next : Handler) : Handler := fun w r =>
  if !r.allowed then .status 429 else next w r

def loggingMiddleware (next : Handler) : Handler := fun w r => next (.responseWriter w) r

/-- The headers are left out. -/
def corsMiddleware (next : Handler) : Handler := fun w r =>
  if r.method = str "OPTIONS" then .status 204 else next w r

def chain (next : Handler) : Handler :=
  corsMiddleware (loggingMiddleware (rateLimitMiddleware next))

/-- What the assembled server does: it answers a request, and the goroutines of the connections
so far go on. -/
inductive ServerAction where
  | request (r : Handshake)
  | addCount (id : GoString)
  | remove (id : GoString) (side : Side)
  | removeCount (id : GoString) (side : Side)

def serve (up : Upgrader) (allowedOrigins : List GoString) : Handler :=
  chain (mux (handleWebSocket up allowedOrigins))

def serverStep (up : Upgrader) (allowedOrigins : List GoString) (s : State) :
    ServerAction → Option State
  | .request r =>
      match serve up allowedOrigins .netHTTP r with
      | .upgraded => step s (.add r.id)
      | .status _ => some s
  | .addCount id => step s (.addCount id)
  | .remove id side => step s (.remove id side)
  | .removeCount id side => step s (.removeCount id side)

section Server
variable {up : Upgrader} {allowedOrigins : List GoString} {s t : State}

/-- No handshake gets through the chain. -/
theorem serve_not_upgraded (w : ResponseWriter) (r : Handshake) :
    serve up allowedOrigins w r ≠ .upgraded := by
  intro h
  rw [serve, chain, corsMiddleware] at h
  split at h
  · cases h
  · rw [loggingMiddleware, rateLimitMiddleware] at h
    split at h
    · cases h
    · rw [mux] at h
      split at h
      · rw [handleWebSocket] at h
        split at h
        · cases h
        · split at h
          · cases h
          · next hupgrade => cases up.upgrade_hijacker _ r hupgrade
      · cases h

/-- A step of the server is one of the hub, or none. -/
theorem hub_step_of_serverStep {a : ServerAction}
    (h : serverStep up allowedOrigins s a = some t) : t = s ∨ ∃ b, step s b = some t := by
  cases a with
  | request r =>
      rw [serverStep] at h
      split at h
      · exact .inr ⟨_, h⟩
      · cases h
        exact .inl rfl
  | addCount id => exact .inr ⟨.addCount id, h⟩
  | remove id side => exact .inr ⟨.remove id side, h⟩
  | removeCount id side => exact .inr ⟨.removeCount id side, h⟩

theorem hub_run_of_serverRun {actions : List ServerAction}
    (h : run (serverStep up allowedOrigins) actions start = some t) :
    ∃ hubActions, run step hubActions start = some t := by
  refine preserved_run (I := fun s => ∃ hubActions, run step hubActions start = some s)
    ?_ ⟨[], rfl⟩ h
  rintro s a t ⟨hubActions, hrun⟩ hstep
  rcases hub_step_of_serverStep hstep with rfl | ⟨b, hb⟩
  · exact ⟨hubActions, hrun⟩
  · refine ⟨hubActions ++ [b], ?_⟩
    rw [run_append, hrun]
    simp [run, hb]

theorem no_connections_of_serverRun {actions : List ServerAction}
    (h : run (serverStep up allowedOrigins) actions start = some t) (id : GoString) :
    t.connections.get id = none := by
  refine preserved_run (I := fun s => ∀ id, s.connections.get id = none) ?_ (fun _ => rfl) h id
  intro s a t hnone hstep id
  cases a with
  | request r =>
      rw [serverStep] at hstep
      split at hstep
      · next hserve => exact absurd hserve (serve_not_upgraded _ r)
      · cases hstep
        exact hnone id
  | addCount id' | remove id' side | removeCount id' side =>
      simp [serverStep, step, hnone id'] at hstep

end Server

/-- A library that upgrades whatever it can. -/
def sampleUpgrader : Upgrader where
  upgrade w _ := if w.hijacker then .ok () else .error 500
  upgrade_hijacker w r h := by
    split at h
    · assumption
    · cases h

def sampleHandshake : Handshake := ⟨str "GET", [], true, str "u1"⟩

end Hub

end LumaBroker.Api
