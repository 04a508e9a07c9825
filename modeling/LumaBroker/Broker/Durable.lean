import LumaBroker.Broker.Subscribe
import LumaBroker.Lib.Transition
import LumaBroker.Router.Held
import LumaBroker.Storage.Subscriptions

/-!
The durable subscriptions: handleSubscribe and handleUnsubscribe of internal/broker/client.go
and PurgePersistentSession of internal/broker/server.go change the router at once and the
table in Postgres through writes that run in goroutines of their own. The table is a mirror
of the router, and the order of the writes is up to the scheduler.
-/

namespace LumaBroker.Broker.Durable

open Protocol Storage Transition

variable {δ : Type}

structure World (δ : Type) where
  router : Router δ
  subs : Subscriptions UInt8
  pending : List (Write UInt8)

/-- One turn of a handler's loop, with the flag CleanSession of the session it is for; a
purge; or a goroutine that writes. -/
inductive Event (δ : Type) where
  | subscribe (env : SubscribeEnv δ) (clean : Bool) (sub : SubscribeEntry)
  | unsubscribe (env : SubscribeEnv δ) (clean : Bool) (filter : GoString)
  | purge (clientID : GoString)
  | write (i : Nat)

/-- The call of the router that an event makes and the write it starts. -/
def handled : Event δ → Option (Router.Call δ × Option (Write UInt8))
  | .subscribe env clean sub =>
      if subscribeOutcome env sub = .ok then
        some (.subscribe sub.filter (subscriberOf env (grantedQoS env sub)),
          if clean then none else some (.saveSub env.clientID sub.filter (grantedQoS env sub)))
      else none
  | .unsubscribe env clean filter =>
      if unsubscribeOutcome env filter = .ok then
        some (.unsubscribe filter env.clientID,
          if clean then none else some (.deleteSub env.clientID filter))
      else none
  | .purge clientID => some (.unsubscribeAll clientID, some (.deleteAllSubs clientID))
  | .write _ => none

def World.handle (e : Event δ) (s : World δ) : World δ :=
  match handled e with
  | some (call, w) => { s with router := s.router.exec call, pending := s.pending ++ w.toList }
  | none => s

def step (s : World δ) : Event δ → Option (World δ)
  | .write i =>
      s.pending[i]?.map fun w => { s with subs := w.exec s.subs, pending := s.pending.eraseIdx i }
  | e => some (s.handle e)

/-- The turns of a packet's loop leave the router as the handlers do. -/
theorem run_subscribe (env : SubscribeEnv δ) (clean : Bool) (subs : List SubscribeEntry)
    (s : World δ) :
    (run step (subs.map fun sub => .subscribe env clean sub) s).map World.router =
      some (handleSubscribe env subs s.router).2 := by
  induction subs generalizing s with
  | nil => rfl
  | cons sub subs ih =>
      simp only [List.map_cons, run, step, Option.bind_some, ih, handleSubscribe,
        World.handle, handled]
      by_cases hok : subscribeOutcome env sub = .ok <;> simp [hok, Router.exec]

theorem run_unsubscribe (env : SubscribeEnv δ) (clean : Bool) (filters : List GoString)
    (s : World δ) :
    (run step (filters.map fun filter => .unsubscribe env clean filter) s).map World.router =
      some (handleUnsubscribe env filters s.router).2 := by
  induction filters generalizing s with
  | nil => rfl
  | cons filter filters ih =>
      simp only [List.map_cons, run, step, Option.bind_some, ih, handleUnsubscribe,
        World.handle, handled]
      by_cases hok : unsubscribeOutcome env filter = .ok <;> simp [hok, Router.exec]

/-- The QoS of the live subscription of a client on a filter. -/
def live (r : Router δ) (c f : GoString) : Option UInt8 := (Router.held r c f).map (·.qos)

/-- The rows of the client after these writes are its subscriptions in the router. -/
def MirroredBy (c : GoString) (s : World δ) (order : List (Write UInt8)) : Prop :=
  ∀ f, Subscriptions.row (order.foldl Write.exec s.subs) c f = live s.router c f

/-- Once all writes have completed, in whatever order, the table mirrors the router. -/
def Mirrored (c : GoString) (s : World δ) : Prop :=
  ∀ order, order.Perm s.pending → MirroredBy c s order

/-- The session of the client is persistent. -/
def Persistent (c : GoString) : Event δ → Prop
  | .subscribe env clean _ => env.clientID = c → clean = false
  | .unsubscribe env clean _ => env.clientID = c → clean = false
  | _ => True

instance decidablePersistent (c : GoString) : ∀ e : Event δ, Decidable (Persistent c e)
  | .subscribe env clean _ => inferInstanceAs (Decidable (env.clientID = c → clean = false))
  | .unsubscribe env clean _ => inferInstanceAs (Decidable (env.clientID = c → clean = false))
  | .purge _ | .write _ => isTrue trivial

/-- A write for the client is started only when none is pending that could undo it. -/
def Unraced (c : GoString) (s : World δ) (e : Event δ) : Prop :=
  ∀ h ∈ handled e, ∀ w ∈ h.2, w.clientID = c → ∀ w' ∈ s.pending, ¬ Write.Clash w' w

instance (c : GoString) (s : World δ) (e : Event δ) : Decidable (Unraced c s e) :=
  inferInstanceAs (Decidable (∀ h ∈ handled e, _))

theorem mirrored_iff {c : GoString} {s : World δ} : Mirrored c s ↔
    Mirror.Settles (Write.effect c) (Subscriptions.row s.subs c) s.pending (live s.router c) := by
  rw [Mirror.settles_iff]
  constructor
  · intro h order hperm
    rw [← Write.row_foldl_exec]
    exact funext (h order hperm)
  · intro h order hperm f
    rw [Write.row_foldl_exec, h order hperm]

/-- The write that does to the rows what a call does to the subscriptions. -/
def writeOf : Router.Call δ → Write UInt8
  | .subscribe filter sub => .saveSub sub.clientID filter sub.qos
  | .unsubscribe filter clientID => .deleteSub clientID filter
  | .unsubscribeAll clientID => .deleteAllSubs clientID

theorem live_exec (call : Router.Call δ) (r : Router δ) (c : GoString) :
    live (r.exec call) c = Mirror.exec (Write.effect c) (live r c) (writeOf call) := by
  funext f
  cases call with
  | subscribe filter sub =>
      rw [live, Router.exec, Router.held_subscribe, Mirror.exec, writeOf, Write.effect]
      split_ifs <;> rfl
  | unsubscribe filter clientID =>
      rw [live, Router.exec, Router.held_unsubscribe, Mirror.exec, writeOf, Write.effect]
      split_ifs <;> rfl
  | unsubscribeAll clientID =>
      rw [live, Router.exec, Router.held_unsubscribeAll, Mirror.exec, writeOf, Write.effect]
      split_ifs <;> rfl

/-- The write an event starts is that of its call, and only a clean session starts none. -/
theorem handled_write {e : Event δ} {call : Router.Call δ} {o : Option (Write UInt8)}
    (h : handled e = some (call, o)) (c : GoString) (hp : Persistent c e) :
    o = some (writeOf call) ∨ o = none ∧ (writeOf call).clientID ≠ c := by
  cases e with
  | subscribe env clean entry | unsubscribe env clean entry =>
      simp only [handled] at h
      split_ifs at h with hok hclean
      · cases h
        refine .inr ⟨rfl, fun hc => ?_⟩
        rw [hp hc] at hclean
        cases hclean
      · cases h
        exact .inl rfl
  | purge clientID =>
      cases h
      exact .inl rfl
  | write i => cases h

theorem mirrored_handle {c : GoString} {s : World δ} {e : Event δ} (hs : Mirrored c s)
    (hp : Persistent c e) : Mirrored c (s.handle e) ↔ Unraced c s e := by
  cases hh : handled e with
  | none =>
      have hsame : s.handle e = s := by rw [World.handle, hh]
      simp [hsame, hs, Unraced, hh]
  | some h =>
      obtain ⟨call, o⟩ := h
      rw [mirrored_iff] at hs ⊢
      rcases handled_write hh c hp with rfl | ⟨rfl, hc⟩
      · have hcond : Unraced c s e ↔ ∀ w' ∈ s.pending,
            ¬ Mirror.Conflict (Write.effect c) w' (writeOf call) := by
          simp only [Unraced, hh, Option.mem_some_iff, forall_eq', Write.conflict_iff, not_and]
          exact ⟨fun h w' hw' hc => h hc w' hw', fun h hc w' hw' => h w' hw' hc⟩
        rw [hcond]
        simp only [World.handle, hh, Option.toList_some, live_exec, hs.launch_iff, true_and]
      · have hsame : live (s.router.exec call) c = live s.router c := by
          rw [live_exec]
          exact funext fun f => Mirror.exec_of_none (Write.effect_of_ne hc f)
        simp [World.handle, hh, hsame, hs, Unraced]

/-- A step from a mirrored state leads to one exactly when it starts no racing write. -/
theorem mirrored_step {c : GoString} {s t : World δ} {e : Event δ} (hs : Mirrored c s)
    (hp : Persistent c e) (ht : step s e = some t) : Mirrored c t ↔ Unraced c s e := by
  cases e with
  | write i =>
      obtain ⟨w, hw, rfl⟩ := Option.map_eq_some_iff.mp ht
      obtain ⟨hi, rfl⟩ := List.getElem?_eq_some_iff.mp hw
      have hunraced : Unraced c s (.write i) := fun h hh => absurd hh (Option.not_mem_none h)
      refine iff_of_true ?_ hunraced
      rw [mirrored_iff] at hs ⊢
      rw [Write.row_exec]
      exact hs.exec (List.getElem_cons_eraseIdx_perm hi).symm
  | subscribe env clean sub => cases ht; exact mirrored_handle hs hp
  | unsubscribe env clean filter => cases ht; exact mirrored_handle hs hp
  | purge clientID => cases ht; exact mirrored_handle hs hp

/-- In a run that starts no write for the client while another is pending that could undo it,
the table mirrors the router once the writes have completed, in whatever order they do; and
a step that does start one leaves an order in which it does not. -/
theorem rows_mirror_router (c : GoString) (es : List (Event δ)) (s t : World δ) (hs : Mirrored c s)
    (hpersistent : ∀ e ∈ es, Persistent c e) (hok : Meets step (Unraced c) es s)
    (hrun : run step es s = some t) :
    Mirrored c t ∧
      ∀ e u, Persistent c e → step t e = some u → (Mirrored c u ↔ Unraced c t e) := by
  have hmeets : Meets step (fun s e => Persistent c e ∧ Unraced c s e) es s :=
    Meets.and (meets_of_forall_mem fun e he _ => hpersistent e he) hok
  have ht : Mirrored c t :=
    invariant_run (fun s e t hs hok ht => (mirrored_step hs hok.1 ht).mpr hok.2) hs hmeets hrun
  exact ⟨ht, fun e u hp hu => mirrored_step ht hp hu⟩

/-- A broker that has just started, with an empty table. -/
def start : World δ := ⟨Router.new, FinMap.empty, []⟩

theorem mirrored_start (c : GoString) : Mirrored c (start : World δ) := by
  rw [mirrored_iff]
  refine Mirror.settles_nil.mpr (funext fun f => ?_)
  rw [live, start, Router.held_new]
  rfl

def subscribeA (qos : UInt8) : Event Unit := .subscribe (envWith []) false ⟨str "a", qos⟩

def unsubscribeA : Event Unit := .unsubscribe (envWith []) false (str "a")

/-- The row is written before the filter is unsubscribed. -/
theorem rows_mirror_router_in_turn : ∃ t : World Unit,
    run step [subscribeA 1, .write 0, unsubscribeA] start = some t ∧
      t.pending = [.deleteSub (str "c1") (str "a")] ∧ Mirrored (str "c1") t := by
  obtain ⟨t, ht, hpending⟩ := reaches_of_any step [subscribeA 1, .write 0, unsubscribeA] start
    (fun t => t.pending = [.deleteSub (str "c1") (str "a")]) (by decide +kernel)
  exact ⟨t, ht, hpending, (rows_mirror_router (str "c1") _ start t (mirrored_start _) (by decide)
    (by decide +kernel) ht).1⟩

/-- DeleteSub of the UNSUBSCRIBE overtakes SaveSub of the SUBSCRIBE: no write is left, the
client has no subscription, and its row is in the table. -/
theorem unsubscribed_row_stays : ∃ t : World Unit,
    run step [subscribeA 1, unsubscribeA, .write 1, .write 0] start = some t ∧ t.pending = [] ∧
      live t.router (str "c1") (str "a") = none ∧
      Subscriptions.row t.subs (str "c1") (str "a") = some 1 :=
  reaches_of_any _ _ _ (fun t : World Unit => t.pending = [] ∧
    live t.router (str "c1") (str "a") = none ∧
      Subscriptions.row t.subs (str "c1") (str "a") = some 1) (by decide +kernel)

end LumaBroker.Broker.Durable
