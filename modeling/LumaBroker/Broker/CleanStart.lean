import LumaBroker.Broker.Connect
import LumaBroker.Broker.Subscribe
import LumaBroker.Lib.Transition
import LumaBroker.Router.Held
import LumaBroker.Storage.Subscriptions

/-!
What a clean session leaves of the sessions before it. The subscriptions of a client are in
the router, in the table of Postgres and in the goroutines between the two: the writes that
handleSubscribe, handleUnsubscribe and PurgePersistentSession start, and the reads of
restoreSession of internal/broker/client.go. GetOrCreate of internal/session/session.go
replaces the session alone. Each subscription, row and write here bears the number of clean
CONNECTs of the client before the SUBSCRIBE it goes back to; the broker has no such number.
-/

namespace LumaBroker.Broker.CleanStart

open Protocol Session Storage Transition

/-- A row of the table, with the number of its SUBSCRIBE. -/
structure Stamped where
  qos : UInt8
  made : Nat
  deriving DecidableEq

/-- A connection from its CONNECT on; it is closed once cleanup has run. -/
structure Connection where
  cid : GoString
  sess : Ptr
  closed : Bool
  deriving DecidableEq

/-- A goroutine of restoreSession, before GetSubs, and then with the rows that are left. -/
structure Restore where
  cid : GoString
  rows : Option (List (GoString × Stamped))
  deriving DecidableEq

structure World where
  router : Router Nat
  subs : Subscriptions Stamped
  pending : List (Write Stamped)
  sessions : Store
  conns : List Connection
  restores : List Restore
  cleans : GoString → Nat

inductive Event where
  /-- handleConnect from GetOrCreate on. -/
  | connect (cid : GoString) (pkt : ConnectPacket) (now : Nat)
  /-- One turn of handleSubscribe on a connection. -/
  | subscribe (j : Nat) (env : SubscribeEnv Unit) (sub : SubscribeEntry)
  | unsubscribe (j : Nat) (env : SubscribeEnv Unit) (filter : GoString)
  | disconnect (j : Nat) (expiry : Option UInt32)
  /-- The connection ends and cleanup runs. -/
  | ended (j : Nat) (now : Nat)
  /-- The sweep looks at a session. -/
  | sweep (p : Ptr) (now : Nat)
  /-- A goroutine of restoreSession reads the rows of its client, in some order. -/
  | getSubs (i : Nat) (rows : List (GoString × Stamped))
  /-- It subscribes to the next of them. -/
  | restore (i : Nat)
  | write (i : Nat)

namespace World

def connect (cid : GoString) (pkt : ConnectPacket) (now : Nat) (w : World) : World :=
  let (sessions, p, present) := w.sessions.getOrCreate cid pkt.cleanSession now
  { w with
    sessions := sessions.modify p (pkt.connectSession now)
    conns := w.conns ++ [⟨cid, p, false⟩]
    restores := w.restores ++ if present ∧ ¬ pkt.cleanSession then [⟨cid, none⟩] else []
    cleans :=
      if pkt.cleanSession then Function.update w.cleans cid (w.cleans cid + 1) else w.cleans }

/-- The flag that decides whether a handler also writes to the table. -/
def clean (c : Connection) (w : World) : Bool := (w.sessions.heap c.sess).cleanSession

def subscribe (c : Connection) (env : SubscribeEnv Unit) (sub : SubscribeEntry)
    (w : World) : World :=
  let env := { env with clientID := c.cid }
  if subscribeOutcome env sub = .ok then
    { w with
      router := w.router.subscribe sub.filter ⟨c.cid, grantedQoS env sub, some (w.cleans c.cid)⟩
      pending := w.pending ++
        if w.clean c then [] else [.saveSub c.cid sub.filter ⟨grantedQoS env sub, w.cleans c.cid⟩] }
  else w

def unsubscribe (c : Connection) (env : SubscribeEnv Unit) (filter : GoString)
    (w : World) : World :=
  if unsubscribeOutcome { env with clientID := c.cid } filter = .ok then
    { w with
      router := w.router.unsubscribe filter c.cid
      pending := w.pending ++ if w.clean c then [] else [.deleteSub c.cid filter] }
  else w

def purgePersistentSession (cid : GoString) (w : World) : World :=
  { w with
    router := w.router.unsubscribeAll cid
    sessions := w.sessions.delete cid
    pending := w.pending ++ [.deleteAllSubs cid] }

def cleanup (j now : Nat) (c : Connection) (w : World) : World :=
  let w := { w with conns := w.conns.set j { c with closed := true } }
  if w.clean c then
    { w with
      router := w.router.unsubscribeAll c.cid
      sessions := (w.sessions.modify c.sess (setConnected false now)).delete c.cid }
  else
    let purge := (disconnectSession now (w.sessions.heap c.sess)).2
    let w := { w with sessions := w.sessions.modify c.sess fun s => (disconnectSession now s).1 }
    if purge then w.purgePersistentSession c.cid else w

def sweepOne (p : Ptr) (now : Nat) (w : World) : World :=
  if (w.sessions.heap p).shouldExpireDisconnected now then
    w.purgePersistentSession (w.sessions.heap p).clientID
  else w

/-- The next turn of the loop of restoreSession. -/
def restoreNext (i : Nat) (g : Restore) (f : GoString) (s : Stamped)
    (rest : List (GoString × Stamped)) (w : World) : World :=
  { w with
    router := w.router.subscribe f ⟨g.cid, s.qos, some s.made⟩
    restores := w.restores.set i { g with rows := some rest } }

end World

/-- The connection, if it still reads packets. -/
def reading (w : World) (j : Nat) : Option Connection := w.conns[j]?.filter fun c => !c.closed

def step (w : World) : Event → Option World
  | .connect cid pkt now => some (w.connect cid pkt now)
  | .subscribe j env sub => (reading w j).map fun c => w.subscribe c env sub
  | .unsubscribe j env filter => (reading w j).map fun c => w.unsubscribe c env filter
  | .disconnect j expiry =>
      (reading w j).map fun c =>
        { w with sessions := w.sessions.modify c.sess (handleDisconnect expiry) }
  | .ended j now => (reading w j).map fun c => w.cleanup j now c
  | .sweep p now => some (w.sweepOne p now)
  | .getSubs i rows =>
      match w.restores[i]? with
      | some ⟨cid, none⟩ =>
          if rows.Perm (w.subs.getSubs cid) then
            some { w with restores := w.restores.set i ⟨cid, some rows⟩ }
          else none
      | _ => none
  | .restore i =>
      match w.restores[i]? with
      | some ⟨cid, some ((f, s) :: rest)⟩ => some (w.restoreNext i ⟨cid, none⟩ f s rest)
      | _ => none
  | .write i =>
      w.pending[i]?.map fun wr => { w with subs := wr.exec w.subs, pending := w.pending.eraseIdx i }

/-- Every subscription the router holds for the client was made since its last clean CONNECT. -/
def Fresh (cid : GoString) (w : World) : Prop :=
  ∀ f sub, Router.held w.router cid f = some sub → sub.deliver = some (w.cleans cid)

/-- Nothing of the client is left: in the router, in the table, in a write, or in a goroutine of
restoreSession. -/
structure Vacant (cid : GoString) (w : World) : Prop where
  router : ∀ f, Router.held w.router cid f = none
  rows : ∀ f, Subscriptions.row w.subs cid f = none
  pending : ∀ f s, .saveSub cid f s ∉ w.pending
  restores : ∀ g ∈ w.restores, g.cid = cid → ∀ rows, g.rows = some rows → rows = []

/-- A clean CONNECT of the client comes only when nothing of it is left. -/
def StartsVacant (cid : GoString) (w : World) : Event → Prop
  | .connect id pkt _ => id = cid → pkt.cleanSession = true → Vacant cid w
  | _ => True

/-- All that is left of the client goes back to a SUBSCRIBE since its last clean CONNECT. -/
structure Current (cid : GoString) (w : World) : Prop where
  fresh : Fresh cid w
  rows : ∀ f s, Subscriptions.row w.subs cid f = some s → s.made = w.cleans cid
  pending : ∀ f s, .saveSub cid f s ∈ w.pending → s.made = w.cleans cid
  restores : ∀ g ∈ w.restores, g.cid = cid → ∀ rows, g.rows = some rows →
    ∀ e ∈ rows, e.2.made = w.cleans cid

section Steps
variable {cid : GoString} {w : World}

theorem Current.update (h : Current cid w) {w' : World} (hsubs : w'.subs = w.subs)
    (hrestores : w'.restores = w.restores) (hcleans : w'.cleans = w.cleans)
    (hrouter : ∀ f sub, Router.held w'.router cid f = some sub →
      Router.held w.router cid f = some sub ∨ sub.deliver = some (w.cleans cid))
    (hpending : ∀ f s, .saveSub cid f s ∈ w'.pending →
      .saveSub cid f s ∈ w.pending ∨ s.made = w.cleans cid) : Current cid w' where
  fresh f sub hsub := by
    rw [hcleans]
    exact (hrouter f sub hsub).elim (h.fresh f sub) id
  rows := by
    rw [hsubs, hcleans]
    exact h.rows
  pending f s hs := by
    rw [hcleans]
    exact (hpending f s hs).elim (h.pending f s) id
  restores := by
    rw [hrestores, hcleans]
    exact h.restores

theorem mem_restores_connect {id : GoString} {pkt : ConnectPacket} {now : Nat} {g : Restore}
    (hg : g ∈ (w.connect id pkt now).restores) : g ∈ w.restores ∨ g.rows = none := by
  rcases List.mem_append.mp hg with hold | hnew
  · exact .inl hold
  · split_ifs at hnew
    · cases List.mem_singleton.mp hnew
      exact .inr rfl
    · cases hnew

theorem Vacant.connect (h : Vacant cid w) (id : GoString) (pkt : ConnectPacket) (now : Nat) :
    Vacant cid (w.connect id pkt now) where
  router := h.router
  rows := h.rows
  pending := h.pending
  restores g hg hcid rows hrows := by
    rcases mem_restores_connect hg with hold | hnone
    · exact h.restores g hold hcid rows hrows
    · rw [hnone] at hrows
      cases hrows

theorem Vacant.current (h : Vacant cid w) : Current cid w where
  fresh f sub hsub := by
    rw [h.router f] at hsub
    cases hsub
  rows f s hs := by
    rw [h.rows f] at hs
    cases hs
  pending f s hs := absurd hs (h.pending f s)
  restores g hg hcid rows hrows e he := by
    rw [h.restores g hg hcid rows hrows] at he
    cases he

theorem Current.connect (h : Current cid w) {id : GoString} {pkt : ConnectPacket} (now : Nat)
    (hstart : id = cid → pkt.cleanSession = true → Vacant cid w) :
    Current cid (w.connect id pkt now) := by
  by_cases hclean : id = cid ∧ pkt.cleanSession = true
  · -- nothing is left to be out of date
    exact ((hstart hclean.1 hclean.2).connect id pkt now).current
  · have hcleans : (w.connect id pkt now).cleans cid = w.cleans cid := by
      simp only [World.connect]
      split_ifs with hc
      · exact Function.update_of_ne (fun hid => hclean ⟨hid.symm, hc⟩) _ _
      · rfl
    constructor
    · intro f sub hsub
      rw [hcleans]
      exact h.fresh f sub hsub
    · intro f s hs
      rw [hcleans]
      exact h.rows f s hs
    · intro f s hs
      rw [hcleans]
      exact h.pending f s hs
    · intro g hg hcid rows hrows
      rw [hcleans]
      rcases mem_restores_connect hg with hold | hnone
      · exact h.restores g hold hcid rows hrows
      · rw [hnone] at hrows
        cases hrows

theorem Current.subscribe (h : Current cid w) (c : Connection) (env : SubscribeEnv Unit)
    (sub : SubscribeEntry) : Current cid (w.subscribe c env sub) := by
  simp only [World.subscribe]
  split
  · refine h.update rfl rfl rfl ?_ ?_
    · intro f s hs
      rw [Router.held_subscribe] at hs
      split_ifs at hs with hcf
      · cases hs
        rw [hcf.1]
        exact .inr rfl
      · exact .inl hs
    · intro f s hs
      rcases List.mem_append.mp hs with hold | hnew
      · exact .inl hold
      · split_ifs at hnew
        · cases hnew
        · cases List.mem_singleton.mp hnew
          exact .inr rfl
  · exact h

theorem Current.unsubscribe (h : Current cid w) (c : Connection) (env : SubscribeEnv Unit)
    (filter : GoString) : Current cid (w.unsubscribe c env filter) := by
  simp only [World.unsubscribe]
  split
  · refine h.update rfl rfl rfl ?_ ?_
    · intro f s hs
      rw [Router.held_unsubscribe] at hs
      split_ifs at hs
      exact .inl hs
    · intro f s hs
      rcases List.mem_append.mp hs with hold | hnew
      · exact .inl hold
      · split_ifs at hnew
        · cases hnew
        · cases List.mem_singleton.mp hnew
  · exact h

theorem held_of_unsubscribeAll {r : Router Nat} {id f : GoString} {sub : Router.Subscriber Nat}
    (h : Router.held (r.unsubscribeAll id) cid f = some sub) : Router.held r cid f = some sub := by
  rw [Router.held_unsubscribeAll] at h
  split_ifs at h
  exact h

theorem Current.purge (h : Current cid w) (id : GoString) :
    Current cid (w.purgePersistentSession id) := by
  refine h.update rfl rfl rfl (fun f s hs => .inl (held_of_unsubscribeAll hs)) fun f s hs => ?_
  rcases List.mem_append.mp hs with hold | hnew
  · exact .inl hold
  · cases List.mem_singleton.mp hnew

theorem Current.cleanup (h : Current cid w) (j now : Nat) (c : Connection) :
    Current cid (w.cleanup j now c) := by
  simp only [World.cleanup]
  split_ifs with hclean hpurge
  · exact h.update rfl rfl rfl (fun f s hs => .inl (held_of_unsubscribeAll hs)) fun f s hs =>
      .inl hs
  · refine Current.purge ?_ c.cid
    exact h.update rfl rfl rfl (fun f s hs => .inl hs) fun f s hs => .inl hs
  · exact h.update rfl rfl rfl (fun f s hs => .inl hs) fun f s hs => .inl hs

/-- One goroutine of restoreSession moves on, to rows that are current. -/
theorem Current.setRestore (h : Current cid w) {router : Router Nat} {i : Nat} {g : Restore}
    (hrouter : ∀ f sub, Router.held router cid f = some sub →
      Router.held w.router cid f = some sub ∨ sub.deliver = some (w.cleans cid))
    (hg : g.cid = cid → ∀ rows, g.rows = some rows → ∀ e ∈ rows, e.2.made = w.cleans cid) :
    Current cid { w with router := router, restores := w.restores.set i g } where
  fresh f sub hsub := (hrouter f sub hsub).elim (h.fresh f sub) id
  rows := h.rows
  pending := h.pending
  restores g' hg' hcid rows hrows := by
    rcases List.mem_or_eq_of_mem_set hg' with hold | rfl
    · exact h.restores g' hold hcid rows hrows
    · exact hg hcid rows hrows

theorem Current.write (h : Current cid w) {i : Nat} {wr : Write Stamped}
    (hi : w.pending[i]? = some wr) :
    Current cid { w with subs := wr.exec w.subs, pending := w.pending.eraseIdx i } where
  fresh := h.fresh
  rows f s hs := by
    have hmem : wr ∈ w.pending := List.mem_of_getElem? hi
    rw [Write.row_exec] at hs
    cases wr with
    | saveSub id f' s' =>
        simp only [Mirror.exec, Write.effect] at hs
        split_ifs at hs with hcf
        · obtain ⟨rfl, rfl⟩ := hcf
          cases hs
          exact h.pending f s hmem
        · exact h.rows f s hs
    | deleteSub id f' =>
        simp only [Mirror.exec, Write.effect] at hs
        split_ifs at hs
        · cases hs
        · exact h.rows f s hs
    | deleteAllSubs id =>
        simp only [Mirror.exec, Write.effect] at hs
        split_ifs at hs
        · cases hs
        · exact h.rows f s hs
  pending f s hs := h.pending f s (List.mem_of_mem_eraseIdx hs)
  restores := h.restores

theorem current_step {e : Event} {t : World} (h : Current cid w) (hok : StartsVacant cid w e)
    (ht : step w e = some t) : Current cid t := by
  cases e with
  | connect id pkt now =>
      cases ht
      exact h.connect now hok
  | subscribe j env sub =>
      obtain ⟨c, -, rfl⟩ := Option.map_eq_some_iff.mp ht
      exact h.subscribe c env sub
  | unsubscribe j env filter =>
      obtain ⟨c, -, rfl⟩ := Option.map_eq_some_iff.mp ht
      exact h.unsubscribe c env filter
  | disconnect j expiry =>
      obtain ⟨c, -, rfl⟩ := Option.map_eq_some_iff.mp ht
      exact h.update rfl rfl rfl (fun f s hs => .inl hs) fun f s hs => .inl hs
  | ended j now =>
      obtain ⟨c, -, rfl⟩ := Option.map_eq_some_iff.mp ht
      exact h.cleanup j now c
  | sweep p now =>
      cases ht
      simp only [World.sweepOne]
      split_ifs
      · exact h.purge _
      · exact h
  | getSubs i rows =>
      simp only [step] at ht
      split at ht
      · rename_i id hi
        split_ifs at ht with hperm
        cases ht
        refine h.setRestore (fun f sub hsub => .inl hsub) ?_
        rintro rfl _ ⟨⟩ ⟨f, s⟩ he
        exact h.rows f s ((Subscriptions.mem_getSubs _ _ f s).mp (hperm.mem_iff.mp he))
      · cases ht
  | restore i =>
      simp only [step] at ht
      split at ht
      · rename_i id f s rest hi
        cases ht
        have hg := h.restores _ (List.mem_of_getElem? hi)
        refine h.setRestore ?_ ?_
        · intro f' sub hsub
          rw [Router.held_subscribe] at hsub
          split_ifs at hsub with hcf
          · cases hsub
            rw [hg hcf.1.symm _ rfl (f, s) List.mem_cons_self]
            exact .inr rfl
          · exact .inl hsub
        · rintro hcid _ ⟨⟩ e he
          exact hg hcid _ rfl e (List.mem_cons_of_mem _ he)
      · cases ht
  | write i =>
      obtain ⟨wr, hi, rfl⟩ := Option.map_eq_some_iff.mp ht
      exact h.write hi

end Steps

/-- In every run from here on, and in all its states, the client has no older subscription. -/
def Lasting (cid : GoString) (w : World) : Prop :=
  ∀ es t, Meets step (StartsVacant cid) es w → run step es w = some t → Fresh cid t

theorem Current.lasting {cid : GoString} {w : World} (h : Current cid w) : Lasting cid w := by
  intro es t hok hrun
  exact (invariant_run (fun _ _ _ h hok ht => current_step h hok ht) h hok hrun).fresh

/-! What is left of an older subscription comes back: a write brings it into the table, two
persistent connections after each other read it from there, and the goroutine of
restoreSession puts it into the router. -/

section Return
variable {cid : GoString} {w t : World}

theorem Lasting.fresh (h : Lasting cid w) : Fresh cid w := h [] w trivial rfl

theorem Lasting.step {e : Event} (h : Lasting cid w) (ht : step w e = some t)
    (he : StartsVacant cid w e) : Lasting cid t := by
  intro es u hok hrun
  refine h (e :: es) u ⟨he, fun t' ht' => ?_⟩ (by rw [run, ht, Option.bind_some, hrun])
  rw [ht] at ht'
  cases ht'
  exact hok

theorem Lasting.restores {i : Nat} {rows : List (GoString × Stamped)} (h : Lasting cid w)
    (hi : w.restores[i]? = some ⟨cid, some rows⟩) : ∀ e ∈ rows, e.2.made = w.cleans cid := by
  induction rows generalizing w with
  | nil =>
      intro e he
      cases he
  | cons row rest ih =>
      obtain ⟨f, s⟩ := row
      have hstep : CleanStart.step w (.restore i) =
          some (w.restoreNext i ⟨cid, none⟩ f s rest) := by
        simp only [CleanStart.step, hi]
      have hnext := h.step hstep trivial
      intro e he
      rcases List.mem_cons.mp he with rfl | hmem
      · have hsub := hnext.fresh f ⟨cid, s.qos, some s.made⟩ (by
          rw [World.restoreNext, Router.held_subscribe, if_pos ⟨rfl, rfl⟩])
        exact Option.some.inj hsub
      · refine ih hnext ?_ e hmem
        have hlt := (List.getElem?_eq_some_iff.mp hi).1
        simp [World.restoreNext, hlt]

/-- A persistent CONNECT. -/
def resume : ConnectPacket := ⟨v311, false, 0, 0, 0, 0, 0, none⟩

theorem present_resume (w : World) :
    ((w.connect cid resume 0).sessions.getOrCreate cid false 0).2.2 = true := by
  have hget := Store.get_getOrCreate cid false 0 w.sessions
  have hclean : ((w.sessions.getOrCreate cid false 0).1.heap
      (w.sessions.getOrCreate cid false 0).2.1).cleanSession = false := by
    rcases Store.getOrCreate_cases cid false 0 w.sessions with ⟨p, hp, -, -, hclean⟩ | hnew
    · rw [hp]
      exact hclean
    · rw [hnew, Store.heap_create_self]
      rfl
  have hconnect (s : Session) : (resume.connectSession 0 s).cleanSession = s.cleanSession :=
    congrArg Tables.cleanSession (tables_connectSession resume 0 s)
  change (Store.getOrCreate cid false 0 (Store.modify (w.sessions.getOrCreate cid false 0).2.1
    (resume.connectSession 0) (w.sessions.getOrCreate cid false 0).1)).2.2 = true
  generalize w.sessions.getOrCreate cid false 0 = g at hget hclean
  simp [Store.getOrCreate, Store.modify, hget, hconnect, hclean]

theorem Lasting.rows (h : Lasting cid w) {f : GoString} {s : Stamped}
    (hrow : Subscriptions.row w.subs cid f = some s) : s.made = w.cleans cid := by
  have hconnect (w : World) : CleanStart.step w (.connect cid resume 0) =
      some (w.connect cid resume 0) := rfl
  have hstart (w : World) : StartsVacant cid w (.connect cid resume 0) :=
    fun _ hclean => by cases hclean
  have hlasting := (h.step (hconnect w) (hstart w)).step (hconnect _) (hstart _)
  set w₁ := w.connect cid resume 0
  set w₂ := w₁.connect cid resume 0
  have hi : w₂.restores[w₁.restores.length]? = some ⟨cid, none⟩ := by
    have hpresent : (w₁.sessions.getOrCreate cid false 0).2.2 = true := present_resume w
    have hrestores : w₂.restores = w₁.restores ++ [⟨cid, none⟩] := by
      simp [w₂, World.connect, hpresent, resume]
    rw [hrestores, List.getElem?_concat_length]
  have hperm : (w₂.subs.getSubs cid).Perm (w₂.subs.getSubs cid) := List.Perm.refl _
  have hget : CleanStart.step w₂ (.getSubs w₁.restores.length (w₂.subs.getSubs cid)) =
      some { w₂ with restores := w₂.restores.set w₁.restores.length ⟨cid,
        some (w₂.subs.getSubs cid)⟩ } := by
    simp only [CleanStart.step, hi, if_pos hperm]
  have hlt := (List.getElem?_eq_some_iff.mp hi).1
  have hset :
      (w₂.restores.set w₁.restores.length ⟨cid, some (w₂.subs.getSubs cid)⟩)[w₁.restores.length]? =
      some ⟨cid, some (w₂.subs.getSubs cid)⟩ := by
    simp [hlt]
  exact (hlasting.step hget trivial).restores hset (f, s)
    ((Subscriptions.mem_getSubs _ _ _ _).mpr hrow)

theorem Lasting.pending (h : Lasting cid w) {f : GoString} {s : Stamped}
    (hmem : .saveSub cid f s ∈ w.pending) : s.made = w.cleans cid := by
  obtain ⟨i, hi⟩ := List.mem_iff_getElem?.mp hmem
  have hstep : CleanStart.step w (.write i) = some { w with
      subs := Write.exec w.subs (.saveSub cid f s), pending := w.pending.eraseIdx i } := by
    simp only [CleanStart.step, hi, Option.map_some]
  refine (h.step hstep trivial).rows (f := f) ?_
  rw [Write.exec, Subscriptions.row_saveSub, if_pos ⟨rfl, rfl⟩]

/-- Nothing older comes back exactly when nothing older is left. -/
theorem lasting_iff : Lasting cid w ↔ Current cid w := by
  refine ⟨fun h => ⟨h.fresh, fun f s => h.rows, fun f s => h.pending, ?_⟩, Current.lasting⟩
  rintro ⟨id, _⟩ hg rfl rows rfl
  obtain ⟨i, hi⟩ := List.mem_iff_getElem?.mp hg
  exact h.restores hi

end Return

theorem current_connect_clean {cid : GoString} {w : World} (h : Current cid w) {pkt : ConnectPacket}
    (hclean : pkt.cleanSession = true) (now : Nat) :
    Current cid (w.connect cid pkt now) ↔ Vacant cid w := by
  refine ⟨fun h' => ?_, fun hv => h.connect now fun _ _ => hv⟩
  have hcleans : (w.connect cid pkt now).cleans cid = w.cleans cid + 1 := by
    simp [World.connect, hclean]
  constructor
  · intro f
    by_contra hne
    obtain ⟨sub, hsub⟩ := Option.ne_none_iff_exists'.mp hne
    have hnew := h'.fresh f sub hsub
    rw [h.fresh f sub hsub, hcleans] at hnew
    exact absurd (Option.some.inj hnew) (Nat.ne_of_lt (Nat.lt_succ_self _))
  · intro f
    by_contra hne
    obtain ⟨s, hs⟩ := Option.ne_none_iff_exists'.mp hne
    have hnew := h'.rows f s hs
    rw [h.rows f s hs, hcleans] at hnew
    exact absurd hnew (Nat.ne_of_lt (Nat.lt_succ_self _))
  · intro f s hs
    have hnew := h'.pending f s hs
    rw [h.pending f s hs, hcleans] at hnew
    exact absurd hnew (Nat.ne_of_lt (Nat.lt_succ_self _))
  · intro g hg hcid rows hrows
    refine List.eq_nil_iff_forall_not_mem.mpr fun e he => ?_
    have hnew := h'.restores g (List.mem_append_left _ hg) hcid rows hrows e he
    rw [h.restores g hg hcid rows hrows e he, hcleans] at hnew
    exact absurd hnew (Nat.ne_of_lt (Nat.lt_succ_self _))

/-- In a run whose clean CONNECTs of the client come when nothing of it is left, the router
never holds a subscription of the client from before its last clean CONNECT; and after a clean
CONNECT that does not, one is there or can come back. -/
theorem clean_start (cid : GoString) (es : List Event) (s t : World) (hs : Current cid s)
    (hok : Meets step (StartsVacant cid) es s) (hrun : run step es s = some t) :
    Fresh cid t ∧ ∀ pkt now, pkt.cleanSession = true →
      (Lasting cid (t.connect cid pkt now) ↔ Vacant cid t) := by
  have ht : Current cid t := invariant_run (fun _ _ _ h hok ht => current_step h hok ht) hs hok hrun
  exact ⟨ht.fresh, fun pkt now hclean => lasting_iff.trans (current_connect_clean ht hclean now)⟩

def start : World where
  router := Router.new
  subs := FinMap.empty
  pending := []
  sessions := Store.newStore
  conns := []
  restores := []
  cleans := fun _ => 0

theorem vacant_start (cid : GoString) : Vacant cid start where
  router f := Router.held_new cid f
  rows _ := rfl
  pending _ _ := List.not_mem_nil
  restores _ hg := absurd hg List.not_mem_nil

def connectC1 (clean : Bool) : Event := .connect (str "c1") { resume with cleanSession := clean } 0

def subscribeOn (j : Nat) (filter : String) : Event := .subscribe j (envWith []) ⟨str filter, 1⟩

/-- What follows a clean CONNECT: a persistent session, and its subscription made, written and
restored. -/
def persistentAfterClean : List Event :=
  [subscribeOn 0 "a", .ended 0 0, connectC1 false, subscribeOn 1 "b", .write 0, connectC1 false,
    .getSubs 0 [(str "b", ⟨1, 1⟩)], .restore 0]

theorem clean_start_restored :
    ∃ t, run step (connectC1 true :: persistentAfterClean) start = some t ∧
    Router.held t.router (str "c1") (str "b") = some ⟨str "c1", 1, some 1⟩ ∧
      Fresh (str "c1") t := by
  obtain ⟨t, ht, hheld⟩ := reaches_of_any step (connectC1 true :: persistentAfterClean) start
    (fun t => Router.held t.router (str "c1") (str "b") = some ⟨str "c1", 1, some 1⟩)
    (by decide +kernel)
  have hvacant := vacant_start (str "c1")
  have hafter : ∀ e ∈ persistentAfterClean, ∀ w, StartsVacant (str "c1") w e := by
    intro e he w
    simp only [persistentAfterClean, List.mem_cons, List.not_mem_nil, or_false] at he
    rcases he with rfl | rfl | rfl | rfl | rfl | rfl | rfl | rfl
    all_goals first | trivial | exact fun _ h => by cases h
  have hok : Meets step (StartsVacant (str "c1")) (connectC1 true :: persistentAfterClean) start :=
    ⟨fun _ _ => hvacant, fun _ _ => meets_of_forall_mem hafter⟩
  exact ⟨t, ht, hheld, (clean_start (str "c1") _ start t hvacant.current hok ht).1⟩

/-- The client subscribes in a persistent session, leaves, and starts a clean session. -/
def cleanAfterPersistent : List Event :=
  [connectC1 false, subscribeOn 0 "a", .write 0, .ended 0 0, connectC1 true]

/-- The subscription of the client on the filter a, with the number of its SUBSCRIBE. -/
def HasA (o : Option Nat) (t : World) : Prop :=
  t.cleans (str "c1") = 1 ∧ (Router.held t.router (str "c1") (str "a")).bind (·.deliver) = o

instance (o : Option Nat) : DecidablePred (HasA o) := fun _ => inferInstanceAs (Decidable (_ ∧ _))

/-- The clean session still receives what the persistent one subscribed to. When it has ended
and the subscription is gone, the second persistent connection gets it back. -/
theorem subscription_outlives_clean_session :
    (∃ t, run step cleanAfterPersistent start = some t ∧ HasA (some 0) t) ∧
    (∃ t, run step (cleanAfterPersistent ++ [.ended 1 0]) start = some t ∧ HasA none t) ∧
    ∃ t, run step (cleanAfterPersistent ++ [.ended 1 0, connectC1 false, .ended 2 0,
        connectC1 false, .getSubs 0 [(str "a", ⟨1, 0⟩)], .restore 0]) start = some t ∧
      HasA (some 0) t :=
  ⟨reaches_of_any _ _ _ _ (by decide +kernel), reaches_of_any _ _ _ _ (by decide +kernel),
    reaches_of_any _ _ _ _ (by decide +kernel)⟩

end LumaBroker.Broker.CleanStart
