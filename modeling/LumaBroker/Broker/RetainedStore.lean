import LumaBroker.Broker.InboundQoS2
import LumaBroker.Broker.Wire
import LumaBroker.Lib.Transition
import LumaBroker.Router.RetainedHistory
import LumaBroker.Storage.Retained

/-!
Retained messages in Redis. Router.Publish of internal/router/router.go keeps them in memory
for every caller: PUBLISH and PUBREL of clients, wills, and the REST interface through
apiPublishLoop of internal/broker/server.go. The copy in Redis, from which loadRetained fills
the router of the next start, is written by handlePublish of internal/broker/client.go alone,
in a goroutine of each accepted PUBLISH.
-/

namespace LumaBroker.Broker.RetainedStore

open Storage Transition

variable {δ : Type}

/-- The loop of loadRetained over what GetAllRetained returned. -/
def loadRetained (records : List RetainedRecord) (r : Router δ) : Router δ :=
  records.foldl (fun r rec => r.setRetained ⟨rec.topic, rec.payload, rec.qos, rec.timestamp⟩) r

/-- The retained message of a topic. -/
def retainedOf (r : Router δ) (topic : GoString) : Option (List UInt8 × UInt8) :=
  (r.retained.get topic).map fun msg => (msg.payload, msg.qos)

structure World (δ : Type) where
  router : Router δ
  redis : RetainedHash
  pending : List SetRetained
  clients : FinMap GoString (Conn × Session)

/-- What changes the router's retained messages, what else happens to the connection and the
session of a client, and the goroutines that write. -/
inductive Event where
  | publish (env : PublishEnv) (cid : GoString) (pkt : PublishPacket) (now : Nat)
  | pubrel (cid : GoString) (id : UInt16) (now : Nat)
  /-- The will that cleanup publishes. -/
  | will (cid : GoString) (now : Nat)
  | restPublish (req : Api.PublishReq) (username : GoString) (now : Nat)
  | retainedDelete (topic : GoString) (now : Nat)
  | client (cid : GoString) (conn : Conn) (sess : Session)
  | write (i now : Nat)

/-- The call that handlePublish makes of SetRetained, if the packet passes every check. -/
def setRetainedOf (env : PublishEnv) (now : Nat) (pkt : PublishPacket) (c : Conn) :
    Option SetRetained :=
  (c.resolvePublishTopic pkt).bind fun (topic, c') =>
    if Accepted env now pkt c topic c' ∧ pkt.retain = true then some ⟨topic, pkt.payload, pkt.qos⟩
    else none

/-- What an event does: its calls of Router.Publish, its call of SetRetained, and the client's
connection and session after it. -/
structure Effects where
  calls : List PublishCall
  write : Option SetRetained
  client : Option (GoString × Conn × Session)

/-- None where the event cannot happen: there is no such client, or the packet is an error. -/
def effects (s : World δ) : Event → Option Effects
  | .publish env cid pkt now =>
      (s.clients.get cid).bind fun (c, sess) =>
        (handlePublish env now pkt c sess).map fun h =>
          ⟨h.calls, setRetainedOf env now pkt c, some (cid, h.answered, h.sess)⟩
  | .pubrel cid id _ =>
      (s.clients.get cid).map fun (c, sess) =>
        let h := handlePubrel id c sess
        ⟨h.calls, none, some (cid, h.answered, h.sess)⟩
  | .will cid _ => (s.clients.get cid).map fun (_, sess) => ⟨willCalls sess, none, none⟩
  | .restPublish req username _ =>
      some ⟨((Api.handlePublish req username).map apiPublishCall).toList, none, none⟩
  | .retainedDelete topic _ => some ⟨[apiPublishCall (Api.handleRetainedDelete topic)], none, none⟩
  | .client cid conn sess => some ⟨[], none, some (cid, conn, sess)⟩
  | .write _ _ => none

def Event.time : Event → Nat
  | .publish _ _ _ now => now
  | .pubrel _ _ now => now
  | .will _ now => now
  | .restPublish _ _ now => now
  | .retainedDelete _ now => now
  | .client _ _ _ => 0
  | .write _ now => now

def route (now : Nat) (r : Router δ) (call : PublishCall) : Router δ :=
  (r.publish call.topic call.payload call.qos call.retain now).router

def World.apply (now : Nat) (e : Effects) (s : World δ) : World δ where
  router := e.calls.foldl (route now) s.router
  redis := s.redis
  pending := s.pending ++ e.write.toList
  clients := e.client.toList.foldl (fun m c => m.set c.1 c.2) s.clients

def step (s : World δ) (e : Event) : Option (World δ) :=
  match e with
  | .write i now =>
      s.pending[i]?.map fun w =>
        { s with redis := SetRetained.exec s.redis (w, now), pending := s.pending.eraseIdx i }
  | e => (effects s e).map fun eff => s.apply e.time eff

/-- After these writes, at these times, a fresh router filled from Redis retains the same. -/
def MirroredBy (s : World δ) (order : List (SetRetained × Nat)) : Prop :=
  ∀ records, records.Perm (order.foldl SetRetained.exec s.redis).getAllRetained →
    ∀ topic, retainedOf (loadRetained records (Router.new : Router δ)) topic =
      retainedOf s.router topic

/-- Once all writes have completed, in whatever order, the retained messages survive a restart. -/
def Mirrored (s : World δ) : Prop :=
  ∀ order : List (SetRetained × Nat), (order.map Prod.fst).Perm s.pending → MirroredBy s order

/-- The copy follows: a retained message that is routed and written at once meets no pending
write of another message for its topic; one that is only routed, or only written, is the
message the router retains already. -/
def Effects.Follows (s : World δ) (eff : Effects) : Prop :=
  match eff.write, eff.calls with
  | none, calls => ∀ call ∈ calls, call.retain = true →
      retainedOf s.router call.topic = message call.payload call.qos
  | some w, [] => retainedOf s.router w.topic = message w.payload w.qos
  | some w, _ :: _ => ∀ w' ∈ s.pending, w'.topic = w.topic →
      message w'.payload w'.qos = message w.payload w.qos

instance (s : World δ) (eff : Effects) : Decidable (eff.Follows s) :=
  match eff with
  | ⟨_, none, _⟩ => inferInstanceAs (Decidable (∀ _ ∈ _, _ → _))
  | ⟨[], some _, _⟩ => inferInstanceAs (Decidable (_ = _))
  | ⟨_ :: _, some _, _⟩ => inferInstanceAs (Decidable (∀ _ ∈ _, _ → _))

def Followed (s : World δ) (e : Event) : Prop := ∀ eff ∈ effects s e, eff.Follows s

instance (s : World δ) (e : Event) : Decidable (Followed s e) :=
  inferInstanceAs (Decidable (∀ eff ∈ effects s e, eff.Follows s))

section Loading

theorem get_setRetained (msg : Router.Retained) (r : Router δ) (topic : GoString) :
    (r.setRetained msg).retained.get topic =
      if topic = msg.topic then some msg else r.retained.get topic := by
  rw [Router.retained_setRetained, FinMap.get_set]

theorem retainedOf_loadRetained_of_not_mem {records : List RetainedRecord} (r : Router δ)
    {topic : GoString} (htopic : topic ∉ records.map RetainedRecord.topic) :
    retainedOf (loadRetained records r) topic = retainedOf r topic := by
  induction records generalizing r with
  | nil => rfl
  | cons rec records ih =>
      rw [List.map_cons, List.mem_cons, not_or] at htopic
      rw [loadRetained, List.foldl_cons]
      refine (ih _ htopic.2).trans ?_
      rw [retainedOf, get_setRetained, if_neg htopic.1, ← retainedOf]

/-- Records with different topics are all loaded, in whatever order. -/
theorem retainedOf_loadRetained {records : List RetainedRecord}
    (hnodup : (records.map RetainedRecord.topic).Nodup) (r : Router δ) {rec : RetainedRecord}
    (hrec : rec ∈ records) :
    retainedOf (loadRetained records r) rec.topic = some (rec.payload, rec.qos) := by
  induction records generalizing r with
  | nil => cases hrec
  | cons rec' records ih =>
      obtain ⟨hnot, hnodup⟩ := List.nodup_cons.mp hnodup
      rcases List.mem_cons.mp hrec with rfl | hmem
      · refine (retainedOf_loadRetained_of_not_mem _ hnot).trans ?_
        rw [retainedOf, get_setRetained, if_pos rfl, Option.map_some]
      · exact ih hnodup _ hmem

theorem retainedOf_loadRetained_hash {h : RetainedHash} {records : List RetainedRecord}
    (hperm : records.Perm h.getAllRetained) :
    retainedOf (loadRetained records (Router.new : Router δ)) = h.stored := by
  funext topic
  have hnodup : (records.map RetainedRecord.topic).Nodup :=
    (hperm.map _).nodup_iff.mpr h.nodup_topics
  cases hget : h.fields.get topic with
  | some rec =>
      have htopic := h.keyed topic rec hget
      subst htopic
      rw [retainedOf_loadRetained hnodup _
        (hperm.mem_iff.mpr ((h.mem_getAllRetained rec).mpr hget)),
        RetainedHash.stored, hget, Option.map_some]
  | none =>
      have hnot : topic ∉ records.map RetainedRecord.topic := by
        rintro hmem
        obtain ⟨rec, hrec, rfl⟩ := List.mem_map.mp hmem
        rw [(h.mem_getAllRetained rec).mp (hperm.mem_iff.mp hrec)] at hget
        cases hget
      rw [retainedOf_loadRetained_of_not_mem _ hnot, RetainedHash.stored, hget]
      rfl

end Loading

theorem retainedOf_route (now : Nat) (r : Router δ) (call : PublishCall) :
    retainedOf (route now r call) =
      if call.retain = true then
        Mirror.exec SetRetained.effect (retainedOf r) ⟨call.topic, call.payload, call.qos⟩
      else retainedOf r := by
  funext topic
  rw [retainedOf, route, Router.retained_publish]
  cases call.retain with
  | false => rfl
  | true =>
      simp only [if_true, Mirror.exec, SetRetained.effect, message, FinMap.get_put]
      by_cases ht : topic = call.topic
      · by_cases hp : call.payload = [] <;> simp [hp, ht]
      · simp [ht, retainedOf]

theorem mirrored_iff {s : World δ} : Mirrored s ↔
    Mirror.Settles SetRetained.effect s.redis.stored s.pending (retainedOf s.router) := by
  rw [Mirror.settles_iff]
  constructor
  · intro h order hperm
    have hmap : (order.map fun w => (w, 0)).map Prod.fst = order := by
      simp [List.map_map, Function.comp_def]
    have hby := h (order.map fun w => (w, 0)) (hmap.symm ▸ hperm) _ (List.Perm.refl _)
    rw [← hmap, ← SetRetained.stored_foldl_exec, ← retainedOf_loadRetained_hash (List.Perm.refl _)]
    exact funext hby
  · intro h order hperm records hrecords topic
    rw [retainedOf_loadRetained_hash hrecords, SetRetained.stored_foldl_exec, h _ hperm]

/-- An event that writes nothing makes one call at most. One that writes is a PUBLISH: its
call, if it makes one, is for the message it writes. -/
theorem effects_cases {s : World δ} {e : Event} {eff : Effects} (h : effects s e = some eff) :
    eff.write = none ∧ (eff.calls = [] ∨ ∃ call, eff.calls = [call]) ∨
      ∃ w, eff.write = some w ∧
        (eff.calls = [] ∨ eff.calls = [⟨w.topic, w.payload, w.qos, true⟩]) := by
  cases e with
  | publish env cid pkt now =>
      obtain ⟨⟨c, sess⟩, hc, hmap⟩ := Option.bind_eq_some_iff.mp h
      obtain ⟨h', hh, rfl⟩ := Option.map_eq_some_iff.mp hmap
      rcases handlePublish_cases hh with ⟨hcalls, -, -⟩ | ⟨topic, c', hacc, rfl⟩
      · cases hw : setRetainedOf env now pkt c with
        | none => exact .inl ⟨rfl, .inl hcalls⟩
        | some w => exact .inr ⟨w, rfl, .inl hcalls⟩
      · have hw : setRetainedOf env now pkt c =
            if pkt.retain = true then some ⟨topic, pkt.payload, pkt.qos⟩ else none := by
          simp [setRetainedOf, hacc.1, hacc]
        have hcalls : (acceptPublish env topic now pkt c' sess).calls = [] ∨
            (acceptPublish env topic now pkt c' sess).calls =
              [⟨topic, pkt.payload, pkt.qos, pkt.retain⟩] := by
          simp only [acceptPublish]
          split_ifs <;> simp
        cases hr : pkt.retain with
        | false =>
            rw [hr] at hw hcalls
            exact .inl ⟨hw, hcalls.imp_right fun h => ⟨_, h⟩⟩
        | true =>
            rw [hr] at hw hcalls
            exact .inr ⟨_, hw, hcalls⟩
  | pubrel cid id now =>
      obtain ⟨⟨c, sess⟩, hc, rfl⟩ := Option.map_eq_some_iff.mp h
      refine .inl ⟨rfl, ?_⟩
      simp only [handlePubrel]
      cases (sess.ackInFlight id).2 <;> simp
  | will cid now =>
      obtain ⟨⟨c, sess⟩, hc, rfl⟩ := Option.map_eq_some_iff.mp h
      refine .inl ⟨rfl, ?_⟩
      simp only [willCalls]
      split_ifs <;> simp
  | restPublish req username now =>
      cases h
      refine .inl ⟨rfl, ?_⟩
      cases Api.handlePublish req username <;> simp
  | retainedDelete topic now =>
      cases h
      exact .inl ⟨rfl, .inr ⟨_, rfl⟩⟩
  | client cid conn sess =>
      cases h
      exact .inl ⟨rfl, .inl rfl⟩
  | write i now => cases h

theorem exec_eq_self_iff {target : GoString → Option (List UInt8 × UInt8)} {w : SetRetained} :
    Mirror.exec SetRetained.effect target w = target ↔
      target w.topic = message w.payload w.qos := by
  constructor
  · intro h
    rw [← h, Mirror.exec_of_some (by rw [SetRetained.effect, if_pos rfl])]
  · intro h
    funext topic
    by_cases ht : topic = w.topic
    · subst ht
      rw [h, Mirror.exec_of_some (by rw [SetRetained.effect, if_pos rfl])]
    · exact Mirror.exec_of_none (by rw [SetRetained.effect, if_neg ht])

theorem mirrored_apply {s : World δ} {e : Event} {eff : Effects} (hs : Mirrored s)
    (heff : effects s e = some eff) (now : Nat) : Mirrored (s.apply now eff) ↔ Followed s e := by
  have hfollowed : Followed s e ↔ eff.Follows s := by
    simp only [Followed, heff, Option.mem_some_iff, forall_eq']
  rw [hfollowed, mirrored_iff, Effects.Follows]
  rw [mirrored_iff] at hs
  rcases effects_cases heff with ⟨hw, hcalls | ⟨call, hcalls⟩⟩ | ⟨w, hw, hcalls | hcalls⟩
  · simpa [World.apply, hw, hcalls] using hs
  · simp only [World.apply, hw, hcalls, List.foldl_cons, List.foldl_nil, Option.toList_none,
      List.append_nil, retainedOf_route, List.mem_singleton, forall_eq]
    rw [hs.change_iff]
    split_ifs with hr
    · simp [exec_eq_self_iff, hr]
    · simp [hr]
  · simp only [World.apply, hw, hcalls, List.foldl_nil, Option.toList_some]
    rw [hs.launch_iff, eq_comm, exec_eq_self_iff]
    refine ⟨And.left, fun h => ⟨h, fun w' hw' hconflict => ?_⟩⟩
    obtain ⟨ht, hne⟩ := (SetRetained.conflict_iff w' w).mp hconflict
    refine hne ((hs.written w' hw' w'.topic _ (by rw [SetRetained.effect, if_pos rfl])).trans ?_)
    rw [ht, h]
  · simp only [World.apply, hw, hcalls, List.foldl_cons, List.foldl_nil, Option.toList_some,
      retainedOf_route, if_true]
    rw [hs.launch_iff]
    simp only [SetRetained.conflict_iff, true_and, not_and, not_not]

/-- A step from a mirrored state leads to one exactly when the copy follows. -/
theorem mirrored_step {s t : World δ} {e : Event} (hs : Mirrored s) (ht : step s e = some t) :
    Mirrored t ↔ Followed s e := by
  cases e with
  | write i now =>
      obtain ⟨w, hw, rfl⟩ := Option.map_eq_some_iff.mp ht
      obtain ⟨hi, rfl⟩ := List.getElem?_eq_some_iff.mp hw
      have hfollowed : Followed s (.write i now) :=
        fun eff heff => absurd heff (Option.not_mem_none eff)
      refine iff_of_true ?_ hfollowed
      rw [mirrored_iff] at hs ⊢
      rw [SetRetained.stored_exec]
      exact hs.exec (List.getElem_cons_eraseIdx_perm hi).symm
  | publish _ _ _ _ | pubrel _ _ _ | will _ _ | restPublish _ _ _ | retainedDelete _ _
  | client _ _ _ =>
      simp only [step] at ht
      obtain ⟨eff, heff, rfl⟩ := Option.map_eq_some_iff.mp ht
      exact mirrored_apply hs heff _

/-- In a run in which the copy follows, the retained messages survive a restart once the writes
have completed, in whatever order they do; and a step in which it does not follow leaves an
order in which they do not survive. -/
theorem retained_survive_restart (es : List Event) (s t : World δ) (hs : Mirrored s)
    (hok : Meets step Followed es s) (hrun : run step es s = some t) :
    Mirrored t ∧ ∀ e u, step t e = some u → (Mirrored u ↔ Followed t e) := by
  have ht : Mirrored t :=
    invariant_run (fun _ _ _ hs hok ht => (mirrored_step hs ht).mpr hok) hs hok hrun
  exact ⟨ht, fun e u hu => mirrored_step ht hu⟩

/-- A broker that has just started, with one client. -/
def start : World Unit where
  router := Router.new
  redis := RetainedHash.empty
  pending := []
  clients :=
    FinMap.empty.set (str "c1") (InboundQoS2.justConnected.conn, InboundQoS2.justConnected.sess)

theorem mirrored_start : Mirrored start := mirrored_iff.mpr (Mirror.settles_nil.mpr rfl)

/-- A retained PUBLISH of the client. -/
def publishT (qos : UInt8) (payload : List UInt8) : Event :=
  .publish InboundQoS2.openBroker (str "c1") ⟨false, qos, true, str "t", 7, payload, 0, 0, 0⟩ 0

theorem retained_survive_restart_in_turn : ∃ t : World Unit,
    run step [publishT 1 [1], .write 0 0, publishT 0 [2], .write 0 0, publishT 1 []]
      start = some t ∧
      t.pending = [⟨str "t", [], 1⟩] ∧ Mirrored t := by
  obtain ⟨t, ht, hpending⟩ := reaches_of_any step
    [publishT 1 [1], .write 0 0, publishT 0 [2], .write 0 0, publishT 1 []] start
    (fun t => t.pending = [⟨str "t", [], 1⟩]) (by decide +kernel)
  exact ⟨t, ht, hpending,
    (retained_survive_restart _ start t mirrored_start (by decide +kernel) ht).1⟩

/-- The retained message of the topic t in the router and after a restart, with no write left. -/
def AfterRestart (now loaded : Option (List UInt8 × UInt8)) (t : World Unit) : Prop :=
  t.pending = [] ∧ retainedOf t.router (str "t") = now ∧
    retainedOf (loadRetained t.redis.getAllRetained (Router.new : Router Unit)) (str "t") = loaded

instance (now loaded : Option (List UInt8 × UInt8)) : DecidablePred (AfterRestart now loaded) :=
  fun _ => inferInstanceAs (Decidable (_ ∧ _ ∧ _))

/-- A retained message published through the REST interface is lost; one of a QoS 2 PUBLISH
that is never released appears; and of two messages the first comes back when the writes
change places. -/
theorem retained_lost_in_restart :
    (∃ t, run step [.restPublish ⟨str "t", [1], 0, true⟩ (str "admin") 0] start = some t ∧
      AfterRestart (some ([1], 0)) none t) ∧
    (∃ t, run step [publishT 2 [1], .write 0 0] start = some t ∧
      AfterRestart none (some ([1], 2)) t) ∧
    ∃ t, run step [publishT 1 [1], publishT 1 [2], .write 1 0, .write 0 0] start = some t ∧
      AfterRestart (some ([2], 1)) (some ([1], 1)) t :=
  ⟨reaches_of_any _ _ _ _ (by decide +kernel), reaches_of_any _ _ _ _ (by decide +kernel),
    reaches_of_any _ _ _ _ (by decide +kernel)⟩

end LumaBroker.Broker.RetainedStore
