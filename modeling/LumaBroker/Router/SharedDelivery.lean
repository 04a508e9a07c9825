import Mathlib.Data.Finset.Sort
import LumaBroker.Lib.RoundRobin
import LumaBroker.Router.Shared

/-!
Which member of a shared group a publish serves. Each publish is compared with the
subscription table, and a stretch of publishes during which the members of a group
stay the same is compared with serving a list in turn.
-/

namespace LumaBroker.Router
variable {δ : Type}

/-- What a publish does to one group: the counter moves when the group is served. -/
def served (topic : GoString) (g : SharedGroup δ) : Bool :=
  topicMatchesFilter topic g.topicFilter && !g.subs.isEmpty

def advance (topic : GoString) (g : SharedGroup δ) : SharedGroup δ :=
  if served topic g then { g with rr := g.rr + 1 } else g

/-- The calls a publish makes for one group. -/
def groupCalls (topic : GoString) (payload : List UInt8) (qos : UInt8) (g : SharedGroup δ) :
    List (Delivery δ) :=
  if served topic g then
    ((nextMember g).bind fun sub => deliverTo sub topic payload qos false).toList
  else []

theorem deliverGroup_eq (topic : GoString) (payload : List UInt8) (qos : UInt8)
    (acc : FinMap GoString (SharedGroup δ) × List (GoString × Delivery δ)) (key : GoString)
    (g : SharedGroup δ) (hg : acc.1.get key = some g) :
    (∀ k, (deliverGroup topic payload qos acc key).1.get k =
        if k = key then some (advance topic g) else acc.1.get k) ∧
      (deliverGroup topic payload qos acc key).2 =
        acc.2 ++ (groupCalls topic payload qos g).map fun d => (key, d) := by
  cases hserved : served topic g with
  | true =>
      obtain ⟨hm, he⟩ := (Bool.and_eq_true _ _).mp hserved
      rw [Bool.not_eq_true'] at he
      simp only [deliverGroup, hg, hm, he]
      refine ⟨fun k => ?_, ?_⟩
      · simp [FinMap.get_set, advance, hserved]
      · simp [groupCalls, hserved]
  | false =>
      have hsame : deliverGroup topic payload qos acc key = acc := by
        rw [served, Bool.and_eq_false_iff] at hserved
        rcases hserved with hm | he
        · simp [deliverGroup, hg, hm]
        · rw [Bool.not_eq_false'] at he
          simp [deliverGroup, hg, he]
      rw [hsame]
      refine ⟨fun k => ?_, by simp [groupCalls, hserved]⟩
      split_ifs with hk
      · rw [hk, hg, advance, hserved]
        rfl
      · rfl

/-- The loop over the keys serves every group from the state it had before. -/
theorem foldl_deliverGroup (topic : GoString) (payload : List UInt8) (qos : UInt8)
    (m : FinMap GoString (SharedGroup δ)) (keys : List GoString) (hnd : keys.Nodup)
    (acc : FinMap GoString (SharedGroup δ) × List (GoString × Delivery δ))
    (hkeys : ∀ k ∈ keys, ∃ g, m.get k = some g ∧ acc.1.get k = some g) :
    (∀ k, (keys.foldl (deliverGroup topic payload qos) acc).1.get k =
        if k ∈ keys then (m.get k).map (advance topic) else acc.1.get k) ∧
      (keys.foldl (deliverGroup topic payload qos) acc).2 =
        acc.2 ++ keys.flatMap fun k =>
          ((m.get k).toList.flatMap (groupCalls topic payload qos)).map fun d => (k, d) := by
  induction keys generalizing acc with
  | nil => simp
  | cons key keys ih =>
      obtain ⟨hfresh, hnd⟩ := List.nodup_cons.mp hnd
      obtain ⟨g, hm, hacc⟩ := hkeys key List.mem_cons_self
      obtain ⟨hget, hcalls⟩ := deliverGroup_eq topic payload qos acc key g hacc
      have hkeys' : ∀ k ∈ keys, ∃ g, m.get k = some g ∧
          (deliverGroup topic payload qos acc key).1.get k = some g := by
        intro k hk
        obtain ⟨g', hm', hacc'⟩ := hkeys k (List.mem_cons_of_mem key hk)
        have hne : k ≠ key := fun e => hfresh (e ▸ hk)
        exact ⟨g', hm', by rw [hget]; simpa [hne] using hacc'⟩
      obtain ⟨ihget, ihcalls⟩ := ih hnd (deliverGroup topic payload qos acc key) hkeys'
      rw [List.foldl_cons]
      refine ⟨fun k => ?_, ?_⟩
      · rw [ihget, hget]
        by_cases hk : k = key
        · subst hk
          simp [hfresh, hm]
        · simp [hk]
      · rw [ihcalls, hcalls]
        simp [hm]

theorem foldl_deliverGroup_keys (topic : GoString) (payload : List UInt8) (qos : UInt8)
    (m : FinMap GoString (SharedGroup δ)) :
    (∀ k, (m.keys.foldl (deliverGroup topic payload qos) (m, [])).1.get k =
        if k ∈ m.keys then (m.get k).map (advance topic) else m.get k) ∧
      (m.keys.foldl (deliverGroup topic payload qos) (m, [])).2 =
        m.keys.flatMap fun k =>
          ((m.get k).toList.flatMap (groupCalls topic payload qos)).map fun d => (k, d) := by
  refine foldl_deliverGroup topic payload qos m m.keys m.keys_nodup (m, []) fun k hk => ?_
  obtain ⟨g, hg⟩ := (m.mem_keys k).mp hk
  exact ⟨g, hg, hg⟩

theorem get_deliverShared (topic : GoString) (payload : List UInt8) (qos : UInt8) (r : Router δ)
    (k : GoString) :
    (deliverShared topic payload qos r).1.shared.get k =
      (r.shared.get k).map (advance topic) := by
  have hfold := (foldl_deliverGroup_keys topic payload qos r.shared).1 k
  simp only [deliverShared, hfold]
  split_ifs with hk
  · rfl
  · cases hg : r.shared.get k with
    | none => rfl
    | some g => exact absurd ((r.shared.mem_keys k).mpr ⟨g, hg⟩) hk

theorem deliverShared_calls (topic : GoString) (payload : List UInt8) (qos : UInt8)
    (r : Router δ) :
    (deliverShared topic payload qos r).2 = r.shared.keys.flatMap fun k =>
      ((r.shared.get k).toList.flatMap (groupCalls topic payload qos)).map fun d => (k, d) := by
  simpa [deliverShared] using (foldl_deliverGroup_keys topic payload qos r.shared).2

theorem filter_flatMap_key (keys : List GoString) (hnd : keys.Nodup)
    (calls : GoString → List (Delivery δ)) (k : GoString) :
    ((keys.flatMap fun k => (calls k).map fun d => (k, d)).filter fun x => x.1 = k) =
      if k ∈ keys then (calls k).map fun d => (k, d) else [] := by
  induction keys with
  | nil => rfl
  | cons key keys ih =>
      obtain ⟨hfresh, hnd⟩ := List.nodup_cons.mp hnd
      rw [List.flatMap_cons, List.filter_append, ih hnd]
      by_cases hk : key = k
      · subst hk
        have hall : ((calls key).map fun d => (key, d)).filter (fun x => x.1 = key) =
            (calls key).map fun d => (key, d) := by
          apply List.filter_eq_self.mpr
          simp
        simp [hfresh, hall]
      · have hnone : ((calls key).map fun d => (key, d)).filter (fun x => x.1 = k) = [] := by
          apply List.filter_eq_nil_iff.mpr
          simp [hk]
        simp [hnone, Ne.symm hk]

/-- The calls a publish makes on behalf of the group stored under a key. -/
def callsFor (key topic : GoString) (payload : List UInt8) (qos : UInt8) (r : Router δ) :
    List (Delivery δ) :=
  ((deliverShared topic payload qos r).2.filter fun x => x.1 = key).map Prod.snd

theorem callsFor_eq (key topic : GoString) (payload : List UInt8) (qos : UInt8) (r : Router δ) :
    callsFor key topic payload qos r =
      (r.shared.get key).toList.flatMap (groupCalls topic payload qos) := by
  rw [callsFor, deliverShared_calls, filter_flatMap_key _ r.shared.keys_nodup]
  split_ifs with hk
  · simp
  · cases hg : r.shared.get key with
    | none => rfl
    | some g => exact absurd ((r.shared.mem_keys key).mpr ⟨g, hg⟩) hk

theorem nextMember_eq (g : SharedGroup δ) :
    nextMember g = g.subs.keys[g.rr.toNat % g.subs.keys.length]?.bind g.subs.get := by
  have hsort : sortStrings g.subs.keys = g.subs.keys := by
    apply List.Pairwise.insertionSort_eq
    exact g.subs.keys_pairwise.imp le_of_lt
  simp [nextMember, hsort]

/-- The member served is a member of the group, the one the counter points at. -/
theorem nextMember_spec {g : SharedGroup δ} (hne : g.subs.isEmpty = false) :
    ∃ c s, nextMember g = some s ∧ g.subs.get c = some s ∧
      g.subs.keys[g.rr.toNat % g.subs.keys.length]? = some c := by
  have hpos : 0 < g.subs.keys.length := by
    rw [List.length_pos_iff]
    intro hnil
    simp [(FinMap.isEmpty_iff_keys _).mpr hnil] at hne
  have hlt : g.rr.toNat % g.subs.keys.length < g.subs.keys.length := Nat.mod_lt _ hpos
  obtain ⟨s, hs⟩ := (g.subs.mem_keys _).mp (List.getElem_mem hlt)
  refine ⟨g.subs.keys[g.rr.toNat % g.subs.keys.length], s, ?_, hs, List.getElem?_eq_getElem hlt⟩
  rw [nextMember_eq, List.getElem?_eq_getElem hlt]
  exact hs

/-- One event of a router's life: a subscription call or a publish. -/
inductive Event (δ : Type) where
  | call (c : Call δ)
  | publish (topic : GoString) (payload : List UInt8) (qos : UInt8) (retain : Bool) (now : Nat)

def stepEvent (r : Router δ) : Event δ → Router δ
  | .call c => r.exec c
  | .publish topic payload qos retain now => (publish topic payload qos retain now r).router

def runEvents (r : Router δ) (events : List (Event δ)) : Router δ := events.foldl stepEvent r

def Table.stepEvent (T : Table δ) : Event δ → Table δ
  | .call c => T.exec c
  | .publish .. => T

def Table.runEvents (T : Table δ) (events : List (Event δ)) : Table δ :=
  events.foldl Table.stepEvent T

/-- The group calls of one event, and of a run, in order. -/
def eventCalls (key : GoString) (r : Router δ) : Event δ → List (Delivery δ)
  | .call _ => []
  | .publish topic payload qos _ _ => callsFor key topic payload qos r

def runCalls (key : GoString) : Router δ → List (Event δ) → List (Delivery δ)
  | _, [] => []
  | r, e :: events => eventCalls key r e ++ runCalls key (stepEvent r e) events

/-- A publish whose topic the inner filter of a group matches. -/
def Event.matches (inner : GoString) : Event δ → Bool
  | .call _ => false
  | .publish topic .. => topicMatchesFilter topic inner

/-- Subscribers are registered with a closure, as the broker always does. -/
def Event.HasDeliver : Event δ → Prop
  | .call (.subscribe _ sub) => sub.deliver.isSome
  | _ => True

theorem shared_publish (topic : GoString) (payload : List UInt8) (qos : UInt8) (retain : Bool)
    (now : Nat) (r : Router δ) :
    (publish topic payload qos retain now r).router.shared =
      (deliverShared topic payload qos r).1.shared := by
  cases retain with
  | false => rfl
  | true => simp [publish, deliverShared]

@[simp] theorem subs_advance (topic : GoString) (g : SharedGroup δ) :
    (advance topic g).subs = g.subs := by
  simp only [advance]
  split_ifs <;> rfl

@[simp] theorem topicFilter_advance (topic : GoString) (g : SharedGroup δ) :
    (advance topic g).topicFilter = g.topicFilter := by
  simp only [advance]
  split_ifs <;> rfl

theorem grouped_publish {r : Router δ} {T : Table δ} (h : Grouped r T) (topic : GoString)
    (payload : List UInt8) (qos : UInt8) (retain : Bool) (now : Nat) :
    Grouped (publish topic payload qos retain now r).router T := by
  have hget (k : GoString) : (publish topic payload qos retain now r).router.shared.get k =
      (r.shared.get k).map (advance topic) := by
    rw [shared_publish, get_deliverShared]
  constructor
  · intro f name inner hf c
    rw [← h.members f name inner hf c, groupOf, groupOf, hget]
    cases r.shared.get (sharedStoreKey name inner) <;> simp
  · intro k g hg
    rw [hget, Option.map_eq_some_iff] at hg
    obtain ⟨g₀, hg₀, rfl⟩ := hg
    simpa using h.keyed k g₀ hg₀
  · intro k g hg
    rw [hget, Option.map_eq_some_iff] at hg
    obtain ⟨g₀, hg₀, rfl⟩ := hg
    simpa using h.inhabited k g₀ hg₀
  · exact h.owner

theorem grouped_stepEvent {r : Router δ} {T : Table δ} (h : Grouped r T) (e : Event δ) :
    Grouped (stepEvent r e) (T.stepEvent e) := by
  cases e with
  | call c => exact grouped_exec h c
  | publish topic payload qos retain now => exact grouped_publish h topic payload qos retain now

theorem grouped_runEvents {r : Router δ} {T : Table δ} (h : Grouped r T)
    (events : List (Event δ)) : Grouped (runEvents r events) (T.runEvents events) := by
  induction events generalizing r T with
  | nil => exact h
  | cons e events ih => exact ih (grouped_stepEvent h e)

/-- Every subscriber of the table has a closure. -/
def Armed (T : Table δ) : Prop := ∀ c f s, T c f = some s → s.deliver.isSome

theorem armed_stepEvent {T : Table δ} (h : Armed T) (e : Event δ) (he : e.HasDeliver) :
    Armed (T.stepEvent e) := by
  intro c f s hs
  cases e with
  | publish topic payload qos retain now => exact h c f s hs
  | call call =>
      cases call with
      | subscribe filter sub =>
          simp only [Table.stepEvent, Table.exec] at hs
          split_ifs at hs with hc
          · cases hs
            exact he
          · exact h c f s hs
      | unsubscribe filter clientID | unsubscribeAll clientID =>
          simp only [Table.stepEvent, Table.exec] at hs
          split_ifs at hs with hc
          exact h c f s hs

theorem armed_runEvents {T : Table δ} (h : Armed T) (events : List (Event δ))
    (he : ∀ e ∈ events, e.HasDeliver) : Armed (T.runEvents events) := by
  induction events generalizing T with
  | nil => exact h
  | cons e events ih =>
      exact ih (armed_stepEvent h e (he e List.mem_cons_self))
        fun x hx => he x (List.mem_cons_of_mem e hx)

theorem callsFor_spec {r : Router δ} {T : Table δ} (h : Grouped r T) (ha : Armed T)
    {f name inner : GoString} (hf : Protocol.parseSharedTopicFilter f = some (name, inner))
    (topic : GoString) (payload : List UInt8) (qos : UInt8) :
    ((∃ c, T c f ≠ none) ∧ topicMatchesFilter topic inner = true →
      ∃ c s d, T c f = some s ∧ s.deliver = some d ∧
        callsFor (sharedStoreKey name inner) topic payload qos r =
          [⟨c, d, topic, payload, min qos s.qos, false, 0⟩]) ∧
    (¬ ((∃ c, T c f ≠ none) ∧ topicMatchesFilter topic inner = true) →
      callsFor (sharedStoreKey name inner) topic payload qos r = []) := by
  rw [callsFor_eq]
  cases hg : r.shared.get (sharedStoreKey name inner) with
  | none =>
      refine ⟨?_, fun _ => rfl⟩
      rintro ⟨⟨c, hc⟩, -⟩
      rw [← h.members f name inner hf c, groupOf, hg] at hc
      exact absurd rfl hc
  | some g =>
      have hinner := h.topicFilter_eq hf hg
      have hne := h.inhabited _ g hg
      have hsubs (c : GoString) : g.subs.get c = T c f := by
        rw [← h.members f name inner hf c, groupOf, hg]
        rfl
      obtain ⟨c, s, hnext, hs, -⟩ := nextMember_spec hne
      have hT : T c f = some s := by rw [← hsubs, hs]
      refine ⟨?_, ?_⟩
      · rintro ⟨-, hm⟩
        obtain ⟨d, hd⟩ := Option.isSome_iff_exists.mp (ha c f s hT)
        refine ⟨c, s, d, hT, hd, ?_⟩
        simp [groupCalls, served, hinner, hm, hne, hnext, deliverTo, hd, h.owner c f s hT,
          effQoS_eq_min]
      · intro hno
        have hm : topicMatchesFilter topic inner = false := by
          cases hm : topicMatchesFilter topic inner with
          | false => rfl
          | true => exact absurd ⟨⟨c, by simp [hT]⟩, hm⟩ hno
        simp [groupCalls, served, hinner, hm]

theorem clients_callsFor {r : Router δ} {T : Table δ} (h : Grouped r T) (ha : Armed T)
    {f name inner : GoString} (hf : Protocol.parseSharedTopicFilter f = some (name, inner))
    {g : SharedGroup δ} (hg : r.shared.get (sharedStoreKey name inner) = some g)
    {topic : GoString} (hm : topicMatchesFilter topic inner = true) (payload : List UInt8)
    (qos : UInt8) :
    (callsFor (sharedStoreKey name inner) topic payload qos r).map Delivery.clientID =
      g.subs.keys[g.rr.toNat % g.subs.keys.length]?.toList := by
  have hinner := h.topicFilter_eq hf hg
  have hne := h.inhabited _ g hg
  obtain ⟨c, s, hnext, hs, hidx⟩ := nextMember_spec hne
  have hT : T c f = some s := by
    rw [← h.members f name inner hf c, groupOf, hg]
    exact hs
  obtain ⟨d, hd⟩ := Option.isSome_iff_exists.mp (ha c f s hT)
  rw [callsFor_eq, hg, hidx]
  simp [groupCalls, served, hinner, hm, hne, hnext, deliverTo, hd, h.owner c f s hT]

theorem rr_of_put {groups : FinMap GoString (SharedGroup δ)} {key k : GoString}
    {result : Option (SharedGroup δ)} {g g' : SharedGroup δ}
    (hresult : ∀ g g', groups.get key = some g → result = some g' → g'.rr = g.rr)
    (hg : groups.get k = some g) (hg' : (groups.put key result).get k = some g') :
    g'.rr = g.rr := by
  rw [FinMap.get_put] at hg'
  split_ifs at hg' with hk
  · exact hresult g g' (hk ▸ hg) hg'
  · rw [hg] at hg'
    cases hg'
    rfl

theorem rr_withoutClient {clientID : GoString} {g g' : SharedGroup δ}
    (h : withoutClient clientID g = some g') : g'.rr = g.rr := by
  obtain ⟨rfl, -⟩ := withoutClient_eq_some h
  rfl

/-- A subscription call never moves the counter of a group that outlives it. -/
theorem rr_exec {r : Router δ} (call : Call δ) {k : GoString} {g g' : SharedGroup δ}
    (hg : r.shared.get k = some g) (hg' : (r.exec call).shared.get k = some g') :
    g'.rr = g.rr := by
  cases call with
  | subscribe filter sub =>
      cases hp : Protocol.parseSharedTopicFilter filter with
      | none =>
          simp only [exec, subscribe, hp, countSubscribe, updateShard, hg] at hg'
          cases hg'
          rfl
      | some parts =>
          simp only [exec, subscribe, hp, subscribeShared, countSubscribe,
            ← FinMap.put_some] at hg'
          refine rr_of_put ?_ hg hg'
          intro g₁ g₂ hg₁ hg₂
          rw [hg₁] at hg₂
          cases hg₂
          rfl
  | unsubscribe filter clientID =>
      cases hp : Protocol.parseSharedTopicFilter filter with
      | none =>
          simp only [exec, unsubscribe, hp, addActive, updateShard, hg] at hg'
          cases hg'
          rfl
      | some parts =>
          simp only [exec, unsubscribe, hp, shared_unsubscribeShared] at hg'
          refine rr_of_put ?_ hg hg'
          intro g₁ g₂ hg₁ hg₂
          rw [hg₁] at hg₂
          exact rr_withoutClient hg₂
  | unsubscribeAll clientID =>
      have hget : (r.exec (.unsubscribeAll clientID)).shared.get k =
          (r.shared.get k).bind (withoutClient clientID) :=
        get_removeClientFromAllShared clientID
          { r with shards := fun i => removeClientFromNode clientID (r.shards i) } k
      rw [hget, hg] at hg'
      exact rr_withoutClient hg'

theorem rr_stepEvent {r : Router δ} (e : Event δ) {k inner : GoString} {g g' : SharedGroup δ}
    (hg : r.shared.get k = some g) (hinner : g.topicFilter = inner)
    (hne : g.subs.isEmpty = false) (hg' : (stepEvent r e).shared.get k = some g') :
    g'.rr = if e.matches inner then g.rr + 1 else g.rr := by
  cases e with
  | call c => simpa [Event.matches] using rr_exec c hg hg'
  | publish topic payload qos retain now =>
      simp only [stepEvent, shared_publish, get_deliverShared, hg, Option.map_some,
        Option.some.injEq] at hg'
      subst hg'
      cases hm : topicMatchesFilter topic inner <;>
        simp [advance, served, Event.matches, hinner, hne, hm]

/-- The members of a group, in the order the counter runs through them. -/
theorem keys_eq_of_members {r : Router δ} {T : Table δ} (h : Grouped r T)
    {f name inner : GoString} (hf : Protocol.parseSharedTopicFilter f = some (name, inner))
    {ids : List GoString} (hsorted : ids.Pairwise (· < ·)) (hids : ids ≠ [])
    (hmem : ∀ c, c ∈ ids ↔ T c f ≠ none) :
    ∃ g, r.shared.get (sharedStoreKey name inner) = some g ∧ g.subs.keys = ids := by
  cases hg : r.shared.get (sharedStoreKey name inner) with
  | none =>
      obtain ⟨c, hc⟩ := List.exists_mem_of_ne_nil ids hids
      have hT := (hmem c).mp hc
      rw [← h.members f name inner hf c, groupOf, hg] at hT
      exact absurd rfl hT
  | some g =>
      refine ⟨g, rfl, (FinMap.eq_keys_of_mem_iff hsorted g.subs fun c => ?_).symm⟩
      have hsubs : g.subs.get c = T c f := by
        rw [← h.members f name inner hf c, groupOf, hg]
        rfl
      rw [hmem, FinMap.mem_keys, hsubs, Option.ne_none_iff_exists']

theorem eventCalls_of_not_matches {r : Router δ} {T : Table δ} (h : Grouped r T) (ha : Armed T)
    {f name inner : GoString} (hf : Protocol.parseSharedTopicFilter f = some (name, inner))
    {e : Event δ} (hm : e.matches inner = false) :
    eventCalls (sharedStoreKey name inner) r e = [] := by
  cases e with
  | call c => rfl
  | publish topic payload qos retain now =>
      have hm' : topicMatchesFilter topic inner = false := hm
      exact (callsFor_spec h ha hf topic payload qos).2 (by simp [hm'])

theorem clients_eventCalls {r : Router δ} {T : Table δ} (h : Grouped r T) (ha : Armed T)
    {f name inner : GoString} (hf : Protocol.parseSharedTopicFilter f = some (name, inner))
    {g : SharedGroup δ} (hg : r.shared.get (sharedStoreKey name inner) = some g)
    {e : Event δ} (hm : e.matches inner = true) :
    (eventCalls (sharedStoreKey name inner) r e).map Delivery.clientID =
      g.subs.keys[g.rr.toNat % g.subs.keys.length]?.toList := by
  cases e with
  | call c => cases hm
  | publish topic payload qos retain now => exact clients_callsFor h ha hf hg hm payload qos

/-- While the members stay the same, the clients served are the members in turn. -/
theorem runCalls_eq_served {f name inner : GoString}
    (hf : Protocol.parseSharedTopicFilter f = some (name, inner)) {ids : List GoString}
    (hsorted : ids.Pairwise (· < ·)) (hids : ids ≠ []) (during : List (Event δ))
    {r : Router δ} {T : Table δ} (h : Grouped r T) (ha : Armed T)
    (hdeliver : ∀ e ∈ during, e.HasDeliver)
    (hmem : ∀ p, p <+: during → ∀ c, c ∈ ids ↔ T.runEvents p c f ≠ none)
    {g : SharedGroup δ} (hg : r.shared.get (sharedStoreKey name inner) = some g)
    (hroom : g.rr.toNat + during.countP (Event.matches inner) ≤ 2 ^ 64) :
    (runCalls (sharedStoreKey name inner) r during).map Delivery.clientID =
      RoundRobin.served ids g.rr.toNat (during.countP (Event.matches inner)) := by
  induction during generalizing r T g with
  | nil => rfl
  | cons e during ih =>
      have hinner := h.topicFilter_eq hf hg
      have hne := h.inhabited _ g hg
      obtain ⟨g₀, hg₀, hkeys⟩ := keys_eq_of_members h hf hsorted hids
        (hmem [] (List.nil_prefix))
      rw [hg] at hg₀
      cases hg₀
      have h' := grouped_stepEvent h e
      have hmem' : ∀ p, p <+: during → ∀ c, c ∈ ids ↔ (T.stepEvent e).runEvents p c f ≠ none := by
        intro p hp c
        exact hmem (e :: p) (List.cons_prefix_cons.mpr ⟨rfl, hp⟩) c
      obtain ⟨g', hg', -⟩ := keys_eq_of_members h' hf hsorted hids (hmem' [] List.nil_prefix)
      have hrr := rr_stepEvent e hg hinner hne hg'
      have hstep := fun hroom => ih h' (armed_stepEvent ha e (hdeliver e List.mem_cons_self))
        (fun x hx => hdeliver x (List.mem_cons_of_mem e hx)) hmem' hg' hroom
      rw [runCalls, List.map_append]
      cases hm : e.matches inner with
      | false =>
          rw [hm] at hrr
          simp only [Bool.false_eq_true, if_false] at hrr
          rw [List.countP_cons_of_neg (by simp [hm])] at hroom ⊢
          rw [eventCalls_of_not_matches h ha hf hm, hstep (by rw [hrr]; exact hroom), hrr]
          rfl
      | true =>
          rw [hm] at hrr
          simp only [if_true] at hrr
          rw [List.countP_cons_of_pos hm] at hroom ⊢
          have hnat : g'.rr.toNat = (g.rr.toNat + 1) % 2 ^ 64 := by rw [hrr]; simp
          rw [clients_eventCalls h ha hf hg hm, hkeys, hstep (by omega), RoundRobin.served_succ]
          congr 1
          -- the counter may reach 2 ^ 64, but only with the last publish
          by_cases hwrap : g.rr.toNat + 1 = 2 ^ 64
          · have hlast : during.countP (Event.matches inner) = 0 := by omega
            rw [hlast, RoundRobin.served_zero, RoundRobin.served_zero]
          · have hsucc : g'.rr.toNat = g.rr.toNat + 1 := by omega
            rw [hsucc]

theorem runEvents_append (T : Table δ) (before p : List (Event δ)) :
    T.runEvents (before ++ p) = (T.runEvents before).runEvents p :=
  List.foldl_append

theorem runEvents_replicate_publish (T : Table δ) (n : Nat) (topic : GoString)
    (payload : List UInt8) (qos : UInt8) (retain : Bool) (now : Nat) :
    T.runEvents (List.replicate n (.publish topic payload qos retain now)) = T := by
  induction n with
  | zero => rfl
  | succ n ih => exact ih

/-- After any events, a publish calls exactly one live member of every shared group
with a live member whose inner filter matches the topic, and nobody for any other
group; and over any stretch in which the members of a group stay the same and its
counter does not pass 2^64, the k publishes that match give each of the n members
between k / n rounded down and k / n rounded up of them. -/
theorem shared_groups_served (before during : List (Event δ))
    (hdeliver : ∀ e ∈ before ++ during, e.HasDeliver) {f name inner : GoString}
    (hf : Protocol.parseSharedTopicFilter f = some (name, inner)) :
    let key := sharedStoreKey name inner
    let r := runEvents new before
    let T := Table.empty.runEvents before
    (∀ topic payload qos retain now,
      (publish topic payload qos retain now r).deliveries =
          ((matchSubscribers topic r).entries.filterMap fun e =>
            deliverTo e.2 topic payload qos false) ++
          (deliverShared topic payload qos r).2.map Prod.snd ∧
      (∀ x ∈ (deliverShared topic payload qos r).2, ∃ f' name' inner',
        Protocol.parseSharedTopicFilter f' = some (name', inner') ∧
          x.1 = sharedStoreKey name' inner') ∧
      ((∃ c, T c f ≠ none) ∧ topicMatchesFilter topic inner = true →
        ∃ c s d, T c f = some s ∧ s.deliver = some d ∧
          callsFor key topic payload qos r =
            [⟨c, d, topic, payload, min qos s.qos, false, 0⟩]) ∧
      (¬ ((∃ c, T c f ≠ none) ∧ topicMatchesFilter topic inner = true) →
        callsFor key topic payload qos r = [])) ∧
    ∀ members : Finset GoString,
      (∀ p, p <+: during → ∀ c, c ∈ members ↔ Table.empty.runEvents (before ++ p) c f ≠ none) →
      (∀ g, r.shared.get key = some g →
        g.rr.toNat + during.countP (Event.matches inner) ≤ 2 ^ 64) →
      ∀ c ∈ members,
        let k := during.countP (Event.matches inner)
        let received := (runCalls key r during).countP fun d => d.clientID = c
        k / members.card ≤ received ∧ received ≤ (k + members.card - 1) / members.card := by
  intro key r T
  have hG : Grouped r T := grouped_runEvents grouped_new before
  have hA : Armed T := armed_runEvents (fun c f s hs => by cases hs) before
    fun e he => hdeliver e (List.mem_append_left during he)
  refine ⟨?_, ?_⟩
  · intro topic payload qos retain now
    obtain ⟨hserved, hother⟩ := callsFor_spec hG hA hf topic payload qos
    refine ⟨deliveries_publish topic payload qos retain now r, ?_, hserved, hother⟩
    intro x hx
    rw [deliverShared_calls] at hx
    simp only [List.mem_flatMap, List.mem_map] at hx
    obtain ⟨k, hk, d, -, rfl⟩ := hx
    obtain ⟨g, hg⟩ := (r.shared.mem_keys k).mp hk
    obtain ⟨f', name', hf', hkey⟩ := hG.keyed k g hg
    exact ⟨f', name', g.topicFilter, hf', hkey⟩
  · intro members hmem hroom c hc k received
    let ids := members.sort (· ≤ ·)
    have hsorted : ids.Pairwise (· < ·) := members.sortedLT_sort.pairwise
    have hcid : c ∈ ids := (Finset.mem_sort (· ≤ ·)).mpr hc
    have hids : ids ≠ [] := List.ne_nil_of_mem hcid
    have hmem' : ∀ p, p <+: during → ∀ c, c ∈ ids ↔ T.runEvents p c f ≠ none := by
      intro p hp c
      rw [Finset.mem_sort, hmem p hp, runEvents_append]
    obtain ⟨g, hg, -⟩ := keys_eq_of_members hG hf hsorted hids (hmem' [] List.nil_prefix)
    have hrun := runCalls_eq_served hf hsorted hids during hG hA
      (fun e he => hdeliver e (List.mem_append_right before he)) hmem' hg (hroom g hg)
    have hreceived : received = (RoundRobin.served ids g.rr.toNat k).count c := by
      rw [← hrun, List.count, List.countP_map]
      exact List.countP_congr fun d _ => by simp
    have hcard : ids.length = members.card := Finset.length_sort _
    rw [hreceived, ← hcard]
    exact RoundRobin.count_served_bounds (members.sort_nodup _) hcid _ _

/-- Clients a and b share "sensors/+" and three readings are published. -/
def twoMembers : List (Event Nat) :=
  [.call (.subscribe (str "$share/g/sensors/+") ⟨str "a", 1, some 1⟩),
    .call (.subscribe (str "$share/g/sensors/+") ⟨str "b", 1, some 2⟩)]

def threeReadings : List (Event Nat) :=
  List.replicate 3 (.publish (str "sensors/t1") [120] 1 false 0)

theorem shared_groups_served_two_members :
    Protocol.parseSharedTopicFilter (str "$share/g/sensors/+") = some (str "g", str "sensors/+") ∧
      1 ≤ (runCalls (sharedStoreKey (str "g") (str "sensors/+")) (runEvents new twoMembers)
        threeReadings).countP (fun d => d.clientID = str "a") ∧
      (runCalls (sharedStoreKey (str "g") (str "sensors/+")) (runEvents new twoMembers)
        threeReadings).countP (fun d => d.clientID = str "a") ≤ 2 := by
  have hdeliver : ∀ e ∈ twoMembers ++ threeReadings, e.HasDeliver := by
    simp [twoMembers, threeReadings, Event.HasDeliver]
  have hf : Protocol.parseSharedTopicFilter (str "$share/g/sensors/+") =
      some (str "g", str "sensors/+") := by decide
  have hmem : ∀ p, p <+: threeReadings → ∀ c, c ∈ ({str "a", str "b"} : Finset GoString) ↔
      Table.empty.runEvents (twoMembers ++ p) c (str "$share/g/sensors/+") ≠ none := by
    intro p hp c
    rw [(List.prefix_replicate_iff.mp hp).2]
    have hab : str "a" ≠ str "b" := by decide
    rw [runEvents_append, runEvents_replicate_publish]
    by_cases ha : c = str "a" <;> by_cases hb : c = str "b" <;>
      simp [Table.runEvents, Table.stepEvent, Table.exec, twoMembers, Table.empty, ha, hb, hab]
  have hcount : threeReadings.countP (Event.matches (str "sensors/+")) = 3 := by decide
  have hcard : ({str "a", str "b"} : Finset GoString).card = 2 := by decide
  obtain ⟨hlow, hhigh⟩ := (shared_groups_served twoMembers threeReadings hdeliver hf).2
    {str "a", str "b"} hmem
    (by
      intro g hg
      have hrr : g.rr = 0 := by
        have hstored : ((runEvents new twoMembers).shared.get
            (sharedStoreKey (str "g") (str "sensors/+"))).map SharedGroup.rr = some 0 := by
          decide +kernel
        rw [hg] at hstored
        simpa using hstored
      rw [hrr, hcount]
      decide)
    (str "a") (by simp)
  rw [hcount, hcard] at hlow hhigh
  exact ⟨hf, hlow, hhigh⟩

end LumaBroker.Router
