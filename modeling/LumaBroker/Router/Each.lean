import LumaBroker.Router.Held

/-!
Properties of all subscribers that a router stores, in the trie and in the groups. Whatever
holds of each subscriber when it is stored holds of the one behind every delivery.
-/

namespace LumaBroker.Router
variable {δ : Type}

structure Each (P : GoString → Subscriber δ → Prop) (r : Router δ) : Prop where
  trie : ∀ i path c s, find path (r.shards i) c = some s → P c s
  shared : ∀ key g c s, r.shared.get key = some g → g.subs.get c = some s → P c s

/-- If the event stores a subscriber, it is one with the property. -/
def Event.Stores (P : GoString → Subscriber δ → Prop) : Event δ → Prop
  | .call (.subscribe _ sub) => P sub.clientID sub
  | .call (.unsubscribe _ _) | .call (.unsubscribeAll _) | .publish .. => True

variable {P Q : GoString → Subscriber δ → Prop} {r r' : Router δ}

theorem each_new : Each P (new : Router δ) where
  trie i path c s h := by
    rw [new, find_new] at h
    cases h
  shared := nofun

namespace Each

theorem mono (h : Each P r) (himp : ∀ c s, P c s → Q c s) : Each Q r :=
  ⟨fun i path c s hs => himp c s (h.trie i path c s hs),
    fun key g c s hg hs => himp c s (h.shared key g c s hg hs)⟩

/-- An operation that adds no subscriber to either part. -/
theorem of_less (h : Each P r)
    (htrie : ∀ i path c s, find path (r'.shards i) c = some s → find path (r.shards i) c = some s)
    (hshared : ∀ key g c s, r'.shared.get key = some g → g.subs.get c = some s →
      ∃ g', r.shared.get key = some g' ∧ g'.subs.get c = some s) : Each P r' where
  trie i path c s hs := h.trie i path c s (htrie i path c s hs)
  shared key g c s hg hs := by
    obtain ⟨g', hg', hs'⟩ := hshared key g c s hg hs
    exact h.shared key g' c s hg' hs'

theorem subscribe (h : Each P r) (filter : GoString) {sub : Subscriber δ}
    (hsub : P sub.clientID sub) : Each P (r.subscribe filter sub) := by
  cases hf : Protocol.parseSharedTopicFilter filter with
  | some parts =>
      obtain ⟨name, inner⟩ := parts
      simp only [Router.subscribe, hf]
      refine ⟨h.trie, ?_⟩
      intro key g c s hg hs
      simp only [subscribeShared, countSubscribe, FinMap.get_set] at hg
      split_ifs at hg with hkey
      · cases hg
        simp only [FinMap.get_set] at hs
        split_ifs at hs with hc
        · cases hs
          exact hc ▸ hsub
        · cases hold : r.shared.get (sharedStoreKey name inner) with
          | none => simp [hold] at hs
          | some g => exact h.shared _ g c s hold (by simpa [hold] using hs)
      · exact h.shared key g c s hg hs
  | none =>
      simp only [Router.subscribe, hf]
      refine ⟨?_, h.shared⟩
      intro i path c s hs
      change find path ((r.updateShard (shardFor filter) _).shards i) c = some s at hs
      rw [shards_updateShard] at hs
      split_ifs at hs with hi
      · rw [find_subscribe] at hs
        split_ifs at hs with hc
        · cases hs
          exact hc.2 ▸ hsub
        · exact h.trie i path c s hs
      · exact h.trie i path c s hs

/-- A client is taken out of a group. -/
theorem subs_of_withoutClient {clientID : GoString} {o : Option (SharedGroup δ)} {g : SharedGroup δ}
    {c : GoString} {s : Subscriber δ} (hg : o.bind (withoutClient clientID) = some g)
    (hs : g.subs.get c = some s) : ∃ g', o = some g' ∧ g'.subs.get c = some s := by
  obtain ⟨g', ho, hwithout⟩ := Option.bind_eq_some_iff.mp hg
  obtain ⟨rfl, -⟩ := withoutClient_eq_some hwithout
  simp only [FinMap.get_erase] at hs
  split_ifs at hs
  exact ⟨g', ho, hs⟩

theorem unsubscribe (h : Each P r) (filter clientID : GoString) :
    Each P (r.unsubscribe filter clientID) := by
  cases hf : Protocol.parseSharedTopicFilter filter with
  | some parts =>
      obtain ⟨name, inner⟩ := parts
      simp only [Router.unsubscribe, hf]
      refine h.of_less ?_ ?_
      · intro i path c s hs
        rw [shards_unsubscribeShared] at hs
        exact hs
      · intro key g c s hg hs
        rw [shared_unsubscribeShared, FinMap.get_put] at hg
        split_ifs at hg with hkey
        · exact hkey ▸ subs_of_withoutClient hg hs
        · exact ⟨g, hg, hs⟩
  | none =>
      simp only [Router.unsubscribe, hf]
      refine h.of_less ?_ fun key g c s hg hs => ⟨g, hg, hs⟩
      intro i path c s hs
      change find path ((r.updateShard (shardFor filter) _).shards i) c = some s at hs
      rw [shards_updateShard] at hs
      split_ifs at hs with hi
      · rw [find_unsubscribe] at hs
        split_ifs at hs
        exact hs
      · exact hs

theorem unsubscribeAll (h : Each P r) (clientID : GoString) :
    Each P (r.unsubscribeAll clientID) := by
  refine h.of_less ?_ ?_
  · intro i path c s hs
    change find path (removeClientFromNode clientID (r.shards i)) c = some s at hs
    rw [find_removeClient] at hs
    split_ifs at hs
    exact hs
  · intro key g c s hg hs
    have hget := get_removeClientFromAllShared clientID
      { r with shards := fun i => removeClientFromNode clientID (r.shards i) } key
    exact subs_of_withoutClient (hget.symm.trans hg) hs

theorem publish (h : Each P r) (topic : GoString) (payload : List UInt8) (qos : UInt8)
    (retain : Bool) (now : Nat) : Each P (r.publish topic payload qos retain now).router := by
  refine h.of_less ?_ ?_
  · intro i path c s hs
    cases retain with
    | false => exact hs
    | true => simpa [Router.publish, deliverShared] using hs
  · intro key g c s hg hs
    rw [shared_publish, get_deliverShared] at hg
    obtain ⟨g', hg', rfl⟩ := Option.map_eq_some_iff.mp hg
    rw [subs_advance] at hs
    exact ⟨g', hg', hs⟩

theorem stepEvent (h : Each P r) {e : Event δ} (he : e.Stores P) :
    Each P (Router.stepEvent r e) := by
  cases e with
  | call c =>
      cases c with
      | subscribe filter sub => exact h.subscribe filter he
      | unsubscribe filter clientID => exact h.unsubscribe filter clientID
      | unsubscribeAll clientID => exact h.unsubscribeAll clientID
  | publish topic payload qos retain now => exact h.publish topic payload qos retain now

theorem runEvents (h : Each P r) {events : List (Event δ)} (he : ∀ e ∈ events, e.Stores P) :
    Each P (Router.runEvents r events) := by
  induction events generalizing r with
  | nil => exact h
  | cons e events ih =>
      obtain ⟨hfirst, hrest⟩ := List.forall_mem_cons.mp he
      exact ih (h.stepEvent hfirst) hrest

theorem matchSubscribers (h : Each P r) (topic : GoString) : (r.matchSubscribers topic).All P := by
  have hfold (shards : List (Fin numShards)) (out : Matched δ) (hout : out.All P) :
      Matched.All P
        (shards.foldl (fun out i => matchNode (splitFilter topic) (r.shards i) out) out) := by
    induction shards generalizing out with
    | nil => exact hout
    | cons i shards ih => exact ih _ (all_matchNode _ (h.trie i) hout)
  exact hfold _ _ nofun

theorem deliverTo_eq_some {sub : Subscriber δ} {topic : GoString} {payload : List UInt8}
    {qos : UInt8} {retain : Bool} {d : Delivery δ}
    (h : deliverTo sub topic payload qos retain = some d) :
    sub.deliver = some d.deliver ∧ sub.clientID = d.clientID := by
  obtain ⟨deliver, hdeliver, rfl⟩ := Option.map_eq_some_iff.mp h
  exact ⟨hdeliver, rfl⟩

theorem groupCalls {g : SharedGroup δ} (hg : ∀ c s, g.subs.get c = some s → P c s)
    {topic : GoString} {payload : List UInt8} {qos : UInt8} {d : Delivery δ}
    (hd : d ∈ Router.groupCalls topic payload qos g) :
    ∃ c s, P c s ∧ s.deliver = some d.deliver ∧ s.clientID = d.clientID := by
  rw [Router.groupCalls] at hd
  split_ifs at hd
  · obtain ⟨s, hnext, hdeliver⟩ := Option.bind_eq_some_iff.mp (Option.mem_toList.mp hd)
    obtain ⟨c, -, hget⟩ := Option.bind_eq_some_iff.mp hnext
    exact ⟨c, s, hg c s hget, deliverTo_eq_some hdeliver⟩
  · cases hd

/-- Behind every call of a closure is a subscriber that the router stores. -/
theorem deliveries (h : Each P r) {topic : GoString} {payload : List UInt8} {qos : UInt8}
    {retain : Bool} {now : Nat} {d : Delivery δ}
    (hd : d ∈ (r.publish topic payload qos retain now).deliveries) :
    ∃ c s, P c s ∧ s.deliver = some d.deliver ∧ s.clientID = d.clientID := by
  rw [deliveries_publish, List.mem_append] at hd
  cases hd with
  | inl hdirect =>
      obtain ⟨e, he, hdeliver⟩ := List.mem_filterMap.mp hdirect
      exact ⟨e.1, e.2, h.matchSubscribers topic e.1 e.2 ((FinMap.mem_entries ..).mp he),
        deliverTo_eq_some hdeliver⟩
  | inr hshared =>
      simp only [deliverShared_calls, List.mem_map, List.mem_flatMap, Option.mem_toList] at hshared
      obtain ⟨_, ⟨key, -, _, ⟨g, hg, hcall⟩, rfl⟩, rfl⟩ := hshared
      exact groupCalls (h.shared key g · · hg) hcall

end Each
end LumaBroker.Router
