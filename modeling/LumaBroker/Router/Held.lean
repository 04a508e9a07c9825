import LumaBroker.Router.SharedDelivery

/-!
What one client holds on one filter, plain or shared, read off any router state.
Each operation of the router is a law about it that needs no invariant, so it can be
used where calls of several connections interleave.
-/

namespace LumaBroker.Router
variable {δ : Type}

/-- The subscriber stored for a client under a filter. -/
def held (r : Router δ) (c f : GoString) : Option (Subscriber δ) :=
  match Protocol.parseSharedTopicFilter f with
  | some (name, inner) => (groupOf r name inner).bind fun g => g.subs.get c
  | none => find (splitFilter f) (r.shards (shardFor f)) c

theorem held_shared {f name inner : GoString} (r : Router δ) (c : GoString)
    (h : Protocol.parseSharedTopicFilter f = some (name, inner)) :
    held r c f = (groupOf r name inner).bind fun g => g.subs.get c := by
  simp only [held, h]

theorem held_plain {f : GoString} (r : Router δ) (c : GoString)
    (h : Protocol.parseSharedTopicFilter f = none) :
    held r c f = find (splitFilter f) (r.shards (shardFor f)) c := by
  simp only [held, h]

theorem held_new (c f : GoString) : held (new : Router δ) c f = none := by
  cases hf : Protocol.parseSharedTopicFilter f with
  | none => rw [held_plain _ _ hf, new, find_new]
  | some parts => rw [held_shared _ _ hf]; rfl

theorem held_new_eq : held (new : Router δ) = Table.empty := by
  funext c f
  exact held_new c f

theorem held_updateShard {filter clientID : GoString} {o : Option (Subscriber δ)} {r r' : Router δ}
    {op : Node δ → Node δ} (hplain : Protocol.parseSharedTopicFilter filter = none)
    (hshards : r'.shards = (r.updateShard (shardFor filter) op).shards)
    (hshared : r'.shared = r.shared) (hop : ∀ n path c, find path (op n) c =
      if path = splitFilter filter ∧ c = clientID then o else find path n c) (c f : GoString) :
    held r' c f = if c = clientID ∧ f = filter then o else held r c f := by
  cases hf : Protocol.parseSharedTopicFilter f with
  | some parts =>
      rw [held_shared _ _ hf, held_shared _ _ hf, groupOf, groupOf, hshared]
      simp only [ne_of_parseShared hf hplain, and_false, if_false]
  | none =>
      rw [held_plain _ _ hf, held_plain _ _ hf, hshards, shards_updateShard]
      by_cases hfe : f = filter
      · subst hfe
        simp [hop]
      · have hpath : splitFilter f ≠ splitFilter filter := fun h => hfe (splitFilter_injective h)
        split_ifs with hi hc hc
        · exact absurd hc.2 hfe
        · simp [hop, hpath]
        · exact absurd hc.2 hfe
        · rfl

theorem held_updateGroup {filter name inner clientID : GoString} {o : Option (Subscriber δ)}
    {r r' : Router δ} (hshare : Protocol.parseSharedTopicFilter filter = some (name, inner))
    (hshards : r'.shards = r.shards)
    (hother : ∀ key, key ≠ sharedStoreKey name inner → r'.shared.get key = r.shared.get key)
    (hgroup : ∀ c, ((groupOf r' name inner).bind fun g => g.subs.get c) =
      if c = clientID then o else (groupOf r name inner).bind fun g => g.subs.get c)
        (c f : GoString) :
    held r' c f = if c = clientID ∧ f = filter then o else held r c f := by
  cases hf : Protocol.parseSharedTopicFilter f with
  | none =>
      rw [held_plain _ _ hf, held_plain _ _ hf, hshards]
      simp only [(ne_of_parseShared hshare hf).symm, and_false, if_false]
  | some parts =>
      obtain ⟨name', inner'⟩ := parts
      rw [held_shared _ _ hf, held_shared _ _ hf]
      by_cases hfe : f = filter
      · subst hfe
        rw [hshare] at hf
        cases hf
        simp only [and_true]
        exact hgroup c
      · have hkey : sharedStoreKey name' inner' ≠ sharedStoreKey name inner :=
          fun h => hfe (filter_eq_of_key_eq hf hshare h)
        rw [groupOf, groupOf, hother _ hkey]
        simp only [hfe, and_false, if_false]

theorem get_subscribeShared (name inner : GoString) (sub : Subscriber δ) (r : Router δ)
    (c : GoString) :
    ((groupOf (subscribeShared name inner sub r) name inner).bind fun g => g.subs.get c) =
      if c = sub.clientID then some sub
      else (groupOf r name inner).bind fun g => g.subs.get c := by
  cases hg : groupOf r name inner with
  | none =>
      have hkey : r.shared.get (sharedStoreKey name inner) = none := hg
      simp [groupOf, subscribeShared, hkey, FinMap.get_set]
  | some g =>
      have hkey : r.shared.get (sharedStoreKey name inner) = some g := hg
      simp [groupOf, subscribeShared, hkey, FinMap.get_set]

theorem held_subscribe (filter : GoString) (sub : Subscriber δ) (r : Router δ) (c f : GoString) :
    held (subscribe filter sub r) c f =
      if c = sub.clientID ∧ f = filter then some sub else held r c f := by
  cases hp : Protocol.parseSharedTopicFilter filter with
  | none =>
      have hr : subscribe filter sub r = (r.updateShard (shardFor filter)
          (Shard.subscribe sub (splitFilter filter))).countSubscribe := by
        simp only [subscribe, hp]
      rw [hr]
      exact held_updateShard hp (by rfl) (by rfl)
        (fun n path c => find_subscribe sub _ path n c) c f
  | some parts =>
      obtain ⟨name, inner⟩ := parts
      have hr : subscribe filter sub r = (subscribeShared name inner sub r).countSubscribe := by
        simp only [subscribe, hp]
      rw [hr]
      refine held_updateGroup hp (by rfl) ?_ (get_subscribeShared name inner sub r) c f
      intro key hkey
      exact FinMap.get_set_ne _ _ hkey

theorem get_unsubscribeShared (name inner clientID : GoString) (r : Router δ) (c : GoString) :
    ((groupOf (unsubscribeShared name inner clientID r) name inner).bind fun g => g.subs.get c) =
      if c = clientID then none else (groupOf r name inner).bind fun g => g.subs.get c := by
  rw [groupOf, shared_unsubscribeShared, FinMap.get_put, if_pos rfl]
  cases hg : r.shared.get (sharedStoreKey name inner) with
  | none => simp [groupOf, hg]
  | some g =>
      rw [Option.bind_some, subs_withoutClient]
      simp [groupOf, hg, FinMap.get_erase]

theorem held_unsubscribe (filter clientID : GoString) (r : Router δ) (c f : GoString) :
    held (unsubscribe filter clientID r) c f =
      if c = clientID ∧ f = filter then none else held r c f := by
  cases hp : Protocol.parseSharedTopicFilter filter with
  | none =>
      have hr : unsubscribe filter clientID r = addActive (-1)
          (r.updateShard (shardFor filter) (Shard.unsubscribe clientID (splitFilter filter))) := by
        simp only [unsubscribe, hp]
      rw [hr]
      exact held_updateShard hp (by rfl) (by rfl)
        (fun n path c => find_unsubscribe clientID _ path n c) c f
  | some parts =>
      obtain ⟨name, inner⟩ := parts
      have hr : unsubscribe filter clientID r = unsubscribeShared name inner clientID r := by
        simp only [unsubscribe, hp]
      rw [hr]
      refine held_updateGroup hp (shards_unsubscribeShared ..) ?_
        (get_unsubscribeShared name inner clientID r) c f
      intro key hkey
      rw [shared_unsubscribeShared, FinMap.get_put, if_neg hkey]

theorem held_unsubscribeAll (clientID : GoString) (r : Router δ) (c f : GoString) :
    held (unsubscribeAll clientID r) c f = if c = clientID then none else held r c f := by
  cases hf : Protocol.parseSharedTopicFilter f with
  | none =>
      rw [held_plain _ _ hf, held_plain _ _ hf]
      exact find_removeClient clientID _ _ c
  | some parts =>
      obtain ⟨name, inner⟩ := parts
      have hget : groupOf (unsubscribeAll clientID r) name inner =
          (groupOf r name inner).bind (withoutClient clientID) :=
        get_removeClientFromAllShared clientID
          { r with shards := fun i => removeClientFromNode clientID (r.shards i) } _
      rw [held_shared _ _ hf, held_shared _ _ hf, hget]
      cases groupOf r name inner with
      | none => simp
      | some g =>
          rw [Option.bind_some, subs_withoutClient]
          simp [FinMap.get_erase]

theorem held_exec (r : Router δ) (call : Call δ) :
    held (r.exec call) = Table.exec (held r) call := by
  funext c f
  cases call with
  | subscribe filter sub => exact held_subscribe filter sub r c f
  | unsubscribe filter clientID => exact held_unsubscribe filter clientID r c f
  | unsubscribeAll clientID => exact held_unsubscribeAll clientID r c f

/-- What the clients hold after any calls, on any filters, is the table. -/
theorem held_execAll (calls : List (Call δ)) : held (execAll calls) = Table.execAll calls := by
  have hrun (r : Router δ) : held (calls.foldl exec r) = calls.foldl Table.exec (held r) := by
    induction calls generalizing r with
    | nil => rfl
    | cons call calls ih => rw [List.foldl_cons, List.foldl_cons, ih, held_exec]
  rw [execAll, hrun, held_new_eq, Table.execAll]

/-- What a call adds to the trie is the entry of a plain filter, in its place. -/
theorem find_exec_cases {r : Router δ} {call : Call δ} {i : Fin numShards} {path : List GoString}
    {c : GoString} {s : Subscriber δ} (h : find path ((r.exec call).shards i) c = some s) :
    find path (r.shards i) c = some s ∨
      ∃ f, Protocol.parseSharedTopicFilter f = none ∧ splitFilter f = path ∧ shardFor f = i := by
  cases call with
  | subscribe filter sub =>
      cases hp : Protocol.parseSharedTopicFilter filter with
      | some parts =>
          simp only [exec, subscribe, hp] at h
          exact .inl h
      | none =>
          simp only [exec, subscribe, hp] at h
          change find path ((r.updateShard (shardFor filter) _).shards i) c = some s at h
          rw [shards_updateShard] at h
          split_ifs at h with hi
          · rw [find_subscribe] at h
            split_ifs at h with hat
            · exact .inr ⟨filter, hp, hat.1.symm, hi.symm⟩
            · exact .inl h
          · exact .inl h
  | unsubscribe filter clientID =>
      cases hp : Protocol.parseSharedTopicFilter filter with
      | some parts =>
          simp only [exec, unsubscribe, hp, shards_unsubscribeShared] at h
          exact .inl h
      | none =>
          simp only [exec, unsubscribe, hp] at h
          change find path ((r.updateShard (shardFor filter) _).shards i) c = some s at h
          rw [shards_updateShard] at h
          split_ifs at h with hi
          · rw [find_unsubscribe] at h
            split_ifs at h
            exact .inl h
          · exact .inl h
  | unsubscribeAll clientID =>
      change find path (removeClientFromNode clientID (r.shards i)) c = some s at h
      rw [find_removeClient] at h
      split_ifs at h
      exact .inl h

/-- The entries of the trie are those of the table on plain filters, each in its place. -/
theorem find_execAll_iff (calls : List (Call δ)) (i : Fin numShards) (path : List GoString)
    (c : GoString) (s : Subscriber δ) :
    find path ((execAll calls).shards i) c = some s ↔
      ∃ f, Protocol.parseSharedTopicFilter f = none ∧ splitFilter f = path ∧ shardFor f = i ∧
        Table.execAll calls c f = some s := by
  have hplaced : find path ((execAll calls).shards i) c = some s →
      ∃ f, Protocol.parseSharedTopicFilter f = none ∧ splitFilter f = path ∧ shardFor f = i := by
    induction calls using List.reverseRecOn with
    | nil =>
        intro h
        rw [execAll, List.foldl_nil, new, find_new] at h
        cases h
    | append_singleton calls call ih =>
        intro h
        rw [execAll, List.foldl_concat] at h
        exact (find_exec_cases h).elim ih id
  constructor
  · intro h
    obtain ⟨f, hplain, rfl, rfl⟩ := hplaced h
    refine ⟨f, hplain, rfl, rfl, ?_⟩
    rw [← held_execAll, held_plain _ _ hplain, h]
  · rintro ⟨f, hplain, rfl, rfl, h⟩
    rw [← held_execAll, held_plain _ _ hplain] at h
    exact h

theorem shardFor_congr {f f' : GoString} (h : (splitFilter f).head? = (splitFilter f').head?) :
    shardFor f = shardFor f' := by
  rw [splitFilter_eq_split, splitFilter_eq_split, head?_split, head?_split] at h
  exact Fin.ext (congrArg (fun first => (fnv32a first &&& 255).toNat) (Option.some.inj h))

theorem held_publish (topic : GoString) (payload : List UInt8) (qos : UInt8) (retain : Bool)
    (now : Nat) (r : Router δ) (c f : GoString) :
    held (publish topic payload qos retain now r).router c f = held r c f := by
  cases hf : Protocol.parseSharedTopicFilter f with
  | none =>
      rw [held_plain _ _ hf, held_plain _ _ hf]
      cases retain with
      | false => rfl
      | true => simp [publish, deliverShared]
  | some parts =>
      obtain ⟨name, inner⟩ := parts
      rw [held_shared _ _ hf, held_shared _ _ hf, groupOf, groupOf, shared_publish,
        get_deliverShared]
      cases r.shared.get (sharedStoreKey name inner) <;> simp

end LumaBroker.Router
