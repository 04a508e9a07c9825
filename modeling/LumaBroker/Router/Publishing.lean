import LumaBroker.Router.SharedDelivery

/-!
Router.Publish of internal/router/router.go as other calls see it. The retained message is
stored, each shard and each group is read under its own lock, and between these steps
anything else may run. Without anything else they make up publish. SendRetained is a Range
over the retained store, in which one visit is one step.
-/

namespace LumaBroker.Router
variable {δ : Type}

/-- What SendRetained does with a message it visits. -/
def sendVisited (filter : GoString) (sub : Subscriber δ) (topic : GoString) (msg : Retained) :
    List (Delivery δ) :=
  if topicMatchesFilter topic (matchFilter filter) then
    (deliverTo sub topic msg.payload msg.qos true).toList
  else []

theorem sendVisited_spec {filter topic : GoString} {sub : Subscriber δ} {msg : Retained}
    {d : Delivery δ} (hd : d ∈ sendVisited filter sub topic msg) :
    topicMatchesFilter topic (matchFilter filter) = true ∧ d.clientID = sub.clientID ∧
      d.topic = topic ∧ d.qos = min msg.qos sub.qos := by
  rw [sendVisited] at hd
  split at hd
  · next hmatch =>
      obtain ⟨deliver, -, rfl⟩ := Option.map_eq_some_iff.mp (Option.mem_toList.mp hd)
      exact ⟨hmatch, rfl, rfl, effQoS_eq_min msg.qos sub.qos⟩
  · cases hd

/-- How far a call of Publish has come: before it stores, with shards still to be searched and
the subscribers found, before it lists the groups, and with groups still to be served. -/
inductive PublishPhase (δ : Type) where
  | store
  | matching (todo : List (Fin numShards)) (result : Matched δ)
  | keys
  | sharing (todo : List GoString)

def PublishPhase.isStore : PublishPhase δ → Bool
  | .store => true
  | _ => false

/-- A call of Publish. -/
structure Publishing (δ : Type) where
  topic : GoString
  payload : List UInt8
  qos : UInt8
  retain : Bool
  phase : PublishPhase δ

instance (p : Publishing δ) : Decidable (p.phase = .sharing []) :=
  match p.phase with
  | .sharing [] => isTrue rfl
  | .sharing (_ :: _) => isFalse (by simp)
  | .store => isFalse (by simp)
  | .matching .. => isFalse (by simp)
  | .keys => isFalse (by simp)

namespace Publishing

/-- The next step: how far the call has come then, the router, and the deliveries it makes. -/
def next (now : Nat) (r : Router δ) (p : Publishing δ) :
    Option (PublishPhase δ × Router δ × List (Delivery δ)) :=
  match p.phase with
  | .store =>
      some (.matching (List.finRange numShards) FinMap.empty,
        if p.retain then retainMessage p.topic p.payload p.qos now r else r, [])
  | .matching (i :: todo) result =>
      some (.matching todo (matchNode (splitFilter p.topic) (r.shards i) result), r, [])
  | .matching [] result =>
      some (.keys, r, result.entries.filterMap fun e => deliverTo e.2 p.topic p.payload p.qos false)
  | .keys => some (.sharing r.shared.keys, r, [])
  | .sharing (key :: todo) =>
      let (shared, calls) := deliverGroup p.topic p.payload p.qos (r.shared, []) key
      some (.sharing todo, { r with shared := shared }, calls.map Prod.snd)
  | .sharing [] => none

section Steps
variable {now : Nat} {r r' : Router δ} {p : Publishing δ}
variable {phase : PublishPhase δ} {calls : List (Delivery δ)}

/-- All that a step of Publish can do. -/
theorem next_cases (h : p.next now r = some (phase, r', calls)) :
    (p.phase = .store ∧ phase = .matching (List.finRange numShards) FinMap.empty ∧
      r' = (if p.retain then retainMessage p.topic p.payload p.qos now r else r) ∧ calls = []) ∨
    (∃ i todo result, p.phase = .matching (i :: todo) result ∧
      phase = .matching todo (matchNode (splitFilter p.topic) (r.shards i) result) ∧ r' = r ∧
        calls = []) ∨
    (∃ result, p.phase = .matching [] result ∧ phase = .keys ∧ r' = r ∧
      calls = result.entries.filterMap fun e => deliverTo e.2 p.topic p.payload p.qos false) ∨
    (p.phase = .keys ∧ phase = .sharing r.shared.keys ∧ r' = r ∧ calls = []) ∨
    ∃ key todo, p.phase = .sharing (key :: todo) ∧ phase = .sharing todo ∧
      r' = { r with shared := (deliverGroup p.topic p.payload p.qos (r.shared, []) key).1 } ∧
      calls = (deliverGroup p.topic p.payload p.qos (r.shared, []) key).2.map Prod.snd := by
  cases hp : p.phase with
  | store =>
      simp only [next, hp, Option.some.injEq, Prod.mk.injEq] at h
      obtain ⟨rfl, rfl, rfl⟩ := h
      exact .inl ⟨rfl, rfl, rfl, rfl⟩
  | keys =>
      simp only [next, hp, Option.some.injEq, Prod.mk.injEq] at h
      obtain ⟨rfl, rfl, rfl⟩ := h
      exact .inr (.inr (.inr (.inl ⟨rfl, rfl, rfl, rfl⟩)))
  | matching todo result =>
      cases todo with
      | nil =>
          simp only [next, hp, Option.some.injEq, Prod.mk.injEq] at h
          obtain ⟨rfl, rfl, rfl⟩ := h
          exact .inr (.inr (.inl ⟨result, rfl, rfl, rfl, rfl⟩))
      | cons i todo =>
          simp only [next, hp, Option.some.injEq, Prod.mk.injEq] at h
          obtain ⟨rfl, rfl, rfl⟩ := h
          exact .inr (.inl ⟨i, todo, result, rfl, rfl, rfl, rfl⟩)
  | sharing todo =>
      cases todo with
      | nil => simp [next, hp] at h
      | cons key todo =>
          simp only [next, hp, Option.some.injEq, Prod.mk.injEq] at h
          obtain ⟨rfl, rfl, rfl⟩ := h
          exact .inr (.inr (.inr (.inr ⟨key, todo, rfl, rfl, rfl, rfl⟩)))

theorem next_router (h : p.next now r = some (phase, r', calls)) : r'.shards = r.shards ∧
    ∀ key, r'.shared.get key = r.shared.get key ∨
      r'.shared.get key = (r.shared.get key).map (advance p.topic) := by
  rcases next_cases h with ⟨-, -, rfl, -⟩ | ⟨i, todo, result, -, -, rfl, -⟩ |
    ⟨result, -, -, rfl, -⟩ |
    ⟨-, -, rfl, -⟩ | ⟨key, todo, -, -, rfl, -⟩
  · split_ifs
    · exact ⟨shards_retainMessage .., fun key => .inl (by rw [shared_retainMessage])⟩
    · exact ⟨rfl, fun key => .inl rfl⟩
  · exact ⟨rfl, fun key => .inl rfl⟩
  · exact ⟨rfl, fun key => .inl rfl⟩
  · exact ⟨rfl, fun key => .inl rfl⟩
  · refine ⟨rfl, fun k => ?_⟩
    cases hg : r.shared.get key with
    | none =>
        have hsame : deliverGroup p.topic p.payload p.qos (r.shared, []) key = (r.shared, []) := by
          simp [deliverGroup, hg]
        exact .inl (by rw [hsame])
    | some g =>
        have hget := (deliverGroup_eq p.topic p.payload p.qos (r.shared, []) key g hg).1 k
        by_cases hk : k = key
        · subst hk
          exact .inr (by rw [hget, if_pos rfl, hg, Option.map_some])
        · exact .inl (by rw [hget, if_neg hk])

theorem next_retained (h : p.next now r = some (phase, r', calls)) (hretain : p.retain = true)
    (hpayload : p.payload ≠ []) (topic : GoString) :
    r'.retained.get topic =
      if p.phase.isStore ∧ topic = p.topic then some ⟨p.topic, p.payload, p.qos, now⟩
      else r.retained.get topic := by
  rcases next_cases h with ⟨hp, -, rfl, -⟩ | ⟨i, todo, result, hp, -, rfl, -⟩ |
    ⟨result, hp, -, rfl, -⟩ |
    ⟨hp, -, rfl, -⟩ | ⟨key, todo, hp, -, rfl, -⟩
  · have hlen : ¬ p.payload.length = 0 := fun h => hpayload (List.length_eq_zero_iff.mp h)
    have hretained : (retainMessage p.topic p.payload p.qos now r).retained =
        r.retained.set p.topic ⟨p.topic, p.payload, p.qos, now⟩ := by
      simp only [retainMessage, if_neg hlen]
      split_ifs <;> rfl
    simp [hretain, hretained, FinMap.get_set, hp, PublishPhase.isStore]
  all_goals simp [hp, PublishPhase.isStore]

end Steps

/-- The steps of a call that nothing interrupts, with the closures called. -/
def run (now : Nat) : Nat → Publishing δ → Router δ → Router δ × List (Delivery δ)
  | 0, _, r => (r, [])
  | n + 1, p, r =>
      match p.next now r with
      | none => (r, [])
      | some (phase, r', calls) =>
          let rest := run now n { p with phase := phase } r'
          (rest.1, calls ++ rest.2)

section Uninterrupted
variable (now : Nat) (topic : GoString) (payload : List UInt8) (qos : UInt8) (retain : Bool)

theorem run_matching (n : Nat) (todo : List (Fin numShards)) (result : Matched δ) (r : Router δ) :
    run now (todo.length + n) ⟨topic, payload, qos, retain, .matching todo result⟩ r =
      run now n ⟨topic, payload, qos, retain, .matching [] (todo.foldl (fun result i =>
        matchNode (splitFilter topic) (r.shards i) result) result)⟩ r := by
  induction todo generalizing result with
  | nil => rw [List.length_nil, Nat.zero_add, List.foldl_nil]
  | cons i todo ih =>
      rw [List.length_cons, Nat.add_right_comm, run, next, List.foldl_cons, ← ih]
      simp

/-- The calls made for earlier groups do not matter to the next one. -/
theorem deliverGroup_calls (shared : FinMap GoString (SharedGroup δ))
    (calls : List (GoString × Delivery δ)) (key : GoString) :
      deliverGroup topic payload qos (shared, calls) key =
      ((deliverGroup topic payload qos (shared, []) key).1,
        calls ++ (deliverGroup topic payload qos (shared, []) key).2) := by
  simp only [deliverGroup]
  cases shared.get key with
  | none => simp
  | some g =>
      dsimp only
      split_ifs <;> simp

theorem foldl_deliverGroup_calls (keys : List GoString) (shared : FinMap GoString (SharedGroup δ))
    (calls : List (GoString × Delivery δ)) :
    keys.foldl (deliverGroup topic payload qos) (shared, calls) =
      ((keys.foldl (deliverGroup topic payload qos) (shared, [])).1,
        calls ++ (keys.foldl (deliverGroup topic payload qos) (shared, [])).2) := by
  induction keys generalizing shared calls with
  | nil => simp
  | cons key keys ih =>
      rw [List.foldl_cons, List.foldl_cons, deliverGroup_calls, ih]
      conv_rhs => rw [← Prod.mk.eta (p := deliverGroup topic payload qos (shared, []) key), ih]
      rw [List.append_assoc]

theorem run_sharing (keys : List GoString) (r : Router δ) :
    run now keys.length ⟨topic, payload, qos, retain, .sharing keys⟩ r =
      ({ r with shared := (keys.foldl (deliverGroup topic payload qos) (r.shared, [])).1 },
        (keys.foldl (deliverGroup topic payload qos) (r.shared, [])).2.map Prod.snd) := by
  induction keys generalizing r with
  | nil => rfl
  | cons key keys ih =>
      rw [List.length_cons, run, next]
      dsimp only
      rw [ih, List.foldl_cons]
      conv_rhs => rw [← Prod.mk.eta (p := deliverGroup topic payload qos (r.shared, []) key),
        foldl_deliverGroup_calls]
      rw [List.map_append]

/-- A call that nothing interrupts is publish, which counts the deliveries at its end. -/
theorem run_publish (r : Router δ) :
    ∃ n, run now n ⟨topic, payload, qos, retain, .store⟩ r =
      ({ (publish topic payload qos retain now r).router with
          metrics := (if retain then retainMessage topic payload qos now r else r).metrics },
        (publish topic payload qos retain now r).deliveries) := by
  refine ⟨(List.finRange numShards).length + ((if retain then retainMessage topic payload qos now r
    else r).shared.keys.length + 1 + 1) + 1, ?_⟩
  rw [run, next]
  dsimp only
  rw [run_matching, run, next]
  dsimp only
  rw [run, next]
  dsimp only
  rw [run_sharing]
  rfl

end Uninterrupted

end Publishing

end LumaBroker.Router
