import LumaBroker.Router.Router
import Mathlib.Order.Bounds.Basic

/-!
The subscription table the router stands for: a partial function from client and
filter to subscriber, with the linear matcher deciding who receives a topic. The
sharded trie refines it, over any sequence of calls from the empty router.
-/

namespace LumaBroker.Router
variable {δ : Type}

/-- The subscription-changing calls of the router. -/
inductive Call (δ : Type) where
  | subscribe (filter : GoString) (sub : Subscriber δ)
  | unsubscribe (filter clientID : GoString)
  | unsubscribeAll (clientID : GoString)

def exec (r : Router δ) : Call δ → Router δ
  | .subscribe filter sub => subscribe filter sub r
  | .unsubscribe filter clientID => unsubscribe filter clientID r
  | .unsubscribeAll clientID => unsubscribeAll clientID r

def execAll (calls : List (Call δ)) : Router δ := calls.foldl exec new

abbrev Table (δ : Type) := GoString → GoString → Option (Subscriber δ)

namespace Table

def empty : Table δ := fun _ _ => none

def exec (T : Table δ) : Call δ → Table δ
  | .subscribe filter sub => fun c f =>
      if c = sub.clientID ∧ f = filter then some sub else T c f
  | .unsubscribe filter clientID => fun c f =>
      if c = clientID ∧ f = filter then none else T c f
  | .unsubscribeAll clientID => fun c f => if c = clientID then none else T c f

def execAll (calls : List (Call δ)) : Table δ := calls.foldl exec empty

/-- The live subscribers of a client whose filter matches the topic. -/
def live (T : Table δ) (topic c : GoString) : Set (Subscriber δ) :=
  {s | ∃ f, T c f = some s ∧ topicMatchesFilter topic f = true}

end Table

/-- Filters a client may subscribe to outside the shared form. -/
def PlainFilter (f : GoString) : Prop :=
  Protocol.validTopicFilter f = true ∧ Protocol.parseSharedTopicFilter f = none

/-- Only plain filters are subscribed; the other calls are unrestricted. -/
def Call.Plain : Call δ → Prop
  | .subscribe filter _ => PlainFilter filter
  | _ => True

instance (call : Call δ) : Decidable call.Plain :=
  match call with
  | .subscribe _ _ => inferInstanceAs (Decidable (_ ∧ _))
  | .unsubscribe _ _ => isTrue trivial
  | .unsubscribeAll _ => isTrue trivial

/-- The trie stores exactly the table: every entry sits at the path of its filter
in the shard of its filter, and nothing else is stored. -/
structure Refines (r : Router δ) (T : Table δ) : Prop where
  lookup : ∀ c f, find (splitFilter f) (r.shards (shardFor f)) c = T c f
  placed : ∀ i path c s, find path (r.shards i) c = some s →
    ∃ f, splitFilter f = path ∧ shardFor f = i
  plain : ∀ c f s, T c f = some s → PlainFilter f
  owner : ∀ c f s, T c f = some s → s.clientID = c

theorem refines_new : Refines (new : Router δ) Table.empty where
  lookup c f := find_new _ _
  placed i path c s h := by simp [new, find_new] at h
  plain c f s h := by cases h
  owner c f s h := by cases h

@[simp] theorem shards_updateShard (r : Router δ) (i j : Fin numShards) (g : Node δ → Node δ) :
    (r.updateShard i g).shards j = if j = i then g (r.shards j) else r.shards j := by
  by_cases h : j = i
  · subst h
    simp [updateShard]
  · simp [updateShard, h]

theorem refines_updateShard {r : Router δ} {T T' : Table δ} (h : Refines r T)
    (filter : GoString) (g : Node δ → Node δ) (c₀ : GoString) (result : Option (Subscriber δ))
    (hg : ∀ path n c, find path (g n) c =
      if path = splitFilter filter ∧ c = c₀ then result else find path n c)
    (hT : ∀ c f, T' c f = if c = c₀ ∧ f = filter then result else T c f)
    (hplain : ∀ s, result = some s → PlainFilter filter ∧ s.clientID = c₀) :
    Refines (r.updateShard (shardFor filter) g) T' where
  lookup c f := by
    rw [shards_updateShard, hT]
    by_cases hf : f = filter
    · subst hf
      simp [hg, h.lookup, and_comm]
    · have hpath : splitFilter f ≠ splitFilter filter := fun e => hf (splitFilter_injective e)
      by_cases hi : shardFor f = shardFor filter
      · simp [hi, hg, hpath, hf, ← h.lookup]
      · simp [hi, hf, h.lookup]
  placed i path c s hs := by
    rw [shards_updateShard] at hs
    split_ifs at hs with hi
    · rw [hg] at hs
      split_ifs at hs with hc
      · exact ⟨filter, hc.1.symm, hi.symm⟩
      · exact h.placed i path c s hs
    · exact h.placed i path c s hs
  plain c f s hs := by
    rw [hT] at hs
    split_ifs at hs with hc
    · exact hc.2 ▸ (hplain s hs).1
    · exact h.plain c f s hs
  owner c f s hs := by
    rw [hT] at hs
    split_ifs at hs with hc
    · exact hc.1 ▸ (hplain s hs).2
    · exact h.owner c f s hs

/-- Only the shards matter to the refinement. -/
theorem Refines.of_shards {r r' : Router δ} {T : Table δ} (h : Refines r T)
    (hs : r'.shards = r.shards) : Refines r' T where
  lookup c f := by rw [hs, h.lookup]
  placed i path c s hf := h.placed i path c s (hs ▸ hf)
  plain := h.plain
  owner := h.owner

theorem refines_subscribe {r : Router δ} {T : Table δ} (h : Refines r T) (filter : GoString)
    (sub : Subscriber δ) (hf : PlainFilter filter) :
    Refines (subscribe filter sub r) (T.exec (.subscribe filter sub)) := by
  have hstep : Refines (r.updateShard (shardFor filter) (Shard.subscribe sub (splitFilter filter)))
      (T.exec (.subscribe filter sub)) := by
    refine refines_updateShard h filter _ sub.clientID (some sub) ?_ (fun _ _ => rfl) ?_
    · intro path n c
      exact find_subscribe sub (splitFilter filter) path n c
    · intro s hs
      cases hs
      exact ⟨hf, rfl⟩
  simp only [subscribe, hf.2]
  exact hstep.of_shards rfl

@[simp] theorem shards_unsubscribeShared (name filter clientID : GoString) (r : Router δ) :
    (unsubscribeShared name filter clientID r).shards = r.shards := by
  simp only [unsubscribeShared]
  split <;> rfl

theorem refines_unsubscribe {r : Router δ} {T : Table δ} (h : Refines r T)
    (filter clientID : GoString) :
    Refines (unsubscribe filter clientID r) (T.exec (.unsubscribe filter clientID)) := by
  cases hp : Protocol.parseSharedTopicFilter filter with
  | some parts =>
      -- a shared filter is not a key of the table, so nothing is removed from it
      have hT : T.exec (.unsubscribe filter clientID) = T := by
        funext c f
        simp only [Table.exec]
        split_ifs with hc
        · cases ht : T c f with
          | none => rfl
          | some s =>
              have := (h.plain c f s ht).2
              simp [hc.2, hp] at this
        · rfl
      rw [hT]
      simp only [unsubscribe, hp]
      exact h.of_shards (shards_unsubscribeShared _ _ _ _)
  | none =>
      have hstep : Refines
          (r.updateShard (shardFor filter) (Shard.unsubscribe clientID (splitFilter filter)))
          (T.exec (.unsubscribe filter clientID)) := by
        refine refines_updateShard h filter _ clientID none ?_ (fun _ _ => rfl) (by simp)
        intro path n c
        exact find_unsubscribe clientID (splitFilter filter) path n c
      simp only [unsubscribe, hp]
      exact hstep.of_shards rfl

theorem refines_unsubscribeAll {r : Router δ} {T : Table δ} (h : Refines r T)
    (clientID : GoString) :
    Refines (unsubscribeAll clientID r) (T.exec (.unsubscribeAll clientID)) := by
  have hshards (i : Fin numShards) :
      (unsubscribeAll clientID r).shards i = removeClientFromNode clientID (r.shards i) := rfl
  constructor
  · intro c f
    rw [hshards, find_removeClient, h.lookup]
    rfl
  · intro i path c s hs
    rw [hshards, find_removeClient] at hs
    split_ifs at hs with hc
    exact h.placed i path c s hs
  · intro c f s hs
    simp only [Table.exec] at hs
    split_ifs at hs with hc
    exact h.plain c f s hs
  · intro c f s hs
    simp only [Table.exec] at hs
    split_ifs at hs with hc
    exact h.owner c f s hs

theorem refines_exec {r : Router δ} {T : Table δ} (h : Refines r T) (call : Call δ)
    (hp : call.Plain) : Refines (r.exec call) (T.exec call) := by
  cases call with
  | subscribe filter sub => exact refines_subscribe h filter sub hp
  | unsubscribe filter clientID => exact refines_unsubscribe h filter clientID
  | unsubscribeAll clientID => exact refines_unsubscribeAll h clientID

theorem refines_foldl {r : Router δ} {T : Table δ} (h : Refines r T) (calls : List (Call δ))
    (hp : ∀ call ∈ calls, call.Plain) :
    Refines (calls.foldl exec r) (calls.foldl Table.exec T) := by
  induction calls generalizing r T with
  | nil => exact h
  | cons call calls ih =>
      exact ih (refines_exec h call (hp call List.mem_cons_self))
        fun c hc => hp c (List.mem_cons_of_mem call hc)

theorem refines_execAll (calls : List (Call δ)) (hp : ∀ call ∈ calls, call.Plain) :
    Refines (execAll calls) (Table.execAll calls) :=
  refines_foldl refines_new calls hp

theorem Refines.hashLeaves {r : Router δ} {T : Table δ} (h : Refines r T) (i : Fin numShards) :
    HashLeaves (r.shards i) := by
  intro path c s hs
  obtain ⟨f, rfl, rfl⟩ := h.placed i path c s hs
  rw [h.lookup] at hs
  obtain ⟨hvalid, hplain⟩ := h.plain c f s hs
  exact hashLast_splitFilter hvalid hplain

/-- The candidates of all shards together are the live subscribers of the table. -/
theorem Refines.matching_eq_live {r : Router δ} {T : Table δ} (h : Refines r T)
    (topic c : GoString) :
    {s | ∃ i, s ∈ matching (splitFilter topic) (r.shards i) c} = T.live topic c := by
  ext s
  constructor
  · rintro ⟨i, path, hm, hf⟩
    obtain ⟨f, rfl, rfl⟩ := h.placed i path c s hf
    exact ⟨f, by rw [← h.lookup, hf], hm⟩
  · rintro ⟨f, hT, hm⟩
    exact ⟨shardFor f, splitFilter f, hm, by rw [h.lookup, hT]⟩

theorem isBest_foldl_matchNode (segs : List GoString) (shards : Fin numShards → Node δ)
    (hs : ∀ i, HashLeaves (shards i)) (is : List (Fin numShards)) (out : Matched δ) (c : GoString)
    (seen : Set (Subscriber δ)) (h : Selection.IsBest Subscriber.qos seen (out.get c)) :
    Selection.IsBest Subscriber.qos (seen ∪ {s | ∃ i ∈ is, s ∈ matching segs (shards i) c})
      ((is.foldl (fun out i => matchNode segs (shards i) out) out).get c) := by
  induction is generalizing out seen with
  | nil => simpa using h
  | cons i is ih =>
      have hset : seen ∪ {s | ∃ j ∈ i :: is, s ∈ matching segs (shards j) c} =
          seen ∪ matching segs (shards i) c ∪ {s | ∃ j ∈ is, s ∈ matching segs (shards j) c} := by
        ext s
        simp [or_assoc]
      rw [hset, List.foldl_cons]
      exact ih _ _ (isBest_matchNode segs (shards i) out c seen (hs i) h)

theorem Refines.isBest_matchSubscribers {r : Router δ} {T : Table δ} (h : Refines r T)
    (topic c : GoString) :
    Selection.IsBest Subscriber.qos (T.live topic c) ((matchSubscribers topic r).get c) := by
  have hbest := isBest_foldl_matchNode (splitFilter topic) r.shards h.hashLeaves
    (List.finRange numShards) FinMap.empty c ∅ (Selection.isBest_empty Subscriber.qos)
  simpa [matchSubscribers, ← h.matching_eq_live] using hbest

theorem effQoS_eq_min (qos sub : UInt8) : (if sub < qos then sub else qos) = min qos sub := by
  rw [min_comm, min_def]
  split_ifs with h1 h2 h2
  · rfl
  · exact absurd (le_of_lt h1) h2
  · exact le_antisymm (not_lt.mp h1) h2
  · rfl

theorem filter_deliveries (m : Matched δ) (hm : ∀ c s, m.get c = some s → s.clientID = c)
    (topic : GoString) (payload : List UInt8) (qos : UInt8) (c : GoString) :
    ((m.entries.filterMap fun e => deliverTo e.2 topic payload qos false).filter
        fun d => d.clientID = c) =
      ((m.get c).bind fun s => deliverTo s topic payload qos false).toList := by
  have hcomm : ((m.entries.filterMap fun e => deliverTo e.2 topic payload qos false).filter
        fun d => d.clientID = c) =
      (m.entries.filter fun e => e.1 = c).filterMap fun e =>
        deliverTo e.2 topic payload qos false := by
    rw [List.filter_filterMap, List.filterMap_filter]
    apply List.filterMap_congr
    intro e he
    have howner := hm e.1 e.2 ((m.mem_entries e.1 e.2).mp he)
    cases hd : e.2.deliver with
    | none => simp [deliverTo, hd]
    | some d => by_cases hc : e.1 = c <;> simp [deliverTo, hd, howner, hc]
  rw [hcomm, m.filter_entries_key]
  cases m.get c with
  | none => rfl
  | some s => cases hd : deliverTo s topic payload qos false <;> simp [hd]

theorem shared_exec {r : Router δ} (hr : r.shared = FinMap.empty) (call : Call δ)
    (hp : call.Plain) : (r.exec call).shared = FinMap.empty := by
  cases call with
  | subscribe filter sub =>
      obtain ⟨_, hplain⟩ := hp
      simp [exec, subscribe, hplain, countSubscribe, updateShard, hr]
  | unsubscribe filter clientID =>
      cases hparse : Protocol.parseSharedTopicFilter filter with
      | none => simp [exec, unsubscribe, hparse, addActive, updateShard, hr]
      | some parts => simp [exec, unsubscribe, hparse, unsubscribeShared, hr]
  | unsubscribeAll clientID =>
      simp [exec, unsubscribeAll, removeClientFromAllShared, addActive, hr, FinMap.empty]

theorem shared_execAll (calls : List (Call δ)) (hp : ∀ call ∈ calls, call.Plain) :
    (execAll calls).shared = FinMap.empty := by
  have hrun (r : Router δ) (hr : r.shared = FinMap.empty) :
      (calls.foldl exec r).shared = FinMap.empty := by
    induction calls generalizing r with
    | nil => exact hr
    | cons call calls ih =>
        exact ih (fun c hc => hp c (List.mem_cons_of_mem call hc)) _
          (shared_exec hr call (hp call List.mem_cons_self))
  exact hrun new rfl

@[simp] theorem shards_retainMessage (topic : GoString) (payload : List UInt8) (qos : UInt8)
    (now : Nat) (r : Router δ) : (retainMessage topic payload qos now r).shards = r.shards := by
  simp only [retainMessage]
  split_ifs <;> rfl

@[simp] theorem shared_retainMessage (topic : GoString) (payload : List UInt8) (qos : UInt8)
    (now : Nat) (r : Router δ) : (retainMessage topic payload qos now r).shared = r.shared := by
  simp only [retainMessage]
  split_ifs <;> rfl

/-- The calls a publish makes, split into the trie's and the groups' part. -/
theorem deliveries_publish (topic : GoString) (payload : List UInt8) (qos : UInt8)
    (retain : Bool) (now : Nat) (r : Router δ) :
    (publish topic payload qos retain now r).deliveries =
      ((matchSubscribers topic r).entries.filterMap fun e => deliverTo e.2 topic payload qos false)
        ++ (deliverShared topic payload qos r).2.map Prod.snd := by
  cases retain with
  | false => rfl
  | true => simp [publish, matchSubscribers, deliverShared]

/-- Any sequence of calls, then one publish: a client with a live matching filter
is called once, at the lower of the published QoS and the highest QoS among its
live matching filters, and any other client is not called. A nil closure cannot be
called; it is passed over. -/
theorem publish_refines_table (calls : List (Call δ)) (hp : ∀ call ∈ calls, call.Plain)
    (topic : GoString) (payload : List UInt8) (qos : UInt8) (retain : Bool) (now : Nat)
    (c : GoString) :
    let live := (Table.execAll calls).live topic c
    let called := (publish topic payload qos retain now (execAll calls)).deliveries.filter
      fun d => d.clientID = c
    (live = ∅ → called = []) ∧
      (live.Nonempty → ∃ s ∈ live, IsGreatest (Subscriber.qos '' live) s.qos ∧
        called = s.deliver.toList.map fun deliver =>
          ⟨c, deliver, topic, payload, min qos s.qos, false, 0⟩) := by
  intro live called
  have href := refines_execAll calls hp
  have hbest := href.isBest_matchSubscribers topic
  have howner (c : GoString) (s : Subscriber δ)
      (hs : (matchSubscribers topic (execAll calls)).get c = some s) : s.clientID = c := by
    have hb := hbest c
    rw [hs] at hb
    obtain ⟨⟨f, hT, _⟩, _⟩ := hb
    exact href.owner c f s hT
  have hcalled : called = (((matchSubscribers topic (execAll calls)).get c).bind fun s =>
      deliverTo s topic payload qos false).toList := by
    have hshared : (deliverShared topic payload qos (execAll calls)).2 = [] := by
      simp [deliverShared, shared_execAll calls hp, FinMap.keys, FinMap.empty]
    simp only [called, deliveries_publish, hshared, List.map_nil, List.append_nil]
    exact filter_deliveries _ howner topic payload qos c
  have hb := hbest c
  cases hm : (matchSubscribers topic (execAll calls)).get c with
  | none =>
      rw [hm] at hb hcalled
      refine ⟨fun _ => hcalled, ?_⟩
      rintro ⟨s, hs⟩
      have hempty : live = ∅ := hb
      rw [hempty] at hs
      exact hs.elim
  | some s =>
      rw [hm] at hb hcalled
      refine ⟨fun hempty => ?_, fun _ => ⟨s, hb.1, Selection.isBest_isGreatest _ hb, ?_⟩⟩
      · exact absurd hb.1 (by simp [live] at hempty; simp [hempty])
      · rw [hcalled]
        cases hd : s.deliver <;> simp [deliverTo, hd, howner c s hm, effQoS_eq_min]

/-- One client holds "a/+" at QoS 1 and "a/#" at QoS 2, another has left. -/
def overlapCalls : List (Call Nat) :=
  [.subscribe (str "a/+") ⟨str "c1", 1, some 1⟩, .subscribe (str "a/#") ⟨str "c1", 2, some 2⟩,
    .subscribe (str "a/b") ⟨str "c2", 1, some 3⟩, .unsubscribeAll (str "c2")]

theorem publish_refines_table_overlap :
    (∀ call ∈ overlapCalls, call.Plain) ∧
      ((Table.execAll overlapCalls).live (str "a/b") (str "c1")).Nonempty ∧
      ∃ s ∈ (Table.execAll overlapCalls).live (str "a/b") (str "c1"),
        IsGreatest (Subscriber.qos '' (Table.execAll overlapCalls).live (str "a/b") (str "c1"))
            s.qos ∧
          ((publish (str "a/b") [1] 2 false 0 (execAll overlapCalls)).deliveries.filter
              fun d => d.clientID = str "c1") =
            s.deliver.toList.map fun deliver =>
              ⟨str "c1", deliver, str "a/b", [1], min 2 s.qos, false, 0⟩ := by
  have hp : ∀ call ∈ overlapCalls, call.Plain := by decide
  have hlive : ((Table.execAll overlapCalls).live (str "a/b") (str "c1")).Nonempty :=
    ⟨⟨str "c1", 2, some 2⟩, str "a/#", by decide, by decide⟩
  exact ⟨hp, hlive,
    (publish_refines_table overlapCalls hp (str "a/b") [1] 2 false 0 (str "c1")).2 hlive⟩

end LumaBroker.Router
