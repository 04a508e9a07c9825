import LumaBroker.Router.Each

/-!
What the broker does to its router, as a list of calls of the router. Whatever every such call
keeps is kept by the broker, and behind each call of a closure is a subscription that one of
them has made and none has taken back.
-/

namespace LumaBroker.Router
variable {δ : Type}

/-- Calls of this kind lead from one router to the other. -/
def Steers (ok : Event δ → Prop) (r r' : Router δ) : Prop :=
  ∃ events, (∀ e ∈ events, ok e) ∧ r' = runEvents r events

/-- The calls that subscribe nobody. -/
def Event.Leaves : Event δ → Prop
  | .call (.subscribe _ _) => False
  | .call (.unsubscribe _ _) | .call (.unsubscribeAll _) | .publish .. => True

namespace Steers
variable {ok ok' : Event δ → Prop} {r r' r'' : Router δ}

theorem refl (r : Router δ) : Steers ok r r := ⟨[], nofun, rfl⟩

theorem trans (h : Steers ok r r') (h' : Steers ok r' r'') : Steers ok r r'' := by
  obtain ⟨before, hbefore, hr'⟩ := h
  obtain ⟨after, hafter, hr''⟩ := h'
  refine ⟨before ++ after, ?_, ?_⟩
  · intro e he
    exact (List.mem_append.mp he).elim (hbefore e) (hafter e)
  · rw [hr'', hr', runEvents, runEvents, runEvents, List.foldl_append]

theorem event {e : Event δ} (he : ok e) (r : Router δ) : Steers ok r (stepEvent r e) := by
  refine ⟨[e], ?_, rfl⟩
  intro e' he'
  rw [List.mem_singleton.mp he']
  exact he

theorem mono (h : Steers ok r r') (himp : ∀ e, ok e → ok' e) : Steers ok' r r' := by
  obtain ⟨events, hok, hr'⟩ := h
  exact ⟨events, fun e he => himp e (hok e he), hr'⟩

/-- What each call keeps, all of them keep. -/
theorem preserves {I : Router δ → Prop} (h : Steers ok r r')
    (hstep : ∀ r e, I r → ok e → I (stepEvent r e)) (hr : I r) : I r' := by
  obtain ⟨events, hok, hr'⟩ := h
  subst hr'
  induction events generalizing r with
  | nil => exact hr
  | cons e events ih =>
      obtain ⟨he, hevents⟩ := List.forall_mem_cons.mp hok
      exact ih (hstep r e hr he) hevents

/-- A loop over some entries. -/
theorem foldl {α : Type} {f : Router δ → α → Router δ} {xs : List α}
    (hf : ∀ r, ∀ x ∈ xs, Steers ok r (f r x)) (r : Router δ) : Steers ok r (xs.foldl f r) := by
  induction xs generalizing r with
  | nil => exact refl r
  | cons x xs ih =>
      obtain ⟨hx, hxs⟩ := List.forall_mem_cons.mp fun x hx r => hf r x hx
      exact (hx r).trans (ih (fun r x hx => hxs x hx r) (f r x))

end Steers

theorem Each.leaves {P : GoString → Subscriber δ → Prop} {r r' : Router δ} (h : Each P r)
    (hsteers : Steers Event.Leaves r r') : Each P r' := by
  refine hsteers.preserves (I := Each P) (fun r e hr he => hr.stepEvent ?_) h
  cases e with
  | call c =>
      cases c with
      | subscribe filter sub => exact he.elim
      | unsubscribe filter clientID | unsubscribeAll clientID => trivial
  | publish topic payload qos retain now => trivial

/-- Every entry of the trie is at the place of a plain filter, and the groups are those of the
shared ones. -/
structure Kept (r : Router δ) : Prop where
  placed : ∀ i path c s, find path (r.shards i) c = some s →
    ∃ f, Protocol.parseSharedTopicFilter f = none ∧ splitFilter f = path ∧ shardFor f = i
  grouped : Grouped r (held r)

theorem kept_new : Kept (new : Router δ) where
  placed i path c s h := by
    rw [new, find_new] at h
    cases h
  grouped := by
    rw [held_new_eq]
    exact grouped_new

theorem Kept.stepEvent {r : Router δ} (h : Kept r) (e : Event δ) : Kept (stepEvent r e) := by
  cases e with
  | call c =>
      refine ⟨fun i path cid s hs => ?_, ?_⟩
      · exact (find_exec_cases hs).elim (h.placed i path cid s) id
      · rw [Router.stepEvent, held_exec]
        exact grouped_exec h.grouped c
  | publish topic payload qos retain now =>
      have hheld : held (publish topic payload qos retain now r).router = held r := by
        funext c f
        exact held_publish topic payload qos retain now r c f
      refine ⟨fun i path c s hs => h.placed i path c s ?_, ?_⟩
      · cases retain with
        | false => exact hs
        | true => simpa [Router.stepEvent, publish, deliverShared] using hs
      · rw [Router.stepEvent, hheld]
        exact grouped_publish h.grouped topic payload qos retain now

theorem Kept.steers {ok : Event δ → Prop} {r r' : Router δ} (h : Kept r)
    (hsteers : Steers ok r r') : Kept r' :=
  hsteers.preserves (fun _ e hr _ => hr.stepEvent e) h

section Walk
variable {P : GoString → Subscriber δ → Prop} {segs : List GoString} {n : Node δ} {out : Matched δ}

theorem mergeChild_matched
    (hn : ∀ path c s, matchSegs segs path = true → find path n c = some s → P c s)
    (hout : out.All P) : (mergeChild n hash out).All P := by
  cases hchild : n.child hash with
  | none => simpa [mergeChild, hchild] using hout
  | some child =>
      simp only [mergeChild, hchild]
      refine all_mergeSubscribers (fun c s hs => hn [hash] c s (matchSegs_hash _ _) ?_) hout
      rw [find_cons, hchild]
      exact hs

/-- The walk finds nobody whose path does not match, for filters of any shape. -/
theorem matchNode_matched
    (hn : ∀ path c s, matchSegs segs path = true → find path n c = some s → P c s)
    (hout : out.All P) : (matchNode segs n out).All P := by
  induction segs generalizing n out with
  | nil => exact all_mergeSubscribers (fun c s hs => hn [] c s rfl hs) (mergeChild_matched hn hout)
  | cons seg segs ih =>
      have below {k : GoString} (hk : k = plus ∨ k = seg) {child : Node δ}
          (hchild : n.child k = some child)
          {out : Matched δ} (hout : out.All P) : (matchNode segs child out).All P := by
        refine ih (fun path c s hmatch hs => hn (k :: path) c s ?_ ?_) hout
        · exact (matchSegs_cons_cons ..).mpr (.inr ⟨hk, hmatch⟩)
        · rw [find_cons, hchild]
          exact hs
      have hstart : (mergeChild n hash out).All P := mergeChild_matched hn hout
      cases hseg : n.child seg <;> cases hplus : n.child plus <;> simp only [matchNode, hseg, hplus]
      case none.none => exact hstart
      case none.some => exact below (.inl rfl) hplus hstart
      case some.none => exact below (.inr rfl) hseg hstart
      case some.some => exact below (.inl rfl) hplus (below (.inr rfl) hseg hstart)

end Walk

section Deliveries
variable {r : Router δ} {topic : GoString} {payload : List UInt8} {qos : UInt8}

/-- The client holds a subscription that the topic matches, and the call is for it. -/
def Behind (r : Router δ) (topic : GoString) (qos : UInt8) (d : Delivery δ) : Prop :=
  ∃ f s, held r d.clientID f = some s ∧ topicMatchesFilter topic (matchFilter f) = true ∧
    s.deliver = some d.deliver ∧ d.topic = topic ∧ d.qos = min qos s.qos

theorem behind_of_deliverTo {f : GoString} {s : Subscriber δ} {c : GoString} {retain : Bool}
    {d : Delivery δ} (h : Kept r) (hs : held r c f = some s)
    (hmatch : topicMatchesFilter topic (matchFilter f) = true)
    (hd : deliverTo s topic payload qos retain = some d) : Behind r topic qos d := by
  obtain ⟨deliver, hdeliver, rfl⟩ := Option.map_eq_some_iff.mp hd
  have howner := h.grouped.owner c f s hs
  refine ⟨f, s, ?_, hmatch, hdeliver, rfl, effQoS_eq_min qos s.qos⟩
  rw [howner]
  exact hs

theorem behind_matched (h : Kept r) (topic : GoString) :
    (r.matchSubscribers topic).All fun c s =>
      ∃ f, held r c f = some s ∧ topicMatchesFilter topic (matchFilter f) = true := by
  have hshard (i : Fin numShards) (path : List GoString) (c : GoString) (s : Subscriber δ)
      (hmatch : matchSegs (splitFilter topic) path = true)
      (hs : find path (r.shards i) c = some s) :
      ∃ f, held r c f = some s ∧ topicMatchesFilter topic (matchFilter f) = true := by
    obtain ⟨f, hplain, rfl, rfl⟩ := h.placed i path c s hs
    refine ⟨f, ?_, ?_⟩
    · rw [held_plain r c hplain]
      exact hs
    · rw [matchFilter, hplain]
      exact hmatch
  have hfold (is : List (Fin numShards)) (out : Matched δ)
      (hout : out.All fun c s => ∃ f, held r c f = some s ∧
        topicMatchesFilter topic (matchFilter f) = true) :
      Matched.All (fun c s => ∃ f, held r c f = some s ∧
        topicMatchesFilter topic (matchFilter f) = true)
        (is.foldl (fun out i => matchNode (splitFilter topic) (r.shards i) out) out) := by
    induction is generalizing out with
    | nil => exact hout
    | cons i is ih => exact ih _ (matchNode_matched (hshard i) hout)
  exact hfold _ _ fun _ _ hs => by cases hs

theorem behind_group (h : Kept r) {key : GoString} {g : SharedGroup δ}
    (hg : r.shared.get key = some g) {d : Delivery δ} (hd : d ∈ groupCalls topic payload qos g) :
    Behind r topic qos d := by
  rw [groupCalls] at hd
  split at hd
  · next hserved =>
      rw [served, Bool.and_eq_true] at hserved
      obtain ⟨s, hnext, hdeliver⟩ := Option.bind_eq_some_iff.mp (Option.mem_toList.mp hd)
      obtain ⟨c, -, hget⟩ := Option.bind_eq_some_iff.mp hnext
      obtain ⟨f, name, hparse, rfl⟩ := h.grouped.keyed key g hg
      refine behind_of_deliverTo (f := f) (c := c) h ?_ ?_ hdeliver
      · rw [held_shared r c hparse, groupOf, hg]
        exact hget
      · rw [matchFilter, hparse]
        exact hserved.1
  · cases hd

theorem Kept.behind (h : Kept r) {retain : Bool} {now : Nat} {d : Delivery δ}
    (hd : d ∈ (r.publish topic payload qos retain now).deliveries) : Behind r topic qos d := by
  rw [deliveries_publish, List.mem_append] at hd
  cases hd with
  | inl hdirect =>
      obtain ⟨e, he, hdeliver⟩ := List.mem_filterMap.mp hdirect
      obtain ⟨f, hs, hmatch⟩ := behind_matched h topic e.1 e.2 ((FinMap.mem_entries ..).mp he)
      exact behind_of_deliverTo h hs hmatch hdeliver
  | inr hshared =>
      simp only [deliverShared_calls, List.mem_map, List.mem_flatMap, Option.mem_toList] at hshared
      obtain ⟨_, ⟨key, -, _, ⟨g, hg, hcall⟩, rfl⟩, rfl⟩ := hshared
      exact behind_group h hg hcall

end Deliveries
end LumaBroker.Router
