import LumaBroker.Router.Filters
import Mathlib.Data.Set.Card

/-!
The gauge of active subscriptions against the subscriptions that are live: the pairs of a client
and a filter under which the router stores a subscriber. Subscribe counts a renewed
subscription again, Unsubscribe also takes one off when it removes nothing, and UnsubscribeAll
takes off the memberships in groups only. So each operation can drive the gauge away in one
direction, and says here when it does not.
-/

namespace LumaBroker.Router
variable {δ : Type}

/-- The live subscriptions, by client and filter. -/
def liveSubscriptions (r : Router δ) : Set (GoString × GoString) := {cf | r.held cf.1 cf.2 ≠ none}

/-- How far the gauge is above the number of live subscriptions. -/
noncomputable def drift (r : Router δ) : Int :=
  r.metrics.activeSubscriptions - r.liveSubscriptions.ncard

/-- The groups are those of the subscriptions that are held, and these can be counted. -/
structure Tidy (r : Router δ) : Prop where
  grouped : Grouped r r.held
  finite : r.liveSubscriptions.Finite

theorem liveSubscriptions_new : liveSubscriptions (new : Router δ) = ∅ := by
  rw [Set.eq_empty_iff_forall_notMem]
  exact fun cf h => h (held_new cf.1 cf.2)

theorem tidy_new : Tidy (new : Router δ) where
  grouped := held_new_eq (δ := δ) ▸ grouped_new
  finite := liveSubscriptions_new (δ := δ) ▸ Set.finite_empty

theorem drift_new : drift (new : Router δ) = 0 := by
  rw [drift, liveSubscriptions_new, Set.ncard_empty]
  rfl

section Calls
variable {r : Router δ}

theorem Tidy.exec (h : Tidy r) (call : Call δ) (hfinite : (r.exec call).liveSubscriptions.Finite) :
    Tidy (r.exec call) where
  grouped := held_exec r call ▸ grouped_exec h.grouped call
  finite := hfinite

theorem liveSubscriptions_subscribe (filter : GoString) (sub : Subscriber δ) (r : Router δ) :
    (r.subscribe filter sub).liveSubscriptions = insert
    (sub.clientID, filter) r.liveSubscriptions := by
  ext ⟨c, f⟩
  change (r.subscribe filter sub).held c f ≠ none ↔ (c, f) = (sub.clientID, filter) ∨
    r.held c f ≠ none
  rw [held_subscribe, Prod.mk.injEq]
  split_ifs with hat <;> simp [hat]

theorem liveSubscriptions_unsubscribe (filter clientID : GoString) (r : Router δ) :
    (r.unsubscribe filter clientID).liveSubscriptions = r.liveSubscriptions \
    {(clientID, filter)} := by
  ext ⟨c, f⟩
  change (r.unsubscribe filter clientID).held c f ≠ none ↔
    r.held c f ≠ none ∧ ¬ (c, f) = (clientID, filter)
  rw [held_unsubscribe, Prod.mk.injEq]
  split_ifs with hat <;> simp [hat]

theorem liveSubscriptions_unsubscribeAll (clientID : GoString) (r : Router δ) :
    (r.unsubscribeAll clientID).liveSubscriptions = r.liveSubscriptions \
    {cf | cf.1 = clientID} := by
  ext ⟨c, f⟩
  change (r.unsubscribeAll clientID).held c f ≠ none ↔ r.held c f ≠ none ∧ ¬ c = clientID
  rw [held_unsubscribeAll]
  split_ifs with hat <;> simp [hat]

theorem activeSubscriptions_subscribe (filter : GoString) (sub : Subscriber δ) (r : Router δ) :
    (r.subscribe filter sub).metrics.activeSubscriptions = r.metrics.activeSubscriptions + 1 := by
  rw [subscribe]
  split <;> rfl

/-- A subscription is counted; it fits when it is a new one. -/
theorem drift_subscribe (h : Tidy r) (filter : GoString) (sub : Subscriber δ) :
    Tidy (r.subscribe filter sub) ∧
      ∃ n : Nat, (r.subscribe filter sub).drift = r.drift + n ∧
        (r.held sub.clientID filter = none ↔ n = 0) := by
  have hlive := liveSubscriptions_subscribe filter sub r
  refine ⟨h.exec (.subscribe filter sub) (hlive ▸ h.finite.insert _), ?_⟩
  rw [drift, drift, activeSubscriptions_subscribe, hlive]
  by_cases hheld : r.held sub.clientID filter = none
  · have hnot : (sub.clientID, filter) ∉ r.liveSubscriptions := fun hmem => hmem hheld
    have hcard := Set.ncard_insert_of_notMem hnot h.finite
    refine ⟨0, ?_, by simp [hheld]⟩
    rw [hcard]
    push_cast
    ring
  · have hmem : (sub.clientID, filter) ∈ r.liveSubscriptions := hheld
    refine ⟨1, ?_, by simp [hheld]⟩
    rw [Set.insert_eq_of_mem hmem]
    push_cast
    ring

theorem ncard_diff_live (h : Tidy r) (c f : GoString) :
    ∃ n : Nat, ((r.liveSubscriptions \ {(c, f)}).ncard : Int) + 1 = r.liveSubscriptions.ncard + n ∧
      (r.held c f ≠ none ↔ n = 0) := by
  by_cases hheld : r.held c f = none
  · have hnot : (c, f) ∉ r.liveSubscriptions := fun hmem => hmem hheld
    refine ⟨1, ?_, by simp [hheld]⟩
    rw [Set.sdiff_singleton_eq_self hnot]
    rfl
  · have hmem : (c, f) ∈ r.liveSubscriptions := hheld
    refine ⟨0, ?_, by simp [hheld]⟩
    rw [← Set.ncard_sdiff_singleton_add_one hmem h.finite]
    rfl

/-- The group of a shared filter is there exactly while some client holds the filter. -/
theorem groupOf_ne_none_iff (h : Tidy r) {f name inner : GoString}
    (hf : Protocol.parseSharedTopicFilter f = some (name, inner)) :
    groupOf r name inner ≠ none ↔ ∃ c, r.held c f ≠ none := by
  simp only [held_shared r _ hf]
  cases hg : groupOf r name inner with
  | none => simp
  | some g =>
      have hsome := h.grouped.inhabited _ g hg
      have hmember : ∃ c, g.subs.get c ≠ none := by
        by_contra hnone
        have hempty := (FinMap.isEmpty_iff g.subs).mpr fun c => not_not.mp fun hc => hnone ⟨c, hc⟩
        rw [hempty] at hsome
        cases hsome
      simpa using hmember

/-- An unsubscription takes one off unless there is no group to look at; it fits when the client
holds the filter in all other cases. -/
theorem drift_unsubscribe (h : Tidy r) (filter clientID : GoString) :
    Tidy (r.unsubscribe filter clientID) ∧
      ∃ n : Nat, (r.unsubscribe filter clientID).drift = r.drift - n ∧
        ((Protocol.parseSharedTopicFilter filter = none ∨ (∃ c, r.held c filter ≠ none) →
          r.held clientID filter ≠ none) ↔ n = 0) := by
  have hlive := liveSubscriptions_unsubscribe filter clientID r
  refine ⟨h.exec (.unsubscribe filter clientID) (hlive ▸ h.finite.sdiff), ?_⟩
  obtain ⟨n, hcard, hn⟩ := ncard_diff_live h clientID filter
  have hcounted (hgauge : (r.unsubscribe filter clientID).metrics.activeSubscriptions =
      r.metrics.activeSubscriptions - 1) : (r.unsubscribe filter clientID).drift = r.drift - n := by
    rw [drift, drift, hgauge, hlive]
    omega
  cases hp : Protocol.parseSharedTopicFilter filter with
  | none =>
      refine ⟨n, hcounted ?_, by simpa using hn⟩
      simp only [unsubscribe, hp]
      rfl
  | some parts =>
      obtain ⟨name, inner⟩ := parts
      have hsome := groupOf_ne_none_iff h hp
      cases hg : groupOf r name inner with
      | none =>
          have hnobody : ¬ ∃ c, r.held c filter ≠ none := fun hc => hsome.mpr hc hg
          have hkeeps : r.unsubscribe filter clientID = r := by
            rw [groupOf] at hg
            simp only [unsubscribe, hp, unsubscribeShared, hg]
          exact ⟨0, by simp [hkeeps], by simp [hnobody]⟩
      | some g =>
          have hsomebody : ∃ c, r.held c filter ≠ none := hsome.mp (hg ▸ Option.some_ne_none g)
          refine ⟨n, hcounted ?_, by simpa [hsomebody] using hn⟩
          rw [groupOf] at hg
          simp only [unsubscribe, hp, unsubscribeShared, hg, addActive]
          rfl

/-- The loop over the groups counts the memberships that it removes. -/
theorem removed_eq_length (clientID : GoString) (r : Router δ) :
    (removeClientFromAllShared clientID r).2 = (groupFilters clientID r).length := by
  have hloop (entries : List (GoString × SharedGroup δ))
      (acc : FinMap GoString (SharedGroup δ) × Nat) :
      (entries.foldl (removeClientFromShared clientID) acc).2 =
        acc.2 + (entries.filter fun e => (e.2.subs.get clientID).isSome).length := by
    induction entries generalizing acc with
    | nil => rfl
    | cons e entries ih =>
        rw [List.foldl_cons, ih, List.filter_cons]
        cases hmember : (e.2.subs.get clientID).isSome with
        | true =>
            have hcount : (removeClientFromShared clientID acc e).2 = acc.2 + 1 := if_pos hmember
            rw [hcount, if_pos rfl, List.length_cons]
            omega
        | false =>
            have hcount : (removeClientFromShared clientID acc e).2 = acc.2 :=
              if_neg (by simp [hmember])
            rw [hcount, if_neg Bool.false_ne_true]
  rw [removeClientFromAllShared, hloop, groupFilters, List.length_map]
  exact Nat.zero_add _

/-- The live subscriptions of a client on shared filters are its groups. -/
theorem ncard_shared (h : Tidy r) (clientID : GoString) :
    {cf | cf ∈ r.liveSubscriptions ∧ cf.1 = clientID ∧
        Protocol.parseSharedTopicFilter cf.2 ≠ none}.ncard = (groupFilters clientID r).length := by
  have himage :
      {cf | cf ∈ r.liveSubscriptions ∧ cf.1 = clientID ∧
          Protocol.parseSharedTopicFilter cf.2 ≠ none} =
        Set.image (Prod.mk clientID) ↑(groupFilters clientID r).toFinset := by
    ext ⟨c, f⟩
    simp only [Set.mem_ofPred_eq, Set.mem_image, Finset.mem_coe, List.mem_toFinset,
      mem_groupFilters_iff h.grouped, Option.isSome_iff_ne_none, Prod.mk.injEq]
    constructor
    · rintro ⟨hheld, rfl, hshared⟩
      exact ⟨f, ⟨hshared, hheld⟩, rfl, rfl⟩
    · rintro ⟨f', ⟨hshared, hheld⟩, rfl, rfl⟩
      exact ⟨hheld, rfl, hshared⟩
  rw [himage, Set.ncard_image_of_injective _ (Prod.mk_right_injective clientID),
    Set.ncard_coe_finset, List.toFinset_card_of_nodup (nodup_groupFilters h.grouped clientID)]

/-- Removing a client takes off its groups only; it fits when the client has no plain filter. -/
theorem drift_unsubscribeAll (h : Tidy r) (clientID : GoString) :
    Tidy (r.unsubscribeAll clientID) ∧
      ∃ n : Nat, (r.unsubscribeAll clientID).drift = r.drift + n ∧
        ((∀ f, Protocol.parseSharedTopicFilter f = none → r.held clientID f = none) ↔ n = 0) := by
  have hlive := liveSubscriptions_unsubscribeAll clientID r
  refine ⟨h.exec (.unsubscribeAll clientID) (hlive ▸ h.finite.sdiff), ?_⟩
  let plain :=
    {cf | cf ∈ r.liveSubscriptions ∧ cf.1 = clientID ∧ Protocol.parseSharedTopicFilter cf.2 = none}
  let shared :=
    {cf | cf ∈ r.liveSubscriptions ∧ cf.1 = clientID ∧ Protocol.parseSharedTopicFilter cf.2 ≠ none}
  have hplain : plain.Finite := h.finite.subset fun cf hcf => hcf.1
  have hshared : shared.Finite := h.finite.subset fun cf hcf => hcf.1
  have hparts : r.liveSubscriptions ∩ {cf | cf.1 = clientID} = plain ∪ shared := by
    ext cf
    constructor
    · rintro ⟨hmem, hc⟩
      by_cases hp : Protocol.parseSharedTopicFilter cf.2 = none
      · exact .inl ⟨hmem, hc, hp⟩
      · exact .inr ⟨hmem, hc, hp⟩
    · rintro (⟨hmem, hc, -⟩ | ⟨hmem, hc, -⟩) <;> exact ⟨hmem, hc⟩
  have hdisjoint : Disjoint plain shared :=
    Set.disjoint_left.mpr fun cf hcf hcf' => hcf'.2.2 hcf.2.2
  have hcard :=
    Set.ncard_inter_add_ncard_sdiff_eq_ncard r.liveSubscriptions {cf | cf.1 = clientID} h.finite
  rw [hparts, Set.ncard_union_eq hdisjoint hplain hshared, ncard_shared h] at hcard
  have hgauge : (r.unsubscribeAll clientID).metrics.activeSubscriptions =
      r.metrics.activeSubscriptions - (groupFilters clientID r).length := by
    have hremoved := removed_eq_length clientID
      { r with shards := fun i => removeClientFromNode clientID (r.shards i) }
    change r.metrics.activeSubscriptions + -((removeClientFromAllShared clientID _).2 : Int) = _
    rw [hremoved]
    rfl
  refine ⟨plain.ncard, ?_, ?_⟩
  · rw [drift, drift, hgauge, hlive]
    omega
  · rw [Set.ncard_eq_zero hplain, Set.eq_empty_iff_forall_notMem]
    constructor
    · rintro hnone ⟨c, f⟩ ⟨hheld, rfl, hp⟩
      exact hheld (hnone f hp)
    · intro hnone f hp
      by_contra hheld
      exact hnone (clientID, f) ⟨hheld, rfl, hp⟩

/-- A publication leaves the subscriptions and their gauge alone. -/
theorem drift_publish (h : Tidy r) (topic : GoString) (payload : List UInt8) (qos : UInt8)
    (retain : Bool) (now : Nat) :
    Tidy (r.publish topic payload qos retain now).router ∧
      (r.publish topic payload qos retain now).router.drift = r.drift := by
  have hheld : (r.publish topic payload qos retain now).router.held = r.held := by
    funext c f
    exact held_publish topic payload qos retain now r c f
  have hlive : (r.publish topic payload qos retain now).router.liveSubscriptions =
      r.liveSubscriptions := by
    rw [liveSubscriptions, hheld, liveSubscriptions]
  have hgauge : (r.publish topic payload qos retain now).router.metrics.activeSubscriptions =
      r.metrics.activeSubscriptions := by
    cases retain with
    | false => rfl
    | true =>
        simp only [publish, deliverShared, retainMessage, if_true]
        split_ifs <;> rfl
  refine ⟨⟨hheld ▸ grouped_publish h.grouped topic payload qos retain now, hlive ▸ h.finite⟩, ?_⟩
  rw [drift, hlive, hgauge, drift]

end Calls

end LumaBroker.Router
