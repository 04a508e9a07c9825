import LumaBroker.Router.Table

/-!
Shared subscriptions: the groups of the router against the same subscription
table. A group exists exactly while its filter has a live subscription.
-/

namespace LumaBroker.Router
variable {δ : Type}

theorem zero_notMem_shareName {f name inner : GoString}
    (h : Protocol.parseSharedTopicFilter f = some (name, inner)) : 0 ∉ name := by
  intro h0
  have hbyte := ((Protocol.parseSharedTopicFilter_eq h).2.2.2 0 h0).1
  simp [Protocol.wildcardByte] at hbyte

theorem parseShared_injective {f g : GoString} {parts : GoString × GoString}
    (hf : Protocol.parseSharedTopicFilter f = some parts)
    (hg : Protocol.parseSharedTopicFilter g = some parts) : f = g := by
  rw [(Protocol.parseSharedTopicFilter_eq hf).1, (Protocol.parseSharedTopicFilter_eq hg).1]

/-- A share name holds no NUL, so the first NUL of a key ends the name. -/
theorem sharedStoreKey_injective {name name' inner inner' : GoString} (h : 0 ∉ name)
    (h' : 0 ∉ name') (heq : sharedStoreKey name inner = sharedStoreKey name' inner') :
    name = name' ∧ inner = inner' := by
  induction name generalizing name' with
  | nil =>
      cases name' with
      | nil => exact ⟨rfl, (List.cons.inj heq).2⟩
      | cons b name' => exact absurd ((List.cons.inj heq).1 ▸ List.mem_cons_self) h'
  | cons a name ih =>
      cases name' with
      | nil => exact absurd ((List.cons.inj heq).1 ▸ List.mem_cons_self) h
      | cons b name' =>
          obtain ⟨hhead, htail⟩ := List.cons.inj heq
          obtain ⟨hname, hinner⟩ := ih (fun h0 => h (List.mem_cons_of_mem a h0))
            (fun h0 => h' (List.mem_cons_of_mem b h0)) htail
          exact ⟨by rw [hhead, hname], hinner⟩

theorem filter_eq_of_key_eq {f f' name name' inner inner' : GoString}
    (hf : Protocol.parseSharedTopicFilter f = some (name, inner))
    (hf' : Protocol.parseSharedTopicFilter f' = some (name', inner'))
    (hkey : sharedStoreKey name inner = sharedStoreKey name' inner') : f = f' := by
  obtain ⟨rfl, rfl⟩ := sharedStoreKey_injective (zero_notMem_shareName hf)
    (zero_notMem_shareName hf') hkey
  exact parseShared_injective hf hf'

/-- A group without the client, or nothing when the client was its last member. -/
def withoutClient (clientID : GoString) (g : SharedGroup δ) : Option (SharedGroup δ) :=
  if (g.subs.erase clientID).isEmpty then none
  else some { g with subs := g.subs.erase clientID }

theorem withoutClient_eq_some {clientID : GoString} {g g' : SharedGroup δ}
    (h : withoutClient clientID g = some g') :
    g' = { g with subs := g.subs.erase clientID } ∧ g'.subs.isEmpty = false := by
  simp only [withoutClient] at h
  split_ifs at h with hempty
  cases h
  exact ⟨rfl, Bool.eq_false_iff.mpr hempty⟩

theorem subs_withoutClient (clientID : GoString) (g : SharedGroup δ) (c : GoString) :
    ((withoutClient clientID g).bind fun g' => g'.subs.get c) = (g.subs.erase clientID).get c := by
  simp only [withoutClient]
  split_ifs with hempty
  · exact ((FinMap.isEmpty_iff _).mp hempty c).symm
  · rfl

theorem shared_unsubscribeShared (name inner clientID : GoString) (r : Router δ) :
    (unsubscribeShared name inner clientID r).shared = r.shared.put (sharedStoreKey name inner)
      ((r.shared.get (sharedStoreKey name inner)).bind (withoutClient clientID)) := by
  cases hget : r.shared.get (sharedStoreKey name inner) with
  | none =>
      simp only [unsubscribeShared, hget, Option.bind_none]
      exact (FinMap.erase_of_get_none hget).symm
  | some g =>
      simp only [unsubscribeShared, hget, Option.bind_some, withoutClient, addActive]
      split_ifs <;> rfl

/-- A filter is plain or shared, not both. -/
theorem ne_of_parseShared {f f' : GoString} {parts : GoString × GoString}
    (hf : Protocol.parseSharedTopicFilter f = some parts)
    (hf' : Protocol.parseSharedTopicFilter f' = none) : f ≠ f' := by
  intro heq
  rw [heq, hf'] at hf
  cases hf

/-- The group a shared filter uses, as the router stores it. -/
def groupOf (r : Router δ) (name inner : GoString) : Option (SharedGroup δ) :=
  r.shared.get (sharedStoreKey name inner)

/-- The groups store exactly the shared part of the table: one non-empty group for
each shared filter with a live subscription, under the key of that filter. -/
structure Grouped (r : Router δ) (T : Table δ) : Prop where
  members : ∀ f name inner, Protocol.parseSharedTopicFilter f = some (name, inner) →
    ∀ c, ((groupOf r name inner).bind fun g => g.subs.get c) = T c f
  keyed : ∀ k g, r.shared.get k = some g → ∃ f name,
    Protocol.parseSharedTopicFilter f = some (name, g.topicFilter) ∧
      k = sharedStoreKey name g.topicFilter
  inhabited : ∀ k g, r.shared.get k = some g → g.subs.isEmpty = false
  owner : ∀ c f s, T c f = some s → s.clientID = c

theorem grouped_new : Grouped (new : Router δ) Table.empty where
  members f name inner hf c := rfl
  keyed k g h := by cases h
  inhabited k g h := by cases h
  owner c f s h := by cases h

theorem owner_exec {T : Table δ} (h : ∀ c f s, T c f = some s → s.clientID = c) (call : Call δ)
    (c f : GoString) (s : Subscriber δ) (hs : T.exec call c f = some s) : s.clientID = c := by
  cases call with
  | subscribe filter sub =>
      simp only [Table.exec] at hs
      split_ifs at hs with hc
      · cases hs
        exact hc.1.symm
      · exact h c f s hs
  | unsubscribe filter clientID | unsubscribeAll clientID =>
      simp only [Table.exec] at hs
      split_ifs at hs with hc
      exact h c f s hs

theorem grouped_put {r r' : Router δ} {T T' : Table δ} (h : Grouped r T)
    {filter name inner : GoString}
    (hf : Protocol.parseSharedTopicFilter filter = some (name, inner))
    (result : Option (SharedGroup δ))
    (hr : r'.shared = r.shared.put (sharedStoreKey name inner) result)
    (hgroup : ∀ g, result = some g → g.topicFilter = inner ∧ g.subs.isEmpty = false)
    (hat : ∀ c, (result.bind fun g => g.subs.get c) = T' c filter)
    (hother : ∀ c f, f ≠ filter → T' c f = T c f)
    (howner : ∀ c f s, T' c f = some s → s.clientID = c) : Grouped r' T' where
  members f name' inner' hf' c := by
    rw [groupOf, hr, FinMap.get_put]
    by_cases hkey : sharedStoreKey name' inner' = sharedStoreKey name inner
    · have hsame := filter_eq_of_key_eq hf' hf hkey
      subst hsame
      simpa [hkey] using hat c
    · have hne : f ≠ filter := by
        rintro rfl
        rw [hf] at hf'
        cases hf'
        exact hkey rfl
      simp only [hkey, if_false, hother c f hne]
      exact h.members f name' inner' hf' c
  keyed k g hg := by
    rw [hr, FinMap.get_put] at hg
    split_ifs at hg with hk
    · obtain ⟨rfl, -⟩ := hgroup g hg
      exact ⟨filter, name, hf, hk⟩
    · exact h.keyed k g hg
  inhabited k g hg := by
    rw [hr, FinMap.get_put] at hg
    split_ifs at hg with hk
    · exact (hgroup g hg).2
    · exact h.inhabited k g hg
  owner := howner

/-- Calls on plain filters do not touch the groups. -/
theorem Grouped.of_shared {r r' : Router δ} {T T' : Table δ} (h : Grouped r T)
    (hr : r'.shared = r.shared)
    (hT : ∀ c f, Protocol.parseSharedTopicFilter f ≠ none → T' c f = T c f)
    (howner : ∀ c f s, T' c f = some s → s.clientID = c) : Grouped r' T' where
  members f name inner hf c := by
    rw [hT c f (by simp [hf]), ← h.members f name inner hf c, groupOf, groupOf, hr]
  keyed k g hg := h.keyed k g (hr ▸ hg)
  inhabited k g hg := h.inhabited k g (hr ▸ hg)
  owner := howner

theorem Grouped.topicFilter_eq {r : Router δ} {T : Table δ} (h : Grouped r T)
    {f name inner : GoString} (hf : Protocol.parseSharedTopicFilter f = some (name, inner))
    {g : SharedGroup δ} (hg : groupOf r name inner = some g) : g.topicFilter = inner := by
  obtain ⟨f', name', hf', hk⟩ := h.keyed _ g hg
  exact (sharedStoreKey_injective (zero_notMem_shareName hf) (zero_notMem_shareName hf') hk).2.symm

theorem grouped_subscribe {r : Router δ} {T : Table δ} (h : Grouped r T) (filter : GoString)
    (sub : Subscriber δ) :
    Grouped (subscribe filter sub r) (T.exec (.subscribe filter sub)) := by
  have howner := owner_exec h.owner (.subscribe filter sub)
  cases hp : Protocol.parseSharedTopicFilter filter with
  | none =>
      refine h.of_shared ?_ ?_ howner
      · simp [subscribe, hp, countSubscribe, updateShard]
      · intro c f hf
        obtain ⟨parts, hparts⟩ := Option.ne_none_iff_exists'.mp hf
        simp [Table.exec, ne_of_parseShared hparts hp]
  | some parts =>
      obtain ⟨name, inner⟩ := parts
      let g := (groupOf r name inner).getD ⟨name, inner, FinMap.empty, 0⟩
      have hinner : g.topicFilter = inner := by
        cases hg : groupOf r name inner with
        | none => simp [g, hg]
        | some g' => simpa [g, hg] using h.topicFilter_eq hp hg
      have hsubs (c : GoString) : g.subs.get c = T c filter := by
        rw [← h.members filter name inner hp c]
        cases hg : groupOf r name inner <;> simp [g, hg]
      refine grouped_put h hp (some { g with subs := g.subs.set sub.clientID sub }) ?_ ?_ ?_ ?_
        howner
      · simp only [subscribe, hp, subscribeShared, countSubscribe, FinMap.put]
        rfl
      · intro g' hg'
        cases hg'
        exact ⟨hinner, FinMap.isEmpty_set _ _ _⟩
      · intro c
        simp [Table.exec, FinMap.get_set, hsubs]
      · intro c f hf
        simp [Table.exec, hf]

theorem grouped_unsubscribe {r : Router δ} {T : Table δ} (h : Grouped r T)
    (filter clientID : GoString) :
    Grouped (unsubscribe filter clientID r) (T.exec (.unsubscribe filter clientID)) := by
  have howner := owner_exec h.owner (.unsubscribe filter clientID)
  cases hp : Protocol.parseSharedTopicFilter filter with
  | none =>
      refine h.of_shared ?_ ?_ howner
      · simp [unsubscribe, hp, addActive, updateShard]
      · intro c f hf
        obtain ⟨parts, hparts⟩ := Option.ne_none_iff_exists'.mp hf
        simp [Table.exec, ne_of_parseShared hparts hp]
  | some parts =>
      obtain ⟨name, inner⟩ := parts
      refine grouped_put h hp ((groupOf r name inner).bind (withoutClient clientID)) ?_ ?_
        ?_ ?_ howner
      · simp only [unsubscribe, hp]
        exact shared_unsubscribeShared name inner clientID r
      · intro g' hg'
        obtain ⟨g, hg, hwithout⟩ := Option.bind_eq_some_iff.mp hg'
        obtain ⟨rfl, hne⟩ := withoutClient_eq_some hwithout
        exact ⟨h.topicFilter_eq (g := g) hp hg, hne⟩
      · intro c
        have hsubs := h.members filter name inner hp c
        cases hg : groupOf r name inner with
        | none => simp [Table.exec, ← hsubs, hg]
        | some g =>
            rw [Option.bind_some, subs_withoutClient]
            simp [Table.exec, FinMap.get_erase, ← hsubs, hg]
      · intro c f hf
        simp [Table.exec, hf]

theorem get_removeClientFromAllShared (clientID : GoString) (r : Router δ) (k : GoString) :
    (removeClientFromAllShared clientID r).1.shared.get k =
      (r.shared.get k).bind (withoutClient clientID) := by
  have hfold (entries : List (GoString × SharedGroup δ))
      (acc : FinMap GoString (SharedGroup δ) × Nat) :
      (entries.foldl (removeClientFromShared clientID) acc).1 =
        entries.foldl (fun m e => m.put e.1 (withoutClient clientID e.2)) acc.1 := by
    induction entries generalizing acc with
    | nil => rfl
    | cons e entries ih =>
        rw [List.foldl_cons, ih, List.foldl_cons]
        congr 1
        simp only [removeClientFromShared, withoutClient]
        split_ifs <;> rfl
  simp only [removeClientFromAllShared, hfold]
  rw [FinMap.get_foldl_put (fun _ => withoutClient clientID) r.shared.sorted]
  cases hk : r.shared.get k with
  | none =>
      have hl : SortedMap.lookup k r.shared.entries = none := hk
      simp [hl]
  | some g =>
      have hl : SortedMap.lookup k r.shared.entries = some g := hk
      simp [hl]

theorem grouped_unsubscribeAll {r : Router δ} {T : Table δ} (h : Grouped r T)
    (clientID : GoString) :
    Grouped (unsubscribeAll clientID r) (T.exec (.unsubscribeAll clientID)) := by
  have hget (k : GoString) : (unsubscribeAll clientID r).shared.get k =
      (r.shared.get k).bind (withoutClient clientID) :=
    get_removeClientFromAllShared clientID
      { r with shards := fun i => removeClientFromNode clientID (r.shards i) } k
  have hkept (k : GoString) (g : SharedGroup δ)
      (hg : (unsubscribeAll clientID r).shared.get k = some g) :
      ∃ g₀, r.shared.get k = some g₀ ∧ g.topicFilter = g₀.topicFilter ∧
        g.subs.isEmpty = false := by
    rw [hget, Option.bind_eq_some_iff] at hg
    obtain ⟨g₀, hg₀, hwithout⟩ := hg
    obtain ⟨rfl, hne⟩ := withoutClient_eq_some hwithout
    exact ⟨g₀, hg₀, rfl, hne⟩
  constructor
  · intro f name inner hf c
    have hsubs := h.members f name inner hf c
    rw [groupOf] at hsubs
    rw [groupOf, hget]
    cases hg : r.shared.get (sharedStoreKey name inner) with
    | none => simp [Table.exec, ← hsubs, hg]
    | some g =>
        rw [Option.bind_some, subs_withoutClient]
        simp [Table.exec, FinMap.get_erase, ← hsubs, hg]
  · intro k g hg
    obtain ⟨g₀, hg₀, hfilter, -⟩ := hkept k g hg
    rw [hfilter]
    exact h.keyed k g₀ hg₀
  · intro k g hg
    obtain ⟨g₀, -, -, hne⟩ := hkept k g hg
    exact hne
  · exact owner_exec h.owner (.unsubscribeAll clientID)

theorem grouped_exec {r : Router δ} {T : Table δ} (h : Grouped r T) (call : Call δ) :
    Grouped (r.exec call) (T.exec call) := by
  cases call with
  | subscribe filter sub => exact grouped_subscribe h filter sub
  | unsubscribe filter clientID => exact grouped_unsubscribe h filter clientID
  | unsubscribeAll clientID => exact grouped_unsubscribeAll h clientID

theorem grouped_execAll (calls : List (Call δ)) :
    Grouped (execAll calls) (Table.execAll calls) := by
  have hrun (r : Router δ) (T : Table δ) (h : Grouped r T) :
      Grouped (calls.foldl exec r) (calls.foldl Table.exec T) := by
    induction calls generalizing r T with
    | nil => exact h
    | cons call calls ih => exact ih _ _ (grouped_exec h call)
  exact hrun new Table.empty grouped_new

/-- A group has a member, so without subscriptions there is no group. -/
theorem shared_eq_empty {r : Router δ} (h : Grouped r Table.empty) : r.shared = FinMap.empty := by
  refine FinMap.ext_get fun key => ?_
  cases hg : r.shared.get key with
  | none => rfl
  | some g =>
      obtain ⟨f, name, hf, rfl⟩ := h.keyed key g hg
      have hnone : g.subs.isEmpty = true := by
        refine (FinMap.isEmpty_iff _).mpr fun c => ?_
        have hmember := h.members f name g.topicFilter hf c
        rwa [groupOf, hg] at hmember
      rw [h.inhabited _ g hg] at hnone
      cases hnone

end LumaBroker.Router
