import LumaBroker.Router.Pruning

/-!
GetFilters of internal/router/router.go. The filters of a client are read back from the
trie by joining the segments on the way to its entries, and from the keys of its groups. The
empty string stands for the root on the way down, so the empty levels in front of a filter
are lost.
-/

namespace LumaBroker.Router
variable {δ : Type}

/-- The filter of a child, from that of its node. -/
def extendFilter (filter seg : GoString) : GoString :=
  if filter = [] then seg else filter ++ slash :: seg

mutual
def collectFilters (clientID filter : GoString) : Node δ → List GoString
  | ⟨children, subscribers⟩ =>
      (if (subscribers.get clientID).isSome then [filter] else []) ++
        collectFromChildren clientID filter children

def collectFromChildren (clientID filter : GoString) : List (GoString × Node δ) → List GoString
  | [] => []
  | (seg, child) :: children =>
      collectFilters clientID (extendFilter filter seg) child ++
        collectFromChildren clientID filter children
end

def sharedKeyToFilter (key : GoString) : GoString :=
  match indexByte key 0 with
  | none => []
  | some i => str "$share/" ++ key.take i ++ slash :: key.drop (i + 1)

def getFilters (clientID : GoString) (r : Router δ) : List GoString :=
  ((List.finRange numShards).flatMap fun i => collectFilters clientID [] (r.shards i)) ++
    (r.shared.entries.filter fun e => (e.2.subs.get clientID).isSome).map fun e =>
      sharedKeyToFilter e.1

mutual
/-- The paths on which the client has an entry, in the order of collectFilters. -/
def paths (clientID : GoString) : Node δ → List (List GoString)
  | ⟨children, subscribers⟩ =>
      (if (subscribers.get clientID).isSome then [[]] else []) ++ pathsBelow clientID children

def pathsBelow (clientID : GoString) : List (GoString × Node δ) → List (List GoString)
  | [] => []
  | (seg, child) :: children =>
      (paths clientID child).map (seg :: ·) ++ pathsBelow clientID children
end

mutual
theorem collectFilters_eq (clientID : GoString) : ∀ (n : Node δ) (filter : GoString),
    collectFilters clientID filter n = (paths clientID n).map fun path =>
      path.foldl extendFilter filter
  | ⟨children, subscribers⟩, filter => by
      rw [collectFilters, paths, List.map_append, collectFromChildren_eq clientID children filter]
      split_ifs <;> rfl

theorem collectFromChildren_eq (clientID : GoString) :
    ∀ (children : List (GoString × Node δ)) (filter : GoString),
    collectFromChildren clientID filter children =
      (pathsBelow clientID children).map fun path => path.foldl extendFilter filter
  | [], _ => rfl
  | (seg, child) :: children, filter => by
      rw [collectFromChildren, pathsBelow, List.map_append, collectFilters_eq clientID child,
        collectFromChildren_eq clientID children filter, List.map_map]
      rfl
end

theorem pathsBelow_eq (clientID : GoString) (children : List (GoString × Node δ)) :
    pathsBelow clientID children = children.flatMap fun e =>
      (paths clientID e.2).map (e.1 :: ·) := by
  induction children with
  | nil => rfl
  | cons e children ih => rw [pathsBelow, ih, List.flatMap_cons]

theorem paths_eq (clientID : GoString) (n : Node δ) :
    paths clientID n = (if (n.subscribers.get clientID).isSome then [[]] else []) ++
      n.children.flatMap fun e => (paths clientID e.2).map (e.1 :: ·) := by
  obtain ⟨children, subscribers⟩ := n
  rw [paths, pathsBelow_eq]

theorem mem_children_iff {n : Node δ} (h : n.Ordered) (seg : GoString) (m : Node δ) :
    (seg, m) ∈ n.children ↔ n.child seg = some m :=
  ⟨SortedMap.lookup_of_mem (Node.ordered_iff.mp h).1, SortedMap.mem_of_lookup⟩

theorem mem_paths (clientID : GoString) {n : Node δ} (h : n.Ordered) (path : List GoString) :
    path ∈ paths clientID n ↔ (find path n clientID).isSome = true := by
  induction path generalizing n with
  | nil =>
      rw [paths_eq, find_nil]
      split_ifs with hs <;> simp [hs]
  | cons seg path ih =>
      rw [paths_eq, List.mem_append, find_cons]
      have hhere : ¬ seg :: path ∈ (if (n.subscribers.get clientID).isSome then [[]] else []) := by
        split_ifs <;> simp
      simp only [hhere, false_or, List.mem_flatMap, List.mem_map, List.cons.injEq]
      constructor
      · rintro ⟨e, he, path', hpath, rfl, rfl⟩
        have hchild := (mem_children_iff h e.1 e.2).mp he
        rw [hchild]
        exact (ih ((Node.ordered_iff.mp h).2 _ _ hchild)).mp hpath
      · intro hsome
        cases hchild : n.child seg with
        | none =>
            rw [hchild] at hsome
            cases hsome
        | some m =>
            rw [hchild] at hsome
            exact ⟨(seg, m), (mem_children_iff h seg m).mpr hchild, path,
              (ih ((Node.ordered_iff.mp h).2 _ _ hchild)).mpr hsome, rfl, rfl⟩

theorem nodup_paths (clientID : GoString) {n : Node δ} (h : n.Ordered) :
    (paths clientID n).Nodup := by
  induction n using Node.child_induction with
  | h n ih =>
      rw [paths_eq, List.nodup_append]
      refine ⟨?_, List.nodup_flatMap.mpr ⟨fun e he => ?_, ?_⟩, ?_⟩
      · split_ifs <;> simp
      · have hchild := (mem_children_iff h e.1 e.2).mp he
        exact (ih e.1 e.2 hchild ((Node.ordered_iff.mp h).2 _ _ hchild)).map (List.cons_injective)
      · refine (Node.ordered_iff.mp h).1.imp ?_
        intro e e' hlt path hpath hpath'
        obtain ⟨p, -, rfl⟩ := List.mem_map.mp hpath
        obtain ⟨p', -, heq⟩ := List.mem_map.mp hpath'
        exact absurd (List.cons.inj heq).1.symm (ne_of_lt hlt)
      · intro path hpath path' hpath' heq
        obtain ⟨e, -, he⟩ := List.mem_flatMap.mp hpath'
        obtain ⟨p, -, rfl⟩ := List.mem_map.mp he
        rw [heq] at hpath
        split_ifs at hpath
        · cases List.mem_singleton.mp hpath
        · cases hpath

section Joining

theorem foldl_extendFilter {filter : GoString} (h : filter ≠ []) (segs : List GoString) :
    segs.foldl extendFilter filter = filter ++ segs.flatMap (slash :: ·) := by
  induction segs generalizing filter with
  | nil => exact (List.append_nil filter).symm
  | cons seg segs ih =>
      have hnext : extendFilter filter seg = filter ++ slash :: seg := if_neg h
      have hne : filter ++ slash :: seg ≠ [] := List.append_ne_nil_of_left_ne_nil h _
      rw [List.foldl_cons, hnext, ih hne, List.append_assoc, List.flatMap_cons]

/-- What GetFilters makes of a plain filter that a client holds. -/
def collected (f : GoString) : GoString := (splitFilter f).foldl extendFilter []

theorem collected_eq_self {f : GoString} (hne : f ≠ []) (hhead : f.head? ≠ some slash) :
    collected f = f := by
  cases hs : splitFilter f with
  | nil => exact absurd hs (splitFilter_ne_nil f)
  | cons first rest =>
      have hjoin := eq_of_split_eq (splitFilter_eq_split f ▸ hs)
      have hfirst : first ≠ [] := by
        rintro rfl
        cases rest with
        | nil => exact hne hjoin
        | cons next rest =>
            rw [hjoin] at hhead
            exact hhead rfl
      have hstart : extendFilter [] first = first := if_pos rfl
      rw [collected, hs, List.foldl_cons, hstart, foldl_extendFilter hfirst, ← hjoin]

/-- No filter that is read back from the trie begins with an empty level. -/
theorem head?_collected_ne (f : GoString) : (collected f).head? ≠ some slash := by
  have hsegs (segs : List GoString) (h : ∀ seg ∈ segs, slash ∉ seg) :
      (segs.foldl extendFilter []).head? ≠ some slash := by
    induction segs with
    | nil =>
        intro heq
        cases heq
    | cons seg segs ih =>
        have hstart : extendFilter [] seg = seg := if_pos rfl
        rw [List.foldl_cons, hstart]
        cases seg with
        | nil => exact ih fun seg hseg => h seg (List.mem_cons_of_mem _ hseg)
        | cons b seg =>
            rw [foldl_extendFilter (List.cons_ne_nil b seg)]
            intro heq
            exact h _ List.mem_cons_self (Option.some.inj heq ▸ List.mem_cons_self)
  refine hsegs _ fun seg hseg => notMem_of_mem_split (s := f) ?_
  rwa [← splitFilter_eq_split]

theorem sharedKeyToFilter_eq {f name inner : GoString}
    (h : Protocol.parseSharedTopicFilter f = some (name, inner)) :
    sharedKeyToFilter (sharedStoreKey name inner) = f := by
  have hindex : indexByte (sharedStoreKey name inner) 0 = some name.length :=
    indexByte_append (zero_notMem_shareName h) inner
  rw [sharedKeyToFilter, hindex, (Protocol.parseSharedTopicFilter_eq h).1]
  simp [sharedStoreKey, Protocol.sharePrefix]

end Joining

/-- The filter of a subscribing or unsubscribing call is accepted by ValidTopicFilter. -/
def Call.Valid : Call δ → Prop
  | .subscribe filter _ | .unsubscribe filter _ => Protocol.validTopicFilter filter = true
  | .unsubscribeAll _ => True

instance (call : Call δ) : Decidable call.Valid :=
  match call with
  | .subscribe filter _ | .unsubscribe filter _ =>
      inferInstanceAs (Decidable (Protocol.validTopicFilter filter = true))
  | .unsubscribeAll _ => isTrue trivial

theorem valid_execAll {calls : List (Call δ)} (h : ∀ call ∈ calls, call.Valid) {c f : GoString}
    (hf : (Table.execAll calls c f).isSome = true) : Protocol.validTopicFilter f = true := by
  induction calls using List.reverseRecOn with
  | nil => cases hf
  | append_singleton calls call ih =>
      have hcall := h call (List.mem_append_right _ List.mem_cons_self)
      have hbefore := ih fun call hmem => h call (List.mem_append_left _ hmem)
      rw [Table.execAll, List.foldl_concat] at hf
      cases call with
      | subscribe filter sub =>
          simp only [Table.exec] at hf
          split_ifs at hf with hat
          · exact hat.2 ▸ hcall
          · exact hbefore hf
      | unsubscribe filter clientID | unsubscribeAll clientID =>
          simp only [Table.exec] at hf
          split_ifs at hf
          · cases hf
          · exact hbefore hf

/-- The shared filters of a client, by the groups it is a member of. -/
def groupFilters (c : GoString) (r : Router δ) : List GoString :=
  (r.shared.entries.filter fun e => (e.2.subs.get c).isSome).map fun e => sharedKeyToFilter e.1

section Groups
variable {r : Router δ} {T : Table δ}

/-- An entry of a group, with the shared filter that it is a member by. -/
theorem filter_of_group (h : Grouped r T) (c : GoString) {e : GoString × SharedGroup δ}
    (he : e ∈ r.shared.entries) :
    ∃ f name, Protocol.parseSharedTopicFilter f = some (name, e.2.topicFilter) ∧
      e.1 = sharedStoreKey name e.2.topicFilter ∧ sharedKeyToFilter e.1 = f ∧
        e.2.subs.get c = T c f := by
  have hget := (r.shared.mem_entries e.1 e.2).mp he
  obtain ⟨f, name, hf, hkey⟩ := h.keyed e.1 e.2 hget
  refine ⟨f, name, hf, hkey, ?_, ?_⟩
  · rw [hkey]
    exact sharedKeyToFilter_eq hf
  · rw [← h.members f name _ hf c, groupOf, ← hkey, hget, Option.bind_some]

theorem mem_groupFilters_iff (h : Grouped r T) (c f : GoString) :
    f ∈ groupFilters c r ↔ Protocol.parseSharedTopicFilter f ≠ none ∧ (T c f).isSome = true := by
  rw [groupFilters, List.mem_map]
  constructor
  · rintro ⟨e, he, rfl⟩
    obtain ⟨hmem, hsub⟩ := List.mem_filter.mp he
    obtain ⟨f, name, hf, -, hfilter, hget⟩ := filter_of_group h c hmem
    rw [hfilter, hf, ← hget]
    exact ⟨Option.some_ne_none _, hsub⟩
  · rintro ⟨hshared, hT⟩
    obtain ⟨⟨name, inner⟩, hf⟩ := Option.ne_none_iff_exists'.mp hshared
    have hmember := h.members f name inner hf c
    rw [← hmember] at hT
    obtain ⟨sub, hsub⟩ := Option.isSome_iff_exists.mp hT
    obtain ⟨g, hg, hgsub⟩ := Option.bind_eq_some_iff.mp hsub
    refine ⟨(sharedStoreKey name inner, g), List.mem_filter.mpr ⟨?_, ?_⟩, sharedKeyToFilter_eq hf⟩
    · exact (r.shared.mem_entries _ g).mpr hg
    · exact Option.isSome_of_eq_some hgsub

theorem nodup_groupFilters (h : Grouped r T) (c : GoString) : (groupFilters c r).Nodup := by
  have hentries : r.shared.entries.Nodup := List.Nodup.of_map Prod.fst r.shared.keys_nodup
  refine List.Nodup.map_on ?_ (hentries.filter _)
  intro e he e' he' heq
  have hmem := List.mem_of_mem_filter he
  have hmem' := List.mem_of_mem_filter he'
  obtain ⟨f, name, hf, hkey, hfilter, -⟩ := filter_of_group h c hmem
  obtain ⟨f', name', hf', hkey', hfilter', -⟩ := filter_of_group h c hmem'
  have hsame : f = f' := hfilter.symm.trans (heq.trans hfilter')
  rw [hsame, hf'] at hf
  obtain ⟨hname, htopic⟩ := Prod.mk.inj (Option.some.inj hf)
  have hkeys : e.1 = e'.1 := by rw [hkey, hkey', hname, htopic]
  have hget := (r.shared.mem_entries e.1 e.2).mp hmem
  have hget' := (r.shared.mem_entries e'.1 e'.2).mp hmem'
  rw [hkeys, hget'] at hget
  exact Prod.ext hkeys (Option.some.inj hget).symm

/-- The key of a shared filter stands for that filter alone: the filter is read back from it,
no other filter has it, and its group has those members that hold the filter. -/
theorem shared_keys_faithful (calls : List (Call δ)) {f name inner : GoString}
    (hf : Protocol.parseSharedTopicFilter f = some (name, inner)) :
    f = str "$share/" ++ name ++ slash :: inner ∧
      sharedKeyToFilter (sharedStoreKey name inner) = f ∧
      (∀ f' name' inner', Protocol.parseSharedTopicFilter f' = some (name', inner') →
        sharedStoreKey name' inner' = sharedStoreKey name inner → f' = f) ∧
      ∀ c, ((groupOf (execAll calls) name inner).bind fun g => g.subs.get c) =
        Table.execAll calls c f := by
  refine ⟨(Protocol.parseSharedTopicFilter_eq hf).1, sharedKeyToFilter_eq hf, ?_, ?_⟩
  · intro f' name' inner' hf' hkey
    exact filter_eq_of_key_eq hf' hf hkey
  · exact (grouped_execAll calls).members f name inner hf

/-- A filter with a slash and a NUL behind the share name. -/
theorem shared_keys_faithful_nul :
    sharedKeyToFilter (sharedStoreKey (str "g") (str "a/" ++ [0, 98])) =
      str "$share/g/a/" ++ [0, 98] :=
  (shared_keys_faithful ([] : List (Call Nat)) (by decide)).2.1

end Groups

section Filters
variable (calls : List (Call δ)) (c : GoString)

/-- The filters of the trie are those of the client's plain subscriptions, as collected. -/
theorem mem_collectFilters_iff (i : Fin numShards) (s : GoString) :
    s ∈ collectFilters c [] ((execAll calls).shards i) ↔
      ∃ f, Protocol.parseSharedTopicFilter f = none ∧ shardFor f = i ∧
        (Table.execAll calls c f).isSome = true ∧ collected f = s := by
  rw [collectFilters_eq, List.mem_map]
  constructor
  · rintro ⟨path, hpath, rfl⟩
    obtain ⟨sub, hsub⟩ :=
      Option.isSome_iff_exists.mp ((mem_paths c (ordered_execAll calls i) path).mp hpath)
    obtain ⟨f, hplain, rfl, hi, hT⟩ := (find_execAll_iff calls _ _ _ _).mp hsub
    exact ⟨f, hplain, hi, Option.isSome_of_eq_some hT, rfl⟩
  · rintro ⟨f, hplain, hi, hT, rfl⟩
    obtain ⟨sub, hsub⟩ := Option.isSome_iff_exists.mp hT
    have hfind := (find_execAll_iff calls i _ c sub).mpr ⟨f, hplain, rfl, hi, hsub⟩
    exact ⟨splitFilter f, (mem_paths c (ordered_execAll calls i) _).mpr
      (Option.isSome_of_eq_some hfind), rfl⟩

section AsHeld
/-! Each plain filter of the client is collected as it is. -/
variable (hself : ∀ f, Protocol.parseSharedTopicFilter f = none →
  (Table.execAll calls c f).isSome = true → collected f = f)
include hself

theorem nodup_collectFilters :
    ((List.finRange numShards).flatMap fun i => collectFilters c []
      ((execAll calls).shards i)).Nodup := by
  refine List.nodup_flatMap.mpr ⟨fun i _ => ?_, ?_⟩
  · rw [collectFilters_eq]
    refine List.Nodup.map_on ?_ (nodup_paths c (ordered_execAll calls i))
    have hfilter (path : List GoString) (hpath : path ∈ paths c ((execAll calls).shards i)) :
        path = splitFilter (path.foldl extendFilter []) := by
      obtain ⟨sub, hsub⟩ :=
        Option.isSome_iff_exists.mp ((mem_paths c (ordered_execAll calls i) path).mp hpath)
      obtain ⟨f, hplain, rfl, -, hT⟩ := (find_execAll_iff calls _ _ _ _).mp hsub
      exact congrArg splitFilter (hself f hplain (Option.isSome_of_eq_some hT)).symm
    intro path hpath path' hpath' heq
    rw [hfilter path hpath, hfilter path' hpath', heq]
  · refine (List.nodup_finRange numShards).imp fun hne s hs hs' => ?_
    obtain ⟨f, hplain, rfl, hT, hcollected⟩ := (mem_collectFilters_iff calls c _ s).mp hs
    obtain ⟨f', hplain', rfl, hT', hcollected'⟩ := (mem_collectFilters_iff calls c _ s).mp hs'
    rw [hself f hplain hT] at hcollected
    rw [hself f' hplain' hT'] at hcollected'
    exact hne (by rw [hcollected, hcollected'])

theorem mem_getFilters_iff (f : GoString) :
    f ∈ getFilters c (execAll calls) ↔ (Table.execAll calls c f).isSome = true := by
  rw [getFilters, List.mem_append, List.mem_flatMap, ← groupFilters,
    mem_groupFilters_iff (grouped_execAll calls)]
  constructor
  · rintro (⟨i, -, hi⟩ | ⟨-, hT⟩)
    · obtain ⟨f', hplain, -, hT, hcollected⟩ := (mem_collectFilters_iff calls c i f).mp hi
      rw [← hcollected, hself f' hplain hT]
      exact hT
    · exact hT
  · intro hT
    by_cases hplain : Protocol.parseSharedTopicFilter f = none
    · exact .inl ⟨shardFor f, List.mem_finRange _,
        (mem_collectFilters_iff calls c _ f).mpr ⟨f, hplain, rfl, hT, hself f hplain hT⟩⟩
    · exact .inr ⟨hplain, hT⟩

theorem nodup_getFilters : (getFilters c (execAll calls)).Nodup := by
  refine List.nodup_append.mpr ⟨nodup_collectFilters calls c hself,
    nodup_groupFilters (grouped_execAll calls) c, ?_⟩
  rintro f hf _ hf' rfl
  obtain ⟨i, -, hi⟩ := List.mem_flatMap.mp hf
  obtain ⟨f', hplain, -, hT, hcollected⟩ := (mem_collectFilters_iff calls c i f).mp hi
  rw [hself f' hplain hT] at hcollected
  exact ((mem_groupFilters_iff (grouped_execAll calls) c f).mp hf').1 (hcollected ▸ hplain)

end AsHeld

/-- What GetFilters returns never begins with an empty level. -/
theorem head?_of_mem_getFilters {f : GoString} (h : f ∈ getFilters c (execAll calls)) :
    f.head? ≠ some slash := by
  rcases List.mem_append.mp h with hplain | hshared
  · obtain ⟨i, -, hi⟩ := List.mem_flatMap.mp hplain
    obtain ⟨f', -, -, -, rfl⟩ := (mem_collectFilters_iff calls c i f).mp hi
    exact head?_collected_ne f'
  · obtain ⟨hne, -⟩ := (mem_groupFilters_iff (grouped_execAll calls) c f).mp hshared
    obtain ⟨⟨name, inner⟩, hparts⟩ := Option.ne_none_iff_exists'.mp hne
    rw [(Protocol.parseSharedTopicFilter_eq hparts).1]
    exact fun heq => absurd (Option.some.inj heq) (by decide)

/-- GetFilters returns the filters that the client holds, each once, exactly if none of them
begins with an empty level. -/
theorem getFilters_inverse_iff (hvalid : ∀ call ∈ calls, call.Valid) :
    (∀ f, (getFilters c (execAll calls)).count f = if (Table.execAll calls c f).isSome then 1
      else 0) ↔
      ∀ f, (Table.execAll calls c f).isSome = true → f.head? ≠ some slash := by
  constructor
  · intro hcount f hT
    refine head?_of_mem_getFilters calls c (List.count_pos_iff.mp ?_)
    rw [hcount f, if_pos hT]
    exact Nat.one_pos
  · intro hheads f
    have hself (f : GoString) (_ : Protocol.parseSharedTopicFilter f = none)
        (hT : (Table.execAll calls c f).isSome = true) : collected f = f := by
      refine collected_eq_self ?_ (hheads f hT)
      rintro rfl
      exact absurd (valid_execAll hvalid hT) (by decide)
    rw [(nodup_getFilters calls c hself).count]
    exact if_congr (mem_getFilters_iff calls c hself f) rfl rfl

end Filters

/-- A plain filter, one with an empty level inside, and a shared one. -/
def heldCalls : List (Call Nat) :=
  [.subscribe (str "a/+") ⟨str "c1", 1, some 1⟩, .subscribe (str "a//b/") ⟨str "c1", 0, some 1⟩,
    .subscribe (str "$share/g/a/#") ⟨str "c1", 2, some 1⟩]

theorem getFilters_inverse_held :
    (getFilters (str "c1") (execAll heldCalls)).count (str "a//b/") = 1 ∧
      (getFilters (str "c1") (execAll heldCalls)).count (str "$share/g/a/#") = 1 := by
  have hheads (f : GoString) (hf : (Table.execAll heldCalls (str "c1") f).isSome = true) :
      f.head? ≠ some slash := by
    simp only [heldCalls, Table.execAll, List.foldl_cons, List.foldl_nil, Table.exec, Table.empty]
      at hf
    split_ifs at hf with h₃ h₂ h₁
    · exact h₃.2 ▸ (by decide)
    · exact h₂.2 ▸ (by decide)
    · exact h₁.2 ▸ (by decide)
    · cases hf
  have hcount := (getFilters_inverse_iff heldCalls (str "c1") (by decide)).mpr hheads
  exact ⟨(hcount _).trans (if_pos (by decide)), (hcount _).trans (if_pos (by decide))⟩

/-- The filter /a comes back as a, and / as the empty string. -/
theorem getFilters_loses_level :
    Protocol.validTopicFilter (str "/a") = true ∧ Protocol.validTopicFilter (str "/") = true ∧
      getFilters (str "c1") (execAll [.subscribe (str "/a") ⟨str "c1", 1, some 1⟩]) = [str "a"] ∧
      getFilters (str "c1") (execAll [.subscribe (str "/") ⟨str "c1", 1, some 1⟩]) = [[]] := by
  decide +kernel

end LumaBroker.Router
