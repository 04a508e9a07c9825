import LumaBroker.Lib.History
import LumaBroker.Lib.Transition
import LumaBroker.Lib.Walk
import LumaBroker.Router.Held

/-!
The shape of the trie of internal/router/router.go. Subscribing creates the nodes on its
path and unsubscribing detaches those that hold nothing any more, so a trie is determined by
its entries. removeClientFromNode detaches nothing: what a client leaves behind stays, unless
another client has a subscription at the same nodes or below them.
-/

namespace LumaBroker.Router
variable {δ : Type}

namespace Node

/-- The node that a path of segments leads to. -/
def nodeAt (path : List GoString) (n : Node δ) : Option (Node δ) := Walk.walk child path n

/-- Some client has a subscription at the node or below it. -/
def Live (n : Node δ) : Prop := ∃ path c s, find path n c = some s

/-- Every node below this one has a subscriber in its subtree. -/
def NoDeadBranch (n : Node δ) : Prop := ∀ path m, path ≠ [] → nodeAt path n = some m → m.Live

/-- The child lists are maps, in the order of their keys. -/
def Ordered (n : Node δ) : Prop := ∀ path m, nodeAt path n = some m → SortedMap.Sorted m.children

theorem nodeAt_cons (seg : GoString) (path : List GoString) (n : Node δ) :
    nodeAt (seg :: path) n = (n.child seg).bind (nodeAt path) := rfl

theorem find_append (path rest : List GoString) (n : Node δ) (c : GoString) :
    find (path ++ rest) n c = (nodeAt path n).bind fun m => find rest m c := by
  induction path generalizing n with
  | nil => rfl
  | cons seg path ih =>
      rw [List.cons_append, find_cons, nodeAt_cons]
      cases n.child seg with
      | none => rfl
      | some m => exact ih m

theorem find_nodeAt {path : List GoString} {n m : Node δ} (h : nodeAt path n = some m)
    (rest : List GoString) (c : GoString) : find rest m c = find (path ++ rest) n c := by
  rw [find_append, h, Option.bind_some]

theorem noDeadBranch_iff {n : Node δ} :
    n.NoDeadBranch ↔ ∀ seg m, n.child seg = some m → m.Live ∧ m.NoDeadBranch := by
  constructor
  · intro h seg m hm
    refine ⟨h [seg] m (List.cons_ne_nil _ _) ?_,
      fun path k hpath hk => h (seg :: path) k (List.cons_ne_nil _ _) ?_⟩
    · rw [nodeAt_cons, hm]
      rfl
    · rw [nodeAt_cons, hm]
      exact hk
  · intro h path m hpath hm
    cases path with
    | nil => exact absurd rfl hpath
    | cons seg path =>
        obtain ⟨k, hk, hrest⟩ := Option.bind_eq_some_iff.mp hm
        obtain ⟨hlive, hbelow⟩ := h seg k hk
        cases path with
        | nil =>
            cases hrest
            exact hlive
        | cons seg' path => exact hbelow _ m (List.cons_ne_nil _ _) hrest

theorem ordered_iff {n : Node δ} :
    n.Ordered ↔ SortedMap.Sorted n.children ∧ ∀ seg m, n.child seg = some m → m.Ordered := by
  constructor
  · intro h
    refine ⟨h [] n rfl, fun seg m hm path k hk => h (seg :: path) k ?_⟩
    rw [nodeAt_cons, hm]
    exact hk
  · rintro ⟨hsorted, hbelow⟩ path m hm
    cases path with
    | nil =>
        cases hm
        exact hsorted
    | cons seg path =>
        obtain ⟨k, hk, hrest⟩ := Option.bind_eq_some_iff.mp hm
        exact hbelow seg k hk path m hrest

theorem sizeOf_child_lt {n m : Node δ} {seg : GoString} (h : n.child seg = some m) :
    sizeOf m < sizeOf n := by
  obtain ⟨children, subscribers⟩ := n
  have hmem := List.sizeOf_lt_of_mem (SortedMap.mem_of_lookup h)
  simp only [Prod.mk.sizeOf_spec] at hmem
  simp only [Node.mk.sizeOf_spec]
  omega

/-- What follows from the children holds of the whole tree. -/
theorem child_induction {P : Node δ → Prop} (h : ∀ n, (∀ seg m, n.child seg = some m → P m) → P n)
    (n : Node δ) : P n :=
  h n fun _ m _ => child_induction h m
termination_by sizeOf n
decreasing_by exact sizeOf_child_lt (by assumption)

theorem live_of_child {n m : Node δ} {seg : GoString} (h : n.child seg = some m) (hlive : m.Live) :
    n.Live := by
  obtain ⟨path, c, s, hs⟩ := hlive
  refine ⟨seg :: path, c, s, ?_⟩
  rw [find_cons, h]
  exact hs

/-- A node without dead branches holds nothing only if it is empty. -/
theorem live_of_not_isEmpty {n : Node δ} (h : n.NoDeadBranch) (hne : n.isEmpty = false) :
    n.Live := by
  obtain ⟨children, subscribers⟩ := n
  cases children with
  | cons e children =>
      have hchild : (⟨e :: children, subscribers⟩ : Node δ).child e.1 = some e.2 := if_pos rfl
      exact live_of_child hchild (noDeadBranch_iff.mp h e.1 e.2 hchild).1
  | nil =>
      have hsubs : subscribers.isEmpty = false := hne
      have hsome : ∃ c, subscribers.get c ≠ none := by
        by_contra hall
        rw [(FinMap.isEmpty_iff _).mpr fun c => not_not.mp fun hc => hall ⟨c, hc⟩] at hsubs
        cases hsubs
      obtain ⟨c, hc⟩ := hsome
      obtain ⟨s, hs⟩ := Option.ne_none_iff_exists'.mp hc
      exact ⟨[], c, s, hs⟩

/-- A trie with the same entries has a node wherever this one has a live node. -/
theorem child_of_find_eq {n n' m : Node δ} {seg : GoString} (hm : n.child seg = some m)
    (hlive : m.Live) (h : ∀ path c, find path n c = find path n' c) :
    ∃ m', n'.child seg = some m' ∧ ∀ path c, find path m c = find path m' c := by
  have hbelow (path : List GoString) (c : GoString) :
      find path m c = (n'.child seg).bind fun m' => find path m' c := by
    have hpath := h (seg :: path) c
    rwa [find_cons, find_cons, hm, Option.bind_some] at hpath
  obtain ⟨path, c, s, hs⟩ := hlive
  rw [hbelow] at hs
  obtain ⟨m', hm', -⟩ := Option.bind_eq_some_iff.mp hs
  refine ⟨m', hm', fun path c => ?_⟩
  rw [hbelow, hm', Option.bind_some]

/-- Two tries without dead branches and with the same entries are the same. -/
theorem eq_of_find_eq {n n' : Node δ} (ho : n.Ordered) (hd : n.NoDeadBranch) (ho' : n'.Ordered)
    (hd' : n'.NoDeadBranch) (h : ∀ path c, find path n c = find path n' c) : n = n' := by
  induction n using child_induction generalizing n' with
  | h n ih =>
      rw [ordered_iff] at ho ho'
      rw [noDeadBranch_iff] at hd hd'
      have hsubs : n.subscribers = n'.subscribers := FinMap.ext_get fun c => h [] c
      have hchildren : n.children = n'.children := by
        refine SortedMap.eq_of_lookup_eq ho.1 ho'.1 fun seg => ?_
        change n.child seg = n'.child seg
        cases hm : n.child seg with
        | some m =>
            obtain ⟨m', hm', hsame⟩ := child_of_find_eq hm (hd seg m hm).1 h
            rw [ih seg m hm (ho.2 seg m hm) (hd seg m hm).2 (ho'.2 seg m' hm')
              (hd' seg m' hm').2 hsame]
            exact hm'.symm
        | none =>
            cases hm' : n'.child seg with
            | none => rfl
            | some m' =>
                obtain ⟨m, hsome, -⟩ :=
                  child_of_find_eq hm' (hd' seg m' hm').1 fun path c => (h path c).symm
                rw [hm] at hsome
                cases hsome
      obtain ⟨children, subscribers⟩ := n
      obtain ⟨children', subscribers'⟩ := n'
      cases hsubs
      cases hchildren
      rfl

theorem noDeadBranch_new : (new : Node δ).NoDeadBranch :=
  noDeadBranch_iff.mpr fun _ _ h => (by cases h)

theorem ordered_new : (new : Node δ).Ordered :=
  ordered_iff.mpr ⟨List.Pairwise.nil, fun _ _ h => (by cases h)⟩

theorem NoDeadBranch.of_children {n n' : Node δ} (h : n.NoDeadBranch)
    (hc : n'.children = n.children) : n'.NoDeadBranch := by
  refine noDeadBranch_iff.mpr fun seg m hm => noDeadBranch_iff.mp h seg m ?_
  rwa [child, ← hc]

theorem Ordered.of_children {n n' : Node δ} (h : n.Ordered) (hc : n'.children = n.children) :
    n'.Ordered := by
  rw [ordered_iff] at h ⊢
  refine ⟨hc ▸ h.1, fun seg m hm => h.2 seg m ?_⟩
  rwa [child, ← hc]

theorem NoDeadBranch.getD_child {n : Node δ} (h : n.NoDeadBranch) (seg : GoString) :
    ((n.child seg).getD new).NoDeadBranch := by
  cases hm : n.child seg with
  | none => exact noDeadBranch_new
  | some m => exact (noDeadBranch_iff.mp h seg m hm).2

theorem NoDeadBranch.setChild {n m : Node δ} (h : n.NoDeadBranch) (seg : GoString) (hlive : m.Live)
    (hm : m.NoDeadBranch) : (n.setChild seg m).NoDeadBranch := by
  refine noDeadBranch_iff.mpr fun seg' k hk => ?_
  rw [child_setChild] at hk
  split_ifs at hk with hseg
  · cases hk
    exact ⟨hlive, hm⟩
  · exact noDeadBranch_iff.mp h seg' k hk

theorem NoDeadBranch.deleteChild {n : Node δ} (h : n.NoDeadBranch) (seg : GoString) :
    (n.deleteChild seg).NoDeadBranch := by
  refine noDeadBranch_iff.mpr fun seg' k hk => ?_
  rw [child_deleteChild] at hk
  split_ifs at hk with hseg
  exact noDeadBranch_iff.mp h seg' k hk

theorem Ordered.setChild {n m : Node δ} (h : n.Ordered) (seg : GoString) (hm : m.Ordered) :
    (n.setChild seg m).Ordered := by
  rw [ordered_iff] at h ⊢
  refine ⟨SortedMap.sorted_insert seg m h.1, fun seg' k hk => ?_⟩
  rw [child_setChild] at hk
  split_ifs at hk with hseg
  · cases hk
    exact hm
  · exact h.2 seg' k hk

theorem Ordered.deleteChild {n : Node δ} (h : n.Ordered) (seg : GoString) :
    (n.deleteChild seg).Ordered := by
  rw [ordered_iff] at h ⊢
  refine ⟨SortedMap.sorted_remove seg h.1, fun seg' k hk => ?_⟩
  rw [child_deleteChild] at hk
  split_ifs at hk with hseg
  exact h.2 seg' k hk

end Node

section Shard
open Node
variable {n : Node δ}

theorem noDeadBranch_subscribe (sub : Subscriber δ) (segs : List GoString) (h : n.NoDeadBranch) :
    (Shard.subscribe sub segs n).NoDeadBranch := by
  induction segs generalizing n with
  | nil => exact h.of_children rfl
  | cons seg segs ih =>
      refine h.setChild seg ⟨segs, sub.clientID, sub, ?_⟩ (ih (h.getD_child seg))
      rw [find_subscribe, if_pos ⟨rfl, rfl⟩]

theorem ordered_subscribe (sub : Subscriber δ) (segs : List GoString) (h : n.Ordered) :
    (Shard.subscribe sub segs n).Ordered := by
  induction segs generalizing n with
  | nil => exact h.of_children rfl
  | cons seg segs ih =>
      refine h.setChild seg (ih ?_)
      cases hm : n.child seg with
      | none => exact ordered_new
      | some m => exact (ordered_iff.mp h).2 seg m hm

/-- A node that is not reported as empty has kept a subscriber, if it had one. -/
theorem noDeadBranch_unsubRecursive (clientID : GoString) (segs : List GoString)
    (h : n.NoDeadBranch) :
    (Shard.unsubRecursive clientID segs n).1.NoDeadBranch ∧
      ((Shard.unsubRecursive clientID segs n).2 = false → n.Live →
        (Shard.unsubRecursive clientID segs n).1.Live) := by
  induction segs generalizing n with
  | nil =>
      have herased :
          ({ n with subscribers := n.subscribers.erase clientID } : Node δ).NoDeadBranch :=
        h.of_children rfl
      exact ⟨herased, fun hne _ => live_of_not_isEmpty herased hne⟩
  | cons seg segs ih =>
      cases hm : n.child seg with
      | none =>
          simp only [Shard.unsubRecursive, hm]
          exact ⟨h, fun _ hlive => hlive⟩
      | some m =>
          obtain ⟨hlive, hbelow⟩ := noDeadBranch_iff.mp h seg m hm
          obtain ⟨hkept, hkeptLive⟩ := ih hbelow
          cases hr : Shard.unsubRecursive clientID segs m with
          | mk m' empty =>
              rw [hr] at hkept hkeptLive
              cases empty with
              | true =>
                  simp only [Shard.unsubRecursive, hm, hr]
                  exact ⟨h.deleteChild seg,
                    fun hne _ => live_of_not_isEmpty (h.deleteChild seg) hne⟩
              | false =>
                  simp only [Shard.unsubRecursive, hm, hr]
                  refine ⟨h.setChild seg (hkeptLive rfl hlive) hkept, fun _ _ => ?_⟩
                  have hchild : (n.setChild seg m').child seg = some m' := by
                    rw [child_setChild, if_pos rfl]
                  exact live_of_child hchild (hkeptLive rfl hlive)

theorem ordered_unsubRecursive (clientID : GoString) (segs : List GoString) (h : n.Ordered) :
    (Shard.unsubRecursive clientID segs n).1.Ordered := by
  induction segs generalizing n with
  | nil => exact h.of_children rfl
  | cons seg segs ih =>
      cases hm : n.child seg with
      | none =>
          simp only [Shard.unsubRecursive, hm]
          exact h
      | some m =>
          have hbelow := ih ((ordered_iff.mp h).2 seg m hm)
          cases hr : Shard.unsubRecursive clientID segs m with
          | mk m' empty =>
              rw [hr] at hbelow
              cases empty with
              | true =>
                  simp only [Shard.unsubRecursive, hm, hr]
                  exact h.deleteChild seg
              | false =>
                  simp only [Shard.unsubRecursive, hm, hr]
                  exact h.setChild seg hbelow

/-- The calls on one shard, by the segments of the filter. -/
inductive ShardCall (δ : Type) where
  | subscribe (segs : List GoString) (sub : Subscriber δ)
  | unsubscribe (segs : List GoString) (clientID : GoString)

def ShardCall.exec (root : Node δ) : ShardCall δ → Node δ
  | .subscribe segs sub => Shard.subscribe sub segs root
  | .unsubscribe segs clientID => Shard.unsubscribe clientID segs root

/-- The shard after these calls on an empty one. -/
def shardAfter (calls : List (ShardCall δ)) : Node δ := calls.foldl ShardCall.exec Node.new

/-- The flat table of the entries, by filter segments and client. -/
abbrev FlatTable (δ : Type) := List GoString → GoString → Option (Subscriber δ)

def ShardCall.update (T : FlatTable δ) : ShardCall δ → FlatTable δ
  | .subscribe segs sub =>
      fun path c => if path = segs ∧ c = sub.clientID then some sub else T path c
  | .unsubscribe segs clientID =>
      fun path c => if path = segs ∧ c = clientID then none else T path c

def flatAfter (calls : List (ShardCall δ)) : FlatTable δ :=
  calls.foldl ShardCall.update fun _ _ => none

theorem find_exec (root : Node δ) (call : ShardCall δ) :
    (fun path c => find path (call.exec root) c) = call.update fun path c => find path root c := by
  funext path c
  cases call with
  | subscribe segs sub => exact find_subscribe sub segs path root c
  | unsubscribe segs clientID => exact find_unsubscribe clientID segs path root c

theorem find_shardAfter (calls : List (ShardCall δ)) (path : List GoString) (c : GoString) :
    find path (shardAfter calls) c = flatAfter calls path c := by
  have hrun (root : Node δ) : (fun path c => find path (calls.foldl ShardCall.exec root) c) =
      calls.foldl ShardCall.update fun path c => find path root c := by
    induction calls generalizing root with
    | nil => rfl
    | cons call calls ih => rw [List.foldl_cons, List.foldl_cons, ih, find_exec]
  have hnew : (fun path c => find path (Node.new : Node δ) c) = fun _ _ => none := by
    funext path c
    exact find_new path c
  have hfind := hrun Node.new
  rw [hnew] at hfind
  exact congrFun (congrFun hfind path) c

theorem tidy_shardAfter (calls : List (ShardCall δ)) :
    (shardAfter calls).Ordered ∧ (shardAfter calls).NoDeadBranch := by
  have hrun (root : Node δ) (h : root.Ordered ∧ root.NoDeadBranch) :
      (calls.foldl ShardCall.exec root).Ordered ∧
        (calls.foldl ShardCall.exec root).NoDeadBranch := by
    induction calls generalizing root with
    | nil => exact h
    | cons call calls ih =>
        refine ih _ ?_
        cases call with
        | subscribe segs sub =>
            exact ⟨ordered_subscribe sub segs h.1, noDeadBranch_subscribe sub segs h.2⟩
        | unsubscribe segs clientID =>
            exact ⟨ordered_unsubRecursive clientID segs h.1,
              (noDeadBranch_unsubRecursive clientID segs h.2).1⟩
  exact hrun Node.new ⟨ordered_new, noDeadBranch_new⟩

theorem shardAfter_eq {calls calls' : List (ShardCall δ)} (h : flatAfter calls = flatAfter calls') :
    shardAfter calls = shardAfter calls' := by
  obtain ⟨ho, hd⟩ := tidy_shardAfter calls
  obtain ⟨ho', hd'⟩ := tidy_shardAfter calls'
  refine eq_of_find_eq ho hd ho' hd' fun path c => ?_
  rw [find_shardAfter, find_shardAfter, h]

/-- Calls that leave the flat table as it was leave the trie as it was. -/
theorem foldl_exec_eq {calls : List (ShardCall δ)} (more : List (ShardCall δ))
    (h : more.foldl ShardCall.update (flatAfter calls) = flatAfter calls) :
    more.foldl ShardCall.exec (shardAfter calls) = shardAfter calls := by
  rw [shardAfter, ← List.foldl_append]
  refine shardAfter_eq ?_
  rw [flatAfter, List.foldl_append]
  exact h

/-- An entry that the table did not have is taken back. -/
theorem update_unsubscribe {T T' : FlatTable δ} {segs : List GoString} {clientID : GoString}
    (h : T segs clientID = none)
    (hother : ∀ path c, ¬ (path = segs ∧ c = clientID) → T' path c = T path c) :
    ShardCall.update T' (.unsubscribe segs clientID) = T := by
  funext path c
  simp only [ShardCall.update]
  split_ifs with hat
  · rw [hat.1, hat.2]
    exact h.symm
  · exact hother path c hat

/-- The trie is determined by the flat table that the calls leave; so a subscription that is
taken back at once leaves no trace, and unsubscribing what is not there changes nothing. -/
theorem shard_canonical (calls : List (ShardCall δ)) :
    (∀ calls', flatAfter calls = flatAfter calls' → shardAfter calls = shardAfter calls') ∧
      (∀ segs sub, flatAfter calls segs sub.clientID = none →
        Shard.unsubscribe sub.clientID segs (Shard.subscribe sub segs (shardAfter calls)) =
          shardAfter calls) ∧
      ∀ segs clientID, flatAfter calls segs clientID = none →
        Shard.unsubscribe clientID segs (shardAfter calls) = shardAfter calls := by
  refine ⟨fun calls' h => shardAfter_eq h, fun segs sub h => ?_, fun segs clientID h => ?_⟩
  · refine foldl_exec_eq [.subscribe segs sub, .unsubscribe segs sub.clientID] ?_
    exact update_unsubscribe h fun path c hne => if_neg hne
  · refine foldl_exec_eq [.unsubscribe segs clientID] ?_
    exact update_unsubscribe h fun path c _ => rfl

/-- The orders of two subscriptions, and one that was taken back between them. -/
theorem shard_canonical_orders :
    shardAfter [.subscribe [str "a", str "b"] ⟨str "c1", 1, some 1⟩,
      .subscribe [str "a"] ⟨str "c2", 0, some 2⟩] =
      shardAfter [.subscribe [str "a"] ⟨str "c2", 0, some 2⟩,
        .subscribe [str "x"] ⟨str "c2", 0, some 2⟩, .unsubscribe [str "x"] (str "c2"),
        .subscribe [str "a", str "b"] ⟨str "c1", 1, some 1⟩] := by
  refine (shard_canonical _).1 _ ?_
  funext path c
  simp only [flatAfter, List.foldl_cons, List.foldl_nil, ShardCall.update]
  split_ifs with h₁ h₂ h₃
  · exact absurd (h₁.1.symm.trans h₂.1) (by decide)
  · exact absurd (h₁.1.symm.trans h₃.1) (by decide)
  · rfl
  · rfl
  · rfl
  · rfl

end Shard

section Clients
open Node

theorem nodeAt_removeClient (clientID : GoString) (path : List GoString) (n : Node δ) :
    nodeAt path (removeClientFromNode clientID n) =
      (nodeAt path n).map (removeClientFromNode clientID) := by
  induction path generalizing n with
  | nil => rfl
  | cons seg path ih =>
      rw [nodeAt_cons, nodeAt_cons, child_removeClient]
      cases n.child seg with
      | none => rfl
      | some m => exact ih m

theorem sorted_removeClient (clientID : GoString) {n : Node δ} (h : SortedMap.Sorted n.children) :
    SortedMap.Sorted (removeClientFromNode clientID n).children := by
  obtain ⟨children, subscribers⟩ := n
  have hmap : removeClientFromChildren clientID children =
      children.map fun e => (e.1, removeClientFromNode clientID e.2) := by
    induction children with
    | nil => rfl
    | cons e children ih =>
        rw [removeClientFromChildren, ih (List.pairwise_cons.mp h).2, List.map_cons]
  rw [removeClientFromNode, hmap]
  exact List.pairwise_map.mpr h

theorem ordered_removeClient (clientID : GoString) {n : Node δ} (h : n.Ordered) :
    (removeClientFromNode clientID n).Ordered := by
  intro path m hm
  rw [nodeAt_removeClient] at hm
  obtain ⟨k, hk, rfl⟩ := Option.map_eq_some_iff.mp hm
  exact sorted_removeClient clientID (h path k hk)

/-- Every node stays, so each needs a subscriber of another client. -/
theorem noDeadBranch_removeClient_iff (clientID : GoString) (n : Node δ) :
    (removeClientFromNode clientID n).NoDeadBranch ↔ ∀ path m, path ≠ [] → nodeAt path n = some m →
      ∃ rest c s, c ≠ clientID ∧ find (path ++ rest) n c = some s := by
  have hlive {path : List GoString} {m : Node δ} (hm : nodeAt path n = some m) :
      (removeClientFromNode clientID m).Live ↔ ∃ rest c s, c ≠ clientID ∧
        find (path ++ rest) n c = some s := by
    refine exists_congr fun rest => exists_congr fun c => exists_congr fun s => ?_
    rw [find_removeClient, find_nodeAt hm]
    split_ifs with hc
    · exact ⟨fun h => (by cases h), fun h => absurd hc h.1⟩
    · exact ⟨fun h => ⟨hc, h⟩, And.right⟩
  constructor
  · intro h path m hpath hm
    refine (hlive hm).mp (h path _ hpath ?_)
    rw [nodeAt_removeClient, hm]
    rfl
  · intro h path m hpath hm
    rw [nodeAt_removeClient] at hm
    obtain ⟨k, hk, rfl⟩ := Option.map_eq_some_iff.mp hm
    exact (hlive hk).mpr (h path k hpath hk)

/-- Each plain filter of the client leads along a path to a plain filter of another one. -/
def Covered (T : Table δ) (clientID : GoString) : Prop :=
  ∀ f, Protocol.parseSharedTopicFilter f = none → T clientID f ≠ none →
    ∃ c f', c ≠ clientID ∧ Protocol.parseSharedTopicFilter f' = none ∧ T c f' ≠ none ∧
      splitFilter f <+: splitFilter f'

/-- A client is only removed while its filters are covered. -/
def Call.RemovesCovered (before : List (Call δ)) : Call δ → Prop
  | .unsubscribeAll clientID => Covered (Table.execAll before) clientID
  | _ => True

theorem shardFor_of_isPrefix {f f' : GoString} (h : splitFilter f <+: splitFilter f') :
    shardFor f = shardFor f' := by
  obtain ⟨rest, hrest⟩ := h
  refine shardFor_congr ?_
  rw [← hrest, List.head?_append_of_ne_nil _ (splitFilter_ne_nil f)]

theorem noDeadBranch_unsubscribeAll_iff (calls : List (Call δ))
    (h : ∀ i, ((execAll calls).shards i).NoDeadBranch) (clientID : GoString) :
    (∀ i, (((execAll calls).unsubscribeAll clientID).shards i).NoDeadBranch) ↔
      Covered (Table.execAll calls) clientID := by
  have hremoved (i : Fin numShards) :=
    noDeadBranch_removeClient_iff clientID ((execAll calls).shards i)
  constructor
  · intro hkept f hplain hf
    obtain ⟨s, hs⟩ := Option.ne_none_iff_exists'.mp hf
    have hfind := (find_execAll_iff calls _ _ _ _).mpr ⟨f, hplain, rfl, rfl, hs⟩
    have hnode : nodeAt (splitFilter f) ((execAll calls).shards (shardFor f)) ≠ none := by
      intro hnone
      rw [← List.append_nil (splitFilter f), find_append, hnone] at hfind
      cases hfind
    obtain ⟨m, hm⟩ := Option.ne_none_iff_exists'.mp hnode
    obtain ⟨rest, c, s', hc, hother⟩ := (hremoved _).mp (hkept _) _ m (splitFilter_ne_nil f) hm
    obtain ⟨f', hplain', hsplit, -, hs'⟩ := (find_execAll_iff calls _ _ _ _).mp hother
    exact ⟨c, f', hc, hplain', Option.ne_none_iff_exists'.mpr ⟨s', hs'⟩, rest, hsplit.symm⟩
  · intro hcovered i
    refine (hremoved i).mpr fun path m hpath hm => ?_
    obtain ⟨rest, c, s, hs⟩ := h i path m hpath hm
    rw [find_nodeAt hm] at hs
    by_cases hc : c = clientID
    · obtain ⟨f, hplain, hsplit, rfl, hT⟩ := (find_execAll_iff calls _ _ _ _).mp hs
      obtain ⟨c', f', hc', hplain', hT', more, hmore⟩ :=
        hcovered f hplain (Option.ne_none_iff_exists'.mpr ⟨s, hc ▸ hT⟩)
      obtain ⟨s', hs'⟩ := Option.ne_none_iff_exists'.mp hT'
      refine ⟨rest ++ more, c', s', hc',
        (find_execAll_iff calls _ _ _ _).mpr ⟨f', hplain', ?_, ?_, hs'⟩⟩
      · rw [← List.append_assoc, ← hsplit, hmore]
      · exact (shardFor_of_isPrefix ⟨more, hmore⟩).symm
    · exact ⟨rest, c, s, hc, hs⟩

theorem forall_updateShard {P : Node δ → Prop} {r : Router δ} (h : ∀ i, P (r.shards i))
    (filter : GoString) {op : Node δ → Node δ} (hop : ∀ n, P n → P (op n)) (i : Fin numShards) :
    P ((r.updateShard (shardFor filter) op).shards i) := by
  rw [shards_updateShard]
  split_ifs
  · exact hop _ (h i)
  · exact h i

/-- What subscribing and unsubscribing on a shard keep, the calls of the router keep, but for
UnsubscribeAll. -/
theorem forall_exec {P : Node δ → Prop} (hsub : ∀ sub segs n, P n → P (Shard.subscribe sub segs n))
    (hunsub : ∀ clientID segs n, P n → P (Shard.unsubscribe clientID segs n)) {r : Router δ}
    (h : ∀ i, P (r.shards i)) (call : Call δ)
    (hall : ∀ clientID, call = .unsubscribeAll clientID →
      ∀ i, P ((r.unsubscribeAll clientID).shards i))
    (i : Fin numShards) : P ((r.exec call).shards i) := by
  cases call with
  | subscribe filter sub =>
      cases hp : Protocol.parseSharedTopicFilter filter with
      | some parts =>
          simp only [exec, subscribe, hp]
          exact h i
      | none =>
          simp only [exec, subscribe, hp]
          exact forall_updateShard h filter (hsub sub _) i
  | unsubscribe filter clientID =>
      cases hp : Protocol.parseSharedTopicFilter filter with
      | some parts =>
          simp only [exec, unsubscribe, hp, shards_unsubscribeShared]
          exact h i
      | none =>
          simp only [exec, unsubscribe, hp]
          exact forall_updateShard h filter (hunsub clientID _) i
  | unsubscribeAll clientID => exact hall clientID rfl i

theorem ordered_execAll (calls : List (Call δ)) (i : Fin numShards) :
    ((execAll calls).shards i).Ordered := by
  induction calls using List.reverseRecOn generalizing i with
  | nil => exact ordered_new
  | append_singleton calls call ih =>
      rw [execAll, List.foldl_concat]
      refine forall_exec (P := Ordered) (fun sub segs _ => ordered_subscribe sub segs)
        (fun clientID segs _ => ordered_unsubRecursive clientID segs) ih call ?_ i
      exact fun clientID _ i => ordered_removeClient clientID (ih i)

theorem noDeadBranch_execAll (calls : List (Call δ))
    (hcovered : History.Each Call.RemovesCovered calls) (i : Fin numShards) :
    ((execAll calls).shards i).NoDeadBranch := by
  induction calls using List.reverseRecOn generalizing i with
  | nil => exact noDeadBranch_new
  | append_singleton calls call ih =>
      obtain ⟨hbefore, hcall⟩ := History.each_concat.mp hcovered
      have hkept := ih hbefore
      rw [execAll, List.foldl_concat]
      refine forall_exec (P := NoDeadBranch) (fun sub segs _ => noDeadBranch_subscribe sub segs)
        (fun clientID segs _ h => (noDeadBranch_unsubRecursive clientID segs h).1) hkept call ?_ i
      rintro clientID rfl
      exact (noDeadBranch_unsubscribeAll_iff calls hkept clientID).mpr hcall

theorem eq_new_of_empty {n : Node δ} (h : n.NoDeadBranch)
    (hempty : ∀ path c, find path n c = none) : n = Node.new := by
  have hisEmpty : n.isEmpty = true := by
    by_contra hne
    obtain ⟨path, c, s, hs⟩ := live_of_not_isEmpty h (Bool.eq_false_iff.mpr hne)
    rw [hempty] at hs
    cases hs
  obtain ⟨children, subscribers⟩ := n
  obtain ⟨hchildren, hsubs⟩ := Bool.and_eq_true_iff.mp hisEmpty
  have hnil : children = [] := List.isEmpty_iff.mp hchildren
  have hnone : subscribers = FinMap.empty := FinMap.ext_get ((FinMap.isEmpty_iff _).mp hsubs)
  rw [hnil, hnone, Node.new]

/-- As long as a client is only removed when each of its plain filters is on the way to one of
another client, every node below a root has a subscriber in its subtree: it is on the way to a
live filter, and without subscriptions the router is as new. The next removal keeps it so
exactly under the same condition. -/
theorem no_dead_branches (calls : List (Call δ))
    (hcovered : History.Each Call.RemovesCovered calls) :
    (∀ i, ((execAll calls).shards i).NoDeadBranch) ∧
      (∀ i path, path ≠ [] → nodeAt path ((execAll calls).shards i) ≠ none →
        ∃ c f, Protocol.parseSharedTopicFilter f = none ∧ Table.execAll calls c f ≠ none ∧
          path <+: splitFilter f) ∧
      (Table.execAll calls = Table.empty →
        (execAll calls).shards = new.shards ∧ (execAll calls).shared = new.shared) ∧
      ∀ clientID, (∀ i, (((execAll calls).unsubscribeAll clientID).shards i).NoDeadBranch) ↔
        Covered (Table.execAll calls) clientID := by
  have hkept := noDeadBranch_execAll calls hcovered
  refine ⟨hkept, fun i path hpath hnode => ?_, fun hempty => ⟨?_, ?_⟩,
    noDeadBranch_unsubscribeAll_iff calls hkept⟩
  · obtain ⟨m, hm⟩ := Option.ne_none_iff_exists'.mp hnode
    obtain ⟨rest, c, s, hs⟩ := hkept i path m hpath hm
    rw [find_nodeAt hm] at hs
    obtain ⟨f, hplain, hsplit, -, hT⟩ := (find_execAll_iff calls _ _ _ _).mp hs
    exact ⟨c, f, hplain, Option.ne_none_iff_exists'.mpr ⟨s, hT⟩, rest, hsplit.symm⟩
  · funext i
    refine eq_new_of_empty (hkept i) fun path c => ?_
    by_contra hne
    obtain ⟨s, hs⟩ := Option.ne_none_iff_exists'.mp hne
    obtain ⟨f, -, -, -, hT⟩ := (find_execAll_iff calls _ _ _ _).mp hs
    rw [hempty] at hT
    cases hT
  · exact shared_eq_empty (hempty ▸ grouped_execAll calls)

/-- c1 leaves a/b behind, on the way to the a/b/c of c2. -/
def coveredCalls : List (Call Nat) :=
  [.subscribe (str "a/b") ⟨str "c1", 1, some 1⟩, .subscribe (str "a/b/c") ⟨str "c2", 1, some 2⟩,
    .unsubscribeAll (str "c1")]

theorem covered_coveredCalls : Covered (Table.execAll (coveredCalls.take 2)) (str "c1") := by
  intro f _ hf
  have hab : f = str "a/b" := by
    simp only [coveredCalls, List.take, Table.execAll, List.foldl_cons, List.foldl_nil, Table.exec,
      Table.empty] at hf
    split_ifs at hf with h₂ h₁
    · exact absurd h₂.1 (by decide)
    · exact h₁.2
    · exact absurd rfl hf
  rw [hab]
  exact ⟨str "c2", str "a/b/c", by decide, by decide, by decide, by decide⟩

theorem no_dead_branches_covered :
    nodeAt [str "a", str "b"] ((execAll coveredCalls).shards (shardFor (str "a/b"))) ≠ none ∧
      ∀ i, ((execAll coveredCalls).shards i).NoDeadBranch := by
  have hnode :
      (nodeAt [str "a", str "b"] ((execAll coveredCalls).shards (shardFor (str "a/b")))).isSome =
        true := by
    decide +kernel
  refine ⟨Option.isSome_iff_ne_none.mp hnode, (no_dead_branches coveredCalls ?_).1⟩
  exact History.each_cons.mpr ⟨trivial, History.each_cons.mpr ⟨trivial,
    History.each_cons.mpr ⟨covered_coveredCalls, History.each_nil _⟩⟩⟩

/-- Without another client the nodes stay, and hold nothing. -/
theorem dead_branch_left :
    Table.execAll [.subscribe (str "a/b") ⟨str "c1", 1, some 1⟩, .unsubscribeAll (str "c1")] =
      Table.empty ∧
      ∃ m, nodeAt [str "a", str "b"] ((execAll [.subscribe (str "a/b") ⟨str "c1", 1, some 1⟩,
        .unsubscribeAll (str "c1")]).shards (shardFor (str "a/b"))) = some m ∧ ¬ m.Live := by
  refine ⟨?_, ?_⟩
  · funext c f
    simp only [Table.execAll, List.foldl_cons, List.foldl_nil, Table.exec, Table.empty]
    split_ifs with hc hs
    · rfl
    · exact absurd hs.1 hc
    · rfl
  · obtain ⟨m, hm, hempty⟩ := Transition.exists_of_any (fun m => m.isEmpty = true) (o := nodeAt
      [str "a", str "b"] ((execAll [.subscribe (str "a/b") ⟨str "c1", 1, some 1⟩,
        .unsubscribeAll (str "c1")]).shards (shardFor (str "a/b")))) (by decide +kernel)
    refine ⟨m, hm, ?_⟩
    rintro ⟨path, c, s, hs⟩
    rw [find_of_isEmpty hempty] at hs
    cases hs

end Clients

end LumaBroker.Router
