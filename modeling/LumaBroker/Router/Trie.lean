import LumaBroker.Lib.SortedMap
import LumaBroker.Lib.Selection
import LumaBroker.Router.Match

/-!
One shard of the router: the topic trie of internal/router/router.go, with its
calls taken one after another. A node owns its children, so a walk that mutates
nodes in place becomes a function that rebuilds the nodes on the path.

The trie is read back as a partial function from filter segments and client to
subscriber (find). Each operation has one law about find, and the match walk has
one law about the set of subscribers it passes.
-/

namespace LumaBroker.Router

/-- A subscription entry. The closure is a value of an arbitrary type: the router
only stores it, compares it with nil and calls it. -/
structure Subscriber (δ : Type) where
  clientID : GoString
  qos : UInt8
  deliver : Option δ
  deriving DecidableEq

structure Node (δ : Type) where
  children : List (GoString × Node δ)
  subscribers : FinMap GoString (Subscriber δ)

variable {δ : Type}

namespace Node

def new : Node δ := ⟨[], FinMap.empty⟩

def child (n : Node δ) (seg : GoString) : Option (Node δ) := SortedMap.lookup seg n.children

def setChild (n : Node δ) (seg : GoString) (c : Node δ) : Node δ :=
  { n with children := SortedMap.insert seg c n.children }

def deleteChild (n : Node δ) (seg : GoString) : Node δ :=
  { n with children := SortedMap.remove seg n.children }

/-- len(n.children) == 0 && len(n.subscribers) == 0 -/
def isEmpty (n : Node δ) : Bool := n.children.isEmpty && n.subscribers.isEmpty

@[simp] theorem child_new (seg : GoString) : (new : Node δ).child seg = none := rfl

@[simp] theorem child_setChild (n c : Node δ) (seg seg' : GoString) :
    (n.setChild seg c).child seg' = if seg' = seg then some c else n.child seg' :=
  SortedMap.lookup_insert seg seg' c n.children

@[simp] theorem child_deleteChild (n : Node δ) (seg seg' : GoString) :
    (n.deleteChild seg).child seg' = if seg' = seg then none else n.child seg' :=
  SortedMap.lookup_remove seg seg' n.children

@[simp] theorem subscribers_setChild (n c : Node δ) (seg : GoString) :
    (n.setChild seg c).subscribers = n.subscribers := rfl

@[simp] theorem subscribers_deleteChild (n : Node δ) (seg : GoString) :
    (n.deleteChild seg).subscribers = n.subscribers := rfl

end Node

/-- The maps a match walk fills: clientID to the subscriber kept so far. -/
abbrev Matched (δ : Type) := FinMap GoString (Subscriber δ)

/-- Walk down, creating missing nodes, and store at the last one. -/
def Shard.subscribe (sub : Subscriber δ) : List GoString → Node δ → Node δ
  | [], n => { n with subscribers := n.subscribers.set sub.clientID sub }
  | seg :: segs, n =>
      let child := (n.child seg).getD Node.new
      n.setChild seg (Shard.subscribe sub segs child)

/-- unsubRecursive, with the updated node beside the flag that lets the caller
detach it. -/
def Shard.unsubRecursive (clientID : GoString) : List GoString → Node δ → Node δ × Bool
  | [], n =>
      let n := { n with subscribers := n.subscribers.erase clientID }
      (n, n.isEmpty)
  | seg :: segs, n =>
      match n.child seg with
      | none => (n, false)
      | some child =>
          match Shard.unsubRecursive clientID segs child with
          | (_, true) =>
              let n := n.deleteChild seg
              (n, n.isEmpty)
          | (child, false) => (n.setChild seg child, false)

def Shard.unsubscribe (clientID : GoString) (segs : List GoString) (root : Node δ) : Node δ :=
  (Shard.unsubRecursive clientID segs root).1

/-- The body of the loop in mergeSubscribers: highest QoS wins, ties keep. -/
def mergeSubscriber (dst : Matched δ) (e : GoString × Subscriber δ) : Matched δ :=
  match dst.get e.1 with
  | none => dst.set e.1 e.2
  | some existing => if existing.qos < e.2.qos then dst.set e.1 e.2 else dst

def mergeSubscribers (src : FinMap GoString (Subscriber δ)) (dst : Matched δ) : Matched δ :=
  src.entries.foldl mergeSubscriber dst

def mergeChild (n : Node δ) (seg : GoString) (out : Matched δ) : Matched δ :=
  match n.child seg with
  | some c => mergeSubscribers c.subscribers out
  | none => out

def matchNode : List GoString → Node δ → Matched δ → Matched δ
  | [], n, out =>
      -- '#' at the parent level matches the topic that ends here
      mergeSubscribers n.subscribers (mergeChild n hash out)
  | seg :: segs, n, out =>
      let out := mergeChild n hash out
      let out := match n.child seg with
        | some c => matchNode segs c out
        | none => out
      match n.child plus with
      | some c => matchNode segs c out
      | none => out

mutual
def removeClientFromNode (clientID : GoString) : Node δ → Node δ
  | ⟨children, subscribers⟩ =>
      ⟨removeClientFromChildren clientID children, subscribers.erase clientID⟩

def removeClientFromChildren (clientID : GoString) :
    List (GoString × Node δ) → List (GoString × Node δ)
  | [] => []
  | (seg, c) :: children =>
      (seg, removeClientFromNode clientID c) :: removeClientFromChildren clientID children
end

/-- The subscriber a client has at the node of these filter segments. -/
def find : List GoString → Node δ → GoString → Option (Subscriber δ)
  | [], n, c => n.subscribers.get c
  | seg :: segs, n, c =>
      match n.child seg with
      | none => none
      | some child => find segs child c

@[simp] theorem find_nil (n : Node δ) (c : GoString) : find [] n c = n.subscribers.get c := rfl

theorem find_cons (seg : GoString) (segs : List GoString) (n : Node δ) (c : GoString) :
    find (seg :: segs) n c = (n.child seg).bind fun child => find segs child c := by
  cases h : n.child seg <;> simp [find, h]

theorem find_new (segs : List GoString) (c : GoString) :
    find segs (Node.new : Node δ) c = none := by
  cases segs with
  | nil => rfl
  | cons seg segs => rfl

theorem find_of_isEmpty {n : Node δ} (h : n.isEmpty = true) (segs : List GoString)
    (c : GoString) : find segs n c = none := by
  simp only [Node.isEmpty, Bool.and_eq_true, List.isEmpty_iff] at h
  cases segs with
  | nil => exact (FinMap.isEmpty_iff _).mp h.2 c
  | cons seg segs => simp [find_cons, Node.child, h.1, SortedMap.lookup]

theorem find_subscribe (sub : Subscriber δ) (segs path : List GoString) (n : Node δ)
    (c : GoString) :
    find path (Shard.subscribe sub segs n) c =
      if path = segs ∧ c = sub.clientID then some sub else find path n c := by
  induction segs generalizing path n with
  | nil =>
      cases path with
      | nil => simp [Shard.subscribe, FinMap.get_set]
      | cons seg path => simp [Shard.subscribe, find_cons, Node.child]
  | cons seg segs ih =>
      cases path with
      | nil => simp [Shard.subscribe]
      | cons seg' path =>
          by_cases hseg : seg' = seg
          · subst hseg
            have hold : find path ((n.child seg').getD Node.new) c = find (seg' :: path) n c := by
              cases hc : n.child seg' <;> simp [find_cons, hc, find_new]
            simp [Shard.subscribe, find_cons, ih, hold]
          · simp [Shard.subscribe, find_cons, hseg]

/-- Unsubscribing forgets one entry; the pruning on the way up only detaches
nodes that hold nothing, as the returned flag says. -/
theorem find_unsubRecursive (clientID : GoString) (segs path : List GoString) (n : Node δ)
    (c : GoString) :
    find path (Shard.unsubRecursive clientID segs n).1 c =
        (if path = segs ∧ c = clientID then none else find path n c) ∧
      ((Shard.unsubRecursive clientID segs n).2 = true →
        (Shard.unsubRecursive clientID segs n).1.isEmpty = true) := by
  induction segs generalizing path n with
  | nil =>
      refine ⟨?_, fun h => h⟩
      cases path with
      | nil => simp [Shard.unsubRecursive, FinMap.get_erase]
      | cons seg path => simp [Shard.unsubRecursive, find_cons, Node.child]
  | cons seg segs ih =>
      cases hc : n.child seg with
      | none =>
          simp only [Shard.unsubRecursive, hc]
          refine ⟨?_, by simp⟩
          split_ifs with hpath
          · rw [hpath.1, find_cons, hc]
            rfl
          · rfl
      | some child =>
          cases hr : Shard.unsubRecursive clientID segs child with
          | mk child' empty =>
              cases empty with
              | true =>
                  simp only [Shard.unsubRecursive, hc, hr]
                  refine ⟨?_, fun h => h⟩
                  cases path with
                  | nil => simp
                  | cons seg' path =>
                      obtain ⟨hfind, hempty⟩ := ih path child
                      rw [hr] at hfind hempty
                      by_cases hseg : seg' = seg
                      · subst hseg
                        rw [find_of_isEmpty (hempty rfl)] at hfind
                        simpa [find_cons, hc] using hfind
                      · simp [find_cons, hseg]
              | false =>
                  simp only [Shard.unsubRecursive, hc, hr]
                  refine ⟨?_, by simp⟩
                  cases path with
                  | nil => simp
                  | cons seg' path =>
                      obtain ⟨hfind, -⟩ := ih path child
                      rw [hr] at hfind
                      by_cases hseg : seg' = seg
                      · subst hseg
                        simpa [find_cons, hc] using hfind
                      · simp [find_cons, hseg]

theorem find_unsubscribe (clientID : GoString) (segs path : List GoString) (n : Node δ)
    (c : GoString) :
    find path (Shard.unsubscribe clientID segs n) c =
      if path = segs ∧ c = clientID then none else find path n c :=
  (find_unsubRecursive clientID segs path n c).1

theorem child_removeClient (clientID seg : GoString) (n : Node δ) :
    (removeClientFromNode clientID n).child seg =
      (n.child seg).map (removeClientFromNode clientID) := by
  obtain ⟨children, subscribers⟩ := n
  simp only [removeClientFromNode, Node.child]
  induction children with
  | nil => rfl
  | cons e children ih =>
      obtain ⟨seg', child⟩ := e
      by_cases hseg : seg = seg' <;>
        simp [removeClientFromChildren, SortedMap.lookup, hseg, ih]

theorem find_removeClient (clientID : GoString) (path : List GoString) (n : Node δ)
    (c : GoString) :
    find path (removeClientFromNode clientID n) c =
      if c = clientID then none else find path n c := by
  induction path generalizing n with
  | nil =>
      obtain ⟨children, subscribers⟩ := n
      simp [removeClientFromNode, FinMap.get_erase]
  | cons seg path ih =>
      rw [find_cons, find_cons, child_removeClient]
      cases n.child seg with
      | none => simp
      | some child => exact ih child

theorem get_mergeSubscriber (dst : Matched δ) (e : GoString × Subscriber δ) (c : GoString) :
    (mergeSubscriber dst e).get c =
      if c = e.1 then Selection.keepBest Subscriber.qos (dst.get c) e.2 else dst.get c := by
  by_cases hc : c = e.1
  · subst hc
    cases hd : dst.get e.1 with
    | none => simp [mergeSubscriber, hd, Selection.keepBest]
    | some existing =>
        by_cases hlt : existing.qos < e.2.qos
        · simp [mergeSubscriber, hd, Selection.keepBest, hlt]
        · simp [mergeSubscriber, hd, Selection.keepBest, hlt]
  · cases hd : dst.get e.1 with
    | none => simp [mergeSubscriber, hd, FinMap.get_set, hc]
    | some existing =>
        simp only [mergeSubscriber, hd]
        split_ifs <;> simp [FinMap.get_set, hc]

theorem get_foldl_mergeSubscriber {entries : List (GoString × Subscriber δ)}
    (hs : SortedMap.Sorted entries) (dst : Matched δ) (c : GoString) :
    (entries.foldl mergeSubscriber dst).get c =
      (SortedMap.lookup c entries).elim (dst.get c)
        (Selection.keepBest Subscriber.qos (dst.get c)) := by
  induction entries generalizing dst with
  | nil => rfl
  | cons e entries ih =>
      obtain ⟨hhead, htail⟩ := List.pairwise_cons.mp hs
      rw [List.foldl_cons, ih htail, get_mergeSubscriber]
      by_cases hc : c = e.1
      · subst hc
        have hrest : SortedMap.lookup e.1 entries = none :=
          SortedMap.lookup_eq_none_of_lt hhead
        simp [SortedMap.lookup, hrest]
      · simp [SortedMap.lookup, hc]

theorem get_mergeSubscribers (src : FinMap GoString (Subscriber δ)) (dst : Matched δ)
    (c : GoString) :
    (mergeSubscribers src dst).get c =
      (src.get c).elim (dst.get c) (Selection.keepBest Subscriber.qos (dst.get c)) :=
  get_foldl_mergeSubscriber src.sorted dst c

/-- The subscribers of one client whose filter matches the topic segments. -/
def matching (segs : List GoString) (n : Node δ) (c : GoString) : Set (Subscriber δ) :=
  {s | ∃ path, matchSegs segs path = true ∧ find path n c = some s}

/-- Every stored filter has '#' in last position only. -/
def HashLeaves (n : Node δ) : Prop :=
  ∀ path c s, find path n c = some s → Protocol.HashLast path

theorem hashLeaves_child {n child : Node δ} {seg : GoString} (h : HashLeaves n)
    (hc : n.child seg = some child) : HashLeaves child := by
  intro path c s hf
  exact (h (seg :: path) c s (by simpa [find_cons, hc] using hf)).2

/-- What the '#' child of a node contributes to any topic that reaches it. -/
def atHash (n : Node δ) (c : GoString) : Set (Subscriber δ) :=
  {s | find [hash] n c = some s}

theorem isBest_mergeChild {n : Node δ} {out : Matched δ} {c : GoString}
    {seen : Set (Subscriber δ)} (h : Selection.IsBest Subscriber.qos seen (out.get c)) :
    Selection.IsBest Subscriber.qos (seen ∪ atHash n c) ((mergeChild n hash out).get c) := by
  cases hc : n.child hash with
  | none =>
      have hnone : atHash n c = ∅ := by
        ext s
        simp [atHash, find_cons, hc]
      simpa [mergeChild, hc, hnone] using h
  | some child =>
      have hset : atHash n c = {s | child.subscribers.get c = some s} := by
        ext s
        simp [atHash, find_cons, hc]
      simp only [mergeChild, hc, get_mergeSubscribers, hset]
      exact Selection.isBest_elim Subscriber.qos h _

theorem matching_nil {n : Node δ} (h : HashLeaves n) (c : GoString) :
    matching [] n c = atHash n c ∪ {s | n.subscribers.get c = some s} := by
  ext s
  constructor
  · rintro ⟨path, hm, hf⟩
    cases path with
    | nil => exact Or.inr hf
    | cons seg path =>
        have hseg := (matchSegs_nil_cons seg path).mp hm
        have hpath := (h _ c s hf).1 hseg
        subst hseg hpath
        exact Or.inl hf
  · rintro (hf | hf)
    · exact ⟨[hash], by simp [matchSegs], hf⟩
    · exact ⟨[], rfl, hf⟩

/-- The candidates below one child, none when the child is absent. -/
def matchingBelow (seg : GoString) (segs : List GoString) (n : Node δ) (c : GoString) :
    Set (Subscriber δ) :=
  {s | ∃ child, n.child seg = some child ∧ s ∈ matching segs child c}

theorem matching_cons {n : Node δ} (h : HashLeaves n) (seg : GoString) (segs : List GoString)
    (c : GoString) :
    matching (seg :: segs) n c =
      atHash n c ∪ matchingBelow seg segs n c ∪ matchingBelow plus segs n c := by
  ext s
  constructor
  · rintro ⟨path, hm, hf⟩
    cases path with
    | nil => simp [matchSegs] at hm
    | cons fseg path =>
        rw [find_cons, Option.bind_eq_some_iff] at hf
        obtain ⟨child, hc, hf⟩ := hf
        rcases (matchSegs_cons_cons seg fseg segs path).mp hm with hh | ⟨hp | hs, hm⟩
        · have hpath := (h (fseg :: path) c s (by simp [find_cons, hc, hf])).1 hh
          subst hh hpath
          exact Or.inl (Or.inl (by simpa [atHash, find_cons, hc] using hf))
        · exact Or.inr ⟨child, hp ▸ hc, path, hm, hf⟩
        · exact Or.inl (Or.inr ⟨child, hs ▸ hc, path, hm, hf⟩)
  · rintro ((hf | ⟨child, hc, path, hm, hf⟩) | ⟨child, hc, path, hm, hf⟩)
    · exact ⟨[hash], by simp [matchSegs], hf⟩
    · exact ⟨seg :: path, (matchSegs_cons_cons _ _ _ _).mpr
        (Or.inr ⟨Or.inr rfl, hm⟩), by simp [find_cons, hc, hf]⟩
    · exact ⟨plus :: path, (matchSegs_cons_cons _ _ _ _).mpr
        (Or.inr ⟨Or.inl rfl, hm⟩), by simp [find_cons, hc, hf]⟩

/-- The walk keeps, for every client, a best subscriber among those seen before
and those whose filter the linear matcher accepts. -/
theorem isBest_matchNode (segs : List GoString) (n : Node δ) (out : Matched δ) (c : GoString)
    (seen : Set (Subscriber δ)) (hn : HashLeaves n)
    (h : Selection.IsBest Subscriber.qos seen (out.get c)) :
    Selection.IsBest Subscriber.qos (seen ∪ matching segs n c) ((matchNode segs n out).get c) := by
  induction segs generalizing n out seen with
  | nil =>
      simp only [matchNode, get_mergeSubscribers, matching_nil hn, ← Set.union_assoc]
      exact Selection.isBest_elim Subscriber.qos (isBest_mergeChild h) _
  | cons seg segs ih =>
      have below (seg : GoString) (out : Matched δ) (seen : Set (Subscriber δ))
          (h : Selection.IsBest Subscriber.qos seen (out.get c)) :
          Selection.IsBest Subscriber.qos (seen ∪ matchingBelow seg segs n c)
            ((match n.child seg with
              | some child => matchNode segs child out
              | none => out).get c) := by
        cases hc : n.child seg with
        | none => simpa [matchingBelow, hc] using h
        | some child =>
            have hset : matchingBelow seg segs n c = matching segs child c := by
              ext s
              simp [matchingBelow, hc]
            simpa [hset] using ih child out seen (hashLeaves_child hn hc) h
      simp only [matchNode, matching_cons hn, ← Set.union_assoc]
      exact below plus _ _ (below seg _ _ (isBest_mergeChild h))

theorem isSome_mergeSubscribers {src : FinMap GoString (Subscriber δ)} {dst : Matched δ}
    {c : GoString} (h : (src.get c).isSome ∨ (dst.get c).isSome) :
    ((mergeSubscribers src dst).get c).isSome := by
  rw [get_mergeSubscribers]
  cases hsrc : src.get c with
  | none => exact h.resolve_left (by simp [hsrc])
  | some sub =>
      simp only [Option.elim_some, Selection.keepBest]
      split
      · rfl
      · split_ifs <;> rfl

theorem isSome_mergeChild {n : Node δ} {seg : GoString} {out : Matched δ} {c : GoString}
    (h : (out.get c).isSome) : ((mergeChild n seg out).get c).isSome := by
  simp only [mergeChild]
  split
  · exact isSome_mergeSubscribers (.inr h)
  · exact h

/-- Below a child the walk drops no client, when it drops none from there on. -/
theorem isSome_matchChild {segs : List GoString} {n : Node δ} {c : GoString}
    (hwalk : ∀ (child : Node δ) {out : Matched δ}, (out.get c).isSome →
      ((matchNode segs child out).get c).isSome)
    (k : GoString) {out : Matched δ} (h : (out.get c).isSome) :
    ((match n.child k with
      | some child => matchNode segs child out
      | none => out).get c).isSome := by
  cases n.child k with
  | none => exact h
  | some child => exact hwalk child h

/-- The walk drops no client it has seen. -/
theorem isSome_matchNode (segs : List GoString) (n : Node δ) {out : Matched δ} {c : GoString}
    (h : (out.get c).isSome) : ((matchNode segs n out).get c).isSome := by
  induction segs generalizing n out with
  | nil => exact isSome_mergeSubscribers (.inr (isSome_mergeChild h))
  | cons seg segs ih =>
      exact isSome_matchChild ih plus (isSome_matchChild ih seg (isSome_mergeChild h))

theorem mergeChild_finds {n : Node δ} {seg c : GoString} {sub : Subscriber δ}
    (hfind : find [seg] n c = some sub) (out : Matched δ) :
    ((mergeChild n seg out).get c).isSome := by
  rw [find_cons] at hfind
  obtain ⟨child, hchild, hsub⟩ := Option.bind_eq_some_iff.mp hfind
  simp only [mergeChild, hchild]
  exact isSome_mergeSubscribers (.inl (Option.isSome_of_eq_some hsub))

/-- The walk finds a subscriber whose filter matches, whatever else the trie holds. -/
theorem matchNode_finds {segs path : List GoString} {n : Node δ} {c : GoString}
    {sub : Subscriber δ} (hlast : Protocol.HashLast path) (hmatch : matchSegs segs path = true)
    (hfind : find path n c = some sub) (out : Matched δ) :
    ((matchNode segs n out).get c).isSome := by
  induction segs generalizing path n out with
  | nil =>
      cases path with
      | nil => exact isSome_mergeSubscribers (.inl (Option.isSome_of_eq_some hfind))
      | cons seg path =>
          have hseg := (matchSegs_nil_cons seg path).mp hmatch
          rw [hlast.1 hseg, hseg] at hfind
          exact isSome_mergeSubscribers (.inr (mergeChild_finds hfind out))
  | cons s segs ih =>
      cases path with
      | nil => cases hmatch
      | cons seg path =>
          have hwalk (child : Node δ) {out : Matched δ} (h : (out.get c).isSome) :=
            isSome_matchNode segs child h
          cases (matchSegs_cons_cons s seg segs path).mp hmatch with
          | inl hseg =>
              rw [hlast.1 hseg, hseg] at hfind
              exact isSome_matchChild hwalk plus
                (isSome_matchChild hwalk s (mergeChild_finds hfind out))
          | inr hrest =>
              rw [find_cons] at hfind
              obtain ⟨child, hchild, hsub⟩ := Option.bind_eq_some_iff.mp hfind
              have hit := ih hlast.2 hrest.2 hsub
              cases hrest.1 with
              | inl hplus =>
                  rw [hplus] at hchild
                  simp only [matchNode, hchild]
                  exact hit _
              | inr hexact =>
                  rw [hexact] at hchild
                  simp only [matchNode, hchild]
                  exact isSome_matchChild hwalk plus (hit _)

/-- Every subscriber of the map has the property, as one of its client. -/
def Matched.All (P : GoString → Subscriber δ → Prop) (m : Matched δ) : Prop :=
  ∀ c s, m.get c = some s → P c s

theorem all_mergeSubscribers {P : GoString → Subscriber δ → Prop}
    {src : FinMap GoString (Subscriber δ)} {dst : Matched δ} (hsrc : Matched.All P src)
    (hdst : dst.All P) : (mergeSubscribers src dst).All P := by
  intro c s hs
  rw [get_mergeSubscribers] at hs
  cases hget : src.get c with
  | none =>
      rw [hget, Option.elim_none] at hs
      exact hdst c s hs
  | some sub =>
      rw [hget, Option.elim_some] at hs
      cases hkept : dst.get c with
      | none =>
          rw [hkept] at hs
          cases hs
          exact hsrc c _ hget
      | some kept =>
          simp only [hkept, Selection.keepBest] at hs
          split_ifs at hs
          · cases hs
            exact hsrc c _ hget
          · cases hs
            exact hdst c _ hkept

theorem all_mergeChild {P : GoString → Subscriber δ → Prop} {n : Node δ} (seg : GoString)
    {out : Matched δ} (hn : ∀ path c s, find path n c = some s → P c s) (hout : out.All P) :
    (mergeChild n seg out).All P := by
  cases hchild : n.child seg with
  | none => simpa [mergeChild, hchild] using hout
  | some child =>
      simp only [mergeChild, hchild]
      refine all_mergeSubscribers (fun c s hs => hn [seg] c s ?_) hout
      rw [find_cons, hchild]
      exact hs

theorem all_matchNode {P : GoString → Subscriber δ → Prop} (segs : List GoString) {n : Node δ}
    {out : Matched δ} (hn : ∀ path c s, find path n c = some s → P c s) (hout : out.All P) :
    (matchNode segs n out).All P := by
  induction segs generalizing n out with
  | nil => exact all_mergeSubscribers (fun c s hs => hn [] c s hs) (all_mergeChild hash hn hout)
  | cons seg segs ih =>
      have below (k : GoString) {out : Matched δ} (hout : out.All P) :
          Matched.All P (match n.child k with
            | some child => matchNode segs child out
            | none => out) := by
        cases hchild : n.child k with
        | none => exact hout
        | some child =>
            refine ih (fun path c s hs => hn (k :: path) c s ?_) hout
            rw [find_cons, hchild]
            exact hs
      exact below plus (below seg (all_mergeChild hash hn hout))

end LumaBroker.Router
