import LumaBroker.Lib.Walk
import LumaBroker.Router.Trie
import Mathlib.Logic.Function.Basic

/-!
The shard of internal/router/router.go with its nodes as shared places of a heap. The
trie of trees takes a call as a whole; here each section under a node's lock is an
operation of its own, so that calls can be interleaved and a node can stay in use
after it was taken out of the trie.

What a match walk sees from a place is the tree unfolded from it.
-/

namespace LumaBroker.Router
variable {δ : Type}

/-- A node, with the places of its children. -/
structure Cell (δ : Type) where
  children : FinMap GoString Nat
  subscribers : FinMap GoString (Subscriber δ)

def Cell.new : Cell δ := ⟨FinMap.empty, FinMap.empty⟩

/-- The nodes of a shard, those no longer reachable included. The root is at 0. -/
structure Heap (δ : Type) where
  node : Nat → Cell δ
  next : Nat

namespace Heap

def newShard : Heap δ := ⟨fun _ => Cell.new, 1⟩

def child (h : Heap δ) (n : Nat) (seg : GoString) : Option Nat := (h.node n).children.get seg

/-- len(n.children) == 0 && len(n.subscribers) == 0 -/
def isEmpty (h : Heap δ) (n : Nat) : Bool :=
  (h.node n).children.isEmpty && (h.node n).subscribers.isEmpty

theorem isEmpty_iff {h : Heap δ} {n : Nat} : h.isEmpty n = true ↔
    (∀ seg, h.child n seg = none) ∧ ∀ c, (h.node n).subscribers.get c = none := by
  rw [isEmpty, Bool.and_eq_true, FinMap.isEmpty_iff, FinMap.isEmpty_iff]
  rfl

def setChildren (n : Nat) (children : FinMap GoString Nat) (h : Heap δ) : Heap δ :=
  { h with node := Function.update h.node n { h.node n with children := children } }

def setSubscribers (n : Nat) (subs : FinMap GoString (Subscriber δ)) (h : Heap δ) : Heap δ :=
  { h with node := Function.update h.node n { h.node n with subscribers := subs } }

/-- newNode, at a place not used before. -/
def newNode (h : Heap δ) : Heap δ × Nat :=
  (⟨Function.update h.node h.next Cell.new, h.next + 1⟩, h.next)

def attachNew (n : Nat) (seg : GoString) (h : Heap δ) : Heap δ × Nat :=
  let (h, child) := h.newNode
  (h.setChildren n ((h.node n).children.set seg child), child)

/-- The section of subscribe at an inner node, with the node to go on to. -/
def descend (n : Nat) (seg : GoString) (h : Heap δ) : Heap δ × Nat :=
  match h.child n seg with
  | some child => (h, child)
  | none => h.attachNew n seg

/-- The section of subscribe at the last node. -/
def store (n : Nat) (sub : Subscriber δ) (h : Heap δ) : Heap δ :=
  h.setSubscribers n ((h.node n).subscribers.set sub.clientID sub)

/-- The section of unsubRecursive at the last node; whether it is left empty is read from
the result. -/
def remove (n : Nat) (clientID : GoString) (h : Heap δ) : Heap δ :=
  h.setSubscribers n ((h.node n).subscribers.erase clientID)

/-- The second section of unsubRecursive at an inner node, after its child was reported
empty. -/
def detach (n : Nat) (seg : GoString) (h : Heap δ) : Heap δ :=
  h.setChildren n ((h.node n).children.erase seg)

def mergeChild (h : Heap δ) (n : Nat) (seg : GoString) (out : Matched δ) : Matched δ :=
  match h.child n seg with
  | some c => mergeSubscribers (h.node c).subscribers out
  | none => out

def matchNode (h : Heap δ) : List GoString → Nat → Matched δ → Matched δ
  | [], n, out => mergeSubscribers (h.node n).subscribers (h.mergeChild n hash out)
  | seg :: segs, n, out =>
      let out := h.mergeChild n hash out
      let out := match h.child n seg with
        | some c => h.matchNode segs c out
        | none => out
      match h.child n plus with
      | some c => h.matchNode segs c out
      | none => out

def walk (h : Heap δ) : List GoString → Nat → Option Nat := Walk.walk h.child

/-- The subscriber a client has at the node of these filter segments. -/
def find (h : Heap δ) (path : List GoString) (c : GoString) : Option (Subscriber δ) :=
  (h.walk path 0).bind fun n => (h.node n).subscribers.get c

theorem child_setSubscribers (n : Nat) (subs : FinMap GoString (Subscriber δ)) (h : Heap δ) :
    (h.setSubscribers n subs).child = h.child := by
  funext m seg
  by_cases hm : m = n
  · subst hm
    simp [child, setSubscribers]
  · simp [child, setSubscribers, hm]

theorem find_setSubscribers (n : Nat) (subs : FinMap GoString (Subscriber δ)) (h : Heap δ)
    (path : List GoString) (c : GoString) :
    (h.setSubscribers n subs).find path c =
      if h.walk path 0 = some n then subs.get c else h.find path c := by
  have hwalk : (h.setSubscribers n subs).walk = h.walk :=
    congrArg Walk.walk (child_setSubscribers n subs h)
  rw [find, find, hwalk]
  cases h.walk path 0 with
  | none => simp
  | some m =>
      by_cases hm : m = n
      · subst hm
        simp [setSubscribers]
      · simp [setSubscribers, hm]

theorem child_detach (n : Nat) (seg : GoString) (h : Heap δ) (m : Nat) (k : GoString) :
    (h.detach n seg).child m k = if m = n ∧ k = seg then none else h.child m k := by
  by_cases hm : m = n
  · subst hm
    simp [child, detach, setChildren, FinMap.get_erase]
  · simp [child, detach, setChildren, hm]

theorem subscribers_detach (n : Nat) (seg : GoString) (h : Heap δ) (m : Nat) :
    ((h.detach n seg).node m).subscribers = (h.node m).subscribers := by
  by_cases hm : m = n
  · subst hm
    simp [detach, setChildren]
  · simp [detach, setChildren, hm]

theorem child_attachNew {n : Nat} {h : Heap δ} (hn : n ≠ h.next) (seg : GoString) (m : Nat)
    (k : GoString) :
    (h.attachNew n seg).1.child m k =
      if m = n ∧ k = seg then some h.next else if m = h.next then none else h.child m k := by
  by_cases hm : m = n
  · subst hm
    simp [child, attachNew, newNode, setChildren, FinMap.get_set, hn]
  · by_cases hnext : m = h.next
    · simp [child, attachNew, newNode, setChildren, hnext, Cell.new, hn.symm]
    · simp [child, attachNew, newNode, setChildren, hm, hnext]

theorem subscribers_attachNew {n m : Nat} {h : Heap δ} (hn : n ≠ h.next) (seg : GoString)
    (hm : m ≠ h.next) :
    ((h.attachNew n seg).1.node m).subscribers = (h.node m).subscribers := by
  by_cases hmn : m = n
  · subst hmn
    simp [attachNew, newNode, setChildren, hm]
  · simp [attachNew, newNode, setChildren, hm, hmn]

/-- Heaps that differ in a place without subscribers, and in the walks to it, store the same
subscriptions. -/
theorem find_congr {h h' : Heap δ} (spare : Nat) {path : List GoString} {c : GoString}
    (hwalk : ∀ m, m ≠ spare → (h.walk path 0 = some m ↔ h'.walk path 0 = some m))
    (hsubs : ∀ m, m ≠ spare → (h.node m).subscribers = (h'.node m).subscribers)
    (hspare : h.walk path 0 = some spare → (h.node spare).subscribers.get c = none)
    (hspare' : h'.walk path 0 = some spare → (h'.node spare).subscribers.get c = none) :
    h.find path c = h'.find path c := by
  apply Option.ext
  intro sub
  simp only [find, Option.bind_eq_some_iff]
  constructor
  · intro hfound
    obtain ⟨m, hm, hget⟩ := hfound
    have hne : m ≠ spare := by
      intro heq
      rw [heq] at hm hget
      rw [hspare hm] at hget
      cases hget
    exact ⟨m, (hwalk m hne).mp hm, hsubs m hne ▸ hget⟩
  · intro hfound
    obtain ⟨m, hm, hget⟩ := hfound
    have hne : m ≠ spare := by
      intro heq
      rw [heq] at hm hget
      rw [hspare' hm] at hget
      cases hget
    exact ⟨m, (hwalk m hne).mpr hm, hsubs m hne ▸ hget⟩

/-- The heap of a shard: every place has one label, the path that led to it when it was
created, and unused places have no children. A place that was detached keeps its label. -/
structure Shaped (label : Nat → List GoString) (h : Heap δ) : Prop where
  root : label 0 = []
  bound : 0 < h.next
  fresh : ∀ n seg, h.next ≤ n → h.child n seg = none
  child : ∀ n seg m, h.child n seg = some m → m < h.next ∧ label m = label n ++ [seg]

theorem shaped_newShard : Shaped (fun _ => []) (newShard : Heap δ) where
  root := rfl
  bound := Nat.zero_lt_one
  fresh _ _ _ := rfl
  child _ _ _ h := by cases h

namespace Shaped
variable {label : Nat → List GoString} {h : Heap δ}

theorem label_eq (hs : Shaped label h) {path : List GoString} {n : Nat}
    (hwalk : h.walk path 0 = some n) : label n = path := by
  have hlabel := Walk.label_walk (fun n seg m hm => (hs.child n seg m hm).2) hwalk
  rwa [hs.root, List.nil_append] at hlabel

theorem walk_lt (hs : Shaped label h) {path : List GoString} {n : Nat}
    (hwalk : h.walk path 0 = some n) : n < h.next := by
  cases path.eq_nil_or_concat with
  | inl hnil =>
      rw [hnil] at hwalk
      cases hwalk
      exact hs.bound
  | inr hconcat =>
      obtain ⟨front, seg, rfl⟩ := hconcat
      rw [walk, List.concat_eq_append, Walk.walk_concat] at hwalk
      obtain ⟨m, _, hm⟩ := Option.bind_eq_some_iff.mp hwalk
      exact (hs.child m seg n hm).1

theorem setSubscribers (hs : Shaped label h) (n : Nat) (subs : FinMap GoString (Subscriber δ)) :
    Shaped label (h.setSubscribers n subs) where
  root := hs.root
  bound := hs.bound
  fresh m seg hm := (congrFun₂ (child_setSubscribers n subs h) m seg).trans (hs.fresh m seg hm)
  child m seg k hk := hs.child m seg k ((congrFun₂ (child_setSubscribers n subs h) m seg) ▸ hk)

theorem detach (hs : Shaped label h) (n : Nat) (seg : GoString) :
    Shaped label (h.detach n seg) where
  root := hs.root
  bound := hs.bound
  fresh m k hm := by
    rw [child_detach, hs.fresh m k hm, ite_self]
  child m k r hr := by
    rw [child_detach] at hr
    split_ifs at hr
    exact hs.child m k r hr

/-- The new place is labelled with the path on which it is attached. -/
theorem attachNew (hs : Shaped label h) {n : Nat} (hn : n < h.next) (seg : GoString) :
    Shaped (Function.update label h.next (label n ++ [seg])) (h.attachNew n seg).1 where
  root := by
    rw [Function.update_of_ne (Nat.ne_of_lt hs.bound), hs.root]
  bound := Nat.zero_lt_succ _
  fresh m k hm := by
    have hlt : h.next < m := hm
    rw [child_attachNew (Nat.ne_of_lt hn), if_neg (by omega), if_neg (by omega)]
    exact hs.fresh m k (Nat.le_of_lt hlt)
  child m k r hr := by
    rw [child_attachNew (Nat.ne_of_lt hn)] at hr
    change r < h.next + 1 ∧ _
    split_ifs at hr with hedge hnext
    · cases hr
      rw [Function.update_self, hedge.1, Function.update_of_ne (Nat.ne_of_lt hn), hedge.2]
      exact ⟨Nat.lt_succ_self _, rfl⟩
    · obtain ⟨hlt, hlabel⟩ := hs.child m k r hr
      rw [Function.update_of_ne (Nat.ne_of_lt hlt), Function.update_of_ne hnext]
      exact ⟨Nat.lt_succ_of_lt hlt, hlabel⟩

theorem walk_attachNew (hs : Shaped label h) {n : Nat} (hn : n < h.next) {seg : GoString}
    (hnone : h.child n seg = none) {path : List GoString} {m : Nat} (hm : m ≠ h.next) :
    (h.attachNew n seg).1.walk path 0 = some m ↔ h.walk path 0 = some m := by
  have hleaf (k : GoString) : h.child h.next k = none := hs.fresh h.next k le_rfl
  refine Walk.walk_congr ?_ ?_ hleaf hm
  · intro p k q hq
    rw [child_attachNew (Nat.ne_of_lt hn)]
    split_ifs with hpk hp
    · rw [hpk.1, hpk.2, hnone]
      simp [hq.symm]
    · simp [hp, hleaf]
    · rfl
  · intro k
    rw [child_attachNew (Nat.ne_of_lt hn), if_neg (by omega), if_pos rfl]

theorem find_attachNew (hs : Shaped label h) {n : Nat} (hn : n < h.next) {seg : GoString}
    (hnone : h.child n seg = none) (path : List GoString) (c : GoString) :
    (h.attachNew n seg).1.find path c = h.find path c := by
  refine find_congr h.next (fun _ hm => hs.walk_attachNew hn hnone hm) ?_ ?_ ?_
  · intro m hm
    exact subscribers_attachNew (Nat.ne_of_lt hn) seg hm
  · intro _
    simp [Heap.attachNew, newNode, setChildren, Cell.new, Nat.ne_of_gt hn]
  · intro hwalk
    exact absurd rfl (Nat.ne_of_lt (hs.walk_lt hwalk))

end Shaped

/-- What the section of subscribe at an inner node leaves alone, and where it arrives. -/
structure Descended (label label' : Nat → List GoString) (h : Heap δ) (n : Nat) (seg : GoString) :
    Prop where
  shaped : Shaped label' (h.descend n seg).1
  labels : ∀ m, m < h.next → label' m = label m
  next : h.next ≤ (h.descend n seg).1.next
  walks : ∀ path m, h.walk path 0 = some m → (h.descend n seg).1.walk path 0 = some m
  finds : ∀ path c, (h.descend n seg).1.find path c = h.find path c
  arrived : (h.descend n seg).1.walk (label n ++ [seg]) 0 = some (h.descend n seg).2

theorem Shaped.exists_descended {label : Nat → List GoString} {h : Heap δ} (hs : Shaped label h)
    {n : Nat} (hwalk : h.walk (label n) 0 = some n) (seg : GoString) :
    ∃ label', Descended label label' h n seg := by
  cases hchild : h.child n seg with
  | some m =>
      have hsame : h.descend n seg = (h, m) := by
        simp only [descend, hchild]
      refine ⟨label, ?_, fun _ _ => rfl, ?_, ?_, ?_, ?_⟩ <;> rw [hsame]
      · exact hs
      · exact fun _ _ hm => hm
      · exact fun _ _ => rfl
      · rw [walk, Walk.walk_concat]
        exact Option.bind_eq_some_iff.mpr ⟨n, hwalk, hchild⟩
  | none =>
      have hn := hs.walk_lt hwalk
      have hnew : h.descend n seg = h.attachNew n seg := by
        simp only [descend, hchild]
      have hkept {path : List GoString} {m : Nat} (hm : h.walk path 0 = some m) :
          (h.attachNew n seg).1.walk path 0 = some m :=
        (hs.walk_attachNew hn hchild (Nat.ne_of_lt (hs.walk_lt hm))).mpr hm
      refine ⟨Function.update label h.next (label n ++ [seg]), ?_, ?_, ?_, ?_, ?_, ?_⟩
      · rw [hnew]
        exact hs.attachNew hn seg
      · intro m hm
        exact Function.update_of_ne (Nat.ne_of_lt hm) _ _
      · rw [hnew]
        exact Nat.le_succ _
      · rw [hnew]
        exact fun _ _ => hkept
      · rw [hnew]
        exact hs.find_attachNew hn hchild
      · rw [hnew, walk, Walk.walk_concat]
        refine Option.bind_eq_some_iff.mpr ⟨n, hkept hwalk, ?_⟩
        rw [child_attachNew (Nat.ne_of_lt hn), if_pos ⟨rfl, rfl⟩]
        rfl

theorem walk_detach {h : Heap δ} {n lost : Nat} {seg : GoString} (hlost : h.child n seg = some lost)
    (hleaf : ∀ k, h.child lost k = none) {path : List GoString} {m : Nat} (hm : m ≠ lost) :
    (h.detach n seg).walk path 0 = some m ↔ h.walk path 0 = some m := by
  refine Walk.walk_congr ?_ ?_ hleaf hm
  · intro p k q hq
    rw [child_detach]
    split_ifs with hpk
    · rw [hpk.1, hpk.2, hlost]
      simp [hq.symm]
    · rfl
  · intro k
    rw [child_detach, hleaf, ite_self]

theorem find_detach {h : Heap δ} {n lost : Nat} {seg : GoString} (hlost : h.child n seg = some lost)
    (hempty : h.isEmpty lost = true) (path : List GoString) (c : GoString) :
    (h.detach n seg).find path c = h.find path c := by
  obtain ⟨hleaf, hsubs⟩ := isEmpty_iff.mp hempty
  refine find_congr lost (fun _ hm => walk_detach hlost hleaf hm) ?_ ?_ ?_
  · intro m _
    exact subscribers_detach n seg h m
  · intro _
    rw [subscribers_detach]
    exact hsubs c
  · intro _
    exact hsubs c

theorem detach_of_none {h : Heap δ} {n : Nat} {seg : GoString} (hnone : h.child n seg = none) :
    h.detach n seg = h := by
  have hsame : (h.node n).children.erase seg = (h.node n).children := FinMap.erase_of_get_none hnone
  rw [detach, hsame, setChildren]
  simp

/-- The tree below a place, to a depth. -/
def toNode (h : Heap δ) : Nat → Nat → Node δ
  | 0, n => ⟨[], (h.node n).subscribers⟩
  | d + 1, n =>
      ⟨(h.node n).children.entries.map fun e => (e.1, h.toNode d e.2), (h.node n).subscribers⟩

theorem subscribers_toNode (h : Heap δ) (d n : Nat) :
    (h.toNode d n).subscribers = (h.node n).subscribers := by
  cases d <;> rfl

theorem child_toNode (h : Heap δ) (d n : Nat) (seg : GoString) :
    (h.toNode (d + 1) n).child seg = (h.child n seg).map (h.toNode d) :=
  SortedMap.lookup_map_snd (h.toNode d) seg (h.node n).children.entries

theorem find_toNode (h : Heap δ) {path : List GoString} {d : Nat} (hd : path.length ≤ d) (n : Nat)
    (c : GoString) :
    Router.find path (h.toNode d n) c =
      (h.walk path n).bind fun p => (h.node p).subscribers.get c := by
  induction path generalizing d n with
  | nil => simp [subscribers_toNode, walk, Walk.walk]
  | cons seg path ih =>
      obtain ⟨d, rfl⟩ : ∃ k, d = k + 1 :=
        Nat.exists_eq_add_one.mpr (Nat.lt_of_lt_of_le (by simp) hd)
      rw [find_cons, child_toNode]
      cases hc : h.child n seg with
      | none => simp [walk, Walk.walk, hc]
      | some child =>
          simp only [Option.map_some, Option.bind_some, walk, Walk.walk, hc]
          exact ih (Nat.le_of_succ_le_succ hd) child

theorem mergeChild_toNode (h : Heap δ) (d n : Nat) (seg : GoString) (out : Matched δ) :
    Router.mergeChild (h.toNode (d + 1) n) seg out = h.mergeChild n seg out := by
  simp only [Router.mergeChild, mergeChild, child_toNode]
  cases h.child n seg with
  | none => rfl
  | some child => simp [subscribers_toNode]

/-- The walk over the heap is the walk over the tree it unfolds to. -/
theorem matchNode_toNode (h : Heap δ) {segs : List GoString} {d : Nat} (hd : segs.length < d)
    (n : Nat) (out : Matched δ) :
    Router.matchNode segs (h.toNode d n) out = h.matchNode segs n out := by
  obtain ⟨d, rfl⟩ : ∃ k, d = k + 1 := Nat.exists_eq_add_one.mpr (Nat.zero_lt_of_lt hd)
  induction segs generalizing d n out with
  | nil => simp only [Router.matchNode, matchNode, mergeChild_toNode, subscribers_toNode]
  | cons seg segs ih =>
      obtain ⟨d, rfl⟩ : ∃ k, d = k + 1 :=
        Nat.exists_eq_add_one.mpr (Nat.lt_of_lt_of_le (by simp) (Nat.le_of_lt_succ hd))
      have hbelow (child : Nat) (out : Matched δ) :=
        ih child out d (Nat.lt_of_succ_lt_succ hd)
      simp only [Router.matchNode, matchNode, mergeChild_toNode, child_toNode]
      cases h.child n seg <;> cases h.child n plus <;>
        simp only [Option.map_some, Option.map_none, hbelow]

theorem matchNode_finds {h : Heap δ} {segs path : List GoString} {c : GoString}
    {sub : Subscriber δ} (hlast : Protocol.HashLast path) (hmatch : matchSegs segs path = true)
    (hfind : h.find path c = some sub) (out : Matched δ) :
    ((h.matchNode segs 0 out).get c).isSome := by
  let d := segs.length + path.length + 1
  have hsub : Router.find path (h.toNode d 0) c = some sub := by
    rw [find_toNode h (by omega)]
    exact hfind
  rw [← matchNode_toNode h (show segs.length < d by omega)]
  exact Router.matchNode_finds hlast hmatch hsub out

end Heap

end LumaBroker.Router
