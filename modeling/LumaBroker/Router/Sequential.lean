import LumaBroker.Router.Interleaving

/-!
Calls on a shard that are not interleaved. The sections of a call, run one after
another on the heap, change the stored subscriptions as the call on the tree does; so
the trie of trees is what the heap of shared nodes looks like between calls.
-/

namespace LumaBroker.Router
variable {δ : Type}

namespace Heap

/-- shard.subscribe from a node on. -/
def subscribe (sub : Subscriber δ) : List GoString → Nat → Heap δ → Heap δ
  | [], n, h => h.store n sub
  | seg :: segs, n, h => subscribe sub segs (h.descend n seg).2 (h.descend n seg).1

def unsubRecursive (clientID : GoString) : List GoString → Nat → Heap δ → Heap δ × Bool
  | [], n, h => (h.remove n clientID, (h.remove n clientID).isEmpty n)
  | seg :: segs, n, h =>
      match h.child n seg with
      | none => (h, false)
      | some child =>
          let result := unsubRecursive clientID segs child h
          if result.2 then (result.1.detach n seg, (result.1.detach n seg).isEmpty n)
          else (result.1, false)

variable {label : Nat → List GoString} {h : Heap δ} {n : Nat}

theorem Shaped.walk_iff (hs : Shaped label h) (hwalk : h.walk (label n) 0 = some n)
    (path : List GoString) : h.walk path 0 = some n ↔ path = label n := by
  constructor
  · intro hpath
    exact (hs.label_eq hpath).symm
  · intro hpath
    rw [hpath]
    exact hwalk

/-- The law of find after subscribe, as on the tree. -/
theorem find_subscribe (hs : Shaped label h) (hwalk : h.walk (label n) 0 = some n)
    (sub : Subscriber δ) (segs : List GoString) :
    (∃ label', Shaped label' (h.subscribe sub segs n)) ∧ ∀ path c,
      (h.subscribe sub segs n).find path c =
        if path = label n ++ segs ∧ c = sub.clientID then some sub else h.find path c := by
  induction segs generalizing n h label with
  | nil =>
      refine ⟨⟨label, hs.setSubscribers n _⟩, ?_⟩
      intro path c
      rw [subscribe, store, find_setSubscribers, List.append_nil]
      by_cases hpath : path = label n
      · rw [if_pos ((hs.walk_iff hwalk path).mpr hpath), FinMap.get_set, find, hpath, hwalk]
        simp
      · rw [if_neg (fun hw => hpath ((hs.walk_iff hwalk path).mp hw)),
          if_neg (fun hb => hpath hb.1)]
  | cons seg segs ih =>
      obtain ⟨label', hd⟩ := hs.exists_descended hwalk seg
      have harrived := hd.shaped.label_eq hd.arrived
      have hnext := ih hd.shaped (harrived.symm ▸ hd.arrived)
      refine ⟨hnext.1, ?_⟩
      intro path c
      rw [subscribe, hnext.2, harrived, hd.finds, List.append_assoc, List.singleton_append]

/-- What unsubRecursive leaves alone above its node, and what its flag says. -/
structure Removed (label : Nat → List GoString) (h : Heap δ) (n : Nat) (segs : List GoString)
    (c : GoString) (h' : Heap δ) (empty : Bool) : Prop where
  shaped : Shaped label h'
  above : ∀ p seg, (label p).length < (label n).length → h'.child p seg = h.child p seg
  finds : ∀ path d, h'.find path d =
    if path = label n ++ segs ∧ d = c then none else h.find path d
  flag : empty = true → h'.isEmpty n = true

theorem removed_unsubRecursive (hs : Shaped label h) (hwalk : h.walk (label n) 0 = some n)
    (c : GoString) (segs : List GoString) :
    Removed label h n segs c (h.unsubRecursive c segs n).1 (h.unsubRecursive c segs n).2 := by
  induction segs generalizing n with
  | nil =>
      refine ⟨hs.setSubscribers n _, ?_, ?_, fun hflag => hflag⟩
      · intro p seg _
        exact congrFun₂ (child_setSubscribers n _ h) p seg
      · intro path d
        simp only [unsubRecursive, remove, find_setSubscribers, List.append_nil]
        by_cases hpath : path = label n
        · rw [if_pos ((hs.walk_iff hwalk path).mpr hpath), FinMap.get_erase, find, hpath, hwalk]
          simp
        · rw [if_neg (fun hw => hpath ((hs.walk_iff hwalk path).mp hw)),
            if_neg (fun hb => hpath hb.1)]
  | cons seg segs ih =>
      cases hchild : h.child n seg with
      | none =>
          simp only [unsubRecursive, hchild]
          refine ⟨hs, fun _ _ _ => rfl, ?_, fun hflag => Bool.noConfusion hflag⟩
          intro path d
          split_ifs with hpath
          · rw [find, hpath.1, walk, Walk.walk_append]
            change ((h.walk (label n) 0).bind _).bind _ = none
            simp [hwalk, Walk.walk, hchild]
          · rfl
      | some m =>
          have hlabel := (hs.child n seg m hchild).2
          have hshorter : (label n).length < (label m).length := by simp [hlabel]
          have hm : h.walk (label m) 0 = some m := by
            rw [hlabel, walk, Walk.walk_concat]
            exact Option.bind_eq_some_iff.mpr ⟨n, hwalk, hchild⟩
          have hr := ih hm
          have hpath : label m ++ segs = label n ++ seg :: segs := by
            rw [hlabel, List.append_assoc, List.singleton_append]
          have hfinds := hr.finds
          rw [hpath] at hfinds
          simp only [unsubRecursive, hchild]
          split_ifs with hflag
          · -- the child is where it was, so the detach takes out the node reported empty
            have hstill := (hr.above n seg hshorter).trans hchild
            refine ⟨hr.shaped.detach n seg, ?_, ?_, fun hempty => hempty⟩
            · intro p k hp
              have hne : ¬(p = n ∧ k = seg) := by
                intro hpk
                rw [hpk.1] at hp
                exact absurd hp (Nat.lt_irrefl _)
              rw [child_detach, if_neg hne]
              exact hr.above p k (Nat.lt_trans hp hshorter)
            · intro path d
              rw [find_detach hstill (hr.flag hflag), hfinds]
          · refine ⟨hr.shaped, ?_, hfinds, fun hempty => Bool.noConfusion hempty⟩
            intro p k hp
            exact hr.above p k (Nat.lt_trans hp hshorter)

/-- The heap stores the subscriptions of the tree. -/
def Represents (h : Heap δ) (root : Node δ) : Prop :=
  (∃ label, Shaped label h) ∧ ∀ path c, h.find path c = Router.find path root c

theorem Shaped.walk_root (hs : Shaped label h) : h.walk (label 0) 0 = some 0 := by
  rw [hs.root]
  rfl

theorem represents_subscribe {root : Node δ} (hr : Represents h root) (sub : Subscriber δ)
    (segs : List GoString) :
    Represents (h.subscribe sub segs 0) (Shard.subscribe sub segs root) := by
  obtain ⟨⟨label, hs⟩, hfind⟩ := hr
  obtain ⟨hshaped, hlaw⟩ := find_subscribe hs hs.walk_root sub segs
  refine ⟨hshaped, ?_⟩
  intro path c
  rw [hlaw, hs.root, List.nil_append, hfind, Router.find_subscribe]

theorem represents_unsubscribe {root : Node δ} (hr : Represents h root) (c : GoString)
    (segs : List GoString) :
    Represents (h.unsubRecursive c segs 0).1 (Shard.unsubscribe c segs root) := by
  obtain ⟨⟨label, hs⟩, hfind⟩ := hr
  have hremoved := removed_unsubRecursive hs hs.walk_root c segs
  refine ⟨⟨label, hremoved.shaped⟩, ?_⟩
  intro path d
  rw [hremoved.finds, hs.root, List.nil_append, hfind, find_unsubscribe]

end Heap

namespace Interleaving

open Transition
variable {s : State δ} {c : GoString}

theorem run_next {call : Call δ} (hcall : s.calls.get c = some call) (k : Nat) :
    run step (List.replicate (k + 1) (.next c)) s =
      run step (List.replicate k (.next c)) { s with
        heap := (advance c s.heap call).1
        calls := s.calls.put c (advance c s.heap call).2 } := by
  simp only [List.replicate_succ, run, step, hcall, Option.map_some, Option.bind_some]

theorem run_subscribe {sub : Subscriber δ} {n : Nat} {segs : List GoString}
    (hcall : s.calls.get c = some (.subscribe sub n segs)) :
    run step (List.replicate (segs.length + 1) (.next c)) s =
      some { s with heap := s.heap.subscribe sub segs n, calls := s.calls.put c none } := by
  induction segs generalizing n s with
  | nil =>
      rw [run_next hcall]
      rfl
  | cons seg segs ih =>
      have hrest := @ih { s with
          heap := (s.heap.descend n seg).1
          calls := s.calls.put c (some (.subscribe sub (s.heap.descend n seg).2 segs)) }
        (s.heap.descend n seg).2 (FinMap.get_put_self _ _ _)
      rw [List.length_cons, run_next hcall]
      refine hrest.trans ?_
      rw [FinMap.put_put]
      rfl

theorem returns_false (callers : List (Nat × GoString)) :
    (returns callers false : Option (Call δ)) = none := by
  cases callers <;> rfl

/-- The recursion comes back to the callers it was entered with. -/
theorem run_unsubRecursive {callers : List (Nat × GoString)} {n : Nat} {segs : List GoString}
    (hcall : s.calls.get c = some (.down callers n segs)) :
    ∃ k, run step (List.replicate k (.next c)) s = some { s with
      heap := (s.heap.unsubRecursive c segs n).1
      calls := s.calls.put c (returns callers (s.heap.unsubRecursive c segs n).2) } := by
  induction segs generalizing n s callers with
  | nil =>
      refine ⟨1, ?_⟩
      rw [run_next hcall]
      rfl
  | cons seg segs ih =>
      cases hchild : s.heap.child n seg with
      | none =>
          refine ⟨1, ?_⟩
          rw [run_next hcall]
          simp only [advance, hchild, Option.map_none, Heap.unsubRecursive, returns_false]
          rfl
      | some m =>
          obtain ⟨k, hk⟩ := @ih { s with
            calls := s.calls.put c (some (.down ((n, seg) :: callers) m segs)) }
              ((n, seg) :: callers) m (FinMap.get_put_self _ _ _)
          have hfirst : run step (List.replicate (k + 1) (.next c)) s = some { s with
              heap := (s.heap.unsubRecursive c segs m).1
              calls := s.calls.put c
                (returns ((n, seg) :: callers) (s.heap.unsubRecursive c segs m).2) } := by
            rw [run_next hcall]
            simp only [advance, hchild, Option.map_some]
            refine hk.trans ?_
            rw [FinMap.put_put]
          simp only [Heap.unsubRecursive, hchild]
          cases hflag : (s.heap.unsubRecursive c segs m).2 with
          | false =>
              refine ⟨k + 1, hfirst.trans ?_⟩
              simp only [hflag, returns_false, Bool.false_eq_true, if_false]
          | true =>
              -- one more section: the caller detaches the child
              refine ⟨k + 2, ?_⟩
              rw [List.replicate_succ', run_append, hfirst, hflag, Option.bind_some]
              refine (run_next (FinMap.get_put_self _ _ _) 0).trans ?_
              simp only [FinMap.put_put, if_true]
              rfl

theorem put_none_put {calls : FinMap GoString (Call δ)} (hidle : calls.get c = none)
    (call : Call δ) : (calls.put c (some call)).put c none = calls := by
  rw [FinMap.put_put]
  exact FinMap.erase_of_get_none hidle

/-- A subscribe that no other call interrupts does what the call on the tree does. -/
theorem subscribe_alone {root : Node δ} (hr : s.heap.Represents root) (segs : List GoString)
    (sub : Subscriber δ) (hidle : s.calls.get sub.clientID = none) :
    ∃ k t, run step (.subscribe segs sub :: List.replicate k (.next sub.clientID)) s = some t ∧
      t.calls = s.calls ∧ t.heap.Represents (Shard.subscribe sub segs root) := by
  have hrun := @run_subscribe δ { s with
    calls := s.calls.put sub.clientID (some (.subscribe sub 0 segs))
    last := fun d path => if d = sub.clientID ∧ path = segs then some sub else s.last d path }
      sub.clientID sub 0 segs (FinMap.get_put_self _ _ _)
  refine ⟨segs.length + 1, _, Eq.trans ?_ hrun, ?_, Heap.represents_subscribe hr sub segs⟩
  · simp only [run, step, begin, hidle, Option.bind_some]
  · exact put_none_put hidle _

theorem unsubscribe_alone {root : Node δ} (hr : s.heap.Represents root) (segs : List GoString)
    (c : GoString) (hidle : s.calls.get c = none) :
    ∃ k t, run step (.unsubscribe segs c :: List.replicate k (.next c)) s = some t ∧
      t.calls = s.calls ∧ t.heap.Represents (Shard.unsubscribe c segs root) := by
  obtain ⟨k, hrun⟩ := @run_unsubRecursive δ { s with
    calls := s.calls.put c (some (.down [] 0 segs))
    last := fun d path => if d = c ∧ path = segs then none else s.last d path } c [] 0 segs
      (FinMap.get_put_self _ _ _)
  refine ⟨k, _, Eq.trans ?_ hrun, ?_, Heap.represents_unsubscribe hr c segs⟩
  · simp only [run, step, begin, hidle, Option.bind_some]
  · exact put_none_put hidle _

end Interleaving

end LumaBroker.Router
