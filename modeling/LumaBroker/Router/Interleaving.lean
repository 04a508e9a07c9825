import LumaBroker.Lib.Transition
import LumaBroker.Router.Heap

/-!
Calls of shard.subscribe and shard.unsubscribe by different clients, interleaved at
every section under a node's lock. An unsubscribe finds a node empty in one section
and detaches it from the parent in a later one; a subscribe that has walked to the
node in between stores its subscription where no match walk comes.

As long as every detach takes out a node that is still empty and that no subscribe
has reached, the place of each subscribe stays on its path, and no subscription
is lost.
-/

namespace LumaBroker.Router.Interleaving

open Transition
variable {δ : Type}

/-- A call between two of its sections. -/
inductive Call (δ : Type) where
  /-- At a node, with these segments to go. -/
  | subscribe (sub : Subscriber δ) (n : Nat) (rest : List GoString)
  /-- At a node on the way down, with the callers to return to. -/
  | down (callers : List (Nat × GoString)) (n : Nat) (rest : List GoString)
  /-- The child of a node was reported empty. -/
  | up (n : Nat) (seg : GoString) (callers : List (Nat × GoString))

/-- The calls in progress by client, and the last call of each client on each filter: the
subscriber of a subscribe, none for an unsubscribe. -/
structure State (δ : Type) where
  heap : Heap δ
  calls : FinMap GoString (Call δ)
  last : GoString → List GoString → Option (Subscriber δ)

inductive Action (δ : Type) where
  | subscribe (segs : List GoString) (sub : Subscriber δ)
  | unsubscribe (segs : List GoString) (clientID : GoString)
  | next (clientID : GoString)

/-- unsubRecursive returns to its caller, which goes on only when told to detach. -/
def returns : List (Nat × GoString) → Bool → Option (Call δ)
  | (n, seg) :: callers, true => some (.up n seg callers)
  | _, _ => none

/-- The next section of a call, and what is left of the call. -/
def advance (c : GoString) (h : Heap δ) : Call δ → Heap δ × Option (Call δ)
  | .subscribe sub n [] => (h.store n sub, none)
  | .subscribe sub n (seg :: rest) =>
      let (h, child) := h.descend n seg
      (h, some (.subscribe sub child rest))
  | .down callers n [] =>
      let h := h.remove n c
      (h, returns callers (h.isEmpty n))
  | .down callers n (seg :: rest) =>
      (h, (h.child n seg).map fun child => .down ((n, seg) :: callers) child rest)
  | .up n seg callers =>
      let h := h.detach n seg
      (h, returns callers (h.isEmpty n))

def begin (c : GoString) (segs : List GoString) (last : Option (Subscriber δ)) (call : Call δ)
    (s : State δ) : Option (State δ) :=
  match s.calls.get c with
  | some _ => none
  | none => some { s with
      calls := s.calls.put c (some call)
      last := fun d path => if d = c ∧ path = segs then last else s.last d path }

def step (s : State δ) : Action δ → Option (State δ)
  | .subscribe segs sub => begin sub.clientID segs (some sub) (.subscribe sub 0 segs) s
  | .unsubscribe segs c => begin c segs none (.down [] 0 segs) s
  | .next c =>
      (s.calls.get c).map fun call =>
        { s with
          heap := (advance c s.heap call).1
          calls := s.calls.put c (advance c s.heap call).2 }

def newShard : State δ := ⟨Heap.newShard, FinMap.empty, fun _ _ => none⟩

def subscribingAt (calls : FinMap GoString (Call δ)) (n : Nat) : Bool :=
  calls.entries.any fun e =>
    match e.2 with
    | .subscribe _ m _ => m = n
    | _ => false

/-- If the step is a detach, the child it takes out is empty still and no subscribe is
at it. -/
def detachSafe (s : State δ) (a : Action δ) : Bool :=
  match a with
  | .next c =>
      match s.calls.get c with
      | some (.up n seg _) =>
          (s.heap.child n seg).all fun child =>
            s.heap.isEmpty child && !subscribingAt s.calls child
      | _ => true
  | _ => true

/-- What a call in progress may rely on. The place of a subscribe is on its path; that of
an unsubscribe need not be any more. -/
def CallOk (label : Nat → List GoString) (h : Heap δ)
    (last : GoString → List GoString → Option (Subscriber δ)) (c : GoString) : Call δ → Prop
  | .subscribe sub n rest =>
      sub.clientID = c ∧ h.walk (label n) 0 = some n ∧ last c (label n ++ rest) = some sub
  | .down _ n rest => n < h.next ∧ last c (label n ++ rest) = none
  | .up _ _ _ => True

structure Inv (label : Nat → List GoString) (s : State δ) : Prop where
  shaped : s.heap.Shaped label
  calls : ∀ c call, s.calls.get c = some call → CallOk label s.heap s.last c call
  kept : ∀ c path sub, s.last c path = some sub → s.heap.find path c = some sub ∨
    ∃ n rest, s.calls.get c = some (.subscribe sub n rest) ∧ label n ++ rest = path

theorem inv_newShard : Inv (fun _ => []) (newShard : State δ) where
  shaped := Heap.shaped_newShard
  calls _ _ h := by cases h
  kept _ _ _ h := by cases h

/-- What a section of a call does, seen from the other calls and from the subscriptions. -/
structure Advanced (label label' : Nat → List GoString) (s : State δ) (c : GoString)
    (call : Call δ) (h : Heap δ) (rest : Option (Call δ)) : Prop where
  shaped : h.Shaped label'
  labels : ∀ n, n < s.heap.next → label' n = label n
  next : s.heap.next ≤ h.next
  walks : ∀ d sub n segs, d ≠ c → s.calls.get d = some (.subscribe sub n segs) →
    h.walk (label n) 0 = some n
  finds : ∀ d path sub, s.last d path = some sub → s.heap.find path d = some sub →
    h.find path d = some sub
  own : ∀ call', rest = some call' → CallOk label' h s.last c call'
  subscribed : ∀ sub n segs, call = .subscribe sub n segs → h.find (label n ++ segs) c = some sub ∨
    ∃ m segs', rest = some (.subscribe sub m segs') ∧ label' m ++ segs' = label n ++ segs

variable {label label' : Nat → List GoString} {s : State δ} {c : GoString}

theorem inv_advanced {call : Call δ} {heap : Heap δ} {rest : Option (Call δ)} (h : Inv label s)
    (hcall : s.calls.get c = some call) (ha : Advanced label label' s c call heap rest) :
    Inv label' { s with heap := heap, calls := s.calls.put c rest } := by
  have hlabel {d : GoString} {sub : Subscriber δ} {n : Nat} {segs : List GoString}
      (hd : s.calls.get d = some (.subscribe sub n segs)) : label' n = label n :=
    ha.labels n (h.shaped.walk_lt (h.calls d _ hd).2.1)
  refine ⟨ha.shaped, ?_, ?_⟩
  · intro d call' hd
    change (s.calls.put c rest).get d = some call' at hd
    rw [FinMap.get_put] at hd
    split_ifs at hd with hdc
    · rw [hdc]
      exact ha.own call' hd
    · have hok := h.calls d call' hd
      cases call' with
      | subscribe sub n segs =>
          refine ⟨hok.1, ?_, ?_⟩
          · rw [hlabel hd]
            exact ha.walks d sub n segs hdc hd
          · rw [hlabel hd]
            exact hok.2.2
      | down callers n segs =>
          refine ⟨Nat.lt_of_lt_of_le hok.1 ha.next, ?_⟩
          rw [ha.labels n hok.1]
          exact hok.2
      | up n seg callers => trivial
  · intro d path sub hlast
    change _ ∨ ∃ n segs, (s.calls.put c rest).get d = _ ∧ _
    cases h.kept d path sub hlast with
    | inl hfind => exact .inl (ha.finds d path sub hlast hfind)
    | inr hpending =>
        obtain ⟨n, segs, hd, hpath⟩ := hpending
        by_cases hdc : d = c
        · rw [hdc, hcall] at hd
          cases ha.subscribed sub n segs (Option.some.inj hd) with
          | inl hfind =>
              refine .inl ?_
              rw [hdc, ← hpath]
              exact hfind
          | inr hrest =>
              obtain ⟨m, segs', hrest, hsame⟩ := hrest
              refine .inr ⟨m, segs', ?_, hsame.trans hpath⟩
              rw [FinMap.get_put, if_pos hdc, hrest]
        · refine .inr ⟨n, segs, ?_, ?_⟩
          · rw [FinMap.get_put, if_neg hdc, hd]
          · rw [hlabel hd, hpath]

theorem advanced_unchanged {call : Call δ} {rest : Option (Call δ)} (h : Inv label s)
    (hown : ∀ call', rest = some call' → CallOk label s.heap s.last c call')
    (hsub : ∀ sub n segs, call = .subscribe sub n segs →
      ∃ m segs', rest = some (.subscribe sub m segs') ∧ label m ++ segs' = label n ++ segs) :
    Advanced label label s c call s.heap rest where
  shaped := h.shaped
  labels _ _ := rfl
  next := le_rfl
  walks d _ _ _ _ hd := (h.calls d _ hd).2.1
  finds _ _ _ _ hfind := hfind
  own := hown
  subscribed sub n segs hcall := .inr (hsub sub n segs hcall)

theorem advanced_setSubscribers {call : Call δ} {rest : Option (Call δ)} (h : Inv label s) {n : Nat}
    {subs : FinMap GoString (Subscriber δ)}
    (hsubs : ∀ d sub, s.last d (label n) = some sub → (s.heap.node n).subscribers.get d = some sub →
      subs.get d = some sub)
    (hown : ∀ call', rest = some call' → ∃ m seg callers, call' = .up m seg callers)
    (hsub : ∀ sub m segs, call = .subscribe sub m segs → label m ++ segs = label n ∧
      s.heap.walk (label n) 0 = some n ∧ subs.get c = some sub) :
    Advanced label label s c call (s.heap.setSubscribers n subs) rest where
  shaped := h.shaped.setSubscribers n subs
  labels _ _ := rfl
  next := le_rfl
  walks d _ m _ _ hd := by
    rw [Heap.walk, Heap.child_setSubscribers]
    exact (h.calls d _ hd).2.1
  finds d path sub hlast hfind := by
    rw [Heap.find_setSubscribers]
    split_ifs with hwalk
    · rw [Heap.find, hwalk] at hfind
      rw [← h.shaped.label_eq hwalk] at hlast
      exact hsubs d sub hlast hfind
    · exact hfind
  own call' hrest := by
    obtain ⟨m, seg, callers, rfl⟩ := hown call' hrest
    trivial
  subscribed sub m segs hcall := by
    obtain ⟨hpath, hwalk, hget⟩ := hsub sub m segs hcall
    rw [Heap.find_setSubscribers, hpath, if_pos hwalk]
    exact .inl hget

theorem returns_up {callers : List (Nat × GoString)} {empty : Bool} {call : Call δ}
    (h : returns callers empty = some call) : ∃ n seg rest, call = .up n seg rest := by
  cases callers with
  | nil => cases h
  | cons caller callers =>
      cases empty with
      | false => cases h
      | true =>
          cases h
          exact ⟨_, _, _, rfl⟩

theorem advanced_store {sub : Subscriber δ} {n : Nat} (h : Inv label s)
    (hok : CallOk label s.heap s.last c (.subscribe sub n [])) :
    Advanced label label s c (.subscribe sub n []) (s.heap.store n sub) none := by
  obtain ⟨hid, hwalk, hlast⟩ := hok
  rw [List.append_nil] at hlast
  refine advanced_setSubscribers h ?_ (fun _ hrest => nomatch hrest) ?_
  · intro d sub' hlast' hget
    rw [FinMap.get_set]
    split_ifs with hd
    · rw [hd, hid, hlast] at hlast'
      exact hlast'
    · exact hget
  · intro sub' m segs hcall
    cases hcall
    refine ⟨List.append_nil _, hwalk, ?_⟩
    rw [← hid]
    exact FinMap.get_set_self _ _ _

theorem advanced_remove {callers : List (Nat × GoString)} {n : Nat} (h : Inv label s)
    (hok : CallOk label s.heap s.last c (.down callers n [])) :
    Advanced label label s c (.down callers n []) (s.heap.remove n c)
      (returns callers ((s.heap.remove n c).isEmpty n)) := by
  have hlast := hok.2
  rw [List.append_nil] at hlast
  refine advanced_setSubscribers h ?_ (fun _ => returns_up) (fun _ _ _ hcall => nomatch hcall)
  intro d sub hlast' hget
  rw [FinMap.get_erase]
  split_ifs with hd
  · rw [hd, hlast] at hlast'
    cases hlast'
  · exact hget

/-- A subscribe that finds the next node, or creates it, is on its path again. -/
theorem advanced_descend {sub : Subscriber δ} {n : Nat} {seg : GoString} {rest : List GoString}
    (h : Inv label s) (hok : CallOk label s.heap s.last c (.subscribe sub n (seg :: rest))) :
    ∃ label', Advanced label label' s c (.subscribe sub n (seg :: rest)) (s.heap.descend n seg).1
      (some (.subscribe sub (s.heap.descend n seg).2 rest)) := by
  obtain ⟨hid, hwalk, hlast⟩ := hok
  obtain ⟨label', hd⟩ := h.shaped.exists_descended hwalk seg
  have harrived := hd.shaped.label_eq hd.arrived
  have hpath : label' (s.heap.descend n seg).2 ++ rest = label n ++ seg :: rest := by
    rw [harrived, List.append_assoc, List.singleton_append]
  refine ⟨label', hd.shaped, hd.labels, hd.next, ?_, ?_, ?_, ?_⟩
  · intro d sub' m segs _ hcall
    exact hd.walks _ m (h.calls d _ hcall).2.1
  · intro d path sub' _ hfind
    rw [hd.finds]
    exact hfind
  · intro call' hcall'
    cases hcall'
    refine ⟨hid, ?_, hpath ▸ hlast⟩
    rw [harrived]
    exact hd.arrived
  · intro sub' m segs hcall
    cases hcall
    exact .inr ⟨_, rest, rfl, hpath⟩

theorem subscribingAt_eq_false {calls : FinMap GoString (Call δ)} {n : Nat}
    (h : subscribingAt calls n = false) {d : GoString} {sub : Subscriber δ} {m : Nat}
    {segs : List GoString} (hd : calls.get d = some (.subscribe sub m segs)) : m ≠ n := by
  simpa using FinMap.any_entries_eq_false h hd

/-- The sections so far need no condition; a detach relies on it for every walk that
ends in the child it takes out. -/
theorem advanced_detach {n : Nat} {seg : GoString} {callers : List (Nat × GoString)}
    (h : Inv label s) (hsafe : ∀ child, s.heap.child n seg = some child →
      s.heap.isEmpty child = true ∧ subscribingAt s.calls child = false) :
    Advanced label label s c (.up n seg callers) (s.heap.detach n seg)
      (returns callers ((s.heap.detach n seg).isEmpty n)) := by
  have hother : ∀ call', returns callers ((s.heap.detach n seg).isEmpty n) = some call' →
      CallOk label (s.heap.detach n seg) s.last c call' := by
    intro call' hrest
    obtain ⟨m, seg', rest, rfl⟩ := returns_up hrest
    trivial
  cases hchild : s.heap.child n seg with
  | none =>
      rw [Heap.detach_of_none hchild] at hother ⊢
      refine advanced_unchanged h hother ?_
      intro sub m segs hcall
      cases hcall
  | some lost =>
      obtain ⟨hempty, hnobody⟩ := hsafe lost hchild
      refine ⟨h.shaped.detach n seg, fun _ _ => rfl, le_rfl, ?_, ?_, hother, ?_⟩
      · intro d sub m segs _ hd
        have hm := subscribingAt_eq_false hnobody hd
        exact (Heap.walk_detach hchild (Heap.isEmpty_iff.mp hempty).1 hm).mpr (h.calls d _ hd).2.1
      · intro d path sub _ hfind
        rw [Heap.find_detach hchild hempty]
        exact hfind
      · intro sub m segs hcall
        cases hcall

theorem exists_advanced {call : Call δ} (h : Inv label s) (hcall : s.calls.get c = some call)
    (hsafe : detachSafe s (.next c) = true) :
    ∃ label', Advanced label label' s c call (advance c s.heap call).1
      (advance c s.heap call).2 := by
  have hok := h.calls c call hcall
  cases call with
  | subscribe sub n rest =>
      cases rest with
      | nil => exact ⟨label, advanced_store h hok⟩
      | cons seg rest => exact advanced_descend h hok
  | down callers n rest =>
      cases rest with
      | nil => exact ⟨label, advanced_remove h hok⟩
      | cons seg rest =>
          refine ⟨label, advanced_unchanged h ?_ (fun _ _ _ hsub => nomatch hsub)⟩
          intro call' hrest
          obtain ⟨child, hchild, rfl⟩ := Option.map_eq_some_iff.mp hrest
          obtain ⟨hlt, hlabel⟩ := h.shaped.child n seg child hchild
          refine ⟨hlt, ?_⟩
          rw [hlabel, List.append_assoc, List.singleton_append]
          exact hok.2
  | up n seg callers =>
      refine ⟨label, advanced_detach h ?_⟩
      intro child hchild
      simpa [detachSafe, hcall, hchild] using hsafe

theorem inv_begin {t : State δ} {segs : List GoString} {last : Option (Subscriber δ)}
    {call : Call δ} (h : Inv label s) (ht : begin c segs last call s = some t)
    (hok : ∀ f : GoString → List GoString → Option (Subscriber δ), f c segs = last →
      CallOk label s.heap f c call)
    (hcall : ∀ sub, last = some sub → call = .subscribe sub 0 segs) : Inv label t := by
  cases hget : s.calls.get c with
  | some busy => simp [begin, hget] at ht
  | none =>
      simp only [begin, hget, Option.some.injEq] at ht
      subst ht
      refine ⟨h.shaped, ?_, ?_⟩
      · intro d call' hd
        change (s.calls.put c (some call)).get d = some call' at hd
        rw [FinMap.get_put] at hd
        split_ifs at hd with hdc
        · cases hd
          rw [hdc]
          exact hok _ (if_pos ⟨rfl, rfl⟩)
        · have hold := h.calls d call' hd
          have hlast (path : List GoString) :
              (if d = c ∧ path = segs then last else s.last d path) = s.last d path :=
            if_neg fun hboth => hdc hboth.1
          cases call' with
          | subscribe sub n rest => exact ⟨hold.1, hold.2.1, (hlast _).trans hold.2.2⟩
          | down callers n rest => exact ⟨hold.1, (hlast _).trans hold.2⟩
          | up n seg callers => trivial
      · intro d path sub hlast
        change _ ∨ ∃ n rest, (s.calls.put c (some call)).get d = _ ∧ _
        change (if d = c ∧ path = segs then last else s.last d path) = some sub at hlast
        split_ifs at hlast with hown
        · refine .inr ⟨0, segs, ?_, ?_⟩
          · rw [FinMap.get_put, if_pos hown.1, hcall sub hlast]
          · rw [h.shaped.root, List.nil_append, hown.2]
        · cases h.kept d path sub hlast with
          | inl hfind => exact .inl hfind
          | inr hpending =>
              obtain ⟨n, rest, hd, hpath⟩ := hpending
              have hdc : d ≠ c := by
                intro hdc
                rw [hdc, hget] at hd
                cases hd
              refine .inr ⟨n, rest, ?_, hpath⟩
              rw [FinMap.get_put, if_neg hdc, hd]

theorem inv_step {a : Action δ} {t : State δ} (h : ∃ label, Inv label s)
    (hsafe : detachSafe s a = true) (ht : step s a = some t) : ∃ label, Inv label t := by
  obtain ⟨label, h⟩ := h
  cases a with
  | subscribe segs sub =>
      refine ⟨label, inv_begin h ht ?_ ?_⟩
      · intro f hf
        refine ⟨rfl, ?_, ?_⟩
        · rw [h.shaped.root]
          rfl
        · rw [h.shaped.root]
          exact hf
      · intro sub' hsub
        cases hsub
        rfl
  | unsubscribe segs c =>
      refine ⟨label, inv_begin h ht ?_ (fun _ hsub => nomatch hsub)⟩
      intro f hf
      refine ⟨h.shaped.bound, ?_⟩
      rw [h.shaped.root]
      exact hf
  | next c =>
      obtain ⟨call, hcall, rfl⟩ := Option.map_eq_some_iff.mp ht
      obtain ⟨label', ha⟩ := exists_advanced h hcall hsafe
      exact ⟨label', inv_advanced h hcall ha⟩

/-- A client whose last call on a filter was subscribe, and has returned, is found by the
match walk for every topic that matches the filter, whatever other calls are doing. -/
theorem subscription_found (t : State δ) (actions : List (Action δ))
    (hsafe : Meets step (fun s a => detachSafe s a = true) actions newShard)
    (hrun : run step actions newShard = some t) (c filter topic : GoString) (sub : Subscriber δ)
    (hvalid : Protocol.validTopicFilter filter = true)
    (hplain : Protocol.parseSharedTopicFilter filter = none)
    (hlast : t.last c (splitFilter filter) = some sub) (hreturned : t.calls.get c = none)
    (hmatch : topicMatchesFilter topic filter = true) :
    ((t.heap.matchNode (splitFilter topic) 0 FinMap.empty).get c).isSome = true := by
  obtain ⟨label, hinv⟩ := invariant_run (fun _ _ _ h hsafe ht => inv_step h hsafe ht)
    ⟨_, inv_newShard⟩ hsafe hrun
  have hfind : t.heap.find (splitFilter filter) c = some sub := by
    cases hinv.kept c _ sub hlast with
    | inl hfind => exact hfind
    | inr hpending =>
        obtain ⟨n, rest, hcall, _⟩ := hpending
        rw [hreturned] at hcall
        cases hcall
  exact Heap.matchNode_finds (hashLast_splitFilter hvalid hplain) hmatch hfind FinMap.empty

def alice : Subscriber Unit := ⟨str "alice", 1, some ()⟩

def bob : Subscriber Unit := ⟨str "bob", 0, some ()⟩

/-- bob is subscribed to a, and in the middle of unsubscribing. -/
def bobLeaves : List (Action Unit) :=
  [.subscribe [str "a"] bob, .next (str "bob"), .next (str "bob"),
    .unsubscribe [str "a"] (str "bob"), .next (str "bob"), .next (str "bob")]

/-- alice begins before bob has detached the node, and reaches the trie after it. -/
def aliceAfter : List (Action Unit) :=
  [.subscribe [str "a"] alice, .next (str "bob"), .next (str "alice"), .next (str "alice")]

theorem subscription_found_after_detach :
    ∃ t, run step (bobLeaves ++ aliceAfter) newShard = some t ∧
      t.last (str "alice") (splitFilter (str "a")) = some alice ∧
      t.calls.get (str "alice") = none ∧
      ((t.heap.matchNode (splitFilter (str "a")) 0 FinMap.empty).get (str "alice")).isSome =
        true := by
  obtain ⟨t, hrun, hlast, hreturned⟩ := reaches_of_any step (bobLeaves ++ aliceAfter) newShard
    (fun t => t.last (str "alice") (splitFilter (str "a")) = some alice ∧
      t.calls.get (str "alice") = none) (by decide +kernel)
  exact ⟨t, hrun, hlast, hreturned, subscription_found t (bobLeaves ++ aliceAfter)
    (by decide +kernel) hrun (str "alice") (str "a") (str "a") alice (by decide) (by decide) hlast
    hreturned (by decide)⟩

/-- alice walks to the node while bob is about to detach it. -/
def aliceBetween : List (Action Unit) :=
  [.subscribe [str "a"] alice, .next (str "alice"), .next (str "bob"), .next (str "alice")]

/-- Both calls have returned, and alice is not found. -/
theorem detached_subscription_lost :
    ∃ t, run step (bobLeaves ++ aliceBetween) newShard = some t ∧
      t.last (str "alice") (splitFilter (str "a")) = some alice ∧ t.calls.isEmpty = true ∧
      topicMatchesFilter (str "a") (str "a") = true ∧
      (t.heap.matchNode (splitFilter (str "a")) 0 FinMap.empty).get (str "alice") = none :=
  reaches_of_any step (bobLeaves ++ aliceBetween) newShard
    (fun t => t.last (str "alice") (splitFilter (str "a")) = some alice ∧
      t.calls.isEmpty = true ∧ topicMatchesFilter (str "a") (str "a") = true ∧
      (t.heap.matchNode (splitFilter (str "a")) 0 FinMap.empty).get (str "alice") = none)
    (by decide +kernel)

end LumaBroker.Router.Interleaving
