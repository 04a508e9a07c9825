import LumaBroker.Lib.Transition
import LumaBroker.Router.Shared

/-!
subscribeShared, unsubscribeShared and removeClientFromAllShared by different clients,
interleaved at every lock-protected section. subscribeShared takes the group out of the
map under sharedMu and inserts its client later, under the lock of the group alone; the
other two delete the key of a group that they saw empty, also while a client that holds
the group has still to insert itself.

As long as a key is deleted only while its group is empty and nobody is about to insert
into it, every group that a subscribeShared holds stays in the map.
-/

namespace LumaBroker.Router.SharedInterleaving

open Transition
variable {δ : Type}

/-- The groups of a router, those no longer in the map included. -/
structure Groups (δ : Type) where
  group : Nat → SharedGroup δ
  next : Nat
  shared : FinMap GoString Nat

def Groups.keyOf (r : Groups δ) (g : Nat) : GoString :=
  sharedStoreKey (r.group g).shareName (r.group g).topicFilter

def Groups.setSubs (g : Nat) (subs : FinMap GoString (Subscriber δ)) (r : Groups δ) : Groups δ :=
  { r with group := Function.update r.group g { r.group g with subs := subs } }

def Groups.newGroup (shareName topicFilter : GoString) (r : Groups δ) : Groups δ where
  group := Function.update r.group r.next ⟨shareName, topicFilter, FinMap.empty, 0⟩
  next := r.next + 1
  shared := r.shared.set (sharedStoreKey shareName topicFilter) r.next

/-- The section of subscribeShared under sharedMu, with the group it takes along. -/
def Groups.getOrCreate (shareName topicFilter : GoString) (r : Groups δ) : Groups δ × Nat :=
  match r.shared.get (sharedStoreKey shareName topicFilter) with
  | some g => (r, g)
  | none => (r.newGroup shareName topicFilter, r.next)

/-- A call between two of its sections. From lock to the end of visiting the two calls that
remove a client hold sharedMu. -/
inductive Call (δ : Type) where
  | lookup (shareName topicFilter : GoString) (sub : Subscriber δ)
  | insert (g : Nat) (sub : Subscriber δ)
  /-- About to take sharedMu, for one key or for all. -/
  | lock (key : Option GoString)
  | visiting (todo : FinMap GoString Nat)
  | deleting (key : GoString) (empty : Bool) (todo : FinMap GoString Nat)

/-- The last operation of each client on each shared filter: the subscriber of a
subscribeShared, none after an operation that removes the client. -/
structure State (δ : Type) where
  groups : Groups δ
  sharedMu : Bool
  calls : FinMap GoString (Call δ)
  last : GoString → GoString → Option (Subscriber δ)

/-- The loop over the map visits the keys in no particular order. -/
inductive Action (δ : Type) where
  | subscribeShared (filter : GoString) (sub : Subscriber δ)
  | unsubscribeShared (filter clientID : GoString)
  | removeClientFromAllShared (clientID : GoString)
  | next (clientID : GoString)
  | visit (clientID key : GoString)

def storeKey (filter : GoString) : Option GoString :=
  (Protocol.parseSharedTopicFilter filter).map fun p => sharedStoreKey p.1 p.2

def begin (c : GoString) (last : GoString → Option (Subscriber δ)) (call : Call δ)
    (s : State δ) : Option (State δ) :=
  match s.calls.get c with
  | some _ => none
  | none => some { s with
      calls := s.calls.put c (some call)
      last := fun d => if d = c then last else s.last d }

/-- The groups a removal visits under sharedMu. -/
def toVisit (r : Groups δ) : Option GoString → FinMap GoString Nat
  | some key => FinMap.empty.put key (r.shared.get key)
  | none => r.shared

/-- The next section of a call: the groups, whether sharedMu is held, and what is left. -/
def advance (r : Groups δ) (sharedMu : Bool) : Call δ → Option (Groups δ × Bool × Option (Call δ))
  | .lookup shareName topicFilter sub =>
      if sharedMu then none
      else
        let (r, g) := r.getOrCreate shareName topicFilter
        some (r, false, some (.insert g sub))
  | .insert g sub =>
      some (r.setSubs g ((r.group g).subs.set sub.clientID sub), sharedMu, none)
  | .lock key => if sharedMu then none else some (r, true, some (.visiting (toVisit r key)))
  | .visiting todo => if todo.isEmpty then some (r, false, none) else none
  | .deleting key empty todo =>
      let shared := if empty then r.shared.erase key else r.shared
      some ({ r with shared := shared }, sharedMu, some (.visiting todo))

/-- The section under the lock of one group. -/
def visit (c key : GoString) (r : Groups δ) : Call δ → Option (Groups δ × Option (Call δ))
  | .visiting todo =>
      (todo.get key).map fun g =>
        let subs := (r.group g).subs.erase c
        (r.setSubs g subs, some (.deleting key subs.isEmpty (todo.erase key)))
  | _ => none

def step (s : State δ) : Action δ → Option (State δ)
  | .subscribeShared filter sub =>
      (Protocol.parseSharedTopicFilter filter).bind fun (shareName, topicFilter) =>
        begin sub.clientID (fun f => if f = filter then some sub else s.last sub.clientID f)
          (.lookup shareName topicFilter sub) s
  | .unsubscribeShared filter c =>
      (storeKey filter).bind fun key =>
        begin c (fun f => if f = filter then none else s.last c f) (.lock (some key)) s
  | .removeClientFromAllShared c => begin c (fun _ => none) (.lock none) s
  | .next c =>
      (s.calls.get c).bind fun call =>
        (advance s.groups s.sharedMu call).map fun (r, sharedMu, rest) =>
          { s with groups := r, sharedMu := sharedMu, calls := s.calls.put c rest }
  | .visit c key =>
      (s.calls.get c).bind fun call =>
        (visit c key s.groups call).map fun (r, rest) =>
          { s with groups := r, calls := s.calls.put c rest }

def newRouter : State δ where
  groups := ⟨fun _ => ⟨[], [], FinMap.empty, 0⟩, 0, FinMap.empty⟩
  sharedMu := false
  calls := FinMap.empty
  last := fun _ _ => none

def insertingAt (calls : FinMap GoString (Call δ)) (g : Nat) : Bool :=
  calls.entries.any fun e =>
    match e.2 with
    | .insert g' _ => g' = g
    | _ => false

/-- If the step deletes a key, its group is empty still and no subscribeShared holds it. -/
def deleteSafe (s : State δ) (a : Action δ) : Bool :=
  match a with
  | .next c =>
      match s.calls.get c with
      | some (.deleting key true _) =>
          (s.groups.shared.get key).all fun g =>
            (s.groups.group g).subs.isEmpty && !insertingAt s.calls g
      | _ => true
  | _ => true

def Member (r : Groups δ) (key c : GoString) (sub : Subscriber δ) : Prop :=
  ∃ g, r.shared.get key = some g ∧ (r.group g).subs.get c = some sub

/-- A subscribeShared that has not inserted its client yet. -/
def Subscribing (r : Groups δ) (key : GoString) (sub : Subscriber δ) : Call δ → Prop
  | .lookup shareName topicFilter sub' => sub' = sub ∧ sharedStoreKey shareName topicFilter = key
  | .insert g sub' => sub' = sub ∧ r.keyOf g = key
  | _ => False

/-- The client's last operation on the filter of the key was a removal. -/
def Left (last : GoString → Option (Subscriber δ)) (key : GoString) : Prop :=
  ∀ filter, storeKey filter = some key → last filter = none

def VisitOk (r : Groups δ) (last : GoString → Option (Subscriber δ)) (todo : FinMap GoString Nat) :
    Prop :=
  ∀ key g, todo.get key = some g → g < r.next ∧ r.keyOf g = key ∧ Left last key

/-- What a call in progress of a client may rely on, given its last operations. -/
def CallOk (r : Groups δ) (last : GoString → Option (Subscriber δ)) (c : GoString) :
    Call δ → Prop
  | .lookup shareName topicFilter sub => sub.clientID = c ∧
      ∃ filter, storeKey filter = some (sharedStoreKey shareName topicFilter) ∧
        last filter = some sub
  | .insert g sub => sub.clientID = c ∧ r.shared.get (r.keyOf g) = some g ∧
      ∃ filter, storeKey filter = some (r.keyOf g) ∧ last filter = some sub
  | .lock (some key) => Left last key
  | .lock none => ∀ key, Left last key
  | .visiting todo | .deleting _ _ todo => VisitOk r last todo

/-- Every group of the map is stored under its own key, so under no other. -/
def Groups.Keyed (r : Groups δ) : Prop :=
  ∀ key g, r.shared.get key = some g → g < r.next ∧ r.keyOf g = key

structure Inv (s : State δ) : Prop where
  keyed : s.groups.Keyed
  calls : ∀ c call, s.calls.get c = some call → CallOk s.groups (s.last c) c call
  kept : ∀ c filter key sub, storeKey filter = some key → s.last c filter = some sub →
    Member s.groups key c sub ∨
      ∃ call, s.calls.get c = some call ∧ Subscribing s.groups key sub call

theorem inv_newRouter : Inv (newRouter : State δ) where
  keyed _ _ h := by cases h
  calls _ _ h := by cases h
  kept _ _ _ _ _ h := by cases h

theorem storeKey_injective {f f' key : GoString} (h : storeKey f = some key)
    (h' : storeKey f' = some key) : f = f' := by
  obtain ⟨⟨name, inner⟩, hf, hkey⟩ := Option.map_eq_some_iff.mp h
  obtain ⟨⟨name', inner'⟩, hf', hkey'⟩ := Option.map_eq_some_iff.mp h'
  exact filter_eq_of_key_eq hf hf' (hkey.trans hkey'.symm)

theorem keyOf_setSubs (g : Nat) (subs : FinMap GoString (Subscriber δ)) (r : Groups δ) (g' : Nat) :
    (r.setSubs g subs).keyOf g' = r.keyOf g' := by
  by_cases hg : g' = g
  · subst hg
    simp [Groups.keyOf, Groups.setSubs]
  · simp [Groups.keyOf, Groups.setSubs, hg]

theorem keyed_setSubs {r : Groups δ} (h : r.Keyed) (g : Nat)
    (subs : FinMap GoString (Subscriber δ)) : (r.setSubs g subs).Keyed := by
  intro key g' hg'
  rw [keyOf_setSubs]
  exact h key g' hg'

theorem keyed_erase {r : Groups δ} (h : r.Keyed) (key : GoString) :
    Groups.Keyed { r with shared := r.shared.erase key } := by
  intro key' g hg
  change (r.shared.erase key).get key' = some g at hg
  rw [FinMap.get_erase] at hg
  split_ifs at hg
  exact h key' g hg

theorem keyOf_newGroup (name filter : GoString) (r : Groups δ) :
    (r.newGroup name filter).keyOf r.next = sharedStoreKey name filter := by
  simp [Groups.keyOf, Groups.newGroup]

theorem group_newGroup (name filter : GoString) {r : Groups δ} {g : Nat} (hg : g < r.next) :
    (r.newGroup name filter).group g = r.group g :=
  Function.update_of_ne (Nat.ne_of_lt hg) _ _

theorem keyOf_newGroup_of_lt (name filter : GoString) {r : Groups δ} {g : Nat} (hg : g < r.next) :
    (r.newGroup name filter).keyOf g = r.keyOf g := by
  rw [Groups.keyOf, group_newGroup name filter hg, Groups.keyOf]

theorem keyed_newGroup {r : Groups δ} (h : r.Keyed) (name filter : GoString) :
    (r.newGroup name filter).Keyed := by
  intro key g hg
  change (r.shared.set _ _).get key = some g at hg
  change g < r.next + 1 ∧ _
  rw [FinMap.get_set] at hg
  split_ifs at hg with hkey
  · cases hg
    exact ⟨Nat.lt_succ_self _, (keyOf_newGroup name filter r).trans hkey.symm⟩
  · obtain ⟨hlt, hold⟩ := h key g hg
    exact ⟨Nat.lt_succ_of_lt hlt, (keyOf_newGroup_of_lt name filter hlt).trans hold⟩

/-- What a section of a call does, seen from the other calls and from the members. -/
structure Advanced (s : State δ) (c : GoString) (call : Call δ) (r : Groups δ)
    (rest : Option (Call δ)) : Prop where
  keyed : r.Keyed
  keys : ∀ g, g < s.groups.next → r.keyOf g = s.groups.keyOf g
  next : s.groups.next ≤ r.next
  holds : ∀ d g sub, d ≠ c → s.calls.get d = some (.insert g sub) →
    r.shared.get (s.groups.keyOf g) = some g
  members : ∀ d filter key sub, storeKey filter = some key → s.last d filter = some sub →
    Member s.groups key d sub → Member r key d sub
  own : ∀ call', rest = some call' → CallOk r (s.last c) c call'
  subscribed : ∀ key sub, Subscribing s.groups key sub call → Member r key c sub ∨
    ∃ call', rest = some call' ∧ Subscribing r key sub call'

variable {s : State δ} {c : GoString} {call : Call δ} {r : Groups δ} {rest : Option (Call δ)}

theorem Inv.insert_lt (h : Inv s) {d : GoString} {g : Nat} {sub : Subscriber δ}
    (hd : s.calls.get d = some (.insert g sub)) : g < s.groups.next :=
  (h.keyed _ g (h.calls d _ hd).2.1).1

theorem VisitOk.mono {last : GoString → Option (Subscriber δ)} {todo : FinMap GoString Nat}
    {r r' : Groups δ} (h : VisitOk r last todo) (hkeys : ∀ g, g < r.next → r'.keyOf g = r.keyOf g)
    (hnext : r.next ≤ r'.next) : VisitOk r' last todo := by
  intro key g hg
  obtain ⟨hlt, hkey, hleft⟩ := h key g hg
  exact ⟨Nat.lt_of_lt_of_le hlt hnext, (hkeys g hlt).trans hkey, hleft⟩

theorem inv_advanced (h : Inv s) (hcall : s.calls.get c = some call)
    (ha : Advanced s c call r rest) (sharedMu : Bool) :
    Inv { s with groups := r, sharedMu := sharedMu, calls := s.calls.put c rest } := by
  refine ⟨ha.keyed, ?_, ?_⟩
  · intro d call' hd
    change (s.calls.put c rest).get d = some call' at hd
    change CallOk r (s.last d) d call'
    rw [FinMap.get_put] at hd
    split_ifs at hd with hdc
    · rw [hdc]
      exact ha.own call' hd
    · have hok := h.calls d call' hd
      cases call' with
      | lookup name filter sub => exact hok
      | insert g sub =>
          rw [CallOk, ha.keys g (h.insert_lt hd)]
          exact ⟨hok.1, ha.holds d g sub hdc hd, hok.2.2⟩
      | lock key => cases key <;> exact hok
      | visiting todo => exact VisitOk.mono hok ha.keys ha.next
      | deleting key empty todo => exact VisitOk.mono hok ha.keys ha.next
  · intro d filter key sub hkey hlast
    change Member r key d sub ∨ ∃ call, (s.calls.put c rest).get d = some call ∧ _
    cases h.kept d filter key sub hkey hlast with
    | inl hmember => exact .inl (ha.members d filter key sub hkey hlast hmember)
    | inr hpending =>
        obtain ⟨call', hd, hsub⟩ := hpending
        rw [FinMap.get_put]
        split_ifs with hdc
        · rw [hdc, hcall] at hd
          cases hd
          rw [hdc]
          exact ha.subscribed key sub hsub
        · refine .inr ⟨call', hd, ?_⟩
          cases call' with
          | insert g sub' =>
              rw [Subscribing, ha.keys g (h.insert_lt hd)]
              exact hsub
          | _ => exact hsub

theorem advanced_unchanged (h : Inv s)
    (hown : ∀ call', rest = some call' → CallOk s.groups (s.last c) c call')
    (hsub : ∀ key sub, Subscribing s.groups key sub call →
      ∃ call', rest = some call' ∧ Subscribing s.groups key sub call') :
    Advanced s c call s.groups rest where
  keyed := h.keyed
  keys _ _ := rfl
  next := le_rfl
  holds d _ _ _ hd := (h.calls d _ hd).2.1
  members _ _ _ _ _ _ hmember := hmember
  own := hown
  subscribed key sub h := .inr (hsub key sub h)

theorem subs_setSubs (g : Nat) (subs : FinMap GoString (Subscriber δ)) (r : Groups δ) (g' : Nat) :
    ((r.setSubs g subs).group g').subs = if g' = g then subs else (r.group g').subs := by
  by_cases hg : g' = g
  · subst hg
    simp [Groups.setSubs]
  · simp [Groups.setSubs, hg]

theorem advanced_setSubs (h : Inv s) {g : Nat} {subs : FinMap GoString (Subscriber δ)}
    (hsubs : ∀ d filter sub, storeKey filter = some (s.groups.keyOf g) →
      s.last d filter = some sub →
      (s.groups.group g).subs.get d = some sub → subs.get d = some sub)
    (hown : ∀ call', rest = some call' → CallOk (s.groups.setSubs g subs) (s.last c) c call')
    (hsub : ∀ key sub, Subscribing s.groups key sub call →
      s.groups.shared.get key = some g ∧ subs.get c = some sub) :
    Advanced s c call (s.groups.setSubs g subs) rest where
  keyed := keyed_setSubs h.keyed g subs
  keys g' _ := keyOf_setSubs g subs s.groups g'
  next := le_rfl
  holds d _ _ _ hd := (h.calls d _ hd).2.1
  members d filter key sub hkey hlast hmember := by
    obtain ⟨g', hg', hget⟩ := hmember
    refine ⟨g', hg', ?_⟩
    rw [subs_setSubs]
    split_ifs with heq
    · rw [heq] at hget
      have hsame := (h.keyed key g' hg').2
      rw [heq] at hsame
      exact hsubs d filter sub (hsame ▸ hkey) hlast hget
    · exact hget
  own := hown
  subscribed key sub h := by
    obtain ⟨hg, hget⟩ := hsub key sub h
    refine .inl ⟨g, hg, ?_⟩
    rw [subs_setSubs, if_pos rfl]
    exact hget

theorem advanced_insert {g : Nat} {sub : Subscriber δ} (h : Inv s)
    (hok : CallOk s.groups (s.last c) c (.insert g sub)) :
    Advanced s c (.insert g sub)
      (s.groups.setSubs g ((s.groups.group g).subs.set sub.clientID sub)) none := by
  obtain ⟨hid, hheld, filter, hkey, hlast⟩ := hok
  refine advanced_setSubs h ?_ (fun _ hrest => nomatch hrest) ?_
  · intro d filter' sub' hkey' hlast' hget
    rw [FinMap.get_set]
    split_ifs with hd
    · rw [hd, hid, ← storeKey_injective hkey hkey', hlast] at hlast'
      exact hlast'
    · exact hget
  · intro key sub' hsub
    obtain ⟨rfl, rfl⟩ := hsub
    refine ⟨hheld, ?_⟩
    rw [← hid]
    exact FinMap.get_set_self _ _ _

theorem advanced_visit {key : GoString} {todo : FinMap GoString Nat} (h : Inv s)
    (hok : VisitOk s.groups (s.last c) todo)
    (hvisit : visit c key s.groups (.visiting todo) = some (r, rest)) :
    Advanced s c (.visiting todo) r rest := by
  obtain ⟨g, hg, hpair⟩ := Option.map_eq_some_iff.mp hvisit
  cases hpair
  obtain ⟨_, hkey, hleft⟩ := hok key g hg
  refine advanced_setSubs h ?_ ?_ (fun _ _ hsub => nomatch hsub)
  · intro d filter sub hfilter hlast hget
    rw [FinMap.get_erase]
    split_ifs with hd
    · rw [hd, hleft filter (hkey ▸ hfilter)] at hlast
      cases hlast
    · exact hget
  · intro call' hrest
    cases hrest
    intro key' g' hg'
    rw [FinMap.get_erase] at hg'
    split_ifs at hg'
    rw [keyOf_setSubs]
    exact hok key' g' hg'

/-- A subscribeShared that finds its group, or creates it, has the group of the map. -/
theorem advanced_getOrCreate {name filter : GoString} {sub : Subscriber δ} (h : Inv s)
    (hok : CallOk s.groups (s.last c) c (.lookup name filter sub)) :
    Advanced s c (.lookup name filter sub) (s.groups.getOrCreate name filter).1
      (some (.insert (s.groups.getOrCreate name filter).2 sub)) := by
  obtain ⟨hid, hlast⟩ := hok
  cases hget : s.groups.shared.get (sharedStoreKey name filter) with
  | some g =>
      have hkey := (h.keyed _ g hget).2
      simp only [Groups.getOrCreate, hget]
      refine advanced_unchanged h ?_ ?_
      · intro call' hcall'
        cases hcall'
        rw [CallOk, hkey]
        exact ⟨hid, hget, hlast⟩
      · intro key sub' hsub
        exact ⟨_, rfl, hsub.1, hkey.trans hsub.2⟩
  | none =>
      have hnew := keyOf_newGroup name filter s.groups
      have hshared {key : GoString} {g : Nat} (hg : s.groups.shared.get key = some g) :
          (s.groups.newGroup name filter).shared.get key = some g := by
        have hne : key ≠ sharedStoreKey name filter := by
          intro hkey
          rw [hkey, hget] at hg
          cases hg
        exact (FinMap.get_set_ne _ _ hne).trans hg
      have hself : (s.groups.newGroup name filter).shared.get (sharedStoreKey name filter) =
          some s.groups.next := FinMap.get_set_self _ _ _
      simp only [Groups.getOrCreate, hget]
      refine ⟨keyed_newGroup h.keyed name filter, ?_, Nat.le_succ _, ?_, ?_, ?_, ?_⟩
      · intro g hg
        exact keyOf_newGroup_of_lt name filter hg
      · intro d g sub' _ hd
        exact hshared (h.calls d _ hd).2.1
      · intro d filter' key sub' _ _ hmember
        obtain ⟨g, hg, hsub⟩ := hmember
        refine ⟨g, hshared hg, ?_⟩
        rw [group_newGroup name filter (h.keyed key g hg).1]
        exact hsub
      · intro call' hcall'
        cases hcall'
        rw [CallOk, hnew]
        exact ⟨hid, hself, hlast⟩
      · intro key sub' hsub
        exact .inr ⟨_, rfl, hsub.1, hnew.trans hsub.2⟩

theorem visitOk_toVisit (h : Inv s) {key : Option GoString}
    (hok : CallOk s.groups (s.last c) c (.lock key)) :
    VisitOk s.groups (s.last c) (toVisit s.groups key) := by
  intro key' g hg
  cases key with
  | none =>
      obtain ⟨hlt, hkey⟩ := h.keyed key' g hg
      exact ⟨hlt, hkey, hok key'⟩
  | some key =>
      rw [toVisit, FinMap.get_put] at hg
      split_ifs at hg with heq
      · obtain ⟨hlt, hkey⟩ := h.keyed key g hg
        rw [heq]
        exact ⟨hlt, hkey, hok⟩
      · cases hg

theorem insertingAt_eq_false {calls : FinMap GoString (Call δ)} {g : Nat}
    (h : insertingAt calls g = false) {d : GoString} {sub : Subscriber δ} {g' : Nat}
    (hd : calls.get d = some (.insert g' sub)) : g' ≠ g := by
  simpa using FinMap.any_entries_eq_false h hd

/-- Deleting a key drops no member and no group that somebody holds. -/
theorem advanced_erase {key : GoString} {todo : FinMap GoString Nat} (h : Inv s)
    (hok : VisitOk s.groups (s.last c) todo)
    (hsafe : ∀ g, s.groups.shared.get key = some g →
      (s.groups.group g).subs.isEmpty = true ∧ insertingAt s.calls g = false) :
    Advanced s c (.deleting key true todo)
      { s.groups with shared := s.groups.shared.erase key } (some (.visiting todo)) := by
  refine ⟨keyed_erase h.keyed key, fun _ _ => rfl, le_rfl, ?_, ?_, ?_,
    fun _ _ hsub => nomatch hsub⟩
  · intro d g sub _ hd
    have hheld := (h.calls d _ hd).2.1
    have hne : s.groups.keyOf g ≠ key := by
      intro hkey
      exact insertingAt_eq_false (hsafe g (hkey ▸ hheld)).2 hd rfl
    exact (FinMap.get_erase_ne _ hne).trans hheld
  · intro d filter key' sub _ _ hmember
    obtain ⟨g, hg, hget⟩ := hmember
    have hne : key' ≠ key := by
      intro hkey
      have hempty := (FinMap.isEmpty_iff _).mp (hsafe g (hkey ▸ hg)).1 d
      rw [hget] at hempty
      cases hempty
    exact ⟨g, (FinMap.get_erase_ne _ hne).trans hg, hget⟩
  · intro call' hrest
    cases hrest
    exact hok

theorem advanced_next {sharedMu : Bool} (h : Inv s) (hcall : s.calls.get c = some call)
    (hsafe : deleteSafe s (.next c) = true)
    (hadv : advance s.groups s.sharedMu call = some (r, sharedMu, rest)) :
    Advanced s c call r rest := by
  have hok := h.calls c call hcall
  cases call with
  | lookup name filter sub =>
      simp only [advance] at hadv
      split_ifs at hadv
      cases hadv
      exact advanced_getOrCreate h hok
  | insert g sub =>
      cases hadv
      exact advanced_insert h hok
  | lock key =>
      simp only [advance] at hadv
      split_ifs at hadv
      cases hadv
      refine advanced_unchanged h ?_ (fun _ _ hsub => nomatch hsub)
      intro call' hrest
      cases hrest
      exact visitOk_toVisit h hok
  | visiting todo =>
      simp only [advance] at hadv
      split_ifs at hadv
      cases hadv
      exact advanced_unchanged h (fun _ hrest => nomatch hrest) (fun _ _ hsub => nomatch hsub)
  | deleting key empty todo =>
      cases hadv
      cases empty with
      | false =>
          refine advanced_unchanged h ?_ (fun _ _ hsub => nomatch hsub)
          intro call' hrest
          cases hrest
          exact hok
      | true =>
          refine advanced_erase h hok ?_
          intro g hg
          simpa [deleteSafe, hcall, hg] using hsafe

theorem inv_begin {t : State δ} {last : GoString → Option (Subscriber δ)} (h : Inv s)
    (ht : begin c last call s = some t) (hok : CallOk s.groups last c call)
    (hkept : ∀ filter key sub, storeKey filter = some key → last filter = some sub →
      s.last c filter = some sub ∨ Subscribing s.groups key sub call) : Inv t := by
  cases hget : s.calls.get c with
  | some busy => simp [begin, hget] at ht
  | none =>
      simp only [begin, hget, Option.some.injEq] at ht
      subst ht
      refine ⟨h.keyed, ?_, ?_⟩
      · intro d call' hd
        change (s.calls.put c (some call)).get d = some call' at hd
        change CallOk s.groups (if d = c then last else s.last d) d call'
        rw [FinMap.get_put] at hd
        split_ifs at hd with hdc
        · cases hd
          rw [if_pos hdc, hdc]
          exact hok
        · rw [if_neg hdc]
          exact h.calls d call' hd
      · intro d filter key sub hkey hlast
        change (if d = c then last else s.last d) filter = some sub at hlast
        change Member s.groups key d sub ∨ ∃ call', (s.calls.put c (some call)).get d = _ ∧ _
        rw [FinMap.get_put]
        split_ifs at hlast ⊢ with hdc
        · cases hkept filter key sub hkey hlast with
          | inr hsub => exact .inr ⟨call, rfl, hsub⟩
          | inl hold =>
              cases h.kept c filter key sub hkey hold with
              | inl hmember => exact .inl (hdc ▸ hmember)
              | inr hpending =>
                  obtain ⟨call', hcall', _⟩ := hpending
                  rw [hget] at hcall'
                  cases hcall'
        · exact h.kept d filter key sub hkey hlast

theorem inv_step {a : Action δ} {t : State δ} (h : Inv s) (hsafe : deleteSafe s a = true)
    (ht : step s a = some t) : Inv t := by
  cases a with
  | subscribeShared filter sub =>
      obtain ⟨⟨name, inner⟩, hparse, ht⟩ := Option.bind_eq_some_iff.mp ht
      have hkey : storeKey filter = some (sharedStoreKey name inner) := by
        rw [storeKey, hparse, Option.map_some]
      refine inv_begin h ht ⟨rfl, filter, hkey, if_pos rfl⟩ ?_
      intro filter' key' sub' hkey' hlast
      split_ifs at hlast with hsame
      · cases hlast
        rw [hsame, hkey] at hkey'
        exact .inr ⟨rfl, Option.some.inj hkey'⟩
      · exact .inl hlast
  | unsubscribeShared filter c =>
      obtain ⟨key, hkey, ht⟩ := Option.bind_eq_some_iff.mp ht
      refine inv_begin h ht ?_ ?_
      · intro filter' hkey'
        exact if_pos (storeKey_injective hkey' hkey)
      · intro filter' key' sub' _ hlast
        split_ifs at hlast
        exact .inl hlast
  | removeClientFromAllShared c =>
      exact inv_begin h ht (fun _ _ _ => rfl) (fun _ _ _ _ hlast => nomatch hlast)
  | next c =>
      obtain ⟨call, hcall, ht⟩ := Option.bind_eq_some_iff.mp ht
      obtain ⟨⟨r, sharedMu, rest⟩, hadv, rfl⟩ := Option.map_eq_some_iff.mp ht
      exact inv_advanced h hcall (advanced_next h hcall hsafe hadv) sharedMu
  | visit c key =>
      obtain ⟨call, hcall, ht⟩ := Option.bind_eq_some_iff.mp ht
      obtain ⟨⟨r, rest⟩, hvisit, rfl⟩ := Option.map_eq_some_iff.mp ht
      cases call with
      | visiting todo =>
          exact inv_advanced h hcall (advanced_visit h (h.calls c _ hcall) hvisit) s.sharedMu
      | _ => cases hvisit

/-- A client whose last operation on a shared filter was subscribeShared, and has returned,
is a member of the group that the map has under the key of the filter. -/
theorem shared_member_kept (t : State δ) (actions : List (Action δ))
    (hsafe : Meets step (fun s a => deleteSafe s a = true) actions newRouter)
    (hrun : run step actions newRouter = some t)
    (c filter shareName topicFilter : GoString) (sub : Subscriber δ)
    (hparse : Protocol.parseSharedTopicFilter filter = some (shareName, topicFilter))
    (hlast : t.last c filter = some sub) (hreturned : t.calls.get c = none) :
    ∃ g, t.groups.shared.get (sharedStoreKey shareName topicFilter) = some g ∧
      (t.groups.group g).subs.get c = some sub := by
  have hinv := invariant_run (fun _ _ _ h hsafe ht => inv_step h hsafe ht) inv_newRouter hsafe hrun
  have hkey : storeKey filter = some (sharedStoreKey shareName topicFilter) := by
    rw [storeKey, hparse, Option.map_some]
  cases hinv.kept c filter _ sub hkey hlast with
  | inl hmember => exact hmember
  | inr hpending =>
      obtain ⟨call, hcall, _⟩ := hpending
      rw [hreturned] at hcall
      cases hcall

def jobs : GoString := str "$share/g/jobs"

def jobsKey : GoString := sharedStoreKey (str "g") (str "jobs")

def alice : Subscriber Unit := ⟨str "alice", 1, some ()⟩

def bob : Subscriber Unit := ⟨str "bob", 0, some ()⟩

def bobJoins : List (Action Unit) :=
  [.subscribeShared jobs bob, .next (str "bob"), .next (str "bob")]

def bobLeaves : List (Action Unit) :=
  [.unsubscribeShared jobs (str "bob"), .next (str "bob"), .visit (str "bob") jobsKey,
    .next (str "bob"), .next (str "bob")]

def aliceJoins : List (Action Unit) :=
  [.subscribeShared jobs alice, .next (str "alice"), .next (str "alice")]

theorem shared_member_kept_after_leave :
    ∃ t, run step (bobJoins ++ bobLeaves ++ aliceJoins) newRouter = some t ∧
      t.last (str "alice") jobs = some alice ∧ t.calls.get (str "alice") = none ∧
      ∃ g, t.groups.shared.get (sharedStoreKey (str "g") (str "jobs")) = some g ∧
        (t.groups.group g).subs.get (str "alice") = some alice := by
  obtain ⟨t, hrun, hlast, hreturned⟩ :=
    reaches_of_any step (bobJoins ++ bobLeaves ++ aliceJoins) newRouter
      (fun t => t.last (str "alice") jobs = some alice ∧ t.calls.get (str "alice") = none)
      (by decide +kernel)
  exact ⟨t, hrun, hlast, hreturned,
    shared_member_kept t (bobJoins ++ bobLeaves ++ aliceJoins) (by decide +kernel) hrun
      (str "alice") jobs (str "g") (str "jobs") alice (by decide +kernel) hlast hreturned⟩

/-- alice takes the group of bob along, and bob leaves before alice is inserted. -/
def aliceAroundBob : List (Action Unit) :=
  bobJoins ++ aliceJoins.take 2 ++ bobLeaves ++ aliceJoins.drop 2

/-- carol, who has no subscription at all, is removed from all groups while the new group of
alice is still empty. -/
def aliceAroundCarol : List (Action Unit) :=
  aliceJoins.take 2 ++
    [.removeClientFromAllShared (str "carol"), .next (str "carol"), .visit (str "carol") jobsKey,
      .next (str "carol"), .next (str "carol")] ++
    aliceJoins.drop 2

/-- In both runs all calls have returned, and the map has no group for the filter that alice
subscribed to. -/
theorem deleted_group_loses_member :
    (∃ t, run step aliceAroundBob newRouter = some t ∧ t.last (str "alice") jobs = some alice ∧
      t.calls.isEmpty = true ∧ t.groups.shared.get jobsKey = none) ∧
    ∃ t, run step aliceAroundCarol newRouter = some t ∧ t.last (str "alice") jobs = some alice ∧
      t.calls.isEmpty = true ∧ t.groups.shared.get jobsKey = none :=
  have hlost (actions : List (Action Unit)) := reaches_of_any step actions newRouter
    fun t => t.last (str "alice") jobs = some alice ∧ t.calls.isEmpty = true ∧
      t.groups.shared.get jobsKey = none
  ⟨hlost aliceAroundBob (by decide +kernel), hlost aliceAroundCarol (by decide +kernel)⟩

end LumaBroker.Router.SharedInterleaving
