import LumaBroker.Router.SharedInterleaving

/-!
Calls on the shared groups that are not interleaved. Run one after another, the
lock-protected sections of a call change the map of groups as the call of the
sequential model does.
-/

namespace LumaBroker.Router.SharedInterleaving

open Transition
variable {δ : Type} {s : State δ} {c : GoString} {r : Groups δ}
  {groups : GoString → Option (SharedGroup δ)}

/-- The map of groups as the sequential model has it. -/
structure Represents (r : Groups δ) (groups : GoString → Option (SharedGroup δ)) : Prop where
  keyed : r.Keyed
  groups : ∀ key, groups key = (r.shared.get key).map r.group

theorem group_setSubs (g : Nat) (subs : FinMap GoString (Subscriber δ)) (r : Groups δ) (g' : Nat) :
    (r.setSubs g subs).group g' = if g' = g then { r.group g with subs := subs } else r.group g' :=
  Function.update_apply _ _ _ _

theorem represents_setSubs (hr : Represents r groups) {key : GoString} {g : Nat}
    (hg : r.shared.get key = some g) (subs : FinMap GoString (Subscriber δ)) :
    Represents (r.setSubs g subs)
      (Function.update groups key (some { r.group g with subs := subs })) where
  keyed := keyed_setSubs hr.keyed g subs
  groups key' := by
    change _ = (r.shared.get key').map _
    by_cases hkey : key' = key
    · rw [hkey, Function.update_self, hg, Option.map_some, group_setSubs, if_pos rfl]
    · rw [Function.update_of_ne hkey, hr.groups key']
      cases hg' : r.shared.get key' with
      | none => rfl
      | some g' =>
          have hne : g' ≠ g := by
            intro heq
            have hsame := (hr.keyed key' g' hg').2
            rw [heq, (hr.keyed key g hg).2] at hsame
            exact hkey hsame.symm
          rw [Option.map_some, Option.map_some, group_setSubs, if_neg hne]

theorem represents_erase (hr : Represents r groups) (key : GoString) :
    Represents { r with shared := r.shared.erase key } (Function.update groups key none) where
  keyed := keyed_erase hr.keyed key
  groups key' := by
    change _ = ((r.shared.erase key).get key').map r.group
    by_cases hkey : key' = key
    · rw [hkey, Function.update_self, FinMap.get_erase_self, Option.map_none]
    · rw [Function.update_of_ne hkey, hr.groups key', FinMap.get_erase_ne _ hkey]

/-- A group that is created is the one taken along. -/
theorem represents_getOrCreate (hr : Represents r groups) (name filter : GoString) :
    Represents (r.getOrCreate name filter).1 (Function.update groups (sharedStoreKey name filter)
        (some ((groups (sharedStoreKey name filter)).getD ⟨name, filter, FinMap.empty, 0⟩))) ∧
      (r.getOrCreate name filter).1.shared.get (sharedStoreKey name filter) =
        some (r.getOrCreate name filter).2 := by
  cases hget : r.shared.get (sharedStoreKey name filter) with
  | some g =>
      have hgroup : groups (sharedStoreKey name filter) = some (r.group g) := by
        rw [hr.groups, hget, Option.map_some]
      simp only [Groups.getOrCreate, hget]
      refine ⟨?_, trivial⟩
      rw [hgroup, Option.getD_some, ← hgroup, Function.update_eq_self]
      exact hr
  | none =>
      have hgroup : groups (sharedStoreKey name filter) = none := by
        rw [hr.groups, hget, Option.map_none]
      simp only [Groups.getOrCreate, hget, hgroup, Option.getD_none]
      refine ⟨⟨keyed_newGroup hr.keyed name filter, ?_⟩, FinMap.get_set_self _ _ _⟩
      intro key
      change _ = ((r.shared.set _ _).get key).map _
      by_cases hkey : key = sharedStoreKey name filter
      · rw [hkey, Function.update_self, FinMap.get_set_self, Option.map_some]
        simp [Groups.newGroup]
      · rw [Function.update_of_ne hkey, FinMap.get_set_ne _ _ hkey, hr.groups]
        apply Option.map_congr
        intro g hg
        exact (group_newGroup name filter (hr.keyed key g hg).1).symm

/-- A subscribeShared that no other call interrupts does what the sequential model says. -/
theorem subscribeShared_alone {router : Router δ} (hr : Represents s.groups router.shared.get)
    {filter name inner : GoString} (sub : Subscriber δ)
    (hparse : Protocol.parseSharedTopicFilter filter = some (name, inner))
    (hfree : s.sharedMu = false) (hidle : s.calls.get sub.clientID = none) :
    ∃ t, run step [.subscribeShared filter sub, .next sub.clientID, .next sub.clientID] s = some t ∧
      t.calls = s.calls ∧ t.sharedMu = false ∧
      Represents t.groups (subscribeShared name inner sub router).shared.get := by
  obtain ⟨hfound, hheld⟩ := represents_getOrCreate hr name inner
  have hgroup := hfound.groups (sharedStoreKey name inner)
  rw [Function.update_self, hheld, Option.map_some] at hgroup
  have hset := represents_setSubs hfound hheld
    (((s.groups.getOrCreate name inner).1.group (s.groups.getOrCreate name inner).2).subs.set
      sub.clientID sub)
  refine ⟨_, by
      simp only [run, step, hparse, begin, hidle, Option.bind_some, FinMap.get_put_self, advance,
        hfree, Option.map_some, Bool.false_eq_true, if_false]
      rfl, ?_, rfl, ?_⟩
  · change ((s.calls.put _ _).put _ _).put _ none = _
    rw [FinMap.put_put, FinMap.put_put]
    exact FinMap.erase_of_get_none hidle
  · refine ⟨hset.keyed, ?_⟩
    intro key
    refine Eq.trans ?_ (hset.groups key)
    rw [Function.update_idem, subscribeShared, FinMap.get_set, Function.update_apply,
      ← Option.some.inj hgroup]

/-- A group after both of its sections in a call that removes a client. -/
def Groups.dropClient (clientID key : GoString) (g : Nat) (r : Groups δ) : Groups δ :=
  let subs := (r.group g).subs.erase clientID
  let r := r.setSubs g subs
  { r with shared := if subs.isEmpty then r.shared.erase key else r.shared }

theorem represents_dropClient (hr : Represents r groups) {key : GoString} {g : Nat}
    (hg : r.shared.get key = some g) :
    Represents (r.dropClient c key g)
      (Function.update groups key ((groups key).bind (withoutClient c))) := by
  have hset := represents_setSubs hr hg ((r.group g).subs.erase c)
  rw [hr.groups key, hg, Option.map_some, Option.bind_some, withoutClient]
  by_cases hempty : ((r.group g).subs.erase c).isEmpty = true
  · have herase := represents_erase hset key
    rw [Function.update_idem] at herase
    simpa only [Groups.dropClient, hempty, if_true] using herase
  · simpa only [Groups.dropClient, hempty, Bool.false_eq_true, if_false] using hset

theorem shared_dropClient {key key' : GoString} (hkey : key' ≠ key) (g : Nat) :
    (r.dropClient c key g).shared.get key' = r.shared.get key' := by
  simp only [Groups.dropClient]
  split_ifs
  · exact FinMap.get_erase_ne _ hkey
  · rfl

theorem run_visit {todo : FinMap GoString Nat} (hcall : s.calls.get c = some (.visiting todo))
    {key : GoString} {g : Nat} (hg : todo.get key = some g) :
    run step [.visit c key, .next c] s = some { s with
      groups := s.groups.dropClient c key g
      calls := s.calls.put c (some (.visiting (todo.erase key))) } := by
  simp only [run, step, hcall, visit, hg, Option.bind_some, Option.map_some, FinMap.get_put_self,
    advance, FinMap.put_put]
  rfl

/-- The sections of one client's call. -/
def Own (c : GoString) : Action δ → Prop
  | .next d => d = c
  | .visit d _ => d = c
  | _ => False

/-- What is left when a client was removed from some of the groups. -/
def dropFrom (c : GoString) (todo : FinMap GoString Nat)
    (groups : GoString → Option (SharedGroup δ)) (key : GoString) : Option (SharedGroup δ) :=
  if (todo.get key).isSome then (groups key).bind (withoutClient c) else groups key

theorem dropFrom_erase {todo : FinMap GoString Nat} {key : GoString} {g : Nat}
    (hg : todo.get key = some g) :
    dropFrom c (todo.erase key)
        (Function.update groups key ((groups key).bind (withoutClient c))) =
      dropFrom c todo groups := by
  funext key'
  by_cases hkey : key' = key
  · simp [dropFrom, hkey, hg]
  · simp [dropFrom, hkey, FinMap.get_erase_ne]

/-- A call that holds sharedMu visits its groups and returns. -/
theorem exists_run_visiting {todo : FinMap GoString Nat} (hr : Represents s.groups groups)
    (hcall : s.calls.get c = some (.visiting todo))
    (htodo : ∀ key g, todo.get key = some g → s.groups.shared.get key = some g) :
    ∃ actions t, (∀ a ∈ actions, Own c a) ∧ run step actions s = some t ∧
      t.calls = s.calls.put c none ∧ t.sharedMu = false ∧
      Represents t.groups (dropFrom c todo groups) := by
  -- by the number of groups left
  induction hn : todo.entries.length generalizing s todo groups with
  | zero =>
      have hempty : todo.isEmpty = true := by
        rw [FinMap.isEmpty, List.isEmpty_iff_length_eq_zero, hn]
      have hsame : dropFrom c todo groups = groups := by
        funext key
        simp [dropFrom, (FinMap.isEmpty_iff todo).mp hempty key]
      refine ⟨[.next c], _, by simp [Own], by
        simp only [run, step, hcall, advance, hempty, if_true, Option.bind_some, Option.map_some]
        rfl, rfl, rfl, ?_⟩
      rw [hsame]
      exact hr
  | succ k ih =>
      obtain ⟨⟨key, g⟩, rest, hentries⟩ := List.exists_cons_of_length_eq_add_one hn
      have hg : todo.get key = some g := by
        apply (todo.mem_entries key g).mp
        rw [hentries]
        exact List.mem_cons_self
      have hdrop := @represents_dropClient δ c s.groups groups hr key g (htodo key g hg)
      have hrest : ∀ key' g', (todo.erase key).get key' = some g' →
          (s.groups.dropClient c key g).shared.get key' = some g' := by
        intro key' g' hg'
        rw [FinMap.get_erase] at hg'
        split_ifs at hg' with hkey
        rw [shared_dropClient hkey]
        exact htodo key' g' hg'
      have hlength : (todo.erase key).entries.length = k := by
        have hperm := (FinMap.entries_erase_perm hg).length_eq
        rw [List.length_cons] at hperm
        omega
      obtain ⟨actions, t, hown, hrun, hcalls, hmu, hrep⟩ := @ih { s with
          groups := s.groups.dropClient c key g
          calls := s.calls.put c (some (.visiting (todo.erase key))) }
        _ (todo.erase key) hdrop (FinMap.get_put_self _ _ _) hrest hlength
      rw [dropFrom_erase hg] at hrep
      refine ⟨[.visit c key, .next c] ++ actions, t, ?_, ?_, ?_, hmu, hrep⟩
      · intro a ha
        cases List.mem_append.mp ha with
        | inl hfirst =>
            simp only [List.mem_cons, List.not_mem_nil, or_false] at hfirst
            cases hfirst with
            | inl heq => exact heq ▸ rfl
            | inr heq => exact heq ▸ rfl
        | inr hlater => exact hown a hlater
      · rw [run_append, run_visit hcall hg]
        exact hrun
      · exact hcalls.trans (s.calls.put_put c _ none)

/-- The two removals take sharedMu, visit and return. -/
theorem exists_run_lock {key : Option GoString} {last : GoString → GoString → Option (Subscriber δ)}
    (hr : Represents s.groups groups) (hfree : s.sharedMu = false) (hidle : s.calls.get c = none) :
    ∃ actions t, (∀ a ∈ actions, Own c a) ∧
      run step actions { s with calls := s.calls.put c (some (.lock key)), last := last } = some t ∧
      t.calls = s.calls ∧ t.sharedMu = false ∧
      Represents t.groups (dropFrom c (toVisit s.groups key) groups) := by
  have htodo : ∀ key' g, (toVisit s.groups key).get key' = some g →
      s.groups.shared.get key' = some g := by
    intro key' g hg
    cases key with
    | none => exact hg
    | some key =>
        rw [toVisit, FinMap.get_put] at hg
        split_ifs at hg with hkey
        · rw [hkey]
          exact hg
        · cases hg
  obtain ⟨actions, t, hown, hrun, hcalls, hmu, hrep⟩ := @exists_run_visiting δ { s with
      sharedMu := true
      calls := s.calls.put c (some (.visiting (toVisit s.groups key)))
      last := last } c groups (toVisit s.groups key) hr (FinMap.get_put_self _ _ _) htodo
  refine ⟨.next c :: actions, t, ?_, ?_, ?_, hmu, hrep⟩
  · intro a ha
    cases List.mem_cons.mp ha with
    | inl heq => exact heq ▸ rfl
    | inr hlater => exact hown a hlater
  · simp only [run, step, FinMap.get_put_self, Option.bind_some, advance, hfree,
      Bool.false_eq_true, if_false, Option.map_some, FinMap.put_put]
    exact hrun
  · exact hcalls.trans ((s.calls.put_put c _ none).trans (FinMap.erase_of_get_none hidle))

theorem unsubscribeShared_alone {router : Router δ} (hr : Represents s.groups router.shared.get)
    {filter name inner : GoString} (c : GoString)
    (hparse : Protocol.parseSharedTopicFilter filter = some (name, inner))
    (hfree : s.sharedMu = false) (hidle : s.calls.get c = none) :
    ∃ actions t, (∀ a ∈ actions, Own c a) ∧
      run step (.unsubscribeShared filter c :: actions) s = some t ∧ t.calls = s.calls ∧
      t.sharedMu = false ∧
        Represents t.groups (unsubscribeShared name inner c router).shared.get := by
  have hkey : storeKey filter = some (sharedStoreKey name inner) := by
    rw [storeKey, hparse, Option.map_some]
  obtain ⟨actions, t, hown, hrun, hcalls, hmu, hrep⟩ := exists_run_lock hr hfree hidle
  refine ⟨actions, t, hown, ?_, hcalls, hmu, ?_⟩
  · simp only [run, step, hkey, begin, hidle, Option.bind_some]
    exact hrun
  · refine ⟨hrep.keyed, ?_⟩
    intro key'
    rw [← hrep.groups key', shared_unsubscribeShared, FinMap.get_put, dropFrom, toVisit,
      FinMap.get_put]
    split_ifs with heq hsome hsome
    · rw [heq]
    · -- no group, so there was nothing to remove
      rw [heq, hr.groups, Option.not_isSome_iff_eq_none.mp hsome]
      rfl
    · cases hsome
    · rfl

theorem removeClientFromAllShared_alone {router : Router δ}
    (hr : Represents s.groups router.shared.get) (c : GoString) (hfree : s.sharedMu = false)
    (hidle : s.calls.get c = none) :
    ∃ actions t, (∀ a ∈ actions, Own c a) ∧
      run step (.removeClientFromAllShared c :: actions) s = some t ∧ t.calls = s.calls ∧
      t.sharedMu = false ∧
      Represents t.groups (removeClientFromAllShared c router).1.shared.get := by
  obtain ⟨actions, t, hown, hrun, hcalls, hmu, hrep⟩ := exists_run_lock hr hfree hidle
  refine ⟨actions, t, hown, ?_, hcalls, hmu, ?_⟩
  · simp only [run, step, begin, hidle, Option.bind_some]
    exact hrun
  · refine ⟨hrep.keyed, ?_⟩
    intro key
    rw [← hrep.groups key, get_removeClientFromAllShared, dropFrom, toVisit]
    split_ifs with hsome
    · rfl
    · rw [hr.groups key, Option.not_isSome_iff_eq_none.mp hsome]
      rfl

end LumaBroker.Router.SharedInterleaving
