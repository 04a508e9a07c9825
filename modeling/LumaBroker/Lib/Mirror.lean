import Mathlib.Data.List.Perm.Basic

/-!
A map that is copied into a store by writes which are executed one at a time and in any
order. Whether the store ends up equal to the map can be read off the writes that are
still pending: each must agree with the map, and so must the store where none of them
writes.
-/

namespace Mirror

variable {ω κ ν : Type} (effect : ω → κ → Option (Option ν))

/-- The store after a write. What a write does at a key is the value it leaves there, or
nothing. -/
def exec (store : κ → Option ν) (w : ω) : κ → Option ν := fun k => (effect w k).getD (store k)

def execAll (store : κ → Option ν) (order : List ω) : κ → Option ν :=
  order.foldl (exec effect) store

/-- The pending writes bring the store to the target. -/
structure Settles (store : κ → Option ν) (pending : List ω) (target : κ → Option ν) : Prop where
  written : ∀ w ∈ pending, ∀ k v, effect w k = some v → v = target k
  untouched : ∀ k, (∀ w ∈ pending, effect w k = none) → store k = target k

/-- Two writes that leave different values at one key. -/
def Conflict (w w' : ω) : Prop := ∃ k v v', effect w k = some v ∧ effect w' k = some v' ∧ v ≠ v'

section Rules
variable {effect} {store target target' : κ → Option ν} {pending rest : List ω} {w : ω} {k : κ}

theorem exec_of_some {v : Option ν} (h : effect w k = some v) : exec effect store w k = v := by
  rw [exec, h, Option.getD_some]

theorem exec_of_none (h : effect w k = none) : exec effect store w k = store k := by
  rw [exec, h, Option.getD_none]

theorem execAll_of_none {order : List ω} (h : ∀ w ∈ order, effect w k = none) :
    execAll effect store order k = store k := by
  induction order generalizing store with
  | nil => rfl
  | cons w order ih =>
      have hrest : execAll effect (exec effect store w) order k = exec effect store w k :=
        ih fun w' hw' => h w' (List.mem_cons_of_mem w hw')
      exact hrest.trans (exec_of_none (h w List.mem_cons_self))

theorem settles_nil : Settles effect store [] target ↔ store = target := by
  constructor
  · intro h
    exact funext fun k => h.untouched k fun w hw => by cases hw
  · rintro rfl
    exact ⟨fun w hw => absurd hw List.not_mem_nil, fun _ _ => rfl⟩

/-- Any of the pending writes may be the next. -/
theorem Settles.exec (h : Settles effect store pending target) (hperm : pending.Perm (w :: rest)) :
    Settles effect (exec effect store w) rest target where
  written w' hw' := h.written w' (hperm.mem_iff.mpr (List.mem_cons_of_mem w hw'))
  untouched k hk := by
    cases hw : effect w k with
    | some v =>
        rw [exec_of_some hw]
        exact h.written w (hperm.mem_iff.mpr List.mem_cons_self) k v hw
    | none =>
        rw [exec_of_none hw]
        refine h.untouched k fun w' hw' => ?_
        rcases List.mem_cons.mp (hperm.mem_iff.mp hw') with rfl | hmem
        · exact hw
        · exact hk w' hmem

theorem Settles.execAll {order : List ω} (h : Settles effect store order target) :
    execAll effect store order = target := by
  induction order generalizing store with
  | nil => exact settles_nil.mp h
  | cons w order ih => exact ih (h.exec (List.Perm.refl _))

theorem Settles.of_perm (h : Settles effect store pending target) (hperm : rest.Perm pending) :
    Settles effect store rest target where
  written w hw := h.written w (hperm.mem_iff.mp hw)
  untouched k hk := h.untouched k fun w hw => hk w (hperm.mem_iff.mpr hw)

/-- The writes settle on the target exactly when every order of them ends there. -/
theorem settles_iff : Settles effect store pending target ↔
    ∀ order, order.Perm pending → Mirror.execAll effect store order = target := by
  constructor
  · intro h order hperm
    exact (h.of_perm hperm).execAll
  · intro h
    constructor
    · intro w hw k v hv
      -- an order in which this write is the last
      obtain ⟨before, after, rfl⟩ := List.append_of_mem hw
      have hperm : (before ++ after ++ [w]).Perm (before ++ w :: after) := by
        rw [List.append_assoc]
        exact List.Perm.append_left before (List.perm_append_singleton w after)
      have hlast := congrFun (h _ hperm) k
      rw [Mirror.execAll, List.foldl_append, List.foldl_cons, List.foldl_nil, exec_of_some hv]
        at hlast
      exact hlast
    · intro k hk
      rw [← h pending (List.Perm.refl _), execAll_of_none hk]

/-- The target is determined. -/
theorem Settles.change_iff (h : Settles effect store pending target) :
    Settles effect store pending target' ↔ target' = target := by
  constructor
  · intro h'
    rw [← h.execAll, ← h'.execAll]
  · rintro rfl
    exact h

/-- A further write fits in exactly when it does to the target what it will do to the store,
and meets no other write for the same key. -/
theorem Settles.launch_iff (h : Settles effect store pending target) :
    Settles effect store (pending ++ [w]) target' ↔
      target' = Mirror.exec effect target w ∧ ∀ w' ∈ pending, ¬ Conflict effect w' w := by
  constructor
  · intro h'
    have hw : w ∈ pending ++ [w] := List.mem_append_right _ List.mem_cons_self
    have hold (w' : ω) (hmem : w' ∈ pending) : w' ∈ pending ++ [w] := List.mem_append_left _ hmem
    constructor
    · rw [← h'.execAll, ← h.execAll, Mirror.execAll, List.foldl_append]
      rfl
    · rintro w' hw' ⟨k, v', v, hv', hv, hne⟩
      exact hne ((h'.written w' (hold w' hw') k v' hv').trans (h'.written w hw k v hv).symm)
  · rintro ⟨rfl, hclear⟩
    constructor
    · intro w' hw' k v' hv'
      cases hk : effect w k with
      | none =>
          rw [exec_of_none hk]
          rcases List.mem_append.mp hw' with hmem | hmem
          · exact h.written w' hmem k v' hv'
          · cases List.mem_singleton.mp hmem
            rw [hk] at hv'
            cases hv'
      | some v =>
          rw [exec_of_some hk]
          rcases List.mem_append.mp hw' with hmem | hmem
          · by_contra hne
            exact hclear w' hmem ⟨k, v', v, hv', hk, hne⟩
          · cases List.mem_singleton.mp hmem
            exact Option.some.inj (hv'.symm.trans hk)
    · intro k hk
      rw [exec_of_none (hk w (List.mem_append_right _ List.mem_cons_self))]
      exact h.untouched k fun w' hmem => hk w' (List.mem_append_left _ hmem)

end Rules
end Mirror
