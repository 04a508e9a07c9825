import Mathlib.Data.Option.Basic

/-!
Walks along keyed edges, for structures whose nodes are places that point at each
other. Two kinds of change leave a walk alone: new edges, and the loss of edges into
a place without children, which only ends a walk that ends there.
-/

namespace Walk
variable {P K : Type}

/-- The place a path of keys leads to. -/
def walk (child : P → K → Option P) : List K → P → Option P
  | [], p => some p
  | k :: ks, p => (child p k).bind (walk child ks)

theorem walk_append (child : P → K → Option P) (ks js : List K) (p : P) :
    walk child (ks ++ js) p = (walk child ks p).bind (walk child js) := by
  induction ks generalizing p with
  | nil => rfl
  | cons k ks ih =>
      cases hk : child p k with
      | none => simp [walk, hk]
      | some q => simpa [walk, hk] using ih q

theorem walk_concat (child : P → K → Option P) (ks : List K) (k : K) (p : P) :
    walk child (ks ++ [k]) p = (walk child ks p).bind fun q => child q k := by
  rw [walk_append]
  congr 1
  funext q
  simp [walk]

/-- If only edges into one childless place are lost, walks to other places are kept. -/
theorem walk_kept {child child' : P → K → Option P} {lost : P}
    (hkept : ∀ p k q, child p k = some q → q ≠ lost → child' p k = some q)
    (hleaf : ∀ k, child lost k = none) {ks : List K} {p q : P}
    (h : walk child ks p = some q) (hq : q ≠ lost) : walk child' ks p = some q := by
  induction ks generalizing p with
  | nil => exact h
  | cons k ks ih =>
      obtain ⟨r, hr, hrest⟩ := Option.bind_eq_some_iff.mp h
      have hne : r ≠ lost := by
        intro hlost
        cases ks with
        | nil => exact hq ((Option.some.inj hrest).symm.trans hlost)
        | cons j ks => simp [walk, hlost, hleaf] at hrest
      simp only [walk, hkept p k r hr hne, Option.bind_some]
      exact ih hrest

/-- Edges into a childless place do not matter for walks to other places. -/
theorem walk_congr {child child' : P → K → Option P} {spare : P}
    (hedge : ∀ p k q, q ≠ spare → (child p k = some q ↔ child' p k = some q))
    (hleaf : ∀ k, child spare k = none) (hleaf' : ∀ k, child' spare k = none) {ks : List K}
    {p q : P} (hq : q ≠ spare) : walk child ks p = some q ↔ walk child' ks p = some q :=
  ⟨fun h => walk_kept (fun p k q hpk hne => (hedge p k q hne).mp hpk) hleaf h hq,
    fun h => walk_kept (fun p k q hpk hne => (hedge p k q hne).mpr hpk) hleaf' h hq⟩

/-- Labels that grow by the key of each edge spell the walks. -/
theorem label_walk {child : P → K → Option P} {label : P → List K}
    (hlabel : ∀ p k q, child p k = some q → label q = label p ++ [k]) {ks : List K} {p q : P}
    (h : walk child ks p = some q) : label q = label p ++ ks := by
  induction ks generalizing p with
  | nil =>
      cases h
      exact (List.append_nil _).symm
  | cons k ks ih =>
      obtain ⟨r, hr, hrest⟩ := Option.bind_eq_some_iff.mp h
      rw [ih hrest, hlabel p k r hr, List.append_assoc, List.singleton_append]

end Walk
