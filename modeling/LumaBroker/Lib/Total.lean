import LumaBroker.Lib.SortedMap
import Mathlib.Algebra.BigOperators.Group.List.Basic
import Mathlib.Algebra.Ring.Int.Defs

/-!
Sums over the values of a finite map. A map that changes one value at a time changes its total
by the difference, which is how a counter that is kept beside a map is compared with it.
-/

namespace FinMap
universe u v
variable {K : Type u} {V : Type v} [LinearOrder K] {m : FinMap K V} {k : K}

/-- The sum of a weight over the values. -/
def total (weight : V → Int) (m : FinMap K V) : Int := (m.entries.map fun e => weight e.2).sum

theorem total_set (weight : V → Int) (m : FinMap K V) (k : K) (v : V) :
    (m.set k v).total weight = weight v + (m.erase k).total weight := by
  rw [total, ((m.entries_set_perm k v).map _).sum_eq, List.map_cons, List.sum_cons, total]

theorem total_set_of_get_none (weight : V → Int) (v : V) (h : m.get k = none) :
    (m.set k v).total weight = m.total weight + weight v := by
  rw [total_set, erase_of_get_none h, Int.add_comm]

theorem total_set_of_get_some (weight : V → Int) {u : V} (v : V) (h : m.get k = some u) :
    (m.set k v).total weight + weight u = m.total weight + weight v := by
  have herase : m.total weight = weight u + (m.erase k).total weight := by
    rw [total, ((entries_erase_perm h).map _).sum_eq, List.map_cons, List.sum_cons, total]
  rw [total_set, herase]
  omega

/-- A total of weights that are not positive is zero when all of them are. -/
theorem total_eq_zero_iff {weight : V → Int} (h : ∀ k v, m.get k = some v → weight v ≤ 0) :
    m.total weight = 0 ↔ ∀ k v, m.get k = some v → weight v = 0 := by
  have hentries : ∀ entries : List (K × V), (∀ e ∈ entries, weight e.2 ≤ 0) →
      (entries.map fun e => weight e.2).sum ≤ 0 ∧
        ((entries.map fun e => weight e.2).sum = 0 ↔ ∀ e ∈ entries, weight e.2 = 0) := by
    intro entries hle
    induction entries with
    | nil => simp
    | cons e entries ih =>
        obtain ⟨hhead, htail⟩ := List.forall_mem_cons.mp hle
        obtain ⟨hsum, hiff⟩ := ih htail
        rw [List.map_cons, List.sum_cons, List.forall_mem_cons, ← hiff]
        omega
  have hmem (e : K × V) (he : e ∈ m.entries) : weight e.2 ≤ 0 :=
    h e.1 e.2 ((m.mem_entries e.1 e.2).mp he)
  rw [total, (hentries m.entries hmem).2]
  constructor
  · intro hzero k v hget
    exact hzero (k, v) ((m.mem_entries k v).mpr hget)
  · intro hzero e he
    exact hzero e.1 e.2 ((m.mem_entries e.1 e.2).mp he)

/-- How many of the values have a property. -/
def count (p : V → Bool) (m : FinMap K V) : Nat := m.entries.countP fun e => p e.2

theorem count_set_of_get_none (p : V → Bool) (v : V) (h : m.get k = none) :
    (m.set k v).count p = m.count p + if p v then 1 else 0 := by
  rw [count, (m.entries_set_perm k v).countP_eq, erase_of_get_none h, List.countP_cons, count]

theorem count_set_of_get_some (p : V → Bool) {u : V} (v : V) (h : m.get k = some u) :
    (m.set k v).count p + (if p u then 1 else 0) = m.count p + if p v then 1 else 0 := by
  have herase : m.count p = (m.erase k).count p + if p u then 1 else 0 := by
    rw [count, (entries_erase_perm h).countP_eq, List.countP_cons, count]
  have hset : (m.set k v).count p = (m.erase k).count p + if p v then 1 else 0 := by
    rw [count, (m.entries_set_perm k v).countP_eq, List.countP_cons, count]
  omega

theorem count_eq_zero {p : V → Bool} (h : m.count p = 0) {k : K} {v : V} (hv : m.get k = some v) :
    p v = false := by
  have hnone := List.countP_eq_zero.mp h (k, v) ((m.mem_entries k v).mpr hv)
  exact Bool.eq_false_iff.mpr hnone

theorem count_pos {p : V → Bool} {v : V} (hv : m.get k = some v) (hp : p v = true) :
    0 < m.count p := by
  refine Nat.pos_of_ne_zero fun hzero => ?_
  rw [count_eq_zero hzero hv] at hp
  cases hp

end FinMap
