import Mathlib.Data.Int.CardIntervalMod
import Mathlib.Data.List.Nodup

/-!
Serving the members of a list in turn, by a counter taken modulo the number of
members. Over any run of consecutive turns, wherever the counter starts, two
members are served equally often up to one.
-/

namespace RoundRobin
universe u
variable {α : Type u}

/-- The members served by k turns of a counter that starts at a. -/
def served (ids : List α) (a k : Nat) : List α :=
  (List.range k).filterMap fun j => ids[(a + j) % ids.length]?

theorem served_zero (ids : List α) (a : Nat) : served ids a 0 = [] := rfl

theorem served_succ (ids : List α) (a k : Nat) :
    served ids a (k + 1) = ids[a % ids.length]?.toList ++ served ids (a + 1) k := by
  have hrest : (List.range k).filterMap (fun j => ids[(a + (j + 1)) % ids.length]?) =
      served ids (a + 1) k := by
    apply List.filterMap_congr
    intro j _
    rw [Nat.add_assoc, Nat.add_comm 1 j]
  simp only [served, List.range_succ_eq_map, List.filterMap_cons, List.filterMap_map,
    Function.comp_def, Nat.add_zero, Nat.succ_eq_add_one] at hrest ⊢
  rw [hrest]
  cases ids[a % ids.length]? <;> rfl

/-- The turns that fall on one slot are the numbers in one residue class. -/
theorem add_mod_eq_iff {a n i : Nat} (hi : i < n) (j : Nat) :
    (a + j) % n = i ↔ j ≡ i + (n - a % n) [MOD n] := by
  have hle : a % n ≤ n := le_of_lt (Nat.mod_lt a (by omega))
  have hback : i + (n - a % n) + a ≡ i [MOD n] := by
    have hn : (n - a % n) + a % n = n := Nat.sub_add_cancel hle
    calc i + (n - a % n) + a ≡ i + (n - a % n) + a % n [MOD n] :=
          (Nat.mod_modEq a n).symm.add_left _
      _ = i + n := by rw [Nat.add_assoc, hn]
      _ ≡ i [MOD n] := by simp [Nat.ModEq]
  constructor
  · intro h
    have hij : j + a ≡ i [MOD n] := by
      rw [Nat.add_comm]
      exact h.trans (Nat.mod_eq_of_lt hi).symm
    exact Nat.ModEq.add_right_cancel' a (hij.trans hback.symm)
  · intro h
    have hij : a + j ≡ i [MOD n] := by
      rw [Nat.add_comm]
      exact (h.add_right a).trans hback
    rw [Nat.ModEq, Nat.mod_eq_of_lt hi] at hij
    exact hij

theorem count_served [BEq α] [LawfulBEq α] {ids : List α} (hnd : ids.Nodup) {i : Nat}
    (hi : i < ids.length) (a k : Nat) :
    (served ids a k).count ids[i] = k.count fun j => (a + j) % ids.length = i := by
  induction k with
  | zero => rfl
  | succ k ih =>
      have hmod : (a + k) % ids.length < ids.length := Nat.mod_lt _ (by omega)
      have hlast : served ids a (k + 1) = served ids a k ++ [ids[(a + k) % ids.length]] := by
        simp [served, List.range_succ, List.filterMap_append, List.getElem?_eq_getElem hmod]
      rw [hlast, List.count_append, ih, Nat.count_succ]
      congr 1
      by_cases h : (a + k) % ids.length = i
      · simp [h]
      · have hne : ids[(a + k) % ids.length] ≠ ids[i] := fun e => h (hnd.getElem_inj_iff.mp e)
        simp [h, hne]

theorem count_served_bounds [BEq α] [LawfulBEq α] {ids : List α} (hnd : ids.Nodup) {c : α}
    (hc : c ∈ ids) (a k : Nat) :
    k / ids.length ≤ (served ids a k).count c ∧
      (served ids a k).count c ≤ (k + ids.length - 1) / ids.length := by
  obtain ⟨i, hi, rfl⟩ := List.getElem_of_mem hc
  have hpos : 0 < ids.length := by omega
  have hcount : (served ids a k).count ids[i] =
      k / ids.length + if (i + (ids.length - a % ids.length)) % ids.length < k % ids.length
        then 1 else 0 := by
    rw [count_served hnd hi, ← Nat.count_modEq_card k hpos]
    congr 1
    funext j
    exact propext (add_mod_eq_iff hi j)
  refine ⟨by omega, ?_⟩
  rw [hcount, Nat.le_div_iff_mul_le hpos]
  have hdiv := Nat.div_add_mod k ids.length
  split_ifs with h
  · have : (k / ids.length + 1) * ids.length = ids.length * (k / ids.length) + ids.length := by ring
    omega
  · have : (k / ids.length + 0) * ids.length = ids.length * (k / ids.length) := by ring
    omega

end RoundRobin
