import LumaBroker.Lib.Transition
import Mathlib.Algebra.Ring.Int.Defs
import Mathlib.Tactic.Ring

/-!
Gauges beside what they count. The drift of a gauge is how far it is off. A list of steps that
push every drift in a direction of its own, if at all, ends without drift only when no step
has pushed.
-/

namespace Drift
variable {σ α ι : Type} {drift : σ → ι → Int} {dir : ι → Int} {s t u : σ}

/-- From s to t the drifts move in their directions, and none moves exactly when it fits. -/
def Pushes (drift : σ → ι → Int) (dir : ι → Int) (fits : Prop) (s t : σ) : Prop :=
  ∃ n : ι → Nat, (∀ k, drift t k = drift s k + dir k * n k) ∧ (fits ↔ ∀ k, n k = 0)

namespace Pushes
variable {P Q : Prop}

theorem still (h : ∀ k, drift t k = drift s k) (hP : P) : Pushes drift dir P s t :=
  ⟨fun _ => 0, fun k => by simp [h k], fun _ _ => rfl, fun _ => hP⟩

theorem trans (h : Pushes drift dir P s t) (h' : Pushes drift dir Q t u) :
    Pushes drift dir (P ∧ Q) s u := by
  obtain ⟨n, hn, hP⟩ := h
  obtain ⟨m, hm, hQ⟩ := h'
  refine ⟨fun k => n k + m k, fun k => ?_, ?_⟩
  · rw [hm, hn, Nat.cast_add]
    ring
  · rw [hP, hQ, ← forall_and]
    exact forall_congr' fun k => Nat.add_eq_zero_iff.symm

theorem congr (h : Pushes drift dir P s t) (hiff : P ↔ Q) : Pushes drift dir Q s t := by
  obtain ⟨n, hn, hP⟩ := h
  exact ⟨n, hn, hiff.symm.trans hP⟩

/-- Without a drift before, there is none after exactly when the step fits. -/
theorem zero_iff (hdir : ∀ k, dir k ≠ 0) (h : Pushes drift dir P s t) (hs : ∀ k, drift s k = 0) :
    (∀ k, drift t k = 0) ↔ P := by
  obtain ⟨n, hn, hP⟩ := h
  rw [hP]
  refine forall_congr' fun k => ?_
  rw [hn, hs, Int.zero_add, Int.mul_eq_zero, Int.natCast_eq_zero]
  exact or_iff_right (hdir k)

end Pushes

/-- The steps of a list all push in the same directions. The invariant helps to say when a
step fits. -/
theorem pushes_foldl {apply : σ → α → σ} {fits : σ → α → Prop} {I : σ → Prop} {as : List α}
    (hstep : ∀ s, I s → ∀ a ∈ as, I (apply s a) ∧ Pushes drift dir (fits s a) s (apply s a))
    (hs : I s) :
    I (as.foldl apply s) ∧
      Pushes drift dir (Transition.Meets (fun s a => some (apply s a)) fits as s) s
        (as.foldl apply s) := by
  induction as generalizing s with
  | nil => exact ⟨hs, Pushes.still (fun _ => rfl) trivial⟩
  | cons a as ih =>
      obtain ⟨hnext, hpush⟩ := hstep s hs a List.mem_cons_self
      obtain ⟨hlast, hrest⟩ := ih (fun s hs b hb => hstep s hs b (List.mem_cons_of_mem a hb)) hnext
      refine ⟨hlast, (hpush.trans hrest).congr ?_⟩
      simp [Transition.Meets]

end Drift
