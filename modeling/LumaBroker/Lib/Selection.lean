import Mathlib.Order.Bounds.Basic
import Mathlib.Data.Set.Insert

/-!
Keeping the best candidate seen so far. A candidate replaces the kept one only
when its key is strictly larger, so ties go to the earlier candidate; which
candidates were seen matters only as a set.
-/

namespace Selection
universe u v
variable {α : Type u} {β : Type v} [LinearOrder β] (key : α → β)

/-- The kept value is absent exactly when nothing was seen, and otherwise is one
of the candidates with the greatest key. -/
def IsBest (seen : Set α) : Option α → Prop
  | none => seen = ∅
  | some a => a ∈ seen ∧ ∀ b ∈ seen, key b ≤ key a

def keepBest (kept : Option α) (a : α) : Option α :=
  match kept with
  | none => some a
  | some b => if key b < key a then some a else some b

theorem isBest_empty : IsBest key ∅ none := rfl

theorem isBest_keepBest {seen : Set α} {kept : Option α} (h : IsBest key seen kept) (a : α) :
    IsBest key (seen ∪ {a}) (keepBest key kept a) := by
  cases kept with
  | none =>
      have hseen : seen = ∅ := h
      subst hseen
      simp [keepBest, IsBest]
  | some b =>
      obtain ⟨hb, hmax⟩ := h
      by_cases hlt : key b < key a
      · simp only [keepBest, hlt, if_true]
        refine ⟨Or.inr rfl, ?_⟩
        rintro x (hx | rfl)
        · exact le_trans (hmax x hx) (le_of_lt hlt)
        · exact le_refl _
      · simp only [keepBest, hlt, if_false]
        refine ⟨Or.inl hb, ?_⟩
        rintro x (hx | rfl)
        · exact hmax x hx
        · exact not_lt.mp hlt

theorem isBest_elim {seen : Set α} {kept : Option α} (h : IsBest key seen kept)
    (candidate : Option α) :
    IsBest key (seen ∪ {a | candidate = some a})
      (candidate.elim kept (keepBest key kept)) := by
  cases candidate with
  | none => simpa using h
  | some a =>
      have hset : {x | some a = some x} = ({a} : Set α) := by
        ext x
        simp [eq_comm]
      simpa [hset] using isBest_keepBest key h a

theorem isBest_isGreatest {seen : Set α} {a : α} (h : IsBest key seen (some a)) :
    IsGreatest (key '' seen) (key a) := by
  refine ⟨⟨a, h.1, rfl⟩, ?_⟩
  rintro _ ⟨b, hb, rfl⟩
  exact h.2 b hb

end Selection
