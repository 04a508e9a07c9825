import Mathlib.Data.List.Induction

/-!
Histories of calls. A condition on a call may look at the calls that were made before it,
and what a store keeps of a history is the last call that is about a key. Histories grow at
their end, so every rule here has a case for one call more.
-/

namespace History
variable {α σ : Type}

/-- Every call meets the condition, given the calls before it. -/
def Each (P : List α → α → Prop) (calls : List α) : Prop :=
  ∀ before a after, calls = before ++ a :: after → P before a

theorem each_nil (P : List α → α → Prop) : Each P [] := by
  intro before a after h
  cases before with
  | nil => cases h
  | cons b before => cases h

theorem each_append {P : List α → α → Prop} {calls calls' : List α} :
    Each P (calls ++ calls') ↔ Each P calls ∧
      Each (fun before a => P (calls ++ before) a) calls' := by
  constructor
  · intro h
    refine ⟨fun before a after heq => h before a (after ++ calls') ?_,
      fun before a after heq => h (calls ++ before) a after ?_⟩
    · rw [heq, List.append_assoc, List.cons_append]
    · rw [heq, List.append_assoc]
  · rintro ⟨hcalls, hcalls'⟩ before a after heq
    rcases List.append_eq_append_iff.mp heq with ⟨first, rfl, hrest⟩ | ⟨first, rfl, hrest⟩
    · exact hcalls' first a after hrest
    · cases first with
      | nil =>
          have ha := hcalls' [] a after hrest.symm
          rwa [List.append_nil, List.append_nil] at ha
      | cons b first =>
          cases hrest
          exact hcalls before a first rfl

theorem each_singleton {P : List α → α → Prop} {a : α} : Each P [a] ↔ P [] a := by
  constructor
  · intro h
    exact h [] a [] rfl
  · rintro h before b after heq
    cases before with
    | nil =>
        cases heq
        exact h
    | cons c before => simp at heq

theorem each_concat {P : List α → α → Prop} {calls : List α} {a : α} :
    Each P (calls ++ [a]) ↔ Each P calls ∧ P calls a := by
  rw [each_append, each_singleton, List.append_nil]

theorem each_cons {P : List α → α → Prop} {calls : List α} {a : α} :
    Each P (a :: calls) ↔ P [] a ∧ Each (fun before b => P (a :: before) b) calls := by
  rw [← List.singleton_append, each_append, each_singleton]
  rfl

/-- The last call that passes a test. -/
def last (p : α → Bool) (calls : List α) : Option α := (calls.filter p).getLast?

theorem last_concat (p : α → Bool) (calls : List α) (a : α) :
    last p (calls ++ [a]) = if p a then some a else last p calls := by
  rw [last, List.filter_append]
  cases hp : p a with
  | true => simp [hp]
  | false => simp [hp, last]

end History
