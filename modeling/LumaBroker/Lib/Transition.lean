import Mathlib.Logic.Basic

/-!
Systems given by a partial step function: an action is not enabled where the step
is none. The one induction over runs is the invariant rule, in which every step may
also be assumed to meet a condition on the state it is taken in.
-/

namespace Transition
variable {σ α : Type}

def run (step : σ → α → Option σ) : List α → σ → Option σ
  | [], s => some s
  | a :: as, s => (step s a).bind (run step as)

theorem run_append (step : σ → α → Option σ) (as bs : List α) (s : σ) :
    run step (as ++ bs) s = (run step as s).bind (run step bs) := by
  induction as generalizing s with
  | nil => rfl
  | cons a as ih =>
      cases ha : step s a with
      | none => simp [run, ha]
      | some t => simpa [run, ha] using ih t

/-- Every step of the run is taken in a state that meets the condition. -/
def Meets (step : σ → α → Option σ) (ok : σ → α → Prop) : List α → σ → Prop
  | [], _ => True
  | a :: as, s => ok s a ∧ ∀ t, step s a = some t → Meets step ok as t

instance decidableMeets (step : σ → α → Option σ) (ok : σ → α → Prop)
    [∀ s a, Decidable (ok s a)] : ∀ as s, Decidable (Meets step ok as s)
  | [], _ => isTrue trivial
  | a :: as, s =>
      match h : step s a with
      | none => decidable_of_iff (ok s a) (by simp [Meets, h])
      | some t =>
          have := decidableMeets step ok as t
          decidable_of_iff (ok s a ∧ Meets step ok as t) (by simp [Meets, h])

variable {step : σ → α → Option σ} {ok : σ → α → Prop} {I : σ → Prop}

/-- What every enabled step that meets the condition preserves holds after the run. -/
theorem invariant_run (hstep : ∀ s a t, I s → ok s a → step s a = some t → I t) {as : List α}
    {s t : σ} (hs : I s) (hok : Meets step ok as s) (hrun : run step as s = some t) : I t := by
  induction as generalizing s with
  | nil =>
      cases hrun
      exact hs
  | cons a as ih =>
      obtain ⟨u, hu, hrest⟩ := Option.bind_eq_some_iff.mp hrun
      exact ih (hstep s a u hs hok.1 hu) (hok.2 u hu) hrest

/-- The condition, read off the prefixes of the run. -/
theorem meets_iff {as : List α} {s : σ} : Meets step ok as s ↔
    ∀ before a after, as = before ++ a :: after → ∀ t, run step before s = some t → ok t a := by
  induction as generalizing s with
  | nil => simp [Meets]
  | cons b as ih =>
      constructor
      · rintro ⟨hb, hrest⟩ before a after heq t ht
        cases before with
        | nil =>
            cases heq
            cases ht
            exact hb
        | cons c before =>
            cases heq
            obtain ⟨u, hu, hrun⟩ := Option.bind_eq_some_iff.mp ht
            exact ih.mp (hrest u hu) before a after rfl t hrun
      · intro h
        refine ⟨h [] b as rfl s rfl, fun u hu => ih.mpr ?_⟩
        intro before a after heq t ht
        refine h (b :: before) a after (by rw [heq]; rfl) t ?_
        rw [run, hu]
        exact ht

/-- A condition on the actions alone. -/
theorem meets_of_forall_mem {as : List α} {s : σ} (h : ∀ a ∈ as, ∀ s, ok s a) :
    Meets step ok as s := by
  induction as generalizing s with
  | nil => trivial
  | cons a as ih =>
      exact ⟨h a List.mem_cons_self s, fun _ _ => ih fun b hb => h b (List.mem_cons_of_mem a hb)⟩

theorem Meets.and {ok' : σ → α → Prop} {as : List α} {s : σ} (h : Meets step ok as s)
    (h' : Meets step ok' as s) : Meets step (fun s a => ok s a ∧ ok' s a) as s := by
  induction as generalizing s with
  | nil => trivial
  | cons a as ih => exact ⟨⟨h.1, h'.1⟩, fun t ht => ih (h.2 t ht) (h'.2 t ht)⟩

/-- A condition that an invariant and the first condition imply is met by the same run. -/
theorem meets_of_invariant {ok' : σ → α → Prop}
    (hstep : ∀ s a t, I s → ok s a → step s a = some t → I t) (himp : ∀ s a, I s → ok s a → ok' s a)
    {as : List α} {s : σ} (hs : I s) (hok : Meets step ok as s) : Meets step ok' as s := by
  induction as generalizing s with
  | nil => trivial
  | cons a as ih => exact ⟨himp s a hs hok.1, fun t ht => ih (hstep s a t hs hok.1 ht) (hok.2 t ht)⟩

/-- The rule without a condition on the steps. -/
theorem preserved_run (hstep : ∀ s a t, I s → step s a = some t → I t) {as : List α} {s t : σ}
    (hs : I s) (hrun : run step as s = some t) : I t := by
  have hmeets : Meets step (fun _ _ => True) as s := meets_of_forall_mem fun _ _ _ => trivial
  exact invariant_run (fun s a t h _ ht => hstep s a t h ht) hs hmeets hrun

/-- A step against the condition leaves a mark that no later step removes, so a run that
ends without the mark has met the condition. The invariant and what the steps rely on help
to keep the mark. -/
theorem meets_of_unmarked {J : σ → Prop} {rely : σ → α → Prop}
    (hinv : ∀ s a t, J s → rely s a → step s a = some t → J t)
    (hmark : ∀ s a t, J s → ¬ ok s a → step s a = some t → I t)
    (hstep : ∀ s a t, J s → rely s a → I s → step s a = some t → I t) {as : List α}
    {s t : σ} (hs : J s) (hrely : Meets step rely as s) (hrun : run step as s = some t)
    (hend : ¬ I t) : Meets step ok as s := by
  induction as generalizing s with
  | nil => trivial
  | cons a as ih =>
      obtain ⟨u, hu, hrest⟩ := Option.bind_eq_some_iff.mp hrun
      have hju := hinv s a u hs hrely.1 hu
      refine ⟨Classical.byContradiction fun hbad => hend ?_, fun v hv => ?_⟩
      · have hmarked := invariant_run (I := fun s => J s ∧ I s)
          (fun s a t h hr ht => ⟨hinv s a t h.1 hr ht, hstep s a t h.1 hr h.2 ht⟩)
          ⟨hju, hmark s a u hs hbad hu⟩ (hrely.2 u hu) hrest
        exact hmarked.2
      · rw [hu] at hv
        cases hv
        exact ih hju (hrely.2 u hu) hrest

/-- Where the condition says exactly when a step keeps a property, the property holds all along
a run exactly when every step has met the condition. -/
theorem always_iff_meets {J : σ → Prop} (hinv : ∀ s a t, J s → step s a = some t → J t)
    (hstep : ∀ s a t, J s → I s → step s a = some t → (I t ↔ ok s a)) {as : List α}
    {s t : σ} (hJ : J s) (hI : I s) (hrun : run step as s = some t) :
    (∀ before after u, as = before ++ after → run step before s = some u → I u) ↔
      Meets step ok as s := by
  induction as generalizing s with
  | nil =>
      refine ⟨fun _ => trivial, fun _ before after u heq hu => ?_⟩
      obtain ⟨rfl, rfl⟩ := List.nil_eq_append_iff.mp heq
      cases hu
      exact hI
  | cons a as ih =>
      obtain ⟨u, hu, hrest⟩ := Option.bind_eq_some_iff.mp hrun
      have hfirst := hstep s a u hJ hI hu
      constructor
      · intro hall
        have hIu : I u := hall [a] as u rfl (by simp [run, hu])
        refine ⟨hfirst.mp hIu, fun v hv => ?_⟩
        obtain rfl : u = v := Option.some.inj (hu.symm.trans hv)
        refine (ih (hinv s a u hJ hu) hIu hrest).mp fun before after v heq hv => ?_
        refine hall (a :: before) after v (by rw [heq]; rfl) ?_
        rw [run, hu]
        exact hv
      · rintro ⟨hok, hmeets⟩ before after v heq hv
        cases before with
        | nil =>
            cases hv
            exact hI
        | cons b before =>
            cases heq
            obtain ⟨u', hu', hv⟩ := Option.bind_eq_some_iff.mp hv
            obtain rfl : u = u' := Option.some.inj (hu.symm.trans hu')
            exact (ih (hinv s a u hJ hu) (hfirst.mpr hok) hrest).mpr (hmeets u hu) before
              after v rfl hv

/-- A result that can be evaluated and passes a check. -/
theorem exists_of_any {o : Option σ} (P : σ → Prop) [DecidablePred P]
    (h : o.any (fun t => decide (P t)) = true) : ∃ t, o = some t ∧ P t := by
  cases o with
  | none => cases h
  | some t => exact ⟨t, rfl, of_decide_eq_true h⟩

/-- A run that can be evaluated and whose end passes a check. -/
theorem reaches_of_any (step : σ → α → Option σ) (as : List α) (s : σ) (P : σ → Prop)
    [DecidablePred P] (h : (run step as s).any (fun t => decide (P t)) = true) :
    ∃ t, run step as s = some t ∧ P t :=
  exists_of_any P h

end Transition
