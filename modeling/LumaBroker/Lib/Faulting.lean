import Mathlib.Order.Defs.Unbundled

/-!
Programs over a state that return a value, return an error, or stop in a fault: an
access out of range, or a loop that still runs when its fuel is spent. A program is safe
when it never faults; what it may do to the state is a relation between the state
before and after.
-/

namespace Faulting

inductive Outcome (ε σ α : Type) where
  | ok (a : α) (s : σ)
  | error (e : ε)
  | panic
  | timeout
  deriving DecidableEq

/-- A value or an error: neither an access out of range nor a loop without end. -/
def Outcome.Returns {ε σ α : Type} : Outcome ε σ α → Prop
  | .ok _ _ => True
  | .error _ => True
  | .panic => False
  | .timeout => False

def Prog (ε σ α : Type) : Type := σ → Outcome ε σ α

variable {ε σ α β γ : Type}

namespace Prog

def bind (m : Prog ε σ α) (f : α → Prog ε σ β) : Prog ε σ β := fun s =>
  match m s with
  | .ok a t => f a t
  | .error e => .error e
  | .panic => .panic
  | .timeout => .timeout

instance instMonad : Monad (Prog ε σ) where
  pure a := fun s => .ok a s
  bind := bind

def fail (e : ε) : Prog ε σ α := fun _ => .error e

def fault : Prog ε σ α := fun _ => .panic

def timeout : Prog ε σ α := fun _ => .timeout

/-- The value of a partial operation, which faults where it is undefined. -/
def orPanic : Option α → Prog ε σ α
  | some a => pure a
  | none => fault

def gets (f : σ → α) : Prog ε σ α := fun s => .ok (f s) s

def modify (f : σ → σ) : Prog ε σ Unit := fun s => .ok () (f s)

def mapError (f : ε → ε) (m : Prog ε σ α) : Prog ε σ α := fun s =>
  match m s with
  | .error e => .error (f e)
  | r => r

@[simp] theorem pure_apply (a : α) (s : σ) : (pure a : Prog ε σ α) s = .ok a s := rfl

@[simp] theorem fail_apply (e : ε) (s : σ) : (fail e : Prog ε σ α) s = .error e := rfl

@[simp] theorem orPanic_some (a : α) : (orPanic (some a) : Prog ε σ α) = pure a := rfl

theorem bind_apply (m : Prog ε σ α) (f : α → Prog ε σ β) (s : σ) : (m >>= f) s = bind m f s := rfl

theorem bind_ok {m : Prog ε σ α} {s t : σ} {a : α} (h : m s = .ok a t) (f : α → Prog ε σ β) :
    (m >>= f) s = f a t := by
  simp only [bind_apply, bind, h]

theorem bind_error {m : Prog ε σ α} {s : σ} {e : ε} (h : m s = .error e) (f : α → Prog ε σ β) :
    (m >>= f) s = .error e := by
  simp only [bind_apply, bind, h]

@[simp] theorem pure_bind (a : α) (f : α → Prog ε σ β) (s : σ) : (pure a >>= f) s = f a s := rfl

@[simp] theorem gets_bind (g : σ → α) (f : α → Prog ε σ β) (s : σ) :
    (gets g >>= f) s = f (g s) s := rfl

@[simp] theorem modify_bind (g : σ → σ) (f : Unit → Prog ε σ β) (s : σ) :
    (modify g >>= f) s = f () (g s) := rfl

theorem bind_assoc (m : Prog ε σ α) (f : α → Prog ε σ β) (g : β → Prog ε σ γ) (s : σ) :
    (m >>= f >>= g) s = (m >>= fun a => f a >>= g) s := by
  cases hm : m s <;> simp only [bind_apply, bind, hm]

theorem bind_eq_ok {m : Prog ε σ α} {f : α → Prog ε σ β} {s u : σ} {b : β} :
    (m >>= f) s = .ok b u ↔ ∃ a t, m s = .ok a t ∧ f a t = .ok b u := by
  cases hm : m s with
  | ok a t =>
      rw [bind_ok hm]
      constructor
      · intro h
        exact ⟨a, t, rfl, h⟩
      · rintro ⟨a', t', h, hf⟩
        cases h
        exact hf
  | error e => simp [bind_error hm]
  | panic => simp [bind_apply, bind, hm]
  | timeout => simp [bind_apply, bind, hm]

/-- A guard that fails lets the program through only if it does not apply. -/
theorem ite_fail_eq_ok {c : Prop} [Decidable c] {e : ε} {m : Prog ε σ α} {s t : σ} {a : α} :
    (if c then fail e else m) s = .ok a t ↔ ¬ c ∧ m s = .ok a t := by
  by_cases h : c <;> simp [h]

theorem mapError_eq_ok {m : Prog ε σ α} {g : ε → ε} {s t : σ} {a : α} :
    mapError g m s = .ok a t ↔ m s = .ok a t := by
  cases hm : m s <;> simp [mapError, hm]

theorem mapError_error {m : Prog ε σ α} {s : σ} {e : ε} (h : m s = .error e) (g : ε → ε) :
    mapError g m s = .error (g e) := by
  simp [mapError, h]

end Prog

/-- From this state the program does not fault, and when it returns it has related the
states. -/
def SafeAt (R : σ → σ → Prop) (m : Prog ε σ α) (s : σ) : Prop :=
  (∃ a t, m s = .ok a t ∧ R s t) ∨ ∃ e, m s = .error e

def Safe (R : σ → σ → Prop) (m : Prog ε σ α) : Prop := ∀ s, SafeAt R m s

section Rules
variable {R : σ → σ → Prop} {m m' : Prog ε σ α} {f : α → Prog ε σ β} {s : σ}

theorem SafeAt.returns (h : SafeAt R m s) : (m s).Returns := by
  cases h with
  | inl hok =>
      obtain ⟨a, t, hm, -⟩ := hok
      rw [hm]
      trivial
  | inr herror =>
      obtain ⟨e, hm⟩ := herror
      rw [hm]
      trivial

theorem SafeAt.rel {a : α} {t : σ} (h : SafeAt R m s) (hm : m s = .ok a t) : R s t := by
  rcases h with ⟨a', t', hm', hR⟩ | ⟨e, herror⟩
  · rw [hm] at hm'
    cases hm'
    exact hR
  · rw [hm] at herror
    cases herror

theorem safe_fail (e : ε) : Safe R (Prog.fail e : Prog ε σ α) := fun _ => .inr ⟨e, rfl⟩

theorem Safe.ite {c : Prop} [Decidable c] (h : Safe R m) (h' : Safe R m') :
    Safe R (if c then m else m') := by
  split
  · exact h
  · exact h'

theorem SafeAt.mapError (h : SafeAt R m s) (g : ε → ε) : SafeAt R (Prog.mapError g m) s := by
  cases h with
  | inl hok =>
      obtain ⟨a, t, hm, hR⟩ := hok
      exact .inl ⟨a, t, Prog.mapError_eq_ok.mpr hm, hR⟩
  | inr herror =>
      obtain ⟨e, hm⟩ := herror
      exact .inr ⟨g e, Prog.mapError_error hm g⟩

theorem Safe.mapError (h : Safe R m) (g : ε → ε) : Safe R (Prog.mapError g m) :=
  fun s => (h s).mapError g

theorem safe_gets_bind {g : σ → α} (h : ∀ s, SafeAt R (f (g s)) s) :
    Safe R (Prog.gets g >>= f) := h

variable [IsPreorder σ R]

theorem safe_pure (a : α) : Safe R (pure a : Prog ε σ α) := by
  intro s
  exact .inl ⟨a, s, rfl, refl_of R s⟩

theorem SafeAt.bind (hm : SafeAt R m s) (hf : ∀ a t, m s = .ok a t → SafeAt R (f a) t) :
    SafeAt R (m >>= f) s := by
  cases hm with
  | inl hok =>
      obtain ⟨a, t, hms, hst⟩ := hok
      rw [SafeAt, Prog.bind_ok hms]
      cases hf a t hms with
      | inl hok' =>
          obtain ⟨b, u, hfs, htu⟩ := hok'
          exact .inl ⟨b, u, hfs, trans_of R hst htu⟩
      | inr herror => exact .inr herror
  | inr herror =>
      obtain ⟨e, hms⟩ := herror
      exact .inr ⟨e, Prog.bind_error hms f⟩

theorem Safe.bind (hm : Safe R m) (hf : ∀ a, Safe R (f a)) : Safe R (m >>= f) :=
  fun s => (hm s).bind fun a t _ => hf a t

theorem safeAt_modify_bind {g : σ → σ} {f : Unit → Prog ε σ β} (hg : R s (g s))
    (h : SafeAt R (f ()) (g s)) : SafeAt R (Prog.modify g >>= f) s :=
  SafeAt.bind (.inl ⟨(), g s, rfl, hg⟩) fun _ _ ht => by
    cases ht
    exact h

end Rules

/-- What one turn of a loop decides: to go on, or to return. -/
inductive Turn (α β : Type) where
  | again (a : α)
  | stop (b : β)

/-- A loop of the program, run for at most so many turns. -/
def loop (body : α → Prog ε σ (Turn α β)) : Nat → α → Prog ε σ β
  | 0, _ => Prog.timeout
  | fuel + 1, a => do
      match ← body a with
      | .again a => loop body fuel a
      | .stop b => pure b

section Loops
variable {body : α → Prog ε σ (Turn α β)}

theorem loop_again {a a' : α} {s t : σ} (h : body a s = .ok (.again a') t) (fuel : Nat) :
    loop body (fuel + 1) a s = loop body fuel a' t := by
  rw [loop, Prog.bind_ok h]

theorem loop_stop {a : α} {b : β} {s t : σ} (h : body a s = .ok (.stop b) t) (fuel : Nat) :
    loop body (fuel + 1) a s = .ok b t := by
  rw [loop, Prog.bind_ok h]
  rfl

/-- What each turn keeps, and hands over when it stops, holds of what the loop returns. -/
theorem loop_rule {I : α → σ → Prop} {Q : β → σ → Prop}
    (hagain : ∀ a s a' t, I a s → body a s = .ok (.again a') t → I a' t)
    (hstop : ∀ a s b t, I a s → body a s = .ok (.stop b) t → Q b t)
    {fuel : Nat} {a : α} {s t : σ} {b : β} (hI : I a s)
    (h : loop body fuel a s = .ok b t) : Q b t := by
  induction fuel generalizing a s with
  | zero => cases h
  | succ fuel ih =>
      obtain ⟨turn, u, hturn, hrest⟩ := Prog.bind_eq_ok.mp h
      cases turn with
      | again a' => exact ih (hagain a s a' u hI hturn) hrest
      | stop b' =>
          cases hrest
          exact hstop a s b t hI hturn

/-- A loop whose turns are safe and use up a measure ends, in time. -/
theorem safe_loop {R : σ → σ → Prop} [IsPreorder σ R] (μ : σ → Nat)
    (hbody : ∀ a, Safe R (body a))
    (hless : ∀ a s a' t, body a s = .ok (.again a') t → μ t < μ s)
    (fuel : Nat) (a : α) (s : σ) (hfuel : μ s < fuel) : SafeAt R (loop body fuel a) s := by
  induction fuel generalizing a s with
  | zero => exact absurd hfuel (Nat.not_lt_zero _)
  | succ fuel ih =>
      apply (hbody a s).bind
      intro r t hr
      cases r with
      | again a' =>
          have ht := hless a s a' t hr
          exact ih a' t (by omega)
      | stop b => exact safe_pure b t

end Loops

/-- The value of a program that returned one. -/
def Outcome.value? : Outcome ε σ α → Option α
  | .ok a _ => some a
  | _ => none

/-- Outcomes of two programs that differ in the state at most, and in related states. -/
inductive Outcome.Agree {τ : Type} (R : σ → τ → Prop) : Outcome ε σ α → Outcome ε τ α → Prop where
  | ok (a : α) {s : σ} {t : τ} (h : R s t) : Agree R (.ok a s) (.ok a t)
  | error (e : ε) : Agree R (.error e) (.error e)
  | panic : Agree R .panic .panic
  | timeout : Agree R .timeout .timeout

/-- From related states the two programs do the same. -/
def Refines {τ : Type} (R : σ → τ → Prop) (m : Prog ε σ α) (m' : Prog ε τ α) : Prop :=
  ∀ s t, R s t → (m s).Agree R (m' t)

/-- From related states the program does the same. -/
abbrev Agrees (R : σ → σ → Prop) (m : Prog ε σ α) : Prop := Refines R m m

section Agreement
variable {τ : Type} {R R' : σ → τ → Prop} {m m₁ : Prog ε σ α} {m' m₁' : Prog ε τ α}
variable {f : α → Prog ε σ β} {f' : α → Prog ε τ β} {s : σ} {t : τ}

theorem Outcome.Agree.value_eq {r : Outcome ε σ α} {r' : Outcome ε τ α} (h : r.Agree R r') :
    r.value? = r'.value? := by
  cases h <;> rfl

/-- What the second program returns, the first returns too. -/
theorem Outcome.Agree.exists_ok {a : α} {t' : τ} (h : (m s).Agree R (m' t)) (ht : m' t = .ok a t') :
    ∃ s', m s = .ok a s' ∧ R s' t' := by
  rw [ht] at h
  generalize m s = r at h
  cases h with
  | ok _ h => exact ⟨_, rfl, h⟩

theorem Outcome.Agree.eq_error {e : ε} (h : (m s).Agree R (m' t)) (ht : m' t = .error e) :
    m s = .error e := by
  rw [ht] at h
  generalize m s = r at h
  cases h
  rfl

/-- The rest of the program may know what the first part returned. -/
theorem Outcome.Agree.bind_of (hm : (m s).Agree R (m' t))
    (hf : ∀ a s' t', m s = .ok a s' → R s' t' → (f a s').Agree R' (f' a t')) :
    ((m >>= f) s).Agree R' ((m' >>= f') t) := by
  simp only [Prog.bind_apply, Prog.bind]
  generalize m s = r at hm hf
  generalize m' t = r' at hm
  cases hm with
  | ok a h => exact hf a _ _ rfl h
  | error e => exact .error e
  | panic => exact .panic
  | timeout => exact .timeout

theorem Outcome.Agree.bind (hm : (m s).Agree R (m' t))
    (hf : ∀ a s t, R s t → (f a s).Agree R' (f' a t)) : ((m >>= f) s).Agree R' ((m' >>= f') t) :=
  hm.bind_of fun a s' t' _ h => hf a s' t' h

theorem refines_pure (a : α) : Refines R (pure a : Prog ε σ α) (pure a) := fun _ _ h => .ok a h

theorem refines_fail (e : ε) : Refines R (Prog.fail e : Prog ε σ α) (Prog.fail e) :=
  fun _ _ _ => .error e

theorem refines_orPanic (o : Option α) :
    Refines R (Prog.orPanic o : Prog ε σ α) (Prog.orPanic o) := by
  cases o with
  | none => exact fun _ _ _ => .panic
  | some a => exact refines_pure a

theorem Refines.bind (hm : Refines R m m') (hf : ∀ a, Refines R (f a) (f' a)) :
    Refines R (m >>= f) (m' >>= f') :=
  fun s t h => (hm s t h).bind hf

theorem Refines.ite {c : Prop} [Decidable c] (h : Refines R m m') (h₁ : Refines R m₁ m₁') :
    Refines R (if c then m else m₁) (if c then m' else m₁') := by
  split
  · exact h
  · exact h₁

theorem Outcome.Agree.mapError (hm : (m s).Agree R (m' t)) (g : ε → ε) :
    (Prog.mapError g m s).Agree R (Prog.mapError g m' t) := by
  simp only [Prog.mapError]
  generalize m s = r at hm
  generalize m' t = r' at hm
  cases hm with
  | ok a h => exact .ok a h
  | error e => exact .error (g e)
  | panic => exact .panic
  | timeout => exact .timeout

theorem Refines.mapError (h : Refines R m m') (g : ε → ε) :
    Refines R (Prog.mapError g m) (Prog.mapError g m') :=
  fun s t hst => (h s t hst).mapError g

theorem refines_loop {body : α → Prog ε σ (Turn α β)} {body' : α → Prog ε τ (Turn α β)}
    (hbody : ∀ a, Refines R (body a) (body' a)) (fuel : Nat) (a : α) :
    Refines R (loop body fuel a) (loop body' fuel a) := by
  induction fuel generalizing a with
  | zero => exact fun _ _ _ => .timeout
  | succ fuel ih =>
      refine (hbody a).bind fun turn => ?_
      cases turn with
      | again a' => exact ih a'
      | stop b => exact refines_pure b

end Agreement
end Faulting
