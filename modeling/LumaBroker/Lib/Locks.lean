import LumaBroker.Lib.Transition
import Mathlib.Algebra.Order.BigOperators.Group.List
import Mathlib.Algebra.Order.Group.Nat

/-!
Threads that share a memory and take locks, each lock held by one writer or by any number of
readers. A thread is a list of instructions; one that is no lock operation may replace itself by
others. A writer announces itself before it waits for the readers to leave, and from then on no
reader comes in, as with the RWMutex of Go. Of a mutex only writers ask.

Threads that take locks in the order of a rank never wait for each other in a circle.
-/

namespace Locks

inductive Mode where
  | read
  | write
  deriving DecidableEq

inductive Op (L : Type) where
  | lock (l : L) (m : Mode)
  | unlock (l : L) (m : Mode)
  | work

structure Machine (σ ι L : Type) where
  op : ι → Op L
  work : ι → σ → σ × List ι

structure Thread (ι L : Type) where
  code : List ι
  held : List (L × Mode)
  announced : Bool

structure State (σ ι L : Type) where
  memory : σ
  threads : List (Thread ι L)

inductive Action (ι : Type) where
  | start (code : List ι)
  | announce (t : Nat)
  | next (t : Nat)

variable {σ ι L : Type}

section Discipline
variable (M : Machine σ ι L) (rank : L → Nat) (spec : ι → List (L × Mode) → List (L × Mode) → Prop)

/-- The code takes the locks from those held before it to those held after it. Every lock it asks
for is of a higher rank than those it has, and it gives back the last one first. What the other
instructions make of the locks is their specification. -/
def Plan : List (L × Mode) → List ι → List (L × Mode) → Prop
  | held, [], after => held = after
  | held, i :: is, after =>
      match M.op i with
      | .lock l m => (∀ h ∈ held, rank h.1 < rank l) ∧ Plan ((l, m) :: held) is after
      | .unlock l m => ∃ rest, held = (l, m) :: rest ∧ Plan rest is after
      | .work => ∃ mid, spec i held mid ∧ Plan mid is after

end Discipline

/-- The instructions that an instruction leaves behind meet its specification, which may depend on
the memory, and it does not break the specifications of others. -/
structure Disciplined (M : Machine σ ι L) (rank : L → Nat)
    (spec : σ → ι → List (L × Mode) → List (L × Mode) → Prop) (I : σ → Prop) : Prop where
  memory : ∀ i m held after, M.op i = .work → I m → spec m i held after → I (M.work i m).1
  plan : ∀ i m held after, M.op i = .work → I m → spec m i held after →
    Plan M rank (spec (M.work i m).1) held (M.work i m).2 after
  mono : ∀ i m held after, M.op i = .work → I m → spec m i held after →
    ∀ j held' after', spec m j held' after' → spec (M.work i m).1 j held' after'

section Plans
variable {M : Machine σ ι L} {rank : L → Nat} {spec : ι → List (L × Mode) → List (L × Mode) → Prop}

theorem Plan.append {held mid after : List (L × Mode)} {is js : List ι}
    (h : Plan M rank spec held is mid) (h' : Plan M rank spec mid js after) :
    Plan M rank spec held (is ++ js) after := by
  induction is generalizing held with
  | nil =>
      cases h
      exact h'
  | cons i is ih =>
      rw [List.cons_append]
      simp only [Plan] at h ⊢
      cases hop : M.op i with
      | lock l m =>
          simp only [hop] at h ⊢
          exact ⟨h.1, ih h.2⟩
      | unlock l m =>
          simp only [hop] at h ⊢
          exact h.imp fun _ hrest => ⟨hrest.1, ih hrest.2⟩
      | work =>
          simp only [hop] at h ⊢
          exact h.imp fun _ hrest => ⟨hrest.1, ih hrest.2⟩

theorem Plan.mono {spec' : ι → List (L × Mode) → List (L × Mode) → Prop}
    (hspec : ∀ i held after, spec i held after → spec' i held after) {held after : List (L × Mode)}
    {is : List ι} (h : Plan M rank spec held is after) : Plan M rank spec' held is after := by
  induction is generalizing held with
  | nil => exact h
  | cons i is ih =>
      simp only [Plan] at h ⊢
      cases hop : M.op i with
      | lock l m =>
          simp only [hop] at h ⊢
          exact ⟨h.1, ih h.2⟩
      | unlock l m =>
          simp only [hop] at h ⊢
          exact h.imp fun _ hrest => ⟨hrest.1, ih hrest.2⟩
      | work =>
          simp only [hop] at h ⊢
          exact h.imp fun _ hrest => ⟨hspec _ _ _ hrest.1, ih hrest.2⟩

theorem plan_lock {i : ι} {is : List ι} {held after : List (L × Mode)} {l : L} {m : Mode}
    (hop : M.op i = .lock l m) : Plan M rank spec held (i :: is) after ↔
      (∀ h ∈ held, rank h.1 < rank l) ∧ Plan M rank spec ((l, m) :: held) is after := by
  rw [Plan]
  simp only [hop]

theorem plan_unlock {i : ι} {is : List ι} {held after : List (L × Mode)} {l : L} {m : Mode}
    (hop : M.op i = .unlock l m) : Plan M rank spec held (i :: is) after ↔
      ∃ rest, held = (l, m) :: rest ∧ Plan M rank spec rest is after := by
  rw [Plan]
  simp only [hop]

theorem plan_work {i : ι} {is : List ι} {held after : List (L × Mode)} (hop : M.op i = .work) :
    Plan M rank spec held (i :: is) after ↔ ∃ mid, spec i held mid ∧
      Plan M rank spec mid is after := by
  rw [Plan]
  simp only [hop]

end Plans

/-- The lock for which the thread is about to ask. -/
def Thread.wants (M : Machine σ ι L) (t : Thread ι L) : Option (L × Mode) :=
  match t.code with
  | [] => none
  | i :: _ =>
      match M.op i with
      | .lock l m => some (l, m)
      | _ => none

variable [DecidableEq L]

namespace State

/-- No writer has the lock or has announced itself. -/
def NoWriter (M : Machine σ ι L) (l : L) (s : State σ ι L) : Prop :=
  ∀ t ∈ s.threads, (l, .write) ∉ t.held ∧ ¬ (t.announced = true ∧ t.wants M = some (l, .write))

instance (M : Machine σ ι L) (l : L) (s : State σ ι L) : Decidable (s.NoWriter M l) :=
  inferInstanceAs (Decidable (∀ t ∈ s.threads, _))

def Free (l : L) (s : State σ ι L) : Prop := ∀ t ∈ s.threads, ∀ h ∈ t.held, h.1 ≠ l

instance (l : L) (s : State σ ι L) : Decidable (s.Free l) :=
  inferInstanceAs (Decidable (∀ t ∈ s.threads, _))

def setThread (i : Nat) (t : Thread ι L) (s : State σ ι L) : State σ ι L :=
  { s with threads := s.threads.set i t }

end State

/-- The next instruction of a thread. -/
def execute (M : Machine σ ι L) (i : Nat) (t : Thread ι L) (s : State σ ι L) :
    Option (State σ ι L) :=
  match t.code with
  | [] => none
  | instr :: code =>
      match M.op instr with
      | .lock l .read =>
          if s.NoWriter M l then some (s.setThread i ⟨code, (l, .read) :: t.held, false⟩) else none
      | .lock l .write =>
          if t.announced = true ∧ s.Free l then
            some (s.setThread i ⟨code, (l, .write) :: t.held, false⟩)
          else none
      | .unlock l m =>
          if (l, m) ∈ t.held then some (s.setThread i ⟨code, t.held.erase (l, m), false⟩) else none
      | .work =>
          let (memory, instrs) := M.work instr s.memory
          some (State.setThread i ⟨instrs ++ code, t.held, false⟩ { s with memory := memory })

def step (M : Machine σ ι L) (s : State σ ι L) : Action ι → Option (State σ ι L)
  | .start code => some { s with threads := s.threads ++ [⟨code, [], false⟩] }
  | .announce i =>
      s.threads[i]?.bind fun t =>
        match t.wants M with
        | some (l, .write) =>
            if t.announced = false ∧ s.NoWriter M l then
              some (s.setThread i { t with announced := true })
            else none
        | _ => none
  | .next i => s.threads[i]?.bind fun t => execute M i t s

/-- What a step does. -/
inductive Moves (M : Machine σ ι L) (s : State σ ι L) : Action ι → State σ ι L → Prop
  | start (code : List ι) : Moves M s (.start code)
      { s with threads := s.threads ++ [⟨code, [], false⟩] }
  | announce {i : Nat} {t : Thread ι L} {l : L} (ht : s.threads[i]? = some t)
      (hwants : t.wants M = some (l, .write)) (hopen : s.NoWriter M l) :
      Moves M s (.announce i) (s.setThread i { t with announced := true })
  | read {i : Nat} {t : Thread ι L} {instr : ι} {code : List ι} {l : L}
      (ht : s.threads[i]? = some t)
      (hcode : t.code = instr :: code) (hop : M.op instr = .lock l .read) (hopen : s.NoWriter M l) :
      Moves M s (.next i) (s.setThread i ⟨code, (l, .read) :: t.held, false⟩)
  | write {i : Nat} {t : Thread ι L} {instr : ι} {code : List ι} {l : L}
      (ht : s.threads[i]? = some t)
      (hcode : t.code = instr :: code) (hop : M.op instr = .lock l .write) (hfree : s.Free l) :
      Moves M s (.next i) (s.setThread i ⟨code, (l, .write) :: t.held, false⟩)
  | unlock {i : Nat} {t : Thread ι L} {instr : ι} {code : List ι} {l : L} {m : Mode}
      (ht : s.threads[i]? = some t) (hcode : t.code = instr :: code)
      (hop : M.op instr = .unlock l m) :
      Moves M s (.next i) (s.setThread i ⟨code, t.held.erase (l, m), false⟩)
  | work {i : Nat} {t : Thread ι L} {instr : ι} {code : List ι} (ht : s.threads[i]? = some t)
      (hcode : t.code = instr :: code) (hop : M.op instr = .work) :
      Moves M s (.next i)
        (State.setThread i ⟨(M.work instr s.memory).2 ++ code, t.held, false⟩
          { s with memory := (M.work instr s.memory).1 })

variable {M : Machine σ ι L} {s s' : State σ ι L} {rank : L → Nat}
variable {spec : σ → ι → List (L × Mode) → List (L × Mode) → Prop} {I : σ → Prop}

theorem moves_of_execute {i : Nat} {t : Thread ι L} (ht : s.threads[i]? = some t)
    (h : execute M i t s = some s') : Moves M s (.next i) s' := by
  cases hcode : t.code with
  | nil =>
      rw [execute, hcode] at h
      cases h
  | cons instr code =>
      rw [execute, hcode] at h
      cases hop : M.op instr with
      | lock l m =>
          cases m with
          | read =>
              simp only [hop] at h
              split_ifs at h with hopen
              cases h
              exact .read ht hcode hop hopen
          | write =>
              simp only [hop] at h
              split_ifs at h with hfree
              cases h
              exact .write ht hcode hop hfree.2
      | unlock l m =>
          simp only [hop] at h
          split_ifs at h
          cases h
          exact .unlock ht hcode hop
      | work =>
          simp only [hop] at h
          cases h
          exact .work ht hcode hop

theorem moves_of_step {a : Action ι} (h : step M s a = some s') : Moves M s a s' := by
  cases a with
  | start code =>
      cases h
      exact .start code
  | announce i =>
      obtain ⟨t, ht, hrest⟩ := Option.bind_eq_some_iff.mp h
      split at hrest
      · next l hwants =>
          split_ifs at hrest with hopen
          cases hrest
          exact .announce ht hwants hopen.2
      · cases hrest
  | next i =>
      obtain ⟨t, ht, hrest⟩ := Option.bind_eq_some_iff.mp h
      exact moves_of_execute ht hrest

/-- No thread has a lock that another one has for writing. -/
def Exclusive (s : State σ ι L) : Prop :=
  ∀ (i j : Nat) (t u : Thread ι L) (l : L) (m : Mode), s.threads[i]? = some t →
    s.threads[j]? = some u →
    i ≠ j → (l, .write) ∈ t.held → (l, m) ∉ u.held

structure Inv (M : Machine σ ι L) (rank : L → Nat)
    (spec : σ → ι → List (L × Mode) → List (L × Mode) → Prop) (I : σ → Prop)
    (s : State σ ι L) : Prop where
  memory : I s.memory
  planned : ∀ t ∈ s.threads, Plan M rank (spec s.memory) t.held t.code []
  exclusive : Exclusive s

omit [DecidableEq L] in
/-- One thread changes, and the locks it gets are in nobody's way. -/
theorem Exclusive.set {i : Nat} {t t' : Thread ι L} {memory : σ} (h : Exclusive s)
    (ht : s.threads[i]? = some t)
    (hheld : ∀ l m, (l, m) ∈ t'.held → (l, m) ∈ t.held ∨
      ∀ j u, s.threads[j]? = some u → j ≠ i → (m = .write → ∀ m', (l, m') ∉ u.held) ∧
        (l, .write) ∉ u.held) :
    Exclusive (State.setThread i t' { s with memory := memory }) := by
  intro j k u v l m hu hv hjk hwrite hmem
  simp only [State.setThread, List.getElem?_set] at hu hv
  by_cases hji : i = j
  · have hki : i ≠ k := fun heq => hjk (hji.symm.trans heq)
    rw [if_neg hki] at hv
    rw [if_pos hji] at hu
    split_ifs at hu
    cases hu
    cases hheld l .write hwrite with
    | inl hold => exact h i k t v l m ht hv hki hold hmem
    | inr hnew => exact (hnew k v hv hki.symm).1 rfl m hmem
  · rw [if_neg hji] at hu
    by_cases hki : i = k
    · rw [if_pos hki] at hv
      split_ifs at hv
      cases hv
      cases hheld l m hmem with
      | inl hold => exact h j i u t l m hu ht (Ne.symm hji) hwrite hold
      | inr hnew => exact (hnew j u hu (Ne.symm hji)).2 hwrite
    · rw [if_neg hki] at hv
      exact h j k u v l m hu hv hjk hwrite hmem

omit [DecidableEq L] in
/-- One thread changes, and keeps to the plan. -/
theorem planned_set {i : Nat} {t' : Thread ι L} {plan : Thread ι L → Prop}
    (h : ∀ t ∈ s.threads, plan t) (ht' : plan t') (memory : σ) :
    ∀ t ∈ (State.setThread i t' { s with memory := memory }).threads, plan t := by
  intro t ht
  cases List.mem_or_eq_of_mem_set ht with
  | inl hold => exact h t hold
  | inr hnew => exact hnew ▸ ht'

theorem inv_step {a : Action ι} (hM : Disciplined M rank spec I) (h : Inv M rank spec I s)
    (hstart : ∀ code, a = .start code → Plan M rank (spec s.memory) [] code [])
    (hstep : step M s a = some s') : Inv M rank spec I s' := by
  have hplan {i : Nat} {t : Thread ι L} {instr : ι} {code : List ι} (ht : s.threads[i]? = some t)
      (hcode : t.code = instr :: code) : Plan M rank (spec s.memory) t.held (instr :: code) [] :=
    hcode ▸ h.planned t (List.mem_of_getElem? ht)
  cases moves_of_step hstep with
  | start code =>
      refine ⟨h.memory, ?_, ?_⟩
      · intro t ht
        cases List.mem_append.mp ht with
        | inl hold => exact h.planned t hold
        | inr hnew =>
            rw [List.mem_singleton.mp hnew]
            exact hstart code rfl
      · -- The new thread has no lock.
        intro i j t u l m ht hu hij hwrite hmem
        have hold {k : Nat} {v : Thread ι L} {e : L × Mode}
            (hv : (s.threads ++ [⟨code, [], false⟩])[k]? = some v) (he : e ∈ v.held) :
              s.threads[k]? = some v := by
          rw [List.getElem?_append] at hv
          split_ifs at hv
          · exact hv
          · rw [List.getElem?_singleton] at hv
            split_ifs at hv
            cases hv
            cases he
        exact h.exclusive i j t u l m (hold ht hwrite) (hold hu hmem) hij hwrite hmem
  | announce ht hwants hopen =>
      have hthread := h.planned _ (List.mem_of_getElem? ht)
      refine ⟨h.memory, planned_set h.planned ?_ _, ?_⟩
      · exact hthread
      · exact h.exclusive.set ht fun l m hmem => .inl hmem
  | read ht hcode hop hopen =>
      refine ⟨h.memory, planned_set h.planned ((plan_lock hop).mp (hplan ht hcode)).2 _, ?_⟩
      refine h.exclusive.set ht fun l m hmem => ?_
      cases hmem with
      | head => exact .inr fun j u hu _ => ⟨nofun, (hopen u (List.mem_of_getElem? hu)).1⟩
      | tail _ hold => exact .inl hold
  | write ht hcode hop hfree =>
      refine ⟨h.memory, planned_set h.planned ((plan_lock hop).mp (hplan ht hcode)).2 _, ?_⟩
      refine h.exclusive.set ht fun l m hmem => ?_
      cases hmem with
      | head =>
          exact .inr fun j u hu _ => ⟨fun _ m' hm' => hfree u (List.mem_of_getElem? hu) _ hm' rfl,
            fun hm' => hfree u (List.mem_of_getElem? hu) _ hm' rfl⟩
      | tail _ hold => exact .inl hold
  | unlock ht hcode hop =>
      obtain ⟨rest, hheld, hrest⟩ := (plan_unlock hop).mp (hplan ht hcode)
      refine ⟨h.memory, planned_set h.planned ?_ _, ?_⟩
      · rw [hheld, List.erase_cons_head]
        exact hrest
      · exact h.exclusive.set ht fun l m hmem => .inl (List.mem_of_mem_erase hmem)
  | work ht hcode hop =>
      obtain ⟨mid, hspec, hrest⟩ := (plan_work hop).mp (hplan ht hcode)
      refine ⟨hM.memory _ _ _ _ hop h.memory hspec, ?_, ?_⟩
      · have hmono := hM.mono _ _ _ _ hop h.memory hspec
        refine planned_set (fun u hu => (h.planned u hu).mono hmono) ?_ _
        exact (hM.plan _ _ _ _ hop h.memory hspec).append (hrest.mono hmono)
      · exact h.exclusive.set ht fun l m hmem => .inl hmem

/-- A thread with an instruction that asks for no lock can go on. -/
theorem exists_next_of_wants_none {i : Nat} {t : Thread ι L}
    (hplan : Plan M rank (spec s.memory) t.held t.code [])
    (ht : s.threads[i]? = some t) (hcode : t.code ≠ []) (hwants : t.wants M = none) :
    ∃ s', step M s (.next i) = some s' := by
  cases hc : t.code with
  | nil => exact absurd hc hcode
  | cons instr code =>
      rw [hc] at hplan
      cases hop : M.op instr with
      | lock l m => simp [Thread.wants, hc, hop] at hwants
      | unlock l m =>
          obtain ⟨rest, hheld, -⟩ := (plan_unlock hop).mp hplan
          simp [step, ht, execute, hc, hop, hheld]
      | work => simp [step, ht, execute, hc, hop]

/-- A thread that asks for a lock which nobody holds can go on, or the writer that has announced
itself before. -/
theorem exists_next_of_free {i : Nat} {t : Thread ι L} {l : L} {m : Mode}
    (ht : s.threads[i]? = some t) (hwants : t.wants M = some (l, m)) (hfree : s.Free l) :
    ∃ j s', step M s (.next j) = some s' ∨ step M s (.announce j) = some s' := by
  have hwriter {j : Nat} {u : Thread ι L} (hu : s.threads[j]? = some u) (hann : u.announced = true)
      (huwants : u.wants M = some (l, .write)) : ∃ s', step M s (.next j) = some s' := by
    cases hc : u.code with
    | nil => simp [Thread.wants, hc] at huwants
    | cons instr code =>
        cases hop : M.op instr with
        | lock l' m' =>
            obtain ⟨rfl, rfl⟩ : l' = l ∧ m' = .write := by
              simpa [Thread.wants, hc, hop] using huwants
            simp [step, hu, execute, hc, hop, hann, hfree]
        | unlock l' m' => simp [Thread.wants, hc, hop] at huwants
        | work => simp [Thread.wants, hc, hop] at huwants
  by_cases hopen : s.NoWriter M l
  · cases m with
    | read =>
        cases hc : t.code with
        | nil => simp [Thread.wants, hc] at hwants
        | cons instr code =>
            cases hop : M.op instr with
            | lock l' m' =>
                obtain ⟨rfl, rfl⟩ : l' = l ∧ m' = .read := by
                  simpa [Thread.wants, hc, hop] using hwants
                exact ⟨i, _, .inl (by simp [step, ht, execute, hc, hop, hopen]; rfl)⟩
            | unlock l' m' => simp [Thread.wants, hc, hop] at hwants
            | work => simp [Thread.wants, hc, hop] at hwants
    | write =>
        cases hann : t.announced with
        | true => exact absurd ⟨hann, hwants⟩ (hopen t (List.mem_of_getElem? ht)).2
        | false => exact ⟨i, _, .inr (by simp [step, ht, hwants, hann, hopen]; rfl)⟩
  · simp only [State.NoWriter, not_forall] at hopen
    obtain ⟨u, hu, hbad⟩ := hopen
    obtain ⟨j, hj⟩ := List.mem_iff_getElem?.mp hu
    have hnot : (l, .write) ∉ u.held := fun hmem => hfree u hu _ hmem rfl
    have hann : u.announced = true ∧ u.wants M = some (l, .write) := by
      by_contra hcon
      exact hbad ⟨hnot, hcon⟩
    exact ⟨j, (hwriter hj hann.1 hann.2).imp fun _ => .inl⟩

/-- Some thread can go on, unless all of them have ended. -/
theorem Inv.exists_next (h : Inv M rank spec I s) (hbusy : ∃ t ∈ s.threads, t.code ≠ []) :
    ∃ i s', step M s (.next i) = some s' ∨ step M s (.announce i) = some s' := by
  let ranks := s.threads.map fun t => (t.wants M).elim 0 fun e => rank e.1 + 1
  -- The holder of a lock that is asked for asks for one of a higher rank, if it cannot go on.
  have hclimb (k : Nat) : ∀ t ∈ s.threads, ∀ l m, t.wants M = some (l, m) → ranks.sum < rank l + k →
      ∃ i s', step M s (.next i) = some s' ∨ step M s (.announce i) = some s' := by
    induction k with
    | zero =>
        intro t ht l m hwants hrank
        have hle : rank l + 1 ≤ ranks.sum := by
          refine List.le_sum_of_mem ?_
          exact List.mem_map.mpr ⟨t, ht, by simp [hwants]⟩
        omega
    | succ k ih =>
        intro t ht l m hwants hrank
        by_cases hfree : s.Free l
        · obtain ⟨i, hi⟩ := List.mem_iff_getElem?.mp ht
          exact exists_next_of_free hi hwants hfree
        · simp only [State.Free, not_forall, not_not] at hfree
          obtain ⟨u, hu, e, he, rfl⟩ := hfree
          have hplan := h.planned u hu
          have hcode : u.code ≠ [] := by
            intro hnil
            rw [hnil] at hplan
            rw [show u.held = [] from hplan] at he
            cases he
          cases huwants : u.wants M with
          | none =>
              obtain ⟨i, hi⟩ := List.mem_iff_getElem?.mp hu
              obtain ⟨s', hs'⟩ := exists_next_of_wants_none hplan hi hcode huwants
              exact ⟨i, s', .inl hs'⟩
          | some e' =>
              have hhigher : rank e.1 < rank e'.1 := by
                cases hc : u.code with
                | nil => exact absurd hc hcode
                | cons instr code =>
                    rw [hc] at hplan
                    cases hop : M.op instr with
                    | lock l' m' =>
                        obtain rfl : (l', m') = e' := by simpa [Thread.wants, hc, hop] using huwants
                        exact ((plan_lock hop).mp hplan).1 e he
                    | unlock l' m' => simp [Thread.wants, hc, hop] at huwants
                    | work => simp [Thread.wants, hc, hop] at huwants
              exact ih u hu e'.1 e'.2 huwants (by omega)
  obtain ⟨t, ht, hcode⟩ := hbusy
  cases hwants : t.wants M with
  | none =>
      obtain ⟨i, hi⟩ := List.mem_iff_getElem?.mp ht
      obtain ⟨s', hs'⟩ := exists_next_of_wants_none (h.planned t ht) hi hcode hwants
      exact ⟨i, s', .inl hs'⟩
  | some e => exact hclimb (ranks.sum + 1) t ht e.1 e.2 hwants (by omega)

end Locks
