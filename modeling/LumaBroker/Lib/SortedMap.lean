import Mathlib.Order.Lattice
import Mathlib.Data.List.Pairwise
import Mathlib.Tactic.SplitIfs

/-!
Finite maps as strictly sorted association lists. The entry list is canonical:
two maps with the same lookups are equal, so an equation between maps is an
equation between the finite functions they represent.

The raw operations work on entry lists and their lookup laws need no
sortedness; a recursive type can therefore nest the raw list and keep the
sortedness of every level in a predicate of its own.
-/

namespace SortedMap
universe u v w
variable {K : Type u} {V : Type v} {W : Type w} [LinearOrder K]

/-- The value at the first entry with this key. -/
def lookup (k : K) : List (K × V) → Option V
  | [] => none
  | e :: m => if k = e.1 then some e.2 else lookup k m

/-- One pass: the entry goes in front of the first larger key and replaces an
entry with the same key. -/
def insert (k : K) (v : V) : List (K × V) → List (K × V)
  | [] => [(k, v)]
  | e :: m =>
      if k < e.1 then (k, v) :: e :: m
      else if k = e.1 then (k, v) :: m
      else e :: insert k v m

def remove (k : K) : List (K × V) → List (K × V)
  | [] => []
  | e :: m => if k = e.1 then remove k m else e :: remove k m

def Sorted (m : List (K × V)) : Prop :=
  m.Pairwise fun a b => a.1 < b.1

-- The lookup laws hold for any decision of the key equation, so that they apply
-- where a key type decides equality by another instance than its order's.

theorem lookup_insert (k j : K) [Decidable (j = k)] (v : V) (m : List (K × V)) :
    lookup j (insert k v m) = if j = k then some v else lookup j m := by
  induction m with
  | nil => by_cases hj : j = k <;> simp [insert, lookup, hj]
  | cons e m ih =>
      obtain ⟨i, w⟩ := e
      by_cases hlt : k < i
      · simp [insert, lookup, hlt]
      · by_cases heq : k = i
        · subst heq
          simp only [insert, hlt, lookup, if_true, if_false]
          split_ifs <;> rfl
        · simp only [insert, hlt, heq, lookup, if_false, ih]
          split_ifs with he hj
          · exact absurd (hj.symm.trans he) heq
          · rfl
          · rfl
          · rfl

theorem lookup_remove (k j : K) [Decidable (j = k)] (m : List (K × V)) :
    lookup j (remove k m) = if j = k then none else lookup j m := by
  induction m with
  | nil => simp [remove, lookup]
  | cons e m ih =>
      by_cases hk : k = e.1
      · simp only [remove, hk, if_true, lookup] at ih ⊢
        rw [ih]
        split_ifs <;> rfl
      · simp only [remove, hk, lookup, if_false, ih]
        split_ifs with he hj
        · exact absurd (hj.symm.trans he) hk
        · rfl
        · rfl
        · rfl

theorem lookup_map_snd (f : V → W) (k : K) (m : List (K × V)) :
    lookup k (m.map fun e => (e.1, f e.2)) = (lookup k m).map f := by
  induction m with
  | nil => rfl
  | cons e m ih => by_cases h : k = e.1 <;> simp [lookup, h, ih]

theorem mem_insert {k : K} {v : V} {m : List (K × V)} {e : K × V}
    (h : e ∈ insert k v m) : e = (k, v) ∨ e ∈ m := by
  induction m with
  | nil => exact Or.inl (List.mem_singleton.mp h)
  | cons a m ih =>
      simp only [insert] at h
      split_ifs at h with hlt heq
      · simpa using h
      · rcases List.mem_cons.mp h with h | h
        · exact Or.inl h
        · exact Or.inr (List.mem_cons_of_mem a h)
      · rcases List.mem_cons.mp h with h | h
        · exact Or.inr (h ▸ List.mem_cons_self)
        · exact (ih h).imp id (List.mem_cons_of_mem a)

theorem mem_remove {k : K} {m : List (K × V)} {e : K × V} (h : e ∈ remove k m) : e ∈ m := by
  induction m with
  | nil => exact h
  | cons a m ih =>
      simp only [remove] at h
      split_ifs at h with heq
      · exact List.mem_cons_of_mem a (ih h)
      · rcases List.mem_cons.mp h with h | h
        · exact h ▸ List.mem_cons_self
        · exact List.mem_cons_of_mem a (ih h)

theorem sorted_insert (k : K) (v : V) {m : List (K × V)} (h : Sorted m) :
    Sorted (insert k v m) := by
  induction m with
  | nil => exact List.pairwise_singleton _ _
  | cons e m ih =>
      obtain ⟨hhead, htail⟩ := List.pairwise_cons.mp h
      simp only [insert]
      split_ifs with hlt heq
      · refine List.pairwise_cons.mpr ⟨fun a ha => ?_, h⟩
        rcases List.mem_cons.mp ha with ha | ha
        · exact ha ▸ hlt
        · exact lt_trans hlt (hhead a ha)
      · refine List.pairwise_cons.mpr ⟨fun a ha => ?_, htail⟩
        exact heq ▸ hhead a ha
      · refine List.pairwise_cons.mpr ⟨fun a ha => ?_, ih htail⟩
        rcases mem_insert ha with ha | ha
        · subst ha
          exact lt_of_le_of_ne (not_lt.mp hlt) (Ne.symm heq)
        · exact hhead a ha

theorem sorted_remove (k : K) {m : List (K × V)} (h : Sorted m) : Sorted (remove k m) := by
  induction m with
  | nil => exact h
  | cons e m ih =>
      obtain ⟨hhead, htail⟩ := List.pairwise_cons.mp h
      simp only [remove]
      split_ifs with heq
      · exact ih htail
      · exact List.pairwise_cons.mpr ⟨fun a ha => hhead a (mem_remove ha), ih htail⟩

theorem lookup_eq_none_of_lt {k : K} {m : List (K × V)} (h : ∀ e ∈ m, k < e.1) :
    lookup k m = none := by
  induction m with
  | nil => rfl
  | cons e m ih =>
      have hne : k ≠ e.1 := ne_of_lt (h e List.mem_cons_self)
      simp only [lookup, hne, if_false]
      exact ih fun a ha => h a (List.mem_cons_of_mem e ha)

theorem mem_of_lookup {k : K} {v : V} {m : List (K × V)} (h : lookup k m = some v) :
    (k, v) ∈ m := by
  induction m with
  | nil => cases h
  | cons e m ih =>
      by_cases hk : k = e.1
      · simp only [lookup, hk, if_true, Option.some.injEq] at h
        subst hk h
        exact List.mem_cons_self
      · simp only [lookup, hk, if_false] at h
        exact List.mem_cons_of_mem e (ih h)

theorem lookup_of_mem {k : K} {v : V} {m : List (K × V)} (hs : Sorted m)
    (h : (k, v) ∈ m) : lookup k m = some v := by
  induction m with
  | nil => cases h
  | cons e m ih =>
      obtain ⟨hhead, htail⟩ := List.pairwise_cons.mp hs
      rcases List.mem_cons.mp h with h | h
      · subst h
        simp [lookup]
      · have hne : k ≠ e.1 := ne_of_gt (hhead _ h)
        simp only [lookup, hne, if_false]
        exact ih htail h

/-- A sorted entry list holds at most one entry for a key. -/
theorem filter_key_eq {m : List (K × V)} (hs : Sorted m) (k : K)
    [DecidablePred fun e : K × V => e.1 = k] :
    (m.filter fun e => e.1 = k) = (lookup k m).toList.map fun v => (k, v) := by
  induction m with
  | nil => rfl
  | cons e m ih =>
      obtain ⟨hhead, htail⟩ := List.pairwise_cons.mp hs
      by_cases hk : k = e.1
      · subst hk
        have hrest : lookup e.1 m = none := lookup_eq_none_of_lt hhead
        simp [lookup, ih htail, hrest]
      · simp [lookup, hk, Ne.symm hk, ih htail]

/-- Extensionality: the first keys must coincide, since each is the least key
with a value; then the tails agree everywhere. -/
theorem eq_of_lookup_eq {m n : List (K × V)} (hm : Sorted m) (hn : Sorted n)
    (h : ∀ k, lookup k m = lookup k n) : m = n := by
  induction m generalizing n with
  | nil =>
      cases n with
      | nil => rfl
      | cons e n => simpa [lookup] using h e.1
  | cons e m ih =>
      cases n with
      | nil => simpa [lookup] using h e.1
      | cons f n =>
          obtain ⟨hmh, hmt⟩ := List.pairwise_cons.mp hm
          obtain ⟨hnh, hnt⟩ := List.pairwise_cons.mp hn
          have hkey : e.1 = f.1 := by
            rcases lt_trichotomy e.1 f.1 with hlt | heq | hgt
            · have hnone : lookup e.1 (f :: n) = none := by
                apply lookup_eq_none_of_lt
                intro a ha
                rcases List.mem_cons.mp ha with ha | ha
                · exact ha ▸ hlt
                · exact lt_trans hlt (hnh a ha)
              have hsome := h e.1
              rw [hnone] at hsome
              simp [lookup] at hsome
            · exact heq
            · have hnone : lookup f.1 (e :: m) = none := by
                apply lookup_eq_none_of_lt
                intro a ha
                rcases List.mem_cons.mp ha with ha | ha
                · exact ha ▸ hgt
                · exact lt_trans hgt (hmh a ha)
              have hsome := h f.1
              rw [hnone] at hsome
              simp [lookup] at hsome
          have hval : e.2 = f.2 := by simpa [lookup, hkey] using h e.1
          have htail : m = n := by
            apply ih hmt hnt
            intro k
            by_cases hk : k = e.1
            · have hm0 : lookup k m = none := hk ▸ lookup_eq_none_of_lt hmh
              have hn0 : lookup k n = none := hk ▸ hkey ▸ lookup_eq_none_of_lt hnh
              rw [hm0, hn0]
            · simpa [lookup, hk, ← hkey] using h k
          rw [htail, Prod.ext hkey hval]

theorem insert_perm {k : K} {m : List (K × V)} (v : V) (h : lookup k m = none) :
    (insert k v m).Perm ((k, v) :: m) := by
  induction m with
  | nil => exact List.Perm.refl _
  | cons e m ih =>
      have hne : k ≠ e.1 := by
        intro hk
        simp [lookup, hk] at h
      simp only [lookup, hne, if_false] at h
      simp only [insert, hne, if_false]
      split_ifs with hlt
      · exact List.Perm.refl _
      · exact ((ih h).cons e).trans (List.Perm.swap _ _ _)

end SortedMap

/-- A finite map: an entry list together with the proof that it is canonical. -/
structure FinMap (K : Type*) (V : Type*) [LinearOrder K] where
  entries : List (K × V)
  sorted : SortedMap.Sorted entries

namespace FinMap
universe u v
variable {K : Type u} {V : Type v} [LinearOrder K]

instance [DecidableEq V] : DecidableEq (FinMap K V) := fun m n =>
  decidable_of_iff (m.entries = n.entries) (by cases m; cases n; simp)

def empty : FinMap K V := ⟨[], List.Pairwise.nil⟩

def get (m : FinMap K V) (k : K) : Option V := SortedMap.lookup k m.entries

def set (m : FinMap K V) (k : K) (v : V) : FinMap K V :=
  ⟨SortedMap.insert k v m.entries, SortedMap.sorted_insert k v m.sorted⟩

def erase (m : FinMap K V) (k : K) : FinMap K V :=
  ⟨SortedMap.remove k m.entries, SortedMap.sorted_remove k m.sorted⟩

def isEmpty (m : FinMap K V) : Bool := m.entries.isEmpty

def keys (m : FinMap K V) : List K := m.entries.map Prod.fst

@[simp] theorem get_empty (k : K) : (empty : FinMap K V).get k = none := rfl

theorem get_set (m : FinMap K V) (k j : K) [Decidable (j = k)] (v : V) :
    (m.set k v).get j = if j = k then some v else m.get j :=
  SortedMap.lookup_insert k j v m.entries

@[simp] theorem get_set_self (m : FinMap K V) (k : K) (v : V) : (m.set k v).get k = some v := by
  simp [get_set]

theorem get_set_ne (m : FinMap K V) {k j : K} (v : V) (h : j ≠ k) :
    (m.set k v).get j = m.get j := by
  simp [get_set, h]

theorem get_erase (m : FinMap K V) (k j : K) [Decidable (j = k)] :
    (m.erase k).get j = if j = k then none else m.get j :=
  SortedMap.lookup_remove k j m.entries

@[simp] theorem get_erase_self (m : FinMap K V) (k : K) : (m.erase k).get k = none := by
  simp [get_erase]

theorem get_erase_ne (m : FinMap K V) {k j : K} (h : j ≠ k) :
    (m.erase k).get j = m.get j := by
  simp [get_erase, h]

/-- Set or erase, by an optional value. -/
def put (m : FinMap K V) (k : K) : Option V → FinMap K V
  | none => m.erase k
  | some v => m.set k v

theorem put_some (m : FinMap K V) (k : K) (v : V) : m.put k (some v) = m.set k v := rfl

theorem put_none (m : FinMap K V) (k : K) : m.put k none = m.erase k := rfl

theorem get_put (m : FinMap K V) (k j : K) [Decidable (j = k)] (o : Option V) :
    (m.put k o).get j = if j = k then o else m.get j := by
  cases o with
  | none => exact m.get_erase k j
  | some v => exact m.get_set k j v

@[simp] theorem get_put_self (m : FinMap K V) (k : K) (o : Option V) : (m.put k o).get k = o := by
  rw [get_put, if_pos rfl]

/-- A loop over the entries that changes each key by its own value only. -/
theorem get_foldl_put (h : K → V → Option V) {entries : List (K × V)}
    (hs : SortedMap.Sorted entries) (m : FinMap K V) (j : K) :
    (entries.foldl (fun m e => m.put e.1 (h e.1 e.2)) m).get j =
      (SortedMap.lookup j entries).elim (m.get j) (h j) := by
  induction entries generalizing m with
  | nil => rfl
  | cons e entries ih =>
      obtain ⟨hhead, htail⟩ := List.pairwise_cons.mp hs
      rw [List.foldl_cons, ih htail, get_put]
      by_cases hj : j = e.1
      · subst hj
        simp [SortedMap.lookup, SortedMap.lookup_eq_none_of_lt hhead]
      · simp [SortedMap.lookup, hj]

/-- The entries that pass a check of their value. -/
def filter (p : V → Bool) (m : FinMap K V) : FinMap K V :=
  ⟨m.entries.filter fun e => p e.2, m.sorted.filter _⟩

theorem mem_entries (m : FinMap K V) (k : K) (v : V) :
    (k, v) ∈ m.entries ↔ m.get k = some v :=
  ⟨SortedMap.lookup_of_mem m.sorted, SortedMap.mem_of_lookup⟩

theorem get_filter (p : V → Bool) (m : FinMap K V) (k : K) :
    (m.filter p).get k = (m.get k).filter p := by
  apply Option.ext
  intro v
  rw [Option.filter_eq_some_iff, ← mem_entries, ← mem_entries, filter, List.mem_filter]

theorem any_entries_eq_false {m : FinMap K V} {p : K × V → Bool} (h : m.entries.any p = false)
    {k : K} {v : V} (hk : m.get k = some v) : p (k, v) = false := by
  have hnot := List.any_eq_false.mp h (k, v) ((m.mem_entries k v).mpr hk)
  simpa using hnot

theorem mem_keys (m : FinMap K V) (k : K) : k ∈ m.keys ↔ ∃ v, m.get k = some v := by
  constructor
  · intro h
    obtain ⟨e, he, rfl⟩ := List.mem_map.mp h
    exact ⟨e.2, (m.mem_entries e.1 e.2).mp he⟩
  · rintro ⟨v, h⟩
    exact List.mem_map.mpr ⟨(k, v), (m.mem_entries k v).mpr h, rfl⟩

theorem filter_entries_key (m : FinMap K V) (k : K)
    [DecidablePred fun e : K × V => e.1 = k] :
    (m.entries.filter fun e => e.1 = k) = (m.get k).toList.map fun v => (k, v) :=
  SortedMap.filter_key_eq m.sorted k

theorem ext_get {m n : FinMap K V} (h : ∀ k, m.get k = n.get k) : m = n := by
  have := SortedMap.eq_of_lookup_eq m.sorted n.sorted h
  cases m
  cases n
  subst this
  rfl

theorem set_eq_self_iff (m : FinMap K V) (k : K) (v : V) : m.set k v = m ↔ m.get k = some v := by
  constructor
  · intro h
    rw [← h, get_set_self]
  · intro h
    refine ext_get fun j => ?_
    rw [get_set]
    split_ifs with hj
    · rw [hj, h]
    · rfl

theorem put_put (m : FinMap K V) (k : K) (o o' : Option V) : (m.put k o).put k o' = m.put k o' := by
  apply ext_get
  intro j
  simp only [get_put]
  split_ifs <;> rfl

theorem isEmpty_iff (m : FinMap K V) : m.isEmpty = true ↔ ∀ k, m.get k = none := by
  constructor
  · intro h k
    simp [get, List.isEmpty_iff.mp h, SortedMap.lookup]
  · intro h
    apply List.isEmpty_iff.mpr
    cases hm : m.entries with
    | nil => rfl
    | cons e l =>
        have := (m.mem_entries e.1 e.2).mp (hm ▸ List.mem_cons_self)
        simp [h] at this

@[simp] theorem isEmpty_set (m : FinMap K V) (k : K) (v : V) : (m.set k v).isEmpty = false := by
  cases he : (m.set k v).isEmpty with
  | false => rfl
  | true =>
      have hnone := (isEmpty_iff _).mp he k
      simp at hnone

theorem entries_set_perm (m : FinMap K V) (k : K) (v : V) :
    (m.set k v).entries.Perm ((k, v) :: (m.erase k).entries) := by
  have hset : m.set k v = (m.erase k).set k v := by
    apply ext_get
    intro j
    simp only [get_set, get_erase]
    split_ifs <;> rfl
  rw [hset]
  exact SortedMap.insert_perm v (m.get_erase_self k)

theorem entries_erase_perm {m : FinMap K V} {k : K} {v : V} (h : m.get k = some v) :
    m.entries.Perm ((k, v) :: (m.erase k).entries) := by
  have hset : m.set k v = m := by
    apply ext_get
    intro j
    rw [get_set]
    split_ifs with hj
    · rw [hj, h]
    · rfl
  have hperm := m.entries_set_perm k v
  rwa [hset] at hperm

theorem erase_of_get_none {m : FinMap K V} {k : K} (h : m.get k = none) : m.erase k = m := by
  apply ext_get
  intro j
  rw [get_erase]
  split_ifs with hj
  · rw [hj, h]
  · rfl

/-- The number of keys. -/
def size (m : FinMap K V) : Nat := m.entries.length

theorem length_keys (m : FinMap K V) : m.keys.length = m.size := List.length_map ..

theorem size_erase {m : FinMap K V} {k : K} {v : V} (h : m.get k = some v) :
    (m.erase k).size + 1 = m.size :=
  (entries_erase_perm h).length_eq.symm

theorem size_erase_le (m : FinMap K V) (k : K) : (m.erase k).size ≤ m.size := by
  cases h : m.get k with
  | none => rw [erase_of_get_none h]
  | some v => exact Nat.le_of_succ_le (le_of_eq (size_erase h))

theorem size_set (m : FinMap K V) (k : K) (v : V) : (m.set k v).size = (m.erase k).size + 1 :=
  (m.entries_set_perm k v).length_eq

theorem size_set_of_get_none {m : FinMap K V} {k : K} (v : V) (h : m.get k = none) :
    (m.set k v).size = m.size + 1 := by
  rw [size_set, erase_of_get_none h]

theorem size_set_of_get_some {m : FinMap K V} {k : K} {u : V} (v : V) (h : m.get k = some u) :
    (m.set k v).size = m.size := by
  rw [size_set, size_erase h]

/-- What the size misses of one more when a key is set: nothing, if the key is new. -/
theorem exists_size_set (m : FinMap K V) (k : K) (v : V) :
    ∃ n, (m.set k v).size + n = m.size + 1 ∧ (m.get k = none ↔ n = 0) := by
  cases hk : m.get k with
  | none => exact ⟨0, size_set_of_get_none v hk, by simp⟩
  | some u => exact ⟨1, congrArg (· + 1) (size_set_of_get_some v hk), by simp⟩

theorem exists_size_erase (m : FinMap K V) (k : K) :
    ∃ n, (m.erase k).size + 1 = m.size + n ∧ (m.get k ≠ none ↔ n = 0) := by
  cases hk : m.get k with
  | none => exact ⟨1, by rw [erase_of_get_none hk], by simp⟩
  | some u => exact ⟨0, size_erase hk, by simp⟩

theorem keys_pairwise (m : FinMap K V) : m.keys.Pairwise (· < ·) :=
  List.pairwise_map.mpr m.sorted

theorem keys_nodup (m : FinMap K V) : m.keys.Nodup :=
  m.keys_pairwise.imp fun h => ne_of_lt h

/-- The key list is determined by the set of keys. -/
theorem eq_keys_of_mem_iff {ks : List K} (hs : ks.Pairwise (· < ·)) (m : FinMap K V)
    (h : ∀ k, k ∈ ks ↔ k ∈ m.keys) : ks = m.keys := by
  have hperm : ks.Perm m.keys :=
    (List.perm_ext_iff_of_nodup (hs.imp fun h => ne_of_lt h) m.keys_nodup).mpr h
  exact hperm.eq_of_pairwise (fun a b _ _ hab hba => absurd hab (lt_asymm hba)) hs m.keys_pairwise

theorem isEmpty_iff_keys (m : FinMap K V) : m.isEmpty = true ↔ m.keys = [] := by
  simp [isEmpty, keys]

end FinMap
