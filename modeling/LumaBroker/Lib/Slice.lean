import Mathlib.Data.List.Basic

/-!
Slices over a heap of arrays, as Go has them. A slice is a window of an array and may grow
up to its capacity; slicing gives another window of the same array. Append writes into
that array while the capacity lasts and moves to a new one when it does not, so two
slices may see each other's writes. The frame rules say which slices an operation spares.
-/

namespace Slices
variable {α : Type}

structure Slice where
  array : Nat
  offset : Nat
  len : Nat
  cap : Nat
  len_le_cap : len ≤ cap
  deriving DecidableEq

/-- The arrays allocated so far; a pointer is a position in the list. -/
structure Heap (α : Type) where
  arrays : List (List α)
  deriving DecidableEq

/-- How append chooses the capacity of a new array, from the old capacity and the length
that is needed. -/
structure Growth where
  newCap : Nat → Nat → Nat
  le_newCap : ∀ cap needed, needed ≤ newCap cap needed

def doubling : Growth where
  newCap cap needed := max (2 * cap) needed
  le_newCap _ _ := Nat.le_max_right _ _

/-- The cells from `i` on replaced by `xs`. -/
def overwrite (cells : List α) (i : Nat) (xs : List α) : List α :=
  cells.take i ++ (xs ++ cells.drop (i + xs.length))

namespace Slice

def nil : Slice := ⟨0, 0, 0, 0, Nat.le_refl 0⟩

/-- The expression s[low:high], which may reach beyond the length; none is the panic for
bounds out of range. -/
def slice (s : Slice) (low high : Nat) : Option Slice :=
  if h : low ≤ high ∧ high ≤ s.cap then
    some ⟨s.array, s.offset + low, high - low, s.cap - low, Nat.sub_le_sub_right h.2 low⟩
  else none

/-- No cell is within the capacity of both. -/
def Apart (s t : Slice) : Prop := s.cap = 0 ∨ t.cap = 0 ∨ s.array ≠ t.array

end Slice

namespace Heap

def array (h : Heap α) (p : Nat) : List α := h.arrays.getD p []

def read (h : Heap α) (s : Slice) : List α := ((h.array s.array).drop s.offset).take s.len

/-- The window lies within its array. -/
def Has (h : Heap α) (s : Slice) : Prop := s.offset + s.cap ≤ (h.array s.array).length

def alloc (h : Heap α) (cells : List α) : Heap α := ⟨h.arrays ++ [cells]⟩

def write (h : Heap α) (p i : Nat) (xs : List α) : Heap α :=
  ⟨h.arrays.set p (overwrite (h.array p) i xs)⟩

/-- The cells of a new array start as zero values. -/
def make [Inhabited α] (h : Heap α) (n : Nat) : Heap α × Slice :=
  (h.alloc (List.replicate n default), ⟨h.arrays.length, 0, n, n, Nat.le_refl n⟩)

/-- The builtin copy, of as many elements as both slices have. -/
def copy (h : Heap α) (dst src : Slice) : Heap α :=
  h.write dst.array dst.offset ((h.read src).take dst.len)

def append [Inhabited α] (g : Growth) (h : Heap α) (s : Slice) (x : α) : Heap α × Slice :=
  if hlt : s.len < s.cap then
    (h.write s.array (s.offset + s.len) [x], ⟨s.array, s.offset, s.len + 1, s.cap, hlt⟩)
  else
    let cap := g.newCap s.cap (s.len + 1)
    (h.alloc (h.read s ++ x :: List.replicate (cap - (s.len + 1)) default),
      ⟨h.arrays.length, 0, s.len + 1, cap, g.le_newCap s.cap (s.len + 1)⟩)

/-- A slice that is in the heap and apart from `s` is still there, unchanged, and apart
from `s'`. -/
def Spares (h : Heap α) (s : Slice) (h' : Heap α) (s' : Slice) : Prop :=
  ∀ t, h.Has t → s.Apart t → h'.Has t ∧ s'.Apart t ∧ h'.read t = h.read t

end Heap

theorem Slice.Apart.symm {s t : Slice} (h : s.Apart t) : t.Apart s := by
  cases h with
  | inl hs => exact .inr (.inl hs)
  | inr h =>
      cases h with
      | inl ht => exact .inl ht
      | inr hne => exact .inr (.inr (Ne.symm hne))

theorem length_overwrite {cells xs : List α} {i : Nat} (h : i + xs.length ≤ cells.length) :
    (overwrite cells i xs).length = cells.length := by
  simp only [overwrite, List.length_append, List.length_take, List.length_drop]
  omega

/-- A window that grows by the cells written behind it. -/
theorem take_drop_overwrite {cells : List α} {offset len : Nat} (xs : List α)
    (h : offset + len ≤ cells.length) :
    ((overwrite cells (offset + len) xs).drop offset).take (len + xs.length) =
      (cells.drop offset).take len ++ xs := by
  have hkept : offset ≤ (cells.take (offset + len)).length := by
    rw [List.length_take]
    omega
  have hlen : ((cells.drop offset).take len).length = len := by
    rw [List.length_take, List.length_drop]
    omega
  rw [overwrite, List.drop_append_of_le_length hkept, List.drop_take, Nat.add_sub_cancel_left,
    ← List.append_assoc, List.take_left' (by rw [List.length_append, hlen])]

namespace Heap
section Rules
variable {h h' h'' : Heap α} {s s' s'' t : Slice}

theorem array_alloc (h : Heap α) (cells : List α) (p : Nat) :
    (h.alloc cells).array p = if p = h.arrays.length then cells else h.array p := by
  simp only [array, alloc, List.getD_eq_getElem?_getD, List.getElem?_append]
  by_cases hlt : p < h.arrays.length
  · simp [hlt, Nat.ne_of_lt hlt]
  · by_cases heq : p = h.arrays.length
    · simp [heq]
    · have hnone : [cells][p - h.arrays.length]? = none := by
        apply List.getElem?_eq_none
        simp only [List.length_singleton]
        omega
      simp [hlt, heq, hnone]

theorem array_write {p : Nat} (hp : p < h.arrays.length) (i : Nat) (xs : List α) (q : Nat) :
    (h.write p i xs).array q = if q = p then overwrite (h.array p) i xs else h.array q := by
  simp only [array, write, List.getD_eq_getElem?_getD, List.getElem?_set, hp, if_true]
  by_cases hq : q = p
  · simp [hq]
  · simp [hq, Ne.symm hq]

theorem length_array_write {p i : Nat} {xs : List α} (hp : p < h.arrays.length)
    (hfits : i + xs.length ≤ (h.array p).length) (q : Nat) :
    ((h.write p i xs).array q).length = (h.array q).length := by
  rw [array_write hp]
  split
  · next heq => rw [length_overwrite hfits, heq]
  · rfl

theorem array_of_le {p : Nat} (hp : h.arrays.length ≤ p) : h.array p = [] := by
  rw [array, List.getD_eq_getElem?_getD, List.getElem?_eq_none hp]
  rfl

theorem Has.array_lt (hs : h.Has s) (hcap : 0 < s.cap) : s.array < h.arrays.length := by
  by_contra hge
  rw [Has, array_of_le (Nat.le_of_not_lt hge), List.length_nil] at hs
  omega

theorem Has.length_read (hs : h.Has s) : (h.read s).length = s.len := by
  have hcap := s.len_le_cap
  rw [Has] at hs
  rw [read, List.length_take, List.length_drop]
  omega

theorem read_of_cap_eq_zero (h : Heap α) (hcap : t.cap = 0) : h.read t = [] := by
  have hlen : t.len = 0 := Nat.eq_zero_of_le_zero (hcap ▸ t.len_le_cap)
  rw [read, hlen, List.take_zero]

theorem has_nil (h : Heap α) : h.Has Slice.nil := Nat.zero_le _

theorem Spares.refl (h : Heap α) (s : Slice) : Spares h s h s :=
  fun _ ht hapart => ⟨ht, hapart, rfl⟩

theorem Spares.trans (hs : Spares h s h' s') (hs' : Spares h' s' h'' s'') : Spares h s h'' s'' := by
  intro t ht hapart
  have hfirst := hs t ht hapart
  have hsecond := hs' t hfirst.1 hfirst.2.1
  exact ⟨hsecond.1, hsecond.2.1, hsecond.2.2.trans hfirst.2.2⟩

/-- A new array takes the place of none that a slice of the heap uses. -/
theorem Has.alloc (ht : h.Has t) (cells : List α) :
    (h.alloc cells).Has t ∧ (h.alloc cells).read t = h.read t := by
  simp only [Has, read, array_alloc]
  by_cases heq : t.array = h.arrays.length
  · have hcap := t.len_le_cap
    rw [Has, array_of_le (Nat.le_of_eq heq.symm), List.length_nil] at ht
    have hlen : t.len = 0 := by omega
    simp only [heq, if_true, hlen, List.take_zero, and_true]
    omega
  · rw [if_neg heq]
    exact ⟨ht, rfl⟩

theorem Has.apart_fresh (hs : h.Has s) (hfresh : s'.array = h.arrays.length) : s'.Apart s := by
  by_cases hcap : 0 < s.cap
  · have hlt := hs.array_lt hcap
    exact .inr (.inr (by omega))
  · exact .inr (.inl (Nat.eq_zero_of_not_pos hcap))

theorem spares_alloc_fresh (cells : List α) (hfresh : s'.array = h.arrays.length) :
    Spares h s (h.alloc cells) s' :=
  fun _ ht _ => ⟨(ht.alloc cells).1, ht.apart_fresh hfresh, (ht.alloc cells).2⟩

theorem spares_alloc (h : Heap α) (s : Slice) (cells : List α) : Spares h s (h.alloc cells) s :=
  fun _ ht hapart => ⟨(ht.alloc cells).1, hapart, (ht.alloc cells).2⟩

/-- A write within the capacity of a slice is seen only by the slices of its array. -/
theorem spares_write {i : Nat} {xs : List α} (hs : h.Has s) (hcap : 0 < s.cap)
    (hfits : i + xs.length ≤ (h.array s.array).length) (harray : s'.array = s.array) :
    Spares h s (h.write s.array i xs) s' := by
  intro t ht hapart
  have hp := hs.array_lt hcap
  have hhas : (h.write s.array i xs).Has t := by
    rw [Has, length_array_write hp hfits]
    exact ht
  cases hapart.resolve_left (Nat.ne_of_gt hcap) with
  | inl hzero =>
      exact ⟨hhas, .inr (.inl hzero),
        (read_of_cap_eq_zero _ hzero).trans (read_of_cap_eq_zero _ hzero).symm⟩
  | inr hother =>
      refine ⟨hhas, .inr (.inr (harray ▸ hother)), ?_⟩
      rw [read, array_write hp, if_neg (Ne.symm hother), read]

/-- A slice of all of a new array. -/
theorem read_alloc_fresh (h : Heap α) (cells : List α) {n cap : Nat} (hle : n ≤ cap) :
    (h.alloc cells).read ⟨h.arrays.length, 0, n, cap, hle⟩ = cells.take n := by
  simp only [read, array_alloc, if_true, List.drop_zero]

theorem has_alloc_fresh {h : Heap α} {cells : List α} {n cap : Nat} (hle : n ≤ cap)
    (hcap : cap ≤ cells.length) : (h.alloc cells).Has ⟨h.arrays.length, 0, n, cap, hle⟩ := by
  simp only [Has, array_alloc, if_true, Nat.zero_add]
  exact hcap

theorem exists_slice {low high : Nat} (hlow : low ≤ high) (hhigh : high ≤ s.cap) :
    ∃ t, s.slice low high = some t := by
  rw [Slice.slice, dif_pos ⟨hlow, hhigh⟩]
  exact ⟨_, rfl⟩

section Slicing
variable {low high : Nat} (ht : s.slice low high = some t)
include ht

theorem slice_eq : low ≤ high ∧ high ≤ s.cap ∧ t.array = s.array ∧ t.offset = s.offset + low ∧
    t.len = high - low ∧ t.cap = s.cap - low := by
  rw [Slice.slice] at ht
  split at ht
  · next hbounds =>
      cases ht
      exact ⟨hbounds.1, hbounds.2, rfl, rfl, rfl, rfl⟩
  · cases ht

theorem Has.slice (hs : h.Has s) : h.Has t := by
  obtain ⟨hlow, hhigh, harray, hoffset, -, hcap⟩ := slice_eq ht
  rw [Has] at hs ⊢
  rw [harray, hoffset, hcap]
  omega

theorem read_slice (h : Heap α) (hlen : high ≤ s.len) :
    h.read t = ((h.read s).take high).drop low := by
  obtain ⟨-, -, harray, hoffset, ht, -⟩ := slice_eq ht
  rw [read, read, harray, hoffset, ht, List.take_take, Nat.min_eq_left hlen, List.drop_take,
    List.drop_drop]

theorem spares_slice (h : Heap α) : Spares h s h t := by
  obtain ⟨-, -, harray, -, -, hcap⟩ := slice_eq ht
  intro u hu hapart
  refine ⟨hu, ?_, rfl⟩
  cases hapart with
  | inl hzero => exact .inl (by omega)
  | inr hother => exact .inr (harray ▸ hother)

end Slicing

section Append
variable [Inhabited α] (g : Growth) (x : α)

theorem has_append (hs : h.Has s) : (h.append g s x).1.Has (h.append g s x).2 := by
  rw [append]
  split
  · next hlt =>
      have hp := hs.array_lt (Nat.lt_of_le_of_lt (Nat.zero_le _) hlt)
      rw [Has] at hs
      rw [Has, length_array_write hp (by rw [List.length_singleton]; omega)]
      exact hs
  · apply has_alloc_fresh
    have hneeded := g.le_newCap s.cap (s.len + 1)
    rw [List.length_append, hs.length_read, List.length_cons, List.length_replicate]
    omega

theorem read_append (hs : h.Has s) :
    (h.append g s x).1.read (h.append g s x).2 = h.read s ++ [x] := by
  rw [append]
  split
  · next hlt =>
      have hp := hs.array_lt (Nat.lt_of_le_of_lt (Nat.zero_le _) hlt)
      have hend : s.offset + s.len ≤ (h.array s.array).length := by
        rw [Has] at hs
        omega
      rw [read, array_write hp, if_pos rfl]
      exact take_drop_overwrite [x] hend
  · have hlen : (h.read s ++ [x]).length = s.len + 1 := by
      rw [List.length_append, hs.length_read, List.length_singleton]
    rw [read_alloc_fresh, List.append_cons, List.take_left' hlen]

theorem spares_append (hs : h.Has s) : Spares h s (h.append g s x).1 (h.append g s x).2 := by
  rw [append]
  split
  · next hlt =>
      apply spares_write hs (Nat.lt_of_le_of_lt (Nat.zero_le _) hlt) _ rfl
      rw [Has] at hs
      rw [List.length_singleton]
      omega
  · exact spares_alloc_fresh _ rfl

end Append

/-- To make a slice of the same length and copy into it is to allocate the contents. -/
theorem copy_make [Inhabited α] (hs : h.Has s) :
    (h.make s.len).1.copy (h.make s.len).2 s = h.alloc (h.read s) := by
  have hread : (h.alloc (List.replicate s.len default)).read s = h.read s := (hs.alloc _).2
  have hall : (h.read s).take s.len = h.read s :=
    List.take_of_length_le (Nat.le_of_eq hs.length_read)
  simp only [make, copy, hread, hall, write, array_alloc, if_true, overwrite, Nat.zero_add,
    hs.length_read]
  simp [alloc]

/-- The copy reads as the slice did and shares nothing with it. -/
theorem copied [Inhabited α] (hs : h.Has s) :
    (h.alloc (h.read s)).Has (h.make s.len).2 ∧ s.Apart (h.make s.len).2 ∧
      (h.alloc (h.read s)).read (h.make s.len).2 = h.read s := by
  have hlen := hs.length_read
  refine ⟨has_alloc_fresh _ (Nat.le_of_eq hlen.symm), (hs.apart_fresh rfl).symm, ?_⟩
  rw [make, read_alloc_fresh, List.take_of_length_le (Nat.le_of_eq hlen)]

end Rules
end Heap
end Slices
