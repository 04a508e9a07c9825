import Mathlib.Data.List.Lex

/-!
Go strings are byte sequences: a length, a slice or an index counts bytes and no
UTF-8 validity is assumed. Only the operations the broker uses are given, with
the behaviour the Go standard library documents for them.
-/

namespace LumaBroker

abbrev GoString := List UInt8

instance uint8LinearOrder : LinearOrder UInt8 where
  le_refl a := UInt8.le_refl a
  le_trans _ _ _ := UInt8.le_trans
  le_antisymm _ _ := UInt8.le_antisymm
  le_total := UInt8.le_total
  lt_iff_le_not_ge _ _ := by rw [UInt8.not_le]; exact ⟨fun h => ⟨UInt8.le_of_lt h, h⟩, And.right⟩
  toDecidableLE a b := inferInstanceAs (Decidable (a ≤ b))
  toDecidableEq a b := inferInstanceAs (Decidable (a = b))
  toDecidableLT a b := inferInstanceAs (Decidable (a < b))

/-- The bytes of a Go string literal. -/
def str (s : String) : GoString := s.toByteArray.data.toList

def slash : UInt8 := 47

/-- The one-level and multi-level wildcard segments. -/
def plus : GoString := str "+"

def hash : GoString := str "#"

theorem plus_ne_hash : plus ≠ hash := by decide

/-- strings.IndexByte, with none for the result -1. -/
def indexByte (s : GoString) (c : UInt8) : Option Nat := s.idxOf? c

/-- strings.HasPrefix. -/
def hasPrefix (s p : GoString) : Bool := p.isPrefixOf s

/-- strings.TrimPrefix. -/
def trimPrefix (s p : GoString) : GoString := if hasPrefix s p then s.drop p.length else s

theorem indexByte_spec {s : GoString} {c : UInt8} {i : Nat} (h : indexByte s c = some i) :
    s = s.take i ++ c :: s.drop (i + 1) ∧ c ∉ s.take i := by
  induction s generalizing i with
  | nil => cases h
  | cons b s ih =>
      simp only [indexByte, List.idxOf?_cons] at h
      by_cases hb : b = c
      · simp only [hb, beq_self_eq_true, if_true, Option.some.injEq] at h
        subst h
        simp [hb]
      · simp only [beq_iff_eq, hb, if_false, Option.map_eq_some_iff] at h
        obtain ⟨j, hj, rfl⟩ := h
        obtain ⟨hcut, hfree⟩ := ih hj
        refine ⟨?_, ?_⟩
        · simpa using hcut
        · simp only [List.take_succ_cons, List.mem_cons, not_or]
          exact ⟨Ne.symm hb, hfree⟩

theorem indexByte_append {s : GoString} {c : UInt8} (h : c ∉ s) (t : GoString) :
    indexByte (s ++ c :: t) c = some s.length := by
  induction s with
  | nil => simp [indexByte, List.idxOf?_cons]
  | cons b s ih =>
      have hb : b ≠ c := fun heq => h (heq ▸ List.mem_cons_self)
      have hrest : (s ++ c :: t).idxOf? c = some s.length :=
        ih fun hs => h (List.mem_cons_of_mem b hs)
      simp [indexByte, List.idxOf?_cons, hb, hrest]

theorem hasPrefix_iff {s p : GoString} : hasPrefix s p = true ↔ p <+: s :=
  List.isPrefixOf_iff_prefix

theorem eq_append_of_hasPrefix {s p : GoString} (h : hasPrefix s p = true) :
    s = p ++ s.drop p.length := by
  obtain ⟨t, rfl⟩ := List.isPrefixOf_iff_prefix.mp h
  simp

/-- strings.Split at a one-byte separator: n separators give n + 1 pieces. -/
def split (s : GoString) (sep : UInt8) : List GoString := s.splitOn sep

theorem split_ne_nil (s : GoString) (sep : UInt8) : split s sep ≠ [] :=
  List.splitOn_ne_nil sep s

theorem split_injective (sep : UInt8) {s t : GoString} (h : split s sep = split t sep) :
    s = t := by
  have hjoin := congrArg ([sep].intercalate) h
  simpa only [split, List.intercalate_splitOn] using hjoin

theorem notMem_of_mem_split {s seg : GoString} {sep : UInt8} (h : seg ∈ split s sep) :
    sep ∉ seg := by
  induction s generalizing seg with
  | nil =>
      rw [List.mem_singleton.mp h]
      exact List.not_mem_nil
  | cons b s ih =>
      rw [split, List.splitOn_cons_eq_if_modifyHead] at h
      cases hs : s.splitOn sep with
      | nil => exact absurd hs (split_ne_nil s sep)
      | cons first rest =>
          rw [split, hs] at ih
          rw [hs] at h
          split_ifs at h with hb
          · rcases List.mem_cons.mp h with rfl | h
            · exact List.not_mem_nil
            · exact ih h
          · rcases List.mem_cons.mp h with rfl | h
            · intro hmem
              rcases List.mem_cons.mp hmem with heq | hmem
              · exact hb (beq_iff_eq.mpr heq.symm)
              · exact ih List.mem_cons_self hmem
            · exact ih (List.mem_cons_of_mem first h)

/-- A string is its first piece and the others, each behind a separator. -/
theorem eq_of_split_eq {s first : GoString} {rest : List GoString} {sep : UInt8}
    (h : split s sep = first :: rest) : s = first ++ rest.flatMap (sep :: ·) := by
  have hjoin (first : GoString) (rest : List GoString) :
      [sep].intercalate (first :: rest) = first ++ rest.flatMap (sep :: ·) := by
    induction rest generalizing first with
    | nil => simp [List.intercalate]
    | cons next rest ih =>
        rw [List.intercalate_cons_cons, ih, List.flatMap_cons, List.append_assoc]
        rfl
  rw [← hjoin, ← h, split, List.intercalate_splitOn]

theorem head?_split (s : GoString) (sep : UInt8) :
    (split s sep).head? = some (match indexByte s sep with
      | none => s
      | some i => s.take i) := by
  induction s with
  | nil => rfl
  | cons b s ih =>
      simp only [split, indexByte] at ih ⊢
      rw [List.splitOn_cons_eq_if_modifyHead, List.idxOf?_cons]
      by_cases hb : b = sep
      · simp [hb]
      · cases hi : s.idxOf? sep with
        | none => simp [hb, hi, ih]
        | some i => simp [hb, hi, ih]

/-- hash/fnv New32a: the 32-bit FNV-1a sum. -/
def fnv32a (s : GoString) : UInt32 :=
  s.foldl (fun h b => (h ^^^ b.toUInt32) * 16777619) 2166136261

end LumaBroker
