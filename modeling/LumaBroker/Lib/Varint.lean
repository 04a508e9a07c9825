import Mathlib.Algebra.Group.Nat.Defs
import Mathlib.Order.Basic

/-!
Variable-length integers in base 128: seven bits a byte, the lowest first, with the high
bit set on every byte but the last. The encoding is the shortest of the byte sequences
that stand for a number, and no such sequence begins another.
-/

namespace Varint

/-- The number a byte sequence stands for. -/
def value : List UInt8 → Nat
  | [] => 0
  | b :: bytes => b.toNat % 128 + 128 * value bytes

/-- The last byte, and no other, ends the sequence. -/
def Delimited : List UInt8 → Prop
  | [] => False
  | [b] => b.toNat < 128
  | b :: c :: bytes => 128 ≤ b.toNat ∧ Delimited (c :: bytes)

/-- Every byte announces another one. -/
def Unending (bytes : List UInt8) : Prop := ∀ b ∈ bytes, 128 ≤ b.toNat

def encode (n : Nat) : List UInt8 :=
  if n < 128 then [UInt8.ofNat n] else UInt8.ofNat (n % 128 + 128) :: encode (n / 128)
termination_by n
decreasing_by omega

theorem toNat_ofNat {n : Nat} (h : n < 256) : (UInt8.ofNat n).toNat = n := by
  rw [UInt8.toNat_ofNat']
  exact Nat.mod_eq_of_lt h

theorem delimited_cons {b : UInt8} {bytes : List UInt8} (hb : 128 ≤ b.toNat) :
    Delimited (b :: bytes) ↔ Delimited bytes := by
  cases bytes with
  | nil => exact ⟨fun h => absurd hb (Nat.not_le_of_lt h), False.elim⟩
  | cons c bytes => exact ⟨And.right, fun h => ⟨hb, h⟩⟩

theorem delimited_singleton {b : UInt8} (hb : b.toNat < 128) : Delimited [b] := hb

theorem delimited_cons_last {b : UInt8} {bytes : List UInt8} (hb : b.toNat < 128) :
    Delimited (b :: bytes) ↔ bytes = [] := by
  cases bytes with
  | nil => exact ⟨fun _ => rfl, fun _ => hb⟩
  | cons c bytes =>
      constructor
      · intro h
        exact absurd h.1 (Nat.not_le_of_lt hb)
      · intro h
        cases h

theorem exists_delimited_last {b : UInt8} (hb : b.toNat < 128) {Q : List UInt8 → Prop}
    (hhead : ∀ c bytes, Q (c :: bytes) → c = b) : (∃ bytes, Delimited bytes ∧ Q bytes) ↔ Q [b] := by
  constructor
  · rintro ⟨bytes, hdel, hQ⟩
    cases bytes with
    | nil => exact hdel.elim
    | cons c bytes =>
        cases hhead c bytes hQ
        rwa [(delimited_cons_last hb).mp hdel] at hQ
  · intro hQ
    exact ⟨[b], hb, hQ⟩

theorem exists_delimited_cons {b : UInt8} (hb : 128 ≤ b.toNat) {Q : List UInt8 → Prop}
    (hhead : ∀ c bytes, Q (c :: bytes) → c = b) :
    (∃ bytes, Delimited bytes ∧ Q bytes) ↔ ∃ bytes, Delimited bytes ∧ Q (b :: bytes) := by
  constructor
  · rintro ⟨bytes, hdel, hQ⟩
    cases bytes with
    | nil => exact hdel.elim
    | cons c bytes =>
        cases hhead c bytes hQ
        exact ⟨bytes, (delimited_cons hb).mp hdel, hQ⟩
  · rintro ⟨bytes, hdel, hQ⟩
    exact ⟨b :: bytes, (delimited_cons hb).mpr hdel, hQ⟩

theorem unending_cons {b : UInt8} {bytes : List UInt8} :
    Unending (b :: bytes) ↔ 128 ≤ b.toNat ∧ Unending bytes := List.forall_mem_cons

theorem exists_unending_cons {b : UInt8} (hb : 128 ≤ b.toNat) {Q : List UInt8 → Prop}
    (hnil : ¬ Q []) (hhead : ∀ c bytes, Q (c :: bytes) → c = b) :
    (∃ bytes, Unending bytes ∧ Q bytes) ↔ ∃ bytes, Unending bytes ∧ Q (b :: bytes) := by
  constructor
  · rintro ⟨bytes, hun, hQ⟩
    cases bytes with
    | nil => exact absurd hQ hnil
    | cons c bytes =>
        cases hhead c bytes hQ
        exact ⟨bytes, (unending_cons.mp hun).2, hQ⟩
  · rintro ⟨bytes, hun, hQ⟩
    exact ⟨b :: bytes, unending_cons.mpr ⟨hb, hun⟩, hQ⟩

theorem not_exists_unending {b : UInt8} (hb : b.toNat < 128) {Q : List UInt8 → Prop} (hnil : ¬ Q [])
    (hhead : ∀ c bytes, Q (c :: bytes) → c = b) : ¬ ∃ bytes, Unending bytes ∧ Q bytes := by
  rintro ⟨bytes, hun, hQ⟩
  cases bytes with
  | nil => exact hnil hQ
  | cons c bytes =>
      cases hhead c bytes hQ
      exact absurd hb (Nat.not_lt_of_le (unending_cons.mp hun).1)

/-- A sequence that does not end does not begin with one that does. -/
theorem Unending.not_delimited {bytes bytes' rest rest' : List UInt8} (h : Unending bytes)
    (hlen : bytes'.length ≤ bytes.length) (heq : bytes ++ rest = bytes' ++ rest') :
    ¬ Delimited bytes' := by
  induction bytes' generalizing bytes with
  | nil => exact id
  | cons b' bytes' ih =>
      cases bytes with
      | nil => exact absurd hlen (Nat.not_succ_le_zero _)
      | cons b bytes =>
          obtain ⟨hb, hrest⟩ := unending_cons.mp h
          obtain ⟨rfl, htail⟩ := List.cons.inj heq
          rw [delimited_cons hb]
          exact ih hrest (Nat.le_of_succ_le_succ hlen) htail

theorem delimited_encode (n : Nat) : Delimited (encode n) := by
  induction n using Nat.strongRecOn with
  | ind n ih =>
      rw [encode]
      split_ifs with hn
      · change (UInt8.ofNat n).toNat < 128
        rw [toNat_ofNat (by omega)]
        exact hn
      · have hhigh : 128 ≤ (UInt8.ofNat (n % 128 + 128)).toNat := by
          rw [toNat_ofNat (by omega)]
          omega
        exact (delimited_cons hhigh).mpr (ih (n / 128) (by omega))

theorem value_encode (n : Nat) : value (encode n) = n := by
  induction n using Nat.strongRecOn with
  | ind n ih =>
      rw [encode]
      split_ifs with hn
      · rw [value, value, toNat_ofNat (by omega)]
        omega
      · rw [value, ih (n / 128) (by omega), toNat_ofNat (by omega)]
        omega

theorem length_encode_le {n k : Nat} (h : n < 128 ^ (k + 1)) : (encode n).length ≤ k + 1 := by
  induction k generalizing n with
  | zero =>
      rw [encode, if_pos (by omega)]
      exact Nat.le_refl 1
  | succ k ih =>
      rw [encode]
      split_ifs with hn
      · exact Nat.le_add_left 1 _
      · have hdiv : n / 128 < 128 ^ (k + 1) := by
          rw [Nat.div_lt_iff_lt_mul (by decide), ← Nat.pow_succ]
          exact h
        have hrest := ih hdiv
        rw [List.length_cons]
        omega

theorem value_lt (bytes : List UInt8) : value bytes < 128 ^ bytes.length := by
  induction bytes with
  | nil => exact Nat.one_pos
  | cons b bytes ih =>
      rw [value, List.length_cons, Nat.pow_succ]
      omega

theorem lt_pow_length_encode (n : Nat) : n < 128 ^ (encode n).length := by
  have h := value_lt (encode n)
  rwa [value_encode] at h

theorem length_encode_pos (n : Nat) : 1 ≤ (encode n).length := by
  rw [encode]
  split_ifs
  · exact Nat.le_refl 1
  · exact Nat.le_add_left 1 _

theorem value_cons_mul (b : UInt8) (bytes : List UInt8) (mult : Nat) :
    value (b :: bytes) * mult = b.toNat % 128 * mult + value bytes * (mult * 128) := by
  rw [value, Nat.add_mul, Nat.mul_comm mult 128, ← Nat.mul_assoc, Nat.mul_comm (value bytes) 128]

/-- No delimited sequence for a number is shorter than its encoding. -/
theorem length_encode_value_le {bytes : List UInt8} (h : Delimited bytes) :
    (encode (value bytes)).length ≤ bytes.length := by
  cases bytes with
  | nil => exact h.elim
  | cons b bytes =>
      have hlt := value_lt (b :: bytes)
      rw [List.length_cons] at hlt ⊢
      exact length_encode_le hlt

/-- A delimited sequence ends where its own bytes say. -/
theorem delimited_append_inj {bytes bytes' rest rest' : List UInt8} (h : Delimited bytes)
    (h' : Delimited bytes') (heq : bytes ++ rest = bytes' ++ rest') :
    bytes = bytes' ∧ rest = rest' := by
  induction bytes generalizing bytes' with
  | nil => exact h.elim
  | cons b bytes ih =>
      cases bytes' with
      | nil => exact h'.elim
      | cons b' bytes' =>
          rw [List.cons_append, List.cons_append, List.cons.injEq] at heq
          obtain ⟨rfl, htail⟩ := heq
          cases bytes with
          | nil =>
              cases bytes' with
              | nil => exact ⟨rfl, htail⟩
              | cons c' bytes' => exact absurd h'.1 (Nat.not_le_of_lt h)
          | cons c bytes =>
              cases bytes' with
              | nil => exact absurd h.1 (Nat.not_le_of_lt h')
              | cons c' bytes' =>
                  obtain ⟨htailEq, hrest⟩ := ih h.2 h'.2 htail
                  exact ⟨by rw [htailEq], hrest⟩

/-- No encoding begins another one. -/
theorem eq_of_encode_append {m n : Nat} {rest : List UInt8}
    (h : encode n ++ rest = encode m) : m = n := by
  rw [← List.append_nil (encode m)] at h
  have heq := (delimited_append_inj (delimited_encode n) (delimited_encode m) h).1
  rw [← value_encode m, ← heq, value_encode]

end Varint
