import Mathlib.Logic.Basic

/-!
Go byte slices: slicing with its bounds check, and the big-endian numbers of
encoding/binary. None is the run-time panic.
-/

namespace LumaBroker

/-- The slice s[lo:hi]. Go checks hi against the capacity; here an access beyond the
length counts as out of range too. -/
def slice (s : List UInt8) (lo hi : Nat) : Option (List UInt8) :=
  if lo ≤ hi ∧ hi ≤ s.length then some ((s.drop lo).take (hi - lo)) else none

/-- binary.BigEndian.Uint16. -/
def uint16 : List UInt8 → Option UInt16
  | a :: b :: _ => some (UInt16.ofNat (a.toNat * 256 + b.toNat))
  | _ => none

/-- binary.BigEndian.Uint32. -/
def uint32 : List UInt8 → Option UInt32
  | a :: b :: c :: d :: _ =>
      some (UInt32.ofNat (((a.toNat * 256 + b.toNat) * 256 + c.toNat) * 256 + d.toNat))
  | _ => none

/-- The two bytes of a number, the higher first. -/
def bytes16 (v : UInt16) : List UInt8 := [(v >>> 8).toUInt8, v.toUInt8]

def bytes32 (v : UInt32) : List UInt8 :=
  [(v >>> 24).toUInt8, (v >>> 16).toUInt8, (v >>> 8).toUInt8, v.toUInt8]

@[simp] theorem length_bytes16 (v : UInt16) : (bytes16 v).length = 2 := rfl

@[simp] theorem length_bytes32 (v : UInt32) : (bytes32 v).length = 4 := rfl

theorem toNat_high (v : UInt16) : (v >>> 8).toUInt8.toNat = v.toNat / 256 := by
  have hv := v.toNat_lt
  simp only [UInt16.toNat_toUInt8, UInt16.toNat_shiftRight, Nat.shiftRight_eq_div_pow]
  simp only [UInt16.reduceToNat, Nat.reduceMod, Nat.reducePow]
  omega

theorem uint16_bytes16 (v : UInt16) (rest : List UInt8) : uint16 (bytes16 v ++ rest) = some v := by
  simp only [bytes16, List.cons_append, uint16, Option.some.injEq]
  apply UInt16.toNat_inj.mp
  have hv := v.toNat_lt
  rw [UInt16.toNat_ofNat', toNat_high, UInt16.toNat_toUInt8]
  omega

theorem uint32_bytes32 (v : UInt32) (rest : List UInt8) : uint32 (bytes32 v ++ rest) = some v := by
  simp only [bytes32, List.cons_append, uint32, Option.some.injEq]
  apply UInt32.toNat_inj.mp
  have hv := v.toNat_lt
  simp only [UInt32.toNat_toUInt8, UInt32.toNat_shiftRight, UInt32.toNat_ofNat',
    Nat.shiftRight_eq_div_pow]
  simp only [UInt32.reduceToNat, Nat.reduceMod, Nat.reducePow]
  omega

/-- Two bytes are the bytes of the number they are read as. -/
theorem bytes16_of_uint16 {a b : UInt8} {v : UInt16} (h : uint16 [a, b] = some v) :
    bytes16 v = [a, b] := by
  simp only [uint16, Option.some.injEq] at h
  subst h
  have ha := a.toNat_lt
  have hb := b.toNat_lt
  simp only [bytes16, List.cons.injEq, and_true]
  constructor
  · apply UInt8.toNat_inj.mp
    rw [toNat_high, UInt16.toNat_ofNat']
    omega
  · apply UInt8.toNat_inj.mp
    simp only [UInt16.toNat_toUInt8, UInt16.toNat_ofNat']
    omega

end LumaBroker
