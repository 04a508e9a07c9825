import LumaBroker.Protocol.Publish

/-!
The variable-length integers of internal/protocol/packet.go. The encoder writes them into four
bytes, and three loops read them: that of ReadFixed from the connection, readVarInt from a body
with the properties it returns, and skipProps from a body with properties it passes over. The
first two refuse a fourth byte that announces another one; the third takes it as the last.
-/

namespace LumaBroker.Protocol

open Faulting SliceReader

section Skipping

theorem skipPropLen_cons {r : SliceReader} {b : UInt8} {tail : List UInt8} (h : r.rest = b :: tail)
    (i mult propLen : Nat) :
    skipPropLen (i + 1) mult propLen r =
      if b.toNat < 128 then .ok (propLen + b.toNat % 128 * mult) (r.advance 1)
      else skipPropLen i (mult * 128) (propLen + b.toNat % 128 * mult) (r.advance 1) := by
  have hlen := congrArg List.length h
  rw [length_rest, List.length_cons] at hlen
  have hread := read_of_lt (r := r) (by omega) 1
  rw [h, List.take_succ_cons, List.take_zero] at hread
  have hlast : b &&& 0x80 = 0 ↔ b.toNat < 128 := by
    rw [← and_80_eq_zero b.toNat_lt, ← UInt8.toNat_inj, UInt8.toNat_and]
    rfl
  have hdigit : (b &&& 0x7F).toNat = b.toNat % 128 := by
    rw [UInt8.toNat_and]
    exact and_7F b.toNat
  rw [skipPropLen, Prog.bind_ok hread]
  simp only [List.getElem?_cons_zero, Prog.orPanic_some, Prog.pure_bind, hlast, hdigit]
  split <;> rfl

/-- Where readVarInt accepts the length, skipProps reads the same one. -/
theorem skipPropLen_of_readVarIntFrom {i mult val n : Nat} {r t : SliceReader}
    (h : readVarIntFrom i mult val r = .ok n t) : skipPropLen i mult val r = .ok n t := by
  induction i generalizing mult val r with
  | zero => cases h
  | succ i ih =>
      cases hrest : r.rest with
      | nil =>
          rw [readVarIntFrom_nil hrest] at h
          cases h
      | cons b tail =>
          rw [readVarIntFrom_cons hrest] at h
          rw [skipPropLen_cons hrest]
          split_ifs at h ⊢
          · exact h
          · exact ih h

theorem skipPropLen_nil {r : SliceReader} (h : r.rest = []) (i mult propLen : Nat) :
    skipPropLen (i + 1) mult propLen r = .error .eof := by
  have hend : r.data.length ≤ r.pos := List.drop_eq_nil_iff.mp h
  rw [skipPropLen, Prog.bind_error (read_of_le hend 1)]

/-- Beyond what readVarInt accepts there are the sequences that fill all turns and do not end. -/
theorem skipPropLen_eq_ok {i mult val n : Nat} {r t : SliceReader} :
    skipPropLen i mult val r = .ok n t ↔ readVarIntFrom i mult val r = .ok n t ∨
      ∃ bytes, Varint.Unending bytes ∧ bytes.length = i ∧ n = val + Varint.value bytes * mult ∧
        t = r.advance i ∧ r.rest = bytes ++ t.rest := by
  induction i generalizing mult val r with
  | zero =>
      constructor
      · intro h
        cases h
        exact .inr ⟨[], fun _ hb => absurd hb List.not_mem_nil, rfl,
          by simp [Varint.value], rfl, rfl⟩
      · rintro (h | ⟨bytes, -, hlen, rfl, rfl, -⟩)
        · cases h
        · rw [List.length_eq_zero_iff.mp hlen, Varint.value, Nat.zero_mul]
          rfl
  | succ i ih =>
      cases hrest : r.rest with
      | nil =>
          rw [skipPropLen_nil hrest, readVarIntFrom_nil hrest]
          constructor
          · intro h
            cases h
          · rintro (h | ⟨bytes, -, hlen, -, -, heq⟩)
            · cases h
            · rw [(List.append_eq_nil_iff.mp heq.symm).1] at hlen
              cases hlen
      | cons b tail =>
          have hnil : ¬ (([] : List UInt8).length = i + 1 ∧ n = val + Varint.value [] * mult ∧
              t = r.advance (i + 1) ∧ b :: tail = [] ++ t.rest) :=
                fun h => Nat.succ_ne_zero i h.1.symm
          have hhead (c : UInt8) (bytes : List UInt8) (h : (c :: bytes).length = i + 1 ∧
              n = val + Varint.value (c :: bytes) * mult ∧ t = r.advance (i + 1) ∧
              b :: tail = c :: bytes ++ t.rest) : c = b :=
            (List.cons.inj h.2.2.2).1.symm
          rw [skipPropLen_cons hrest, readVarIntFrom_cons hrest]
          by_cases hb : b.toNat < 128
          · rw [if_pos hb, if_pos hb, or_iff_left (Varint.not_exists_unending hb hnil hhead)]
          · rw [if_neg hb, if_neg hb, Varint.exists_unending_cons (Nat.le_of_not_lt hb) hnil hhead,
              ih, rest_advance_one hrest]
            refine or_congr_right (exists_congr fun bytes => and_congr_right fun _ => ?_)
            rw [List.length_cons, Nat.add_right_cancel_iff, Varint.value_cons_mul, Nat.add_assoc,
              advance_advance, Nat.add_comm 1 i, List.cons_append, List.cons_inj_right]

theorem skipProps_eq_ok {r t : SliceReader} :
    skipProps r = .ok () t ↔
      ∃ n u, skipPropLen 4 1 0 r = .ok n u ∧ n ≤ u.rest.length ∧ t = u.advance n := by
  rw [skipProps, Prog.bind_eq_ok]
  refine exists_congr fun n => exists_congr fun u => and_congr_right fun _ => ?_
  by_cases hzero : n = 0
  · rw [if_pos hzero, hzero]
    constructor
    · intro h
      cases h
      exact ⟨Nat.zero_le _, rfl⟩
    · rintro ⟨-, rfl⟩
      rfl
  · have hfits : n ≤ u.rest.length ↔ ¬ (u.advance n).pos > (u.advance n).data.length := by
      rw [length_rest, pos_advance, data_advance]
      omega
    rw [if_neg hzero, Prog.modify_bind, Prog.gets_bind, id_eq, Prog.ite_fail_eq_ok, hfits]
    refine and_congr_right fun _ => ?_
    constructor
    · intro h
      cases h
      rfl
    · rintro rfl
      rfl

end Skipping

theorem readVarInt_encode {n : Nat} (hn : n ≤ maxRemainingLength) {r : SliceReader}
    {rest : List UInt8} (hr : r.rest = Varint.encode n ++ rest) :
    readVarInt r = .ok n (r.advance (Varint.encode n).length) :=
  readVarInt_eq_ok.mpr ⟨_, Varint.delimited_encode n, length_encode_le_four hn,
    (Varint.value_encode n).symm, rfl, by rw [rest_advance hr, hr]⟩

/-- Four bytes that all announce another one, with a value that the bytes behind them cover. -/
def Overlong (r : SliceReader) : Prop :=
  ∃ bytes tail, r.rest = bytes ++ tail ∧ bytes.length = 4 ∧ Varint.Unending bytes ∧
    Varint.value bytes ≤ tail.length

theorem readVarInt_of_unending {r : SliceReader} {bytes tail : List UInt8}
    (h : r.rest = bytes ++ tail) (hlen : bytes.length = 4) (hun : Varint.Unending bytes) (n : Nat)
    (t : SliceReader) : readVarInt r ≠ .ok n t := by
  intro hread
  obtain ⟨bytes', hdel, hfour, -, -, heq⟩ := readVarInt_eq_ok.mp hread
  exact hun.not_delimited (hlen ▸ hfour) (h.symm.trans heq) hdel

/-- skipProps, readVarInt and the loop of ReadFixed read the same lengths, except that skipProps
accepts four bytes of which none is the last. -/
theorem property_lengths_agree_iff (r : SliceReader) :
    ((∀ t, skipProps r = .ok () t ↔
        ∃ n u, readVarInt r = .ok n u ∧ n ≤ u.rest.length ∧ t = u.advance n) ∧
      (∀ n tail, readRemainingLength 4 1 0 r.rest = .ok n tail ↔
        ∃ bytes, r.rest = bytes ++ tail ∧ readVarInt r = .ok n (r.advance bytes.length)) ∧
      ∀ n t, readVarInt r = .ok n t → ∃ tail, readRemainingLength 4 1 0 r.rest = .ok n tail) ↔
      ¬ Overlong r := by
  have hfixed (n : Nat) (tail : List UInt8) : readRemainingLength 4 1 0 r.rest = .ok n tail ↔
      ∃ t, readVarInt r = .ok n t ∧ t.rest = tail := readRemainingLength_eq_ok rfl
  constructor
  · rintro ⟨hskip, -, -⟩ ⟨bytes, tail, hrest, hlen, hun, hvalue⟩
    have htail : (r.advance 4).rest = tail := hlen ▸ rest_advance hrest
    have haccepts : skipProps r = .ok () ((r.advance 4).advance (Varint.value bytes)) := by
      refine skipProps_eq_ok.mpr ⟨Varint.value bytes, r.advance 4,
        skipPropLen_eq_ok.mpr (.inr ?_), ?_, rfl⟩
      · exact ⟨bytes, hun, hlen, by rw [Nat.zero_add, Nat.mul_one], rfl, by rw [htail, hrest]⟩
      · rw [htail]
        exact hvalue
    obtain ⟨n, u, hread, -, -⟩ := (hskip _).mp haccepts
    exact readVarInt_of_unending hrest hlen hun n u hread
  · intro hends
    refine ⟨fun t => ?_, fun n tail => ?_, fun n t h => ⟨t.rest, (hfixed n t.rest).mpr ⟨t, h, rfl⟩⟩⟩
    · rw [skipProps_eq_ok]
      constructor
      · rintro ⟨n, u, hlen, hfits, rfl⟩
        rcases skipPropLen_eq_ok.mp hlen with hread | ⟨bytes, hun, hfour, rfl, rfl, hrest⟩
        · exact ⟨n, u, hread, hfits, rfl⟩
        · rw [Nat.zero_add, Nat.mul_one] at hfits
          exact absurd ⟨bytes, _, hrest, hfour, hun, hfits⟩ hends
      · rintro ⟨n, u, hread, hfits, rfl⟩
        exact ⟨n, u, skipPropLen_of_readVarIntFrom hread, hfits, rfl⟩
    · rw [hfixed]
      constructor
      · rintro ⟨t, hread, rfl⟩
        obtain ⟨bytes, -, -, -, rfl, hrest⟩ := readVarInt_eq_ok.mp hread
        exact ⟨bytes, hrest, hread⟩
      · rintro ⟨bytes, hrest, hread⟩
        exact ⟨_, hread, rest_advance hrest⟩

/-- A block of two bytes, where skipProps does what readVarInt says. -/
theorem property_lengths_agree_short :
    skipProps (newSliceReader [2, 7, 8, 9]) = .ok () ⟨[2, 7, 8, 9], 3⟩ := by
  have hends : ¬ Overlong (newSliceReader [2, 7, 8, 9]) := by
    rintro ⟨bytes, tail, hrest, hlen, hun, -⟩
    cases bytes with
    | nil => cases hlen
    | cons b bytes =>
        obtain ⟨rfl, -⟩ := List.cons.inj hrest
        exact absurd (Varint.unending_cons.mp hun).1 (by decide)
  refine (((property_lengths_agree_iff _).mpr hends).1 _).mpr ⟨2, ⟨[2, 7, 8, 9], 1⟩, ?_, ?_, rfl⟩
  all_goals decide

/-- A length of four bytes without an end is zero to skipProps and an error to readVarInt. -/
theorem property_length_without_end :
    skipProps (newSliceReader [0x80, 0x80, 0x80, 0x80]) = .ok () ⟨[0x80, 0x80, 0x80, 0x80], 4⟩ ∧
      readVarInt (newSliceReader [0x80, 0x80, 0x80, 0x80]) = .error .invalidVarInt ∧
      readRemainingLength 4 1 0 [0x80, 0x80, 0x80, 0x80] = .error .invalidVarInt := by
  decide

/-- What the encoder writes is the shortest sequence for the number, both readers take it back
whatever follows, and no other number is written with these bytes in front. -/
theorem varint_round_trip {n : Nat} (hn : n ≤ maxRemainingLength) :
    ∃ bytes, encodeVarInt 4 n = some bytes ∧ 1 ≤ bytes.length ∧ bytes.length ≤ 4 ∧
      n < 128 ^ bytes.length ∧
      (∀ k, 1 ≤ k → n < 128 ^ k → bytes.length ≤ k) ∧
      (∀ r rest, r.rest = bytes ++ rest → readVarInt r = .ok n (r.advance bytes.length)) ∧
      (∀ rest, readRemainingLength 4 1 0 (bytes ++ rest) = .ok n rest) ∧
      ∀ m ≤ maxRemainingLength, ∀ bytes', encodeVarInt 4 m = some bytes' → bytes <+: bytes' →
        bytes = bytes' ∧ n = m := by
  refine ⟨Varint.encode n, encodeVarInt_of_le hn, Varint.length_encode_pos n,
    length_encode_le_four hn,
    Varint.lt_pow_length_encode n, fun k hk hlt => ?_, fun r rest hr =>
    readVarInt_encode hn hr, fun rest => ?_,
    fun m hm bytes' hbytes' hbegins => ?_⟩
  · obtain ⟨k, rfl⟩ := Nat.exists_eq_add_of_le' hk
    exact Varint.length_encode_le hlt
  · let r := newSliceReader (Varint.encode n ++ rest)
    have hr : r.rest = Varint.encode n ++ rest := rfl
    exact (readRemainingLength_eq_ok hr).mpr ⟨_, readVarInt_encode hn hr, rest_advance hr⟩
  · rw [encodeVarInt_of_le hm] at hbytes'
    cases hbytes'
    obtain ⟨rest, hrest⟩ := hbegins
    have hmn : m = n := Varint.eq_of_encode_append hrest
    exact ⟨by rw [hmn], hmn.symm⟩

/-- The largest length, in four bytes. -/
theorem varint_round_trip_largest :
    ∃ bytes, encodeVarInt 4 268435455 = some bytes ∧ bytes.length = 4 ∧
    readRemainingLength 4 1 0 (bytes ++ [1]) = .ok 268435455 [1] := by
  obtain ⟨bytes, hencode, -, hfour, hlt, -, -, hread, -⟩ :=
    varint_round_trip (n := 268435455) (by decide)
  refine ⟨bytes, hencode, ?_, hread [1]⟩
  have hmore : ¬ bytes.length ≤ 3 := fun hle =>
    absurd (Nat.lt_of_lt_of_le hlt (Nat.pow_le_pow_right (by decide) hle)) (by decide)
  omega

end LumaBroker.Protocol
