import LumaBroker.Protocol.Reader

/-!
What the property readers accept. A block is read as complete known properties up to its
declared end or up to an identifier the reader does not know. The readers compare their
position with the declared end only between properties, and never compare the declared
end with the end of the data, so a block need not be consumed exactly.
-/

namespace LumaBroker.Protocol

open Faulting SliceReader

/-- Properties on the wire: identifier and value. -/
def propBytes (ps : List (UInt8 × List UInt8)) : List UInt8 := ps.flatMap fun p => p.1 :: p.2

def Known (size : UInt8 → Option Nat) (ps : List (UInt8 × List UInt8)) : Prop :=
  ∀ p ∈ ps, size p.1 = some p.2.length

/-- The map after these properties; a later one replaces an earlier one. -/
def setProps (props : Props) (ps : List (UInt8 × List UInt8)) : Props :=
  ps.foldl (fun props p => props.set p.1 p.2) props

/-- The known properties of the block lie inside it, up to its end or up to the first
identifier that is unknown. -/
def Fits (size : UInt8 → Option Nat) (block : List UInt8) : Prop :=
  ∃ ps tail, block = propBytes ps ++ tail ∧ Known size ps ∧ ∀ id ∈ tail.head?, size id = none

/-- The declared length does not exceed the data behind it, and the block fits. -/
def PropsFit (size : UInt8 → Option Nat) (bytes : List UInt8) : Prop :=
  ∃ len rest, Varint.Delimited len ∧ bytes = len ++ rest ∧ Varint.value len ≤ rest.length ∧
    Fits size (rest.take (Varint.value len))

/-- The reader ended exactly at the declared end of the block, inside the data, and took
every value from inside the block. -/
def Exact (r : SliceReader) (props : Props) (t : SliceReader) : Prop :=
  ∃ len rest, Varint.Delimited len ∧ r.rest = len ++ rest ∧
    t = r.advance (len.length + Varint.value len) ∧ t.pos ≤ t.data.length ∧
    ∀ id v, props.get id = some v →
      ∃ before after, rest.take (Varint.value len) = before ++ id :: v ++ after

theorem propBytes_cons (id : UInt8) (v : List UInt8) (ps : List (UInt8 × List UInt8)) :
    propBytes ((id, v) :: ps) = id :: (v ++ propBytes ps) := rfl

theorem length_le_propBytes (ps : List (UInt8 × List UInt8)) :
    ps.length ≤ (propBytes ps).length := by
  induction ps with
  | nil => exact Nat.le_refl 0
  | cons p ps ih =>
      rw [propBytes_cons, List.length_cons, List.length_cons, List.length_append]
      omega

theorem known_cons {size : UInt8 → Option Nat} {id : UInt8} {v : List UInt8}
    {ps : List (UInt8 × List UInt8)} :
    Known size ((id, v) :: ps) ↔ size id = some v.length ∧ Known size ps := List.forall_mem_cons

theorem mem_of_get_setProps {ps : List (UInt8 × List UInt8)} {props : Props} {id : UInt8}
    {v : List UInt8} (h : (setProps props ps).get id = some v) :
    props.get id = some v ∨ (id, v) ∈ ps := by
  induction ps generalizing props with
  | nil => exact .inl h
  | cons p ps ih =>
      rcases ih h with hget | hmem
      · rw [FinMap.get_set] at hget
        split at hget
        · next hid =>
            cases hget
            exact .inr (by simp [hid])
        · exact .inl hget
      · exact .inr (List.mem_cons_of_mem p hmem)

theorem propBytes_of_mem {ps : List (UInt8 × List UInt8)} {id : UInt8} {v : List UInt8}
    (h : (id, v) ∈ ps) : ∃ before after, propBytes ps = before ++ id :: v ++ after := by
  obtain ⟨ps₁, ps₂, rfl⟩ := List.append_of_mem h
  refine ⟨propBytes ps₁, propBytes ps₂, ?_⟩
  simp [propBytes]

section Loop
variable {size : UInt8 → Option Nat} {start propLen : Nat}

/-- On a block that fits the loop takes its properties and stops at the declared end. -/
theorem loop_of_fits {ps : List (UInt8 × List UInt8)} {tail more : List UInt8} {props : Props}
    {r : SliceReader} {fuel : Nat} (hrest : r.rest = propBytes ps ++ (tail ++ more))
    (hknown : Known size ps) (htail : ∀ id ∈ tail.head?, size id = none) (hstart : start ≤ r.pos)
    (hlen : r.pos + (propBytes ps).length + tail.length = start + propLen)
    (hfuel : ps.length < fuel) :
    loop (readPropsTurn size start propLen) fuel props r =
      .ok (setProps props ps) { r with pos := start + propLen } := by
  induction ps generalizing props r fuel with
  | nil =>
      cases fuel with
      | zero => exact absurd hfuel (Nat.not_lt_zero _)
      | succ fuel =>
          rw [show (propBytes []).length = 0 from rfl] at hlen
          cases tail with
          | nil =>
              have hend : r.pos = start + propLen := hlen
              rw [loop_stop (readPropsTurn_done props (by omega)), ← hend]
              rfl
          | cons id tail =>
              rw [List.length_cons] at hlen
              have hunknown := htail id rfl
              rw [loop_stop (readPropsTurn_unknown props (by omega) hrest hunknown)]
              rfl
  | cons p ps ih =>
      obtain ⟨id, v⟩ := p
      obtain ⟨hsize, hknown⟩ := known_cons.mp hknown
      rw [propBytes_cons, List.cons_append, List.append_assoc] at hrest
      rw [propBytes_cons, List.length_cons, List.length_append] at hlen
      cases fuel with
      | zero => exact absurd hfuel (Nat.not_lt_zero _)
      | succ fuel =>
          rw [loop_again (readPropsTurn_known props (by omega) hrest hsize)]
          have hnext : (r.advance (1 + v.length)).rest = propBytes ps ++ (tail ++ more) := by
            rw [← advance_advance]
            exact rest_advance (rest_advance_one hrest)
          apply ih hnext hknown
          · rw [pos_advance]
            omega
          · rw [pos_advance]
            omega
          · exact Nat.lt_of_succ_lt_succ hfuel

/-- What the loop has read when it returns: known properties to the declared end or past
it, or known properties and then an unknown identifier inside the block. -/
theorem loop_eq_ok {fuel : Nat} {props props' : Props} {r t : SliceReader}
    (h : loop (readPropsTurn size start propLen) fuel props r = .ok props' t)
    (hstart : start ≤ r.pos) :
    ∃ ps, Known size ps ∧ props' = setProps props ps ∧
      ((t = r.advance (propBytes ps).length ∧ r.rest = propBytes ps ++ t.rest ∧
          start + propLen ≤ t.pos) ∨
        ∃ id tail, r.rest = propBytes ps ++ id :: tail ∧ size id = none ∧
          r.pos + (propBytes ps).length < start + propLen ∧
            t = { r with pos := start + propLen }) := by
  induction fuel generalizing props r with
  | zero => cases h
  | succ fuel ih =>
      rw [loop, Prog.bind_eq_ok] at h
      obtain ⟨turn, u, hturn, hloop⟩ := h
      rcases readPropsTurn_cases hturn with ⟨hdone, rfl, rfl⟩ |
        ⟨id, v, hin, hrest, hsize, rfl, rfl⟩ |
        ⟨id, tail, hin, hrest, hsize, rfl, rfl⟩
      · cases hloop
        exact ⟨[], by simp [Known], rfl, .inl ⟨rfl, rfl, by omega⟩⟩
      · obtain ⟨ps, hknown, rfl, hend⟩ := ih hloop (by rw [pos_advance]; omega)
        refine ⟨(id, v) :: ps, known_cons.mpr ⟨hsize, hknown⟩, rfl, ?_⟩
        have hlen : (propBytes ((id, v) :: ps)).length = 1 + v.length + (propBytes ps).length := by
          rw [propBytes_cons, List.length_cons, List.length_append]
          omega
        rcases hend with ⟨rfl, hnext, hpast⟩ | ⟨id', tail, hnext, hunknown, hin', rfl⟩
        · refine .inl ⟨by rw [hlen, advance_advance], ?_, hpast⟩
          rw [hrest, hnext, propBytes_cons, List.cons_append, List.append_assoc]
        · refine .inr ⟨id', tail, ?_, hunknown, ?_, rfl⟩
          · rw [hrest, hnext, propBytes_cons, List.cons_append, List.append_assoc]
          · rw [pos_advance] at hin'
            omega
      · cases hloop
        exact ⟨[], by simp [Known], rfl,
          .inr ⟨id, tail, hrest, hsize, by simp [propBytes]; omega, rfl⟩⟩

end Loop

section Readers
variable {size : UInt8 → Option Nat} {r t : SliceReader} {props : Props}

theorem readPropsWith_eq_ok :
    readPropsWith size r = .ok props t ↔
      ∃ len rest, Varint.Delimited len ∧ len.length ≤ 4 ∧ r.rest = len ++ rest ∧
        (r.advance len.length).rest = rest ∧
        loop (readPropsTurn size (r.pos + len.length) (Varint.value len)) (r.data.length + 1)
          FinMap.empty (r.advance len.length) = .ok props t := by
  rw [readPropsWith, Prog.bind_eq_ok]
  constructor
  · rintro ⟨n, u, hlen, hloop⟩
    obtain ⟨len, hdel, hfour, rfl, rfl, hrest⟩ := readVarInt_eq_ok.mp hlen
    exact ⟨len, _, hdel, hfour, hrest, rfl, hloop⟩
  · rintro ⟨len, rest, hdel, hfour, hrest, hnext, hloop⟩
    refine ⟨Varint.value len, r.advance len.length, ?_, hloop⟩
    exact readVarInt_eq_ok.mpr ⟨len, hdel, hfour, rfl, rfl, by rw [hnext, hrest]⟩

theorem readPropsWith_of_fits {len rest : List UInt8} {ps : List (UInt8 × List UInt8)}
    {tail more : List UInt8} (hdel : Varint.Delimited len) (hfour : len.length ≤ 4)
    (hrest : r.rest = len ++ rest) (hblock : rest = propBytes ps ++ (tail ++ more))
    (hlen : (propBytes ps ++ tail).length = Varint.value len) (hknown : Known size ps)
    (htail : ∀ id ∈ tail.head?, size id = none) :
    readPropsWith size r =
      .ok (setProps FinMap.empty ps) (r.advance (len.length + Varint.value len)) := by
  have hnext := rest_advance hrest
  have htotal := congrArg List.length hblock
  rw [List.length_append] at hlen htotal
  rw [← hnext, length_rest, data_advance, pos_advance] at htotal
  have hcount := length_le_propBytes ps
  refine readPropsWith_eq_ok.mpr ⟨len, rest, hdel, hfour, hrest, hnext, ?_⟩
  rw [loop_of_fits (hnext.trans hblock) hknown htail (by rw [pos_advance])
    (by rw [pos_advance]; omega)
    (by omega)]
  simp [advance, Nat.add_assoc]

/-- A block of known properties is read to its end. -/
theorem readPropsWith_encode {ps : List (UInt8 × List UInt8)} {rest : List UInt8}
    (hsize : (propBytes ps).length ≤ maxRemainingLength) (hknown : Known size ps)
    (hr : r.rest = Varint.encode (propBytes ps).length ++ propBytes ps ++ rest) :
    readPropsWith size r = .ok (setProps FinMap.empty ps)
      (r.advance (Varint.encode (propBytes ps).length ++ propBytes ps).length) := by
  rw [List.append_assoc] at hr
  have hblock : propBytes ps ++ rest = propBytes ps ++ ([] ++ rest) := rfl
  have hread :=
    readPropsWith_of_fits (Varint.delimited_encode _) (length_encode_le_four hsize) hr hblock
    (by rw [Varint.value_encode, List.append_nil]) hknown (by simp)
  rw [Varint.value_encode] at hread
  rw [List.length_append]
  exact hread

/-- A read stops inside the data or, behind an unknown identifier, at the declared end. -/
theorem readPropsWith_end (h : readPropsWith size r = .ok props t) :
    t.data = r.data ∧
      ∃ len rest, Varint.Delimited len ∧ len.length ≤ 4 ∧ r.rest = len ++ rest ∧
        (t.pos ≤ t.data.length ∨ t.pos = r.pos + len.length + Varint.value len) := by
  obtain ⟨len, rest, hdel, hfour, hrest, hnext, hloop⟩ := readPropsWith_eq_ok.mp h
  obtain ⟨ps, -, -, hstop⟩ := loop_eq_ok hloop (by rw [pos_advance])
  rcases hstop with ⟨rfl, hblock, -⟩ | ⟨id, tail, -, -, -, rfl⟩
  · refine ⟨rfl, len, rest, hdel, hfour, hrest, .inl ?_⟩
    have hlen := congrArg List.length hrest
    have hlen' := congrArg List.length hblock
    rw [hnext, List.length_append] at hlen'
    rw [length_rest, List.length_append] at hlen
    have hone : 0 < len.length := List.length_pos_of_ne_nil (by rintro rfl; exact hdel)
    rw [pos_advance, pos_advance, data_advance, data_advance]
    omega
  · exact ⟨rfl, len, rest, hdel, hfour, hrest, .inr rfl⟩

theorem propsFit_of_end {len rest : List UInt8} (h : readPropsWith size r = .ok props t)
    (hdel : Varint.Delimited len) (hrest : r.rest = len ++ rest)
    (hend : t.pos = r.pos + len.length + Varint.value len)
    (hroom : Varint.value len ≤ rest.length) : PropsFit size r.rest := by
  obtain ⟨len', rest', hdel', -, hrest', hnext, hloop⟩ := readPropsWith_eq_ok.mp h
  obtain ⟨rfl, rfl⟩ := Varint.delimited_append_inj hdel hdel' (hrest.symm.trans hrest')
  refine ⟨len, rest, hdel, hrest, hroom, ?_⟩
  obtain ⟨ps, hknown, -, hstop⟩ := loop_eq_ok hloop (by rw [pos_advance])
  rcases hstop with ⟨rfl, hblock, -⟩ | ⟨id, tail, hblock, hunknown, hin, -⟩
  · have hlen : (propBytes ps).length = Varint.value len := by
      rw [pos_advance, pos_advance] at hend
      omega
    refine ⟨ps, [], ?_, hknown, by simp⟩
    rw [← hnext, hblock, ← hlen, List.take_left, List.append_nil]
  · rw [pos_advance] at hin
    refine ⟨ps, (id :: tail).take (Varint.value len - (propBytes ps).length), ?_, hknown, ?_⟩
    · rw [← hnext, hblock, List.take_append, List.take_of_length_le (by omega)]
    · intro id' hid'
      obtain ⟨k, hk⟩ : ∃ k, Varint.value len - (propBytes ps).length = k + 1 :=
        ⟨_, (Nat.succ_pred_eq_of_pos (by omega)).symm⟩
      rw [hk, List.take_succ_cons, List.head?_cons, Option.mem_some_iff] at hid'
      rw [← hid']
      exact hunknown

theorem exact_iff_propsFit (h : readPropsWith size r = .ok props t) :
    Exact r props t ↔ PropsFit size r.rest := by
  constructor
  · rintro ⟨len, rest, hdel, hrest, rfl, hpos, -⟩
    apply propsFit_of_end h hdel hrest
    · rw [pos_advance, Nat.add_assoc]
    · have hlen := congrArg List.length (rest_advance hrest)
      rw [length_rest, data_advance, pos_advance] at hlen
      rw [pos_advance, data_advance] at hpos
      omega
  · rintro ⟨len, rest, hdel, hrest, hroom, ps, tail, hblock, hknown, htail⟩
    obtain ⟨len', rest', hdel', hfour, hrest', -⟩ := readPropsWith_eq_ok.mp h
    obtain ⟨rfl, rfl⟩ := Varint.delimited_append_inj hdel hdel' (hrest.symm.trans hrest')
    have hsplit : rest = propBytes ps ++ (tail ++ rest.drop (Varint.value len)) := by
      rw [← List.append_assoc, ← hblock, List.take_append_drop]
    have hlen : (propBytes ps ++ tail).length = Varint.value len := by
      rw [← hblock, List.length_take_of_le hroom]
    have hread := readPropsWith_of_fits hdel hfour hrest hsplit hlen hknown htail
    rw [hread] at h
    cases h
    refine ⟨len, rest, hdel, hrest, rfl, ?_, ?_⟩
    · have htotal := congrArg List.length hrest
      rw [length_rest, List.length_append] at htotal
      rw [pos_advance, data_advance]
      have hone : 0 < len.length := List.length_pos_of_ne_nil (by rintro rfl; exact hdel)
      omega
    · intro id v hget
      rcases mem_of_get_setProps hget with hempty | hmem
      · cases hempty
      · obtain ⟨before, after, hps⟩ := propBytes_of_mem hmem
        refine ⟨before, after ++ tail, ?_⟩
        rw [hblock, hps, List.append_assoc]

end Readers

end LumaBroker.Protocol
