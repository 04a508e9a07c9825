import LumaBroker.Lib.SortedMap
import LumaBroker.Protocol.Packet

/-!
The sliceReader of internal/protocol/packet.go and what the decoders read with it. Every
index and slice expression is a partial operation that faults out of range, and the
position may stand past the end of the data. The loops run on fuel taken from the length
of the data; a loop that makes no progress would use it up.
-/

namespace LumaBroker.Protocol

open Faulting

structure SliceReader where
  data : List UInt8
  pos : Nat
  deriving DecidableEq

namespace SliceReader

def newSliceReader (b : List UInt8) : SliceReader := ⟨b, 0⟩

/-- Remaining is negative once the position is past the end. -/
def remaining (r : SliceReader) : Int := r.data.length - r.pos

def advance (n : Nat) (r : SliceReader) : SliceReader := { r with pos := r.pos + n }

/-- The bytes not yet read. -/
def rest (r : SliceReader) : List UInt8 := r.data.drop r.pos

/-- The same data, read further or as far. -/
def Forward (r t : SliceReader) : Prop := t.data = r.data ∧ r.pos ≤ t.pos

instance isPreorder_forward : IsPreorder SliceReader Forward where
  refl r := ⟨rfl, Nat.le_refl r.pos⟩
  trans _ _ _ h₁ h₂ := ⟨h₂.1.trans h₁.1, Nat.le_trans h₁.2 h₂.2⟩

@[simp] theorem data_advance (n : Nat) (r : SliceReader) : (r.advance n).data = r.data := rfl

@[simp] theorem pos_advance (n : Nat) (r : SliceReader) : (r.advance n).pos = r.pos + n := rfl

theorem advance_advance (m n : Nat) (r : SliceReader) :
    (r.advance m).advance n = r.advance (m + n) := by
  simp [advance, Nat.add_assoc]

theorem forward_advance (n : Nat) (r : SliceReader) : Forward r (r.advance n) :=
  ⟨rfl, Nat.le_add_right r.pos n⟩

theorem drop_rest (n : Nat) (r : SliceReader) : (r.advance n).rest = r.rest.drop n := by
  rw [rest, data_advance, pos_advance, ← List.drop_drop, ← rest]

theorem rest_advance {r : SliceReader} {bytes tail : List UInt8} (h : r.rest = bytes ++ tail) :
    (r.advance bytes.length).rest = tail := by
  rw [drop_rest, h, List.drop_left]

theorem length_rest (r : SliceReader) : r.rest.length = r.data.length - r.pos := List.length_drop

theorem Forward.length_rest_le {r t : SliceReader} (h : Forward r t) :
    t.rest.length ≤ r.rest.length := by
  have hpos := h.2
  rw [length_rest, length_rest, h.1]
  omega

theorem remaining_lt {r : SliceReader} {n : Nat} : r.remaining < n ↔ r.data.length < r.pos + n := by
  rw [remaining]
  omega

theorem remaining_lt_one {r : SliceReader} : r.remaining < 1 ↔ r.rest = [] := by
  rw [rest, List.drop_eq_nil_iff, remaining]
  omega

theorem getElem?_rest (r : SliceReader) : r.rest[0]? = r.data[r.pos]? := by
  rw [rest, List.getElem?_drop, Nat.add_zero]

end SliceReader

open SliceReader

abbrev Reader (α : Type) := Prog DecodeError SliceReader α

/-- Read into a buffer of n bytes, of which it may fill fewer. -/
def read (n : Nat) : Reader (List UInt8) := do
  let r ← Prog.gets id
  if r.pos ≥ r.data.length then Prog.fail .eof
  else
    let tail ← Prog.orPanic (slice r.data r.pos r.data.length)
    let p := tail.take n
    Prog.modify (advance p.length)
    pure p

/-- One turn of io.ReadFull. At the end of the data a partly filled buffer is unexpected. -/
def readFullTurn (n : Nat) (buf : List UInt8) : Reader (Turn (List UInt8) (List UInt8)) := do
  if buf.length ≥ n then pure (.stop buf)
  else
    let got ← (read (n - buf.length)).mapError fun e =>
      if e = .eof ∧ buf ≠ [] then .unexpectedEOF else e
    pure (.again (buf ++ got))

/-- io.ReadFull into a buffer of n bytes. -/
def readFull (n : Nat) : Reader (List UInt8) := loop (readFullTurn n) (n + 1) []

def readString : Reader GoString := do
  let lenBuf ← readFull 2
  let length ← Prog.orPanic (uint16 lenBuf)
  if length = 0 then pure [] else readFull length.toNat

def readUint16 : Reader UInt16 := do
  let buf ← readFull 2
  Prog.orPanic (uint16 buf)

/-- io.ReadFull into a buffer of one byte, and that byte. -/
def readOne : Reader UInt8 := do
  let buf ← readFull 1
  Prog.orPanic buf[0]?

/-- The expression r.data[r.pos], and r.pos++. -/
def nextByte : Reader UInt8 := do
  let r ← Prog.gets id
  let b ← Prog.orPanic r.data[r.pos]?
  Prog.modify (advance 1)
  pure b

/-- The loop of skipProps, with the number of turns left. -/
def skipPropLen : Nat → Nat → Nat → Reader Nat
  | 0, _, propLen => pure propLen
  | i + 1, mult, propLen => do
      let buf ← read 1
      let b ← Prog.orPanic buf[0]?
      let propLen := propLen + (b &&& 0x7F).toNat * mult
      if b &&& 0x80 = 0 then pure propLen else skipPropLen i (mult * 128) propLen

/-- Read and discard a property block. -/
def skipProps : Reader Unit := do
  let propLen ← skipPropLen 4 1 0
  if propLen = 0 then pure ()
  else
    Prog.modify (advance propLen)
    let r ← Prog.gets id
    if r.pos > r.data.length then Prog.fail .malformed else pure ()

/-- The loop of readVarInt, with the number of turns left. -/
def readVarIntFrom : Nat → Nat → Nat → Reader Nat
  | 0, _, _ => Prog.fail .invalidVarInt
  | i + 1, mult, val => do
      let r ← Prog.gets id
      if r.remaining < 1 then Prog.fail .malformed
      else
        let b ← nextByte
        let digit := b.toNat
        let val := val + (digit &&& 0x7F) * mult
        if digit &&& 0x80 = 0 then pure val else readVarIntFrom i (mult * 128) val

def readVarInt : Reader Nat := readVarIntFrom 4 1 0

/-- The property values read so far, by identifier. -/
abbrev Props := FinMap UInt8 (List UInt8)

/-- One case of the switch: a property with a value of n bytes. -/
def readProp (id : UInt8) (n : Nat) (props : Props) : Reader Props := do
  let r ← Prog.gets (fun r => r)
  if r.remaining < n then Prog.fail .malformed
  else
    let v ← Prog.orPanic (slice r.data r.pos (r.pos + n))
    Prog.modify (advance n)
    pure (props.set id v)

/-- One turn of the property loop. Size gives the value length of the known identifiers;
an unknown one skips the remainder of the block. -/
def readPropsTurn (size : UInt8 → Option Nat) (start propLen : Nat) (props : Props) :
    Reader (Turn Props Props) := do
  let r ← Prog.gets id
  if r.pos - start < propLen then
    if r.remaining < 1 then Prog.fail .malformed
    else
      let id ← nextByte
      match size id with
      | some n =>
          let props ← readProp id n props
          pure (.again props)
      | none =>
          Prog.modify fun r => { r with pos := start + propLen }
          pure (.stop props)
  else pure (.stop props)

/-- The function readProps and readConnectProps are, but for the identifiers they know. -/
def readPropsWith (size : UInt8 → Option Nat) : Reader Props := do
  let propLen ← readVarInt
  let r ← Prog.gets id
  loop (readPropsTurn size r.pos propLen) (r.data.length + 1) FinMap.empty

/-- Message expiry interval, topic alias and session expiry interval. -/
def propSize (id : UInt8) : Option Nat :=
  if id = 0x02 then some 4 else if id = 0x23 then some 2 else if id = 0x11 then some 4 else none

/-- Session expiry interval, receive maximum, topic alias maximum and maximum packet size. -/
def connectPropSize (id : UInt8) : Option Nat :=
  if id = 0x11 then some 4
  else if id = 0x21 then some 2
  else if id = 0x22 then some 2
  else if id = 0x27 then some 4
  else none

def readProps : Reader Props := readPropsWith propSize

def readConnectProps : Reader Props := readPropsWith connectPropSize

theorem slice_eq_some {s bytes : List UInt8} {lo hi : Nat} :
    slice s lo hi = some bytes ↔ lo ≤ hi ∧ hi ≤ s.length ∧ bytes = (s.drop lo).take (hi - lo) := by
  simp only [slice]
  split_ifs with h
  · simp only [Option.some.injEq, h, true_and]
    exact eq_comm
  · simp only [false_iff]
    rintro ⟨hlo, hhi, -⟩
    exact h ⟨hlo, hhi⟩

theorem read_of_lt {r : SliceReader} (h : r.pos < r.data.length) (n : Nat) :
    read n r = .ok (r.rest.take n) (r.advance (r.rest.take n).length) := by
  have hslice : slice r.data r.pos r.data.length = some r.rest := by
    refine slice_eq_some.mpr ⟨Nat.le_of_lt h, Nat.le_refl _, ?_⟩
    rw [rest, List.take_of_length_le (List.length_drop.le)]
  simp [read, Nat.not_le_of_lt h, hslice]

theorem read_of_le {r : SliceReader} (h : r.data.length ≤ r.pos) (n : Nat) :
    read n r = .error .eof := by
  simp [read, h]

theorem readFull_of_le {r : SliceReader} {n : Nat} (h : r.pos + n ≤ r.data.length) :
    readFull n r = .ok (r.rest.take n) (r.advance n) := by
  cases n with
  | zero => rfl
  | succ n =>
      have hlen : (r.rest.take (n + 1)).length = n + 1 := by
        rw [List.length_take, length_rest]
        omega
      -- the first turn fills the buffer and the second one sees it full
      have hfirst : readFullTurn (n + 1) [] r =
          .ok (.again (r.rest.take (n + 1))) (r.advance (n + 1)) := by
        have hread := read_of_lt (r := r) (by omega) (n + 1)
        rw [hlen] at hread
        simp [readFullTurn, Prog.bind_ok (Prog.mapError_eq_ok.mpr hread)]
      have hsecond : readFullTurn (n + 1) (r.rest.take (n + 1)) (r.advance (n + 1)) =
          .ok (.stop (r.rest.take (n + 1))) (r.advance (n + 1)) := by
        simp [readFullTurn, hlen]
      rw [readFull, loop_again hfirst, loop_stop hsecond]

theorem readFullTurn_error {n : Nat} {buf : List UInt8} {r : SliceReader} (hbuf : buf.length < n)
    (h : read (n - buf.length) r = .error .eof) : ∃ e, readFullTurn n buf r = .error e := by
  refine ⟨if DecodeError.eof = .eof ∧ buf ≠ [] then .unexpectedEOF else .eof, ?_⟩
  rw [readFullTurn, if_neg (Nat.not_le_of_lt hbuf)]
  exact Prog.bind_error (Prog.mapError_error h _) _

theorem readFull_of_lt {r : SliceReader} {n : Nat} (h : r.data.length < r.pos + n) (hn : 0 < n) :
    ∃ e, readFull n r = .error e := by
  by_cases hpos : r.pos < r.data.length
  · -- the first turn takes what is left, and the second one finds the end
    let got := r.rest.take n
    have hgot : got.length = r.data.length - r.pos := by
      rw [List.length_take, length_rest]
      omega
    have hfirst : readFullTurn n [] r = .ok (.again got) (r.advance got.length) := by
      have hread := read_of_lt hpos n
      simp [readFullTurn, Nat.not_le_of_lt hn, Prog.bind_ok (Prog.mapError_eq_ok.mpr hread), got]
    have hend : read (n - got.length) (r.advance got.length) = .error .eof := by
      apply read_of_le
      rw [data_advance, pos_advance]
      omega
    obtain ⟨e, he⟩ := readFullTurn_error (by omega) hend
    refine ⟨e, ?_⟩
    cases n with
    | zero => exact absurd hn (Nat.lt_irrefl 0)
    | succ n => rw [readFull, loop_again hfirst, loop, Prog.bind_error he]
  · have hend := read_of_le (Nat.le_of_not_lt hpos) n
    have hempty : ([] : List UInt8).length < n := hn
    obtain ⟨e, he⟩ := readFullTurn_error hempty hend
    exact ⟨e, by rw [readFull, loop, Prog.bind_error he]⟩

theorem readFull_eq_ok {n : Nat} {r t : SliceReader} {bytes : List UInt8} :
    readFull n r = .ok bytes t ↔
      bytes.length = n ∧ t = r.advance n ∧ r.rest = bytes ++ t.rest := by
  by_cases h : r.pos + n ≤ r.data.length
  · have hlen : (r.rest.take n).length = n := by
      rw [List.length_take, length_rest]
      omega
    rw [readFull_of_le h, Outcome.ok.injEq]
    constructor
    · rintro ⟨rfl, rfl⟩
      refine ⟨hlen, rfl, ?_⟩
      have hrest := rest_advance (List.take_append_drop n r.rest).symm
      rw [hlen] at hrest
      rw [hrest, List.take_append_drop]
    · rintro ⟨hbytes, rfl, hrest⟩
      refine ⟨?_, rfl⟩
      rw [hrest, ← hbytes, List.take_left]
  · constructor
    · intro hok
      cases n with
      | zero =>
          cases hok
          exact ⟨rfl, rfl, rfl⟩
      | succ n =>
          obtain ⟨e, he⟩ := readFull_of_lt (Nat.lt_of_not_le h) (Nat.succ_pos n)
          cases he.symm.trans hok
    · rintro ⟨hbytes, rfl, hrest⟩
      have hlen := congrArg List.length hrest
      rw [List.length_append, length_rest, length_rest, data_advance, pos_advance] at hlen
      have hn : n = 0 := by omega
      subst hn
      rw [List.length_eq_zero_iff.mp hbytes]
      rfl

theorem safe_readFull (n : Nat) : Safe Forward (readFull n) := by
  intro r
  by_cases h : r.pos + n ≤ r.data.length
  · exact .inl ⟨_, _, readFull_of_le h, forward_advance n r⟩
  · cases n with
    | zero => exact .inl ⟨[], r, rfl, refl_of Forward r⟩
    | succ n => exact .inr (readFull_of_lt (Nat.lt_of_not_le h) (Nat.succ_pos n))

theorem readUint16_eq_ok {r t : SliceReader} {v : UInt16} :
    readUint16 r = .ok v t ↔ t = r.advance 2 ∧ r.rest = bytes16 v ++ t.rest := by
  rw [readUint16, Prog.bind_eq_ok]
  constructor
  · rintro ⟨buf, u, hbuf, hv⟩
    obtain ⟨hlen, hu, hrest⟩ := readFull_eq_ok.mp hbuf
    obtain ⟨a, b, rfl⟩ := List.length_eq_two.mp hlen
    cases hv
    exact ⟨hu, by rw [hrest, bytes16_of_uint16 rfl]⟩
  · rintro ⟨rfl, hrest⟩
    refine ⟨bytes16 v, r.advance 2, readFull_eq_ok.mpr ⟨rfl, rfl, hrest⟩, ?_⟩
    have hv := uint16_bytes16 v []
    rw [List.append_nil] at hv
    rw [hv]
    rfl

theorem safe_readUint16 : Safe Forward readUint16 := by
  intro r
  apply (safe_readFull 2 r).bind
  intro buf t hbuf
  obtain ⟨a, b, rfl⟩ := List.length_eq_two.mp (readFull_eq_ok.mp hbuf).1
  exact safe_pure _ t

theorem safe_readOne : Safe Forward readOne := by
  intro r
  apply (safe_readFull 1 r).bind
  intro buf t hbuf
  obtain ⟨b, rfl⟩ := List.length_eq_one_iff.mp (readFull_eq_ok.mp hbuf).1
  exact safe_pure b t

/-- A string is its length and then so many bytes; the branch on length zero changes nothing. -/
theorem readString_eq (r : SliceReader) :
    readString r = (readUint16 >>= fun length => readFull length.toNat) r := by
  have hzero (length : UInt16) :
      (if length = 0 then pure [] else readFull length.toNat) = readFull length.toNat := by
    split
    · next h =>
        subst h
        rfl
    · rfl
  rw [readString, readUint16, Prog.bind_assoc]
  simp only [hzero]

theorem stringField_eq {s : GoString} {v : UInt16} (h : s.length = v.toNat) :
    stringField s = bytes16 v ++ s := by
  have hv := v.toNat_lt
  have hhigh : UInt8.ofNat (s.length >>> 8) = (v >>> 8).toUInt8 := by
    apply UInt8.toNat_inj.mp
    simp only [UInt8.toNat_ofNat', UInt16.toNat_toUInt8, UInt16.toNat_shiftRight, h,
      Nat.shiftRight_eq_div_pow]
    rfl
  have hlow : UInt8.ofNat s.length = v.toUInt8 := by
    apply UInt8.toNat_inj.mp
    rw [UInt8.toNat_ofNat', UInt16.toNat_toUInt8, h]
  rw [stringField, bytes16, hhigh, hlow]

theorem readString_eq_ok {r t : SliceReader} {s : GoString} :
    readString r = .ok s t ↔
      s.length ≤ maxTopicLen ∧ t = r.advance (2 + s.length) ∧ r.rest = stringField s ++ t.rest := by
  rw [readString_eq, Prog.bind_eq_ok]
  constructor
  · rintro ⟨v, u, hv, hs⟩
    obtain ⟨rfl, hhead⟩ := readUint16_eq_ok.mp hv
    obtain ⟨hlen, rfl, hbody⟩ := readFull_eq_ok.mp hs
    refine ⟨?_, ?_, ?_⟩
    · have := v.toNat_lt
      rw [maxTopicLen]
      omega
    · rw [advance_advance, hlen]
    · rw [hhead, hbody, stringField_eq hlen, List.append_assoc]
  · rintro ⟨hlen, rfl, hrest⟩
    let v := UInt16.ofNat s.length
    have hv : s.length = v.toNat := by
      rw [UInt16.toNat_ofNat']
      rw [maxTopicLen] at hlen
      omega
    rw [stringField_eq hv, List.append_assoc] at hrest
    have hbody := rest_advance hrest
    rw [length_bytes16] at hbody
    refine ⟨v, r.advance 2, readUint16_eq_ok.mpr ⟨rfl, by rw [hrest, hbody]⟩, ?_⟩
    exact readFull_eq_ok.mpr ⟨hv, by rw [advance_advance, hv], hbody⟩

theorem safe_readString : Safe Forward readString := by
  intro r
  rw [SafeAt, readString_eq]
  exact (safe_readUint16.bind fun length => safe_readFull length.toNat) r

theorem nextByte_of_rest {r : SliceReader} {b : UInt8} {tail : List UInt8}
    (h : r.rest = b :: tail) : nextByte r = .ok b (r.advance 1) := by
  have hget : r.data[r.pos]? = some b := by
    rw [← getElem?_rest, h]
    rfl
  simp [nextByte, hget]

theorem rest_advance_one {r : SliceReader} {b : UInt8} {tail : List UInt8}
    (h : r.rest = b :: tail) : (r.advance 1).rest = tail :=
  @rest_advance r [b] tail h

theorem readVarIntFrom_cons {r : SliceReader} {b : UInt8} {tail : List UInt8}
    (h : r.rest = b :: tail) (i mult val : Nat) :
    readVarIntFrom (i + 1) mult val r =
      if b.toNat < 128 then .ok (val + b.toNat % 128 * mult) (r.advance 1)
      else readVarIntFrom i (mult * 128) (val + b.toNat % 128 * mult) (r.advance 1) := by
  have hmore : ¬ r.remaining < 1 := by
    rw [remaining_lt_one, h]
    exact List.cons_ne_nil b tail
  simp only [readVarIntFrom, Prog.gets_bind, id_eq, if_neg hmore,
    Prog.bind_ok (nextByte_of_rest h), and_80_eq_zero b.toNat_lt, and_7F]
  split <;> rfl

theorem readVarIntFrom_nil {r : SliceReader} (h : r.rest = []) (i mult val : Nat) :
    readVarIntFrom (i + 1) mult val r = .error .malformed := by
  simp [readVarIntFrom, remaining_lt_one.mpr h]

/-- The reader adds up the digits of a delimited sequence of at most so many bytes. -/
theorem readVarIntFrom_eq_ok {i mult val n : Nat} {r t : SliceReader} :
    readVarIntFrom i mult val r = .ok n t ↔
      ∃ bytes, Varint.Delimited bytes ∧ bytes.length ≤ i ∧ n = val + Varint.value bytes * mult ∧
        t = r.advance bytes.length ∧ r.rest = bytes ++ t.rest := by
  induction i generalizing mult val r with
  | zero =>
      constructor
      · intro h
        cases h
      · rintro ⟨bytes, hdel, hlen, -⟩
        rw [List.length_eq_zero_iff.mp (Nat.le_zero.mp hlen)] at hdel
        exact hdel.elim
  | succ i ih =>
      cases hrest : r.rest with
      | nil =>
          constructor
          · intro h
            rw [readVarIntFrom_nil hrest] at h
            cases h
          · rintro ⟨bytes, hdel, -, -, -, heq⟩
            rw [(List.append_eq_nil_iff.mp heq.symm).1] at hdel
            exact hdel.elim
      | cons b tail =>
          have htail := rest_advance_one hrest
          have hhead (c : UInt8) (bytes : List UInt8) (h : (c :: bytes).length ≤ i + 1 ∧
              n = val + Varint.value (c :: bytes) * mult ∧ t = r.advance (c :: bytes).length ∧
              b :: tail = c :: bytes ++ t.rest) : c = b :=
            (List.cons.inj h.2.2.2).1.symm
          rw [readVarIntFrom_cons hrest]
          by_cases hb : b.toNat < 128
          · rw [if_pos hb, Outcome.ok.injEq, Varint.exists_delimited_last hb hhead]
            constructor
            · rintro ⟨rfl, rfl⟩
              refine ⟨Nat.le_add_left 1 i, ?_, rfl, by rw [htail]; rfl⟩
              simp [Varint.value]
            · rintro ⟨-, rfl, rfl, -⟩
              simp [Varint.value]
          · rw [if_neg hb, Varint.exists_delimited_cons (Nat.le_of_not_lt hb) hhead, ih, htail]
            apply exists_congr
            intro bytes
            rw [Varint.value_cons_mul, advance_advance, List.length_cons, Nat.add_comm 1,
              Nat.add_assoc, Nat.add_le_add_iff_right, List.cons_append, List.cons_inj_right]

theorem readVarInt_eq_ok {n : Nat} {r t : SliceReader} :
    readVarInt r = .ok n t ↔
      ∃ bytes, Varint.Delimited bytes ∧ bytes.length ≤ 4 ∧ n = Varint.value bytes ∧
        t = r.advance bytes.length ∧ r.rest = bytes ++ t.rest := by
  rw [readVarInt, readVarIntFrom_eq_ok]
  simp only [Nat.zero_add, Nat.mul_one]

theorem safeAt_nextByte {r : SliceReader} (h : ¬ r.remaining < 1) : SafeAt Forward nextByte r := by
  cases hrest : r.rest with
  | nil => exact absurd (remaining_lt_one.mpr hrest) h
  | cons b tail => exact .inl ⟨b, _, nextByte_of_rest hrest, forward_advance 1 r⟩

theorem safe_readVarIntFrom (i mult val : Nat) : Safe Forward (readVarIntFrom i mult val) := by
  induction i generalizing mult val with
  | zero => exact safe_fail _
  | succ i ih =>
      apply safe_gets_bind
      intro r
      by_cases hshort : r.remaining < 1
      · rw [id_eq, if_pos hshort]
        exact safe_fail _ r
      · rw [id_eq, if_neg hshort]
        apply (safeAt_nextByte hshort).bind
        intro b t _
        exact Safe.ite (safe_pure _) (ih _ _) t

theorem safe_skipPropLen (i mult propLen : Nat) : Safe Forward (skipPropLen i mult propLen) := by
  induction i generalizing mult propLen with
  | zero => exact safe_pure _
  | succ i ih =>
      intro r
      rw [skipPropLen]
      by_cases hpos : r.pos < r.data.length
      · have hread := read_of_lt hpos 1
        apply SafeAt.bind (.inl ⟨_, _, hread, forward_advance _ r⟩)
        intro buf t hbuf
        cases hrest : r.rest with
        | nil => exact absurd hpos (Nat.not_lt_of_le (List.drop_eq_nil_iff.mp hrest))
        | cons b tail =>
            rw [hread, hrest] at hbuf
            cases hbuf
            exact Safe.ite (safe_pure _) (ih _ _) _
      · exact .inr ⟨.eof, Prog.bind_error (read_of_le (Nat.le_of_not_lt hpos) 1) _⟩

theorem safe_skipProps : Safe Forward skipProps := by
  apply (safe_skipPropLen 4 1 0).bind
  intro propLen
  apply Safe.ite (safe_pure ())
  intro r
  apply safeAt_modify_bind (forward_advance propLen r)
  exact safe_gets_bind (fun t => Safe.ite (safe_fail _) (safe_pure ()) t) _

theorem readProp_of_le {r : SliceReader} {n : Nat} (h : r.pos + n ≤ r.data.length) (id : UInt8)
    (props : Props) :
    readProp id n props r = .ok (props.set id (r.rest.take n)) (r.advance n) := by
  have hmore : ¬ r.remaining < n := by
    rw [remaining_lt]
    omega
  have hslice : slice r.data r.pos (r.pos + n) = some (r.rest.take n) := by
    refine slice_eq_some.mpr ⟨Nat.le_add_right r.pos n, h, ?_⟩
    rw [Nat.add_sub_cancel_left, rest]
  simp [readProp, hmore, hslice]

theorem readProp_of_lt {r : SliceReader} {n : Nat} (h : r.data.length < r.pos + n) (id : UInt8)
    (props : Props) : readProp id n props r = .error .malformed := by
  simp [readProp, remaining_lt.mpr h]

theorem safe_readProp (id : UInt8) (n : Nat) (props : Props) :
    Safe Forward (readProp id n props) := by
  intro r
  by_cases h : r.pos + n ≤ r.data.length
  · exact .inl ⟨_, _, readProp_of_le h id props, forward_advance n r⟩
  · exact .inr ⟨_, readProp_of_lt (Nat.lt_of_not_le h) id props⟩

section PropsLoop
variable {size : UInt8 → Option Nat} {start propLen : Nat} {r : SliceReader} (props : Props)

theorem readPropsTurn_done (hdone : ¬ r.pos - start < propLen) :
    readPropsTurn size start propLen props r = .ok (.stop props) r := by
  simp [readPropsTurn, hdone]

theorem readPropsTurn_known {id : UInt8} {v tail : List UInt8} (hin : r.pos - start < propLen)
    (hrest : r.rest = id :: (v ++ tail)) (hsize : size id = some v.length) :
    readPropsTurn size start propLen props r =
      .ok (.again (props.set id v)) (r.advance (1 + v.length)) := by
  have hmore : ¬ r.remaining < 1 := by simp [remaining_lt_one, hrest]
  have hbody := rest_advance_one hrest
  have hlen := congrArg List.length hrest
  rw [length_rest, List.length_cons, List.length_append] at hlen
  have hfits : (r.advance 1).pos + v.length ≤ (r.advance 1).data.length := by
    rw [pos_advance, data_advance]
    omega
  have hprop := readProp_of_le hfits id props
  rw [hbody, List.take_left, advance_advance] at hprop
  simp [readPropsTurn, hin, hmore, Prog.bind_ok (nextByte_of_rest hrest), hsize, Prog.bind_ok hprop]

/-- An unknown one ends the loop at the declared end, wherever the data ends. -/
theorem readPropsTurn_unknown {id : UInt8} {tail : List UInt8} (hin : r.pos - start < propLen)
    (hrest : r.rest = id :: tail) (hsize : size id = none) :
    readPropsTurn size start propLen props r =
      .ok (.stop props) { r with pos := start + propLen } := by
  have hmore : ¬ r.remaining < 1 := by simp [remaining_lt_one, hrest]
  simp [readPropsTurn, hin, hmore, Prog.bind_ok (nextByte_of_rest hrest), hsize]

theorem readPropsTurn_cases {props : Props} {turn : Turn Props Props} {t : SliceReader}
    (h : readPropsTurn size start propLen props r = .ok turn t) :
    (¬ r.pos - start < propLen ∧ turn = .stop props ∧ t = r) ∨
    (∃ id v, r.pos - start < propLen ∧ r.rest = id :: (v ++ t.rest) ∧ size id = some v.length ∧
      turn = .again (props.set id v) ∧ t = r.advance (1 + v.length)) ∨
    (∃ id tail, r.pos - start < propLen ∧ r.rest = id :: tail ∧ size id = none ∧
      turn = .stop props ∧ t = { r with pos := start + propLen }) := by
  by_cases hin : r.pos - start < propLen
  · cases hrest : r.rest with
    | nil => simp [readPropsTurn, hin, remaining_lt_one.mpr hrest] at h
    | cons id tail =>
        cases hsize : size id with
        | none =>
            rw [readPropsTurn_unknown props hin hrest hsize] at h
            cases h
            exact .inr (.inr ⟨id, tail, hin, rfl, hsize, rfl, rfl⟩)
        | some n =>
            have hlen := congrArg List.length hrest
            rw [length_rest, List.length_cons] at hlen
            by_cases hn : n ≤ tail.length
            · have hv : (tail.take n).length = n := List.length_take_of_le hn
              have hcut : r.rest = id :: (tail.take n ++ tail.drop n) := by
                rw [hrest, List.take_append_drop]
              rw [readPropsTurn_known props hin hcut (by rw [hv, hsize])] at h
              cases h
              have hafter : (r.advance (1 + (tail.take n).length)).rest = tail.drop n := by
                rw [← advance_advance]
                exact rest_advance
                  ((rest_advance_one hrest).trans (List.take_append_drop n tail).symm)
              refine .inr (.inl ⟨id, tail.take n, hin, ?_, by rw [hv, hsize], rfl, rfl⟩)
              rw [hafter, List.take_append_drop]
            · have hmore : ¬ r.remaining < 1 := by simp [remaining_lt_one, hrest]
              have hshort : (r.advance 1).data.length < (r.advance 1).pos + n := by
                rw [pos_advance, data_advance]
                omega
              simp [readPropsTurn, hin, hmore, Prog.bind_ok (nextByte_of_rest hrest), hsize,
                Prog.bind_error (readProp_of_lt hshort id props)] at h
  · rw [readPropsTurn_done props hin] at h
    cases h
    exact .inl ⟨hin, rfl, rfl⟩

theorem safe_readPropsTurn (size : UInt8 → Option Nat) (start propLen : Nat) (props : Props) :
    Safe Forward (readPropsTurn size start propLen props) := by
  apply safe_gets_bind
  intro r
  rw [id_eq]
  by_cases hin : r.pos - start < propLen
  · rw [if_pos hin]
    by_cases hshort : r.remaining < 1
    · rw [if_pos hshort]
      exact safe_fail _ r
    · rw [if_neg hshort]
      apply (safeAt_nextByte hshort).bind
      intro id t ht
      cases size id with
      | some n => exact ((safe_readProp id n props).bind fun props => safe_pure _) t
      | none =>
          have hpos : t.pos = r.pos + 1 := by
            cases hrest : r.rest with
            | nil => exact absurd (remaining_lt_one.mpr hrest) hshort
            | cons b tail =>
                rw [nextByte_of_rest hrest] at ht
                cases ht
                rfl
          apply safeAt_modify_bind
          · exact ⟨rfl, by change t.pos ≤ start + propLen; omega⟩
          · exact safe_pure _ _
  · rw [if_neg hin]
    exact safe_pure _ r

theorem readPropsTurn_progress {props props' : Props} {t : SliceReader}
    (h : readPropsTurn size start propLen props r = .ok (.again props') t) :
    t.data.length - t.pos < r.data.length - r.pos := by
  rcases readPropsTurn_cases h with ⟨-, hturn, -⟩ | ⟨id, v, -, hrest, -, -, rfl⟩ |
    ⟨id, tail, -, -, -, hturn, -⟩
  · cases hturn
  · have hlen := congrArg List.length hrest
    rw [length_rest, List.length_cons] at hlen
    rw [data_advance, pos_advance]
    omega
  · cases hturn

theorem safe_readPropsWith (size : UInt8 → Option Nat) : Safe Forward (readPropsWith size) := by
  apply (safe_readVarIntFrom 4 1 0).bind
  intro propLen
  apply safe_gets_bind
  intro r
  apply safe_loop (fun r => r.data.length - r.pos)
  · exact safe_readPropsTurn size r.pos propLen
  · intro props s props' t h
    exact readPropsTurn_progress h
  · rw [id_eq]
    omega

end PropsLoop

end LumaBroker.Protocol
