import LumaBroker.Protocol.PropertyLength

/-!
Decoding what was encoded. A reader of internal/protocol/packet.go reads a value from its bytes
when it takes exactly them from wherever they stand; there is one rule for each way in which
readers are put together, so a round trip follows the text of the decoder.
-/

namespace LumaBroker.Protocol

open Faulting SliceReader

/-- Wherever these bytes come next, the program takes them and returns the value. -/
def Reads {α : Type} (m : Reader α) (bytes : List UInt8) (a : α) : Prop :=
  ∀ r tail, r.rest = bytes ++ tail → m r = .ok a (r.advance bytes.length)

namespace Reads
variable {α β : Type} {m : Reader α} {f : α → Reader β} {bytes more : List UInt8} {a : α} {b : β}

theorem pure (a : α) : Reads (pure a) [] a := fun _ _ _ => rfl

theorem bind (hm : Reads m bytes a) (hf : Reads (f a) more b) :
    Reads (m >>= f) (bytes ++ more) b := by
  intro r tail hr
  rw [List.append_assoc] at hr
  rw [Prog.bind_ok (hm r _ hr), hf _ tail (rest_advance hr), advance_advance, List.length_append]

theorem map (hm : Reads m bytes a) (g : α → β) :
    Reads (m >>= fun a => Pure.pure (g a)) bytes (g a) := by
  have h := hm.bind (f := fun a => Pure.pure (g a)) (pure (g a))
  rwa [List.append_nil] at h

theorem mapError (hm : Reads m bytes a) (g : DecodeError → DecodeError) :
    Reads (m.mapError g) bytes a :=
  fun r tail hr => Prog.mapError_eq_ok.mpr (hm r tail hr)

/-- A check that does not object. -/
theorem guard {c : Prop} [Decidable c] {e : DecodeError} (hc : ¬ c) (hm : Reads m bytes a) :
    Reads (if c then Prog.fail e else m) bytes a := by
  rw [if_neg hc]
  exact hm

/-- A part that is there when its flag is set. -/
theorem optional {γ : Type} {o : Option γ} {flag : Bool} {wire : γ → List UInt8} {v : Option γ → α}
    (hflag : flag = o.isSome) (h : ∀ x, Reads m (wire x) (v (some x))) :
    Reads (if flag then m else Pure.pure (v none)) ((o.map wire).getD []) (v o) := by
  subst hflag
  cases o with
  | none => exact pure (v none)
  | some x => exact h x

end Reads

/-- The program accepts the bytes of these values and nothing else. -/
def Parses {ε α : Type} (m : Reader α) (wire : ε → List UInt8) (value : ε → α) : Prop :=
  ∀ r a t, m r = .ok a t ↔ ∃ e, a = value e ∧ t = r.advance (wire e).length ∧
    r.rest = wire e ++ t.rest

theorem Parses.reads {ε α : Type} {m : Reader α} {wire : ε → List UInt8} {value : ε → α}
    (h : Parses m wire value) (e : ε) : Reads m (wire e) (value e) :=
  fun r _ hr => (h r _ _).mpr ⟨e, rfl, rfl, by rw [rest_advance hr, hr]⟩

theorem parses_readOne : Parses readOne (fun b => [b]) id := by
  intro r a t
  rw [readOne, Prog.bind_eq_ok]
  constructor
  · rintro ⟨buf, u, hbuf, hb⟩
    obtain ⟨hlen, rfl, hrest⟩ := readFull_eq_ok.mp hbuf
    obtain ⟨b, rfl⟩ := List.length_eq_one_iff.mp hlen
    cases hb
    exact ⟨a, rfl, rfl, hrest⟩
  · rintro ⟨_, rfl, rfl, hrest⟩
    exact ⟨[a], _, readFull_eq_ok.mpr ⟨rfl, rfl, hrest⟩, rfl⟩

theorem reads_readOne (b : UInt8) : Reads readOne [b] b := parses_readOne.reads b

theorem reads_readUint16 (v : UInt16) : Reads readUint16 (bytes16 v) v :=
  fun r tail hr => readUint16_eq_ok.mpr ⟨rfl, by rw [rest_advance hr, hr]⟩

/-- A string or binary data, short enough for a length of two bytes. -/
structure Text where
  bytes : List UInt8
  short : bytes.length ≤ maxTopicLen

def Text.wire (s : Text) : List UInt8 := stringField s.bytes

theorem parses_readString : Parses readString Text.wire Text.bytes := by
  intro r a t
  rw [readString_eq_ok]
  constructor
  · rintro ⟨hlen, rfl, hrest⟩
    exact ⟨⟨a, hlen⟩, rfl, by rw [Text.wire, length_stringField], hrest⟩
  · rintro ⟨s, rfl, rfl, hrest⟩
    exact ⟨s.short, by rw [Text.wire, length_stringField], hrest⟩

theorem reads_readString (s : Text) : Reads readString s.wire s.bytes := parses_readString.reads s

theorem readBinary_eq : readBinary = readUint16 >>= fun length => readFull length.toNat := by
  have hzero (length : UInt16) :
      (if length > 0 then readFull length.toNat else pure []) = readFull length.toNat := by
    split_ifs with hpos
    · rfl
    · have h0 : length = 0 := by simpa using hpos
      subst h0
      rfl
  rw [readBinary]
  simp only [hzero]

theorem reads_readBinary (s : Text) : Reads readBinary s.wire s.bytes := by
  intro r tail hr
  rw [readBinary_eq, ← readString_eq]
  exact reads_readString s r tail hr

/-- The property section of a v5 packet: the length of the block, and the block. -/
def propertySection (props : List UInt8) : List UInt8 := Varint.encode props.length ++ props

theorem length_propertySection (props : List UInt8) :
    (propertySection props).length = (Varint.encode props.length).length + props.length :=
  List.length_append

theorem reads_skipProps {block : List UInt8} (hsize : block.length ≤ maxRemainingLength) :
    Reads skipProps (propertySection block) () := by
  intro r tail hr
  rw [propertySection, List.append_assoc] at hr
  have hlen : skipPropLen 4 1 0 r = .ok block.length
      (r.advance (Varint.encode block.length).length) :=
    skipPropLen_of_readVarIntFrom (readVarInt_encode hsize hr)
  refine skipProps_eq_ok.mpr ⟨block.length, _, hlen, ?_,
    by rw [advance_advance, length_propertySection]⟩
  rw [rest_advance hr, List.length_append]
  exact Nat.le_add_right _ _

section Fields
variable {ε α : Type} {field : Reader α} {wire : ε → List UInt8} {value : ε → α}

theorem remaining_pos {r : SliceReader} : r.remaining > 0 ↔ r.rest ≠ [] := by
  rw [← not_iff_not, not_not, ← remaining_lt_one, Int.not_lt]
  exact Int.lt_add_one_iff.symm

theorem length_le_flatMap (hne : ∀ e, wire e ≠ []) (es : List ε) :
    es.length ≤ (es.flatMap wire).length := by
  induction es with
  | nil => exact Nat.zero_le _
  | cons e es ih =>
      have hpos := List.length_pos_iff.mpr (hne e)
      rw [List.flatMap_cons, List.length_append, List.length_cons]
      omega

theorem loop_fieldsTurn (h : Parses field wire value) (hne : ∀ e, wire e ≠ []) (es : List ε)
    {fuel : Nat} (hfuel : es.length < fuel) (fields : List α) {r : SliceReader}
    (hr : r.rest = es.flatMap wire) :
    loop (fieldsTurn field) fuel fields r = .ok (fields ++ es.map value)
      (r.advance (es.flatMap wire).length) := by
  induction es generalizing fuel fields r with
  | nil =>
      obtain ⟨fuel, rfl⟩ := Nat.exists_eq_add_of_lt hfuel
      have hend : ¬ r.remaining > 0 := mt remaining_pos.mp (not_not.mpr hr)
      rw [loop_stop (fieldsTurn_stop.mpr ⟨hend, rfl, rfl⟩), List.map_nil, List.append_nil]
      rfl
  | cons e es ih =>
      obtain ⟨fuel, rfl⟩ := Nat.exists_eq_add_of_le' (Nat.one_le_of_lt hfuel)
      rw [List.flatMap_cons] at hr
      have hmore : r.remaining > 0 :=
        remaining_pos.mpr (hr ▸ List.append_ne_nil_of_left_ne_nil (hne e) _)
      have hnext := rest_advance hr
      rw [loop_again (fieldsTurn_again.mpr ⟨hmore, _, h.reads e r _ hr, rfl⟩),
        ih (Nat.lt_of_succ_lt_succ hfuel) (fields ++ [value e]) hnext, advance_advance,
        List.flatMap_cons,
        List.length_append, List.map_cons, List.append_assoc, List.singleton_append]

/-- Entries of one kind to the end of the data. -/
theorem readFields_eq_ok (h : Parses field wire value) (hne : ∀ e, wire e ≠ []) {r t : SliceReader}
    {fields : List α} :
    readFields field r = .ok fields t ↔
      ∃ es : List ε, fields = es.map value ∧ r.rest = es.flatMap wire ∧
        t = r.advance (es.flatMap wire).length := by
  constructor
  · intro hread
    have hloop : loop (fieldsTurn field) (r.data.length + 1) [] r = .ok fields t := hread
    refine loop_rule
      (I := fun fields s => ∃ es : List ε, fields = es.map value ∧
        s = r.advance (es.flatMap wire).length ∧
        r.rest = es.flatMap wire ++ s.rest)
      (Q := fun fields s => ∃ es : List ε, fields = es.map value ∧ r.rest = es.flatMap wire ∧
        s = r.advance (es.flatMap wire).length) ?_ ?_ ⟨[], rfl, rfl, rfl⟩ hloop
    · rintro _ s _ u ⟨es, rfl, hs, hrest⟩ hturn
      obtain ⟨-, f, hf, rfl⟩ := fieldsTurn_again.mp hturn
      obtain ⟨e, rfl, rfl, he⟩ := (h _ _ _).mp hf
      refine ⟨es ++ [e], by rw [List.map_append, List.map_singleton], ?_, ?_⟩
      · rw [hs, advance_advance, List.flatMap_append, List.flatMap_singleton, List.length_append]
      · rw [List.flatMap_append, List.flatMap_singleton, List.append_assoc, ← he]
        exact hrest
    · rintro _ s _ u ⟨es, rfl, hs, hrest⟩ hturn
      obtain ⟨hend, rfl, rfl⟩ := fieldsTurn_stop.mp hturn
      have hnil : u.rest = [] := not_not.mp (mt remaining_pos.mpr hend)
      rw [hnil, List.append_nil] at hrest
      exact ⟨es, rfl, hrest, hs⟩
  · rintro ⟨es, rfl, hrest, rfl⟩
    have hcount := length_le_flatMap hne es
    have hlen := congrArg List.length hrest
    rw [length_rest] at hlen
    exact loop_fieldsTurn h hne es (by rw [id_eq]; omega) [] hrest

end Fields

end LumaBroker.Protocol
