import LumaBroker.Protocol.Decode
import LumaBroker.Protocol.Props

/-!
The PUBLISH codec. What the decoder accepts is described field by field, and the encoder
writes the same fields, so that each direction of a round trip is a rewriting of one
description into the other.
-/

namespace LumaBroker.Protocol

open Faulting SliceReader

theorem readRemainingLength_cons (i mult val : Nat) (b : UInt8) (tail : List UInt8) :
    readRemainingLength (i + 1) mult val (b :: tail) =
      if b.toNat < 128 then .ok (val + b.toNat % 128 * mult) tail
      else if i = 0 then .error .invalidVarInt
      else readRemainingLength i (mult * 128) (val + b.toNat % 128 * mult) tail := by
  have hbyte : readByte.mapError (.wrap "remaining length") (b :: tail) = .ok b tail := rfl
  simp only [readRemainingLength, Prog.bind_ok hbyte, and_80_eq_zero b.toNat_lt, and_7F]
  split
  · rfl
  · split <;> rfl

/-- The header's length and the varints inside a body are read alike. -/
theorem readRemainingLength_eq_ok {i mult val n : Nat} {s rest : List UInt8} {r : SliceReader}
    (hr : r.rest = s) :
    readRemainingLength (i + 1) mult val s = .ok n rest ↔
      ∃ t, readVarIntFrom (i + 1) mult val r = .ok n t ∧ t.rest = rest := by
  induction s generalizing i mult val r with
  | nil =>
      rw [readVarIntFrom_nil hr]
      constructor
      · intro h
        cases h
      · rintro ⟨t, ht, -⟩
        cases ht
  | cons b tail ih =>
      have hnext := rest_advance_one hr
      rw [readRemainingLength_cons, readVarIntFrom_cons hr]
      by_cases hb : b.toNat < 128
      · rw [if_pos hb, if_pos hb]
        constructor
        · intro h
          cases h
          exact ⟨r.advance 1, rfl, hnext⟩
        · rintro ⟨t, ht, rfl⟩
          cases ht
          rw [hnext]
      · rw [if_neg hb, if_neg hb]
        cases i with
        | zero =>
            constructor
            · intro h
              cases h
            · rintro ⟨t, ht, -⟩
              cases ht
        | succ i => exact ih hnext

theorem readFixed_eq_ok {s rest : List UInt8} {fh : FixedHeader} :
    readFixed s = .ok fh rest ↔
      ∃ b len, Varint.Delimited len ∧ len.length ≤ 4 ∧ s = b :: (len ++ rest) ∧
        fh = ⟨PacketType.ofByte (b >>> 4), b &&& 0x0F, Varint.value len⟩ := by
  cases s with
  | nil =>
      constructor
      · intro h
        cases h
      · rintro ⟨b, len, -, -, hs, -⟩
        cases hs
  | cons b tail =>
      let r := newSliceReader tail
      have hr : r.rest = tail := rfl
      have hbyte : readByte (b :: tail) = .ok b tail := rfl
      rw [readFixed, Prog.bind_ok hbyte, Prog.bind_eq_ok]
      constructor
      · rintro ⟨n, u, hlen, hfh⟩
        cases hfh
        obtain ⟨t, ht, hrest⟩ := (readRemainingLength_eq_ok hr).mp hlen
        obtain ⟨len, hdel, hfour, rfl, -, htail⟩ := readVarIntFrom_eq_ok.mp ht
        refine ⟨b, len, hdel, hfour, ?_, ?_⟩
        · rw [← hrest, ← htail]
          rfl
        · rw [Nat.zero_add, Nat.mul_one]
      · rintro ⟨b', len, hdel, hfour, hs, rfl⟩
        obtain ⟨rfl, rfl⟩ := List.cons.inj hs
        refine ⟨Varint.value len, rest, ?_, rfl⟩
        refine (readRemainingLength_eq_ok hr).mpr ⟨r.advance len.length, ?_, rest_advance rfl⟩
        refine readVarIntFrom_eq_ok.mpr ⟨len, hdel, hfour, by omega, rfl, ?_⟩
        rw [@rest_advance r len rest rfl, hr]

theorem and_3_cases (q : UInt8) : q &&& 3 = 0 ∨ q &&& 3 = 1 ∨ q &&& 3 = 2 ∨ q &&& 3 = 3 := by
  have hlt : (q &&& 3).toNat < 4 := by
    rw [UInt8.toNat_and]
    exact Nat.lt_of_le_of_lt Nat.and_le_right (by decide)
  simp only [← UInt8.toNat_inj]
  change _ = 0 ∨ _ = 1 ∨ _ = 2 ∨ _ = 3
  omega

theorem publishFlags_and (qos : UInt8) (retain dup : Bool) :
    publishFlags (qos &&& 3) retain dup = publishFlags qos retain dup := by
  have hand : qos &&& 3 &&& 3 = qos &&& 3 := UInt8.and_assoc qos 3 3
  simp only [publishFlags, hand]

theorem publishFlags_parts (qos : UInt8) (retain dup : Bool) (n : Nat) :
    PacketType.ofByte (publishFlags qos retain dup >>> 4) = .publish ∧
      FixedHeader.dup ⟨.publish, publishFlags qos retain dup &&& 0x0F, n⟩ = dup ∧
      FixedHeader.qos ⟨.publish, publishFlags qos retain dup &&& 0x0F, n⟩ = qos &&& 3 ∧
      FixedHeader.retain ⟨.publish, publishFlags qos retain dup &&& 0x0F, n⟩ = retain := by
  have hparts (q : UInt8) (hq : q = 0 ∨ q = 1 ∨ q = 2 ∨ q = 3) :
      PacketType.ofByte (publishFlags q retain dup >>> 4) = .publish ∧
        FixedHeader.dup ⟨.publish, publishFlags q retain dup &&& 0x0F, 0⟩ = dup ∧
        FixedHeader.qos ⟨.publish, publishFlags q retain dup &&& 0x0F, 0⟩ = q ∧
        FixedHeader.retain ⟨.publish, publishFlags q retain dup &&& 0x0F, 0⟩ = retain := by
    rcases hq with rfl | rfl | rfl | rfl <;> cases retain <;> cases dup <;> decide
  rw [← publishFlags_and]
  exact hparts (qos &&& 3) (and_3_cases qos)

theorem publishID_eq_ok {qos : UInt8} {packetID : UInt16} {r t : SliceReader} :
    publishID qos r = .ok packetID t ↔
      (packetID ≠ 0 ↔ qos > 0) ∧ t = r.advance (idField qos packetID).length ∧
        r.rest = idField qos packetID ++ t.rest := by
  by_cases hqos : qos > 0
  · simp only [publishID, hqos, if_true, Prog.bind_eq_ok, readUint16_eq_ok, idField, iff_true,
      length_bytes16]
    constructor
    · rintro ⟨v, u, ⟨rfl, hrest⟩, hv⟩
      split at hv
      · cases hv
      · next hzero =>
          cases hv
          exact ⟨hzero, rfl, hrest⟩
    · rintro ⟨hzero, rfl, hrest⟩
      refine ⟨packetID, _, ⟨rfl, hrest⟩, ?_⟩
      rw [if_neg hzero]
      rfl
  · simp only [publishID, hqos, if_false, idField, iff_false, ne_eq, not_not, List.length_nil,
      List.nil_append]
    constructor
    · intro h
      cases h
      exact ⟨rfl, rfl, rfl⟩
    · rintro ⟨rfl, rfl, -⟩
      rfl

/-- What an accepted PUBLISH is, field by field, with the reader u behind the packet
identifier and w behind the properties. -/
theorem publishBody_eq_ok {version : UInt8} {now : Nat} {fh : FixedHeader} {r t : SliceReader}
    {pkt : PublishPacket} :
    publishBody version now fh r = .ok pkt t ↔
      fh.qos ≤ 2 ∧ (fh.qos = 0 → fh.dup = false) ∧
      ∃ topic packetID u expiry topicAlias w,
        topic.length ≤ maxTopicLen ∧ (version ≠ v50 ∨ topic ≠ [] → validTopicName topic = true) ∧
        (packetID ≠ 0 ↔ fh.qos > 0) ∧
        u = r.advance (2 + topic.length + (idField fh.qos packetID).length) ∧
        r.rest = stringField topic ++ (idField fh.qos packetID ++ u.rest) ∧
        publishProps version topic u = .ok (expiry, topicAlias) w ∧
        pkt = ⟨fh.dup, fh.qos, fh.retain, topic, packetID, w.rest, expiry, topicAlias, now⟩ ∧
        t = w.advance w.rest.length := by
  rw [publishBody, Prog.ite_fail_eq_ok, Prog.ite_fail_eq_ok, Prog.bind_eq_ok]
  constructor
  · rintro ⟨hqos, hdup, topic, v, htopic, hrest⟩
    obtain ⟨hlen, rfl, hfield⟩ := readString_eq_ok.mp (Prog.mapError_eq_ok.mp htopic)
    obtain ⟨hvalid, hrest⟩ := Prog.ite_fail_eq_ok.mp hrest
    obtain ⟨packetID, u, hid, hrest⟩ := Prog.bind_eq_ok.mp hrest
    obtain ⟨hzero, rfl, hidrest⟩ := publishID_eq_ok.mp hid
    obtain ⟨⟨expiry, topicAlias⟩, w, hprops, hrest⟩ := Prog.bind_eq_ok.mp hrest
    simp only [Prog.bind_ok (publishPayload_eq w)] at hrest
    cases hrest
    refine ⟨UInt8.not_lt.mp hqos, ?_, topic, packetID, _, expiry, topicAlias, w, hlen,
      ?_, hzero, ?_, ?_, hprops, rfl, rfl⟩
    · intro h0
      exact Bool.eq_false_iff.mpr fun hd => hdup ⟨h0, hd⟩
    · intro hneed
      by_contra hnot
      exact hvalid ⟨hneed, by simpa using hnot⟩
    · rw [advance_advance]
    · rw [hfield, hidrest]
  · rintro ⟨hqos, hdup, topic, packetID, u, expiry, topicAlias, w, hlen, hvalid, hzero, rfl, hfield,
      hprops, rfl, rfl⟩
    rw [← advance_advance] at hfield hprops
    have hafter := rest_advance hfield
    rw [length_stringField] at hafter
    refine ⟨UInt8.not_lt.mpr hqos, ?_, topic, r.advance (2 + topic.length), ?_, ?_⟩
    · rintro ⟨h0, hd⟩
      cases (hdup h0).symm.trans hd
    · exact Prog.mapError_eq_ok.mpr (readString_eq_ok.mpr ⟨hlen, rfl, by rw [hfield, hafter]⟩)
    · refine Prog.ite_fail_eq_ok.mpr ⟨?_, ?_⟩
      · rintro ⟨hneed, hnot⟩
        simp [hvalid hneed] at hnot
      · rw [Prog.bind_ok (publishID_eq_ok.mpr ⟨hzero, rfl, hafter⟩), Prog.bind_ok hprops]
        exact Prog.bind_ok (publishPayload_eq w) _

/-- The bytes behind the topic and the packet identifier. -/
def propsAt (fh : FixedHeader) (body : List UInt8) : List UInt8 :=
  body.drop (2 + ((uint16 body).getD 0).toNat + if fh.qos > 0 then 2 else 0)

theorem length_idField (qos : UInt8) (packetID : UInt16) :
    (idField qos packetID).length = if qos > 0 then 2 else 0 := by
  rw [idField]
  split <;> rfl

theorem propsAt_eq {fh : FixedHeader} {body tail : List UInt8} {topic : GoString}
    {packetID : UInt16} (hlen : topic.length ≤ maxTopicLen)
    (hbody : body = stringField topic ++ (idField fh.qos packetID ++ tail)) :
    propsAt fh body = tail := by
  let v := UInt16.ofNat topic.length
  have hv : topic.length = v.toNat := by
    rw [UInt16.toNat_ofNat']
    rw [maxTopicLen] at hlen
    omega
  have hhead : uint16 body = some v := by
    rw [hbody, stringField_eq hv, List.append_assoc, uint16_bytes16]
  rw [propsAt, hhead, Option.getD_some, ← hv, ← length_idField fh.qos packetID,
    ← length_stringField, ← List.length_append, hbody, ← List.append_assoc, List.drop_left]

/-- The body is the topic, the packet identifier, a property length, so many bytes, and the
payload. -/
def Concatenated (pkt : PublishPacket) (body : List UInt8) : Prop :=
  ∃ len props, Varint.Delimited len ∧ len.length ≤ 4 ∧ props.length = Varint.value len ∧
    body = stringField pkt.topic ++
      (idField pkt.qos pkt.packetID ++ (len ++ (props ++ pkt.payload)))

theorem publishProps_v50 {topic : GoString} {r t : SliceReader} {expiry : UInt32}
    {topicAlias : UInt16} :
    publishProps v50 topic r = .ok (expiry, topicAlias) t ↔
      ∃ props, readProps r = .ok props t ∧ expiry = (value32 props 0x02).getD 0 ∧
        topicAlias = (value16 props 0x23).getD 0 ∧ ¬ (topic = [] ∧ topicAlias = 0) := by
  rw [publishProps, if_pos rfl, Prog.bind_eq_ok]
  constructor
  · rintro ⟨props, u, hprops, hrest⟩
    simp only [Prog.bind_ok (propUint32_eq props 0x02 u), Prog.bind_ok (propUint16_eq props 0x23 u)]
      at hrest
    split at hrest
    · cases hrest
    · next hbad =>
        cases hrest
        exact ⟨props, hprops, rfl, rfl, hbad⟩
  · rintro ⟨props, hprops, rfl, rfl, hgood⟩
    refine ⟨props, t, hprops, ?_⟩
    simp only [Prog.bind_ok (propUint32_eq props 0x02 t), Prog.bind_ok (propUint16_eq props 0x23 t),
      if_neg hgood]
    rfl

theorem concatenated_iff {now : Nat} {fh : FixedHeader} {body : List UInt8} {pkt : PublishPacket}
    {t : SliceReader} (h : decodePublish v50 now fh body = .ok pkt t) :
    Concatenated pkt body ↔ PropsFit propSize (propsAt fh body) := by
  obtain ⟨-, -, topic, packetID, u, expiry, topicAlias, w, hlen, -, -, -, hbody, hprops, rfl, -⟩ :=
    publishBody_eq_ok.mp h
  change body = _ at hbody
  obtain ⟨props, hread, -⟩ := publishProps_v50.mp hprops
  obtain ⟨hdata, len', rest', hdel', hfour, hrest', hend⟩ := readPropsWith_end hread
  rw [propsAt_eq hlen hbody]
  constructor
  · rintro ⟨len, block, hdel, -, hblock, hcat⟩
    have hrest : u.rest = len ++ (block ++ w.rest) :=
      List.append_cancel_left (List.append_cancel_left (hbody.symm.trans hcat))
    obtain ⟨rfl, -⟩ := Varint.delimited_append_inj hdel hdel' (hrest.symm.trans hrest')
    refine propsFit_of_end hread hdel hrest ?_ (by rw [List.length_append]; omega)
    rcases hend with hinside | hdeclared
    · have htotal := congrArg List.length hrest
      have hone : 0 < len.length := List.length_pos_of_ne_nil (by rintro rfl; exact hdel)
      rw [List.length_append, List.length_append, length_rest, length_rest, hdata, hblock] at htotal
      rw [hdata] at hinside
      omega
    · exact hdeclared
  · intro hfit
    obtain ⟨len, rest, hdel, hrest, rfl, hpos, -⟩ := (exact_iff_propsFit hread).mpr hfit
    obtain ⟨rfl, -⟩ := Varint.delimited_append_inj hdel hdel' (hrest.symm.trans hrest')
    have htotal := congrArg List.length (rest_advance hrest)
    rw [length_rest, data_advance, pos_advance] at htotal
    rw [pos_advance, data_advance] at hpos
    refine ⟨len, rest.take (Varint.value len), hdel, hfour, List.length_take_of_le (by omega), ?_⟩
    rw [← advance_advance, drop_rest, rest_advance hrest, List.take_append_drop, ← hrest]
    exact hbody

/-- A property block is consumed exactly, and a v5 PUBLISH is the concatenation of its
fields, just when the declared length stays inside the data and every known property up
to the first unknown one stays inside the declared length. -/
theorem props_consumed_exactly_iff (r t u : SliceReader) (props : Props) (now : Nat)
    (fh : FixedHeader) (body : List UInt8) (pkt : PublishPacket) :
    (readProps r = .ok props t → (Exact r props t ↔ PropsFit propSize r.rest)) ∧
    (readConnectProps r = .ok props t → (Exact r props t ↔ PropsFit connectPropSize r.rest)) ∧
    (decodePublish v50 now fh body = .ok pkt u →
      (Concatenated pkt body ↔ PropsFit propSize (propsAt fh body))) :=
  ⟨exact_iff_propsFit, exact_iff_propsFit, concatenated_iff⟩

/-- A declared length of five holds a topic alias and an unknown property; the payload is
the two bytes behind it. -/
theorem props_consumed_exactly_alias :
    let body := stringField (str "a") ++ [5, 0x23, 0, 7, 0x26, 0, 1, 2]
    let pkt : PublishPacket := ⟨false, 0, false, str "a", 0, [1, 2], 0, 7, 0⟩
    decodePublish v50 0 ⟨.publish, 0, 11⟩ body = .ok pkt ⟨body, 11⟩ ∧ Concatenated pkt body ∧
      Exact ⟨body, 3⟩ (FinMap.empty.set 0x23 [0, 7]) ⟨body, 9⟩ := by
  intro body pkt
  have hdecode : decodePublish v50 0 ⟨.publish, 0, 11⟩ body = .ok pkt ⟨body, 11⟩ := by decide
  have hfit : PropsFit propSize [5, 0x23, 0, 7, 0x26, 0, 1, 2] := by
    refine ⟨[5], [0x23, 0, 7, 0x26, 0, 1, 2], Varint.delimited_singleton (by decide),
      rfl, by decide, [(0x23, [0, 7])], [0x26, 0], rfl, ?_, ?_⟩
    · simp [Known, propSize]
    · simp [propSize]
  have hat : propsAt ⟨.publish, 0, 11⟩ body = [5, 0x23, 0, 7, 0x26, 0, 1, 2] := by decide
  obtain ⟨hprops, -, hpublish⟩ := props_consumed_exactly_iff ⟨body, 3⟩ ⟨body, 9⟩ ⟨body, 11⟩
    (FinMap.empty.set 0x23 [0, 7]) 0 ⟨.publish, 0, 11⟩ body pkt
  exact ⟨hdecode, (hpublish hdecode).mpr (hat ▸ hfit), (hprops (by decide)).mpr hfit⟩

/-- A message expiry that begins inside the declared length and ends behind it takes two
bytes of the payload; a receive maximum does the same in CONNECT; and behind an unknown
property the reader stands past the end of the data. -/
theorem props_overrun :
    let body := stringField (str "a") ++ [3, 0x02, 0, 0, 1, 2, 9]
    let pkt : PublishPacket := ⟨false, 0, false, str "a", 0, [9], 0x0102, 0, 0⟩
    let connect : SliceReader := ⟨[2, 0x21, 0, 9], 0⟩
    let unknown : SliceReader := ⟨[9, 0x26], 0⟩
    (decodePublish v50 0 ⟨.publish, 0, 10⟩ body = .ok pkt ⟨body, 10⟩ ∧ ¬ Concatenated pkt body) ∧
    (readConnectProps connect = .ok (FinMap.empty.set 0x21 [0, 9]) (connect.advance 4) ∧
      ¬ Exact connect (FinMap.empty.set 0x21 [0, 9]) (connect.advance 4)) ∧
    readProps unknown = .ok FinMap.empty (unknown.advance 10) ∧
      ¬ Exact unknown FinMap.empty (unknown.advance 10) := by
  intro body pkt connect unknown
  refine ⟨⟨by decide, ?_⟩, ⟨by decide, ?_⟩, ⟨by decide, ?_⟩⟩
  · rintro ⟨len, props, hdel, -, hlen, hbody⟩
    have hrest : [3] ++ [0x02, 0, 0, 1, 2, 9] = len ++ (props ++ [9]) :=
      List.append_cancel_left hbody
    obtain ⟨rfl, hprops⟩ := Varint.delimited_append_inj
      (Varint.delimited_singleton (by decide)) hdel hrest
    have hcount := congrArg List.length hprops
    rw [List.length_append, hlen] at hcount
    cases hcount
  · rintro ⟨len, rest, hdel, hrest, hend, -⟩
    obtain ⟨rfl, -⟩ := Varint.delimited_append_inj
      (Varint.delimited_singleton (by decide)) hdel (hrest : [2] ++ [0x21, 0, 9] = len ++ rest)
    cases hend
  · rintro ⟨len, rest, hdel, hrest, hend, hinside, -⟩
    exact absurd hinside (by decide)

end LumaBroker.Protocol
