import LumaBroker.Protocol.Publish
import Mathlib.Data.List.Induction

/-!
Round trips of PUBLISH: the encoders write the fields the decoder describes, behind the
shortest length the fixed header can carry. An acknowledgment is read back by its header
and its packet identifier.
-/

namespace LumaBroker.Protocol

open Faulting SliceReader

/-- The body of a PUBLISH from its fields. -/
def publishWire (topic : GoString) (qos : UInt8) (packetID : UInt16) (props payload : List UInt8) :
    List UInt8 :=
  stringField topic ++ (idField qos packetID ++ (props ++ payload))

theorem length_publishWire (topic : GoString) (qos : UInt8) (packetID : UInt16)
    (props payload : List UInt8) :
    (publishWire topic qos packetID props payload).length =
      2 + topic.length + (if qos > 0 then 2 else 0) + props.length + payload.length := by
  rw [publishWire, List.length_append, List.length_append, List.length_append, length_stringField,
    length_idField]
  omega

/-- The fixed header of a PUBLISH, as the encoder writes it and as it is read. -/
def publishHeader (qos : UInt8) (retain dup : Bool) (length : Nat) : FixedHeader :=
  ⟨.publish, publishFlags qos retain dup &&& 0x0F, length⟩

/-- The encoder counts the whole topic and writes what appendString keeps of it, and it
panics on a length of more than four digits. -/
theorem encodePublishWith_eq (props : List UInt8) (topic : GoString) (payload : List UInt8)
    (qos : UInt8) (retain : Bool) (packetID : UInt16) (dup : Bool) :
    let remaining := (publishWire topic qos packetID props payload).length
    encodePublishWith props topic payload qos retain packetID dup =
      if remaining ≤ maxRemainingLength then
        some (publishFlags qos retain dup ::
          (Varint.encode remaining ++ publishWire (topic.take maxTopicLen) qos packetID
            props payload))
      else none := by
  intro remaining
  have hroom : remaining < 128 ^ 4 ∧ 0 < 4 ↔ remaining ≤ maxRemainingLength :=
    ⟨fun h => Nat.le_of_lt_succ h.1, fun h => ⟨Nat.lt_succ_of_le h, by decide⟩⟩
  rw [encodePublishWith, ← length_publishWire topic qos packetID, encodeVarInt_eq]
  by_cases hsize : remaining ≤ maxRemainingLength
  · rw [if_pos (hroom.mpr hsize), if_pos hsize, Option.map_some]
    simp only [appendString_eq, appendUint16_eq, publishWire, idField]
    split <;> simp [remaining, publishWire, idField, *]
  · rw [if_neg (fun h => hsize (hroom.mp h)), if_neg hsize]
    rfl

theorem encodePublishWith_of_le {topic : GoString} {qos : UInt8} {packetID : UInt16}
    {props payload : List UInt8} (retain dup : Bool) (hlen : topic.length ≤ maxTopicLen)
    (hsize : (publishWire topic qos packetID props payload).length ≤ maxRemainingLength) :
    encodePublishWith props topic payload qos retain packetID dup =
      some (publishFlags qos retain dup ::
        (Varint.encode (publishWire topic qos packetID props payload).length ++
          publishWire topic qos packetID props payload)) := by
  rw [encodePublishWith_eq, if_pos hsize, List.take_of_length_le hlen]

theorem readFixed_encode {n : Nat} (qos : UInt8) (retain dup : Bool) (body : List UInt8)
    (hsize : n ≤ maxRemainingLength) :
    readFixed (publishFlags qos retain dup :: (Varint.encode n ++ body)) =
      .ok (publishHeader qos retain dup n) body := by
  refine readFixed_eq_ok.mpr ⟨_, _, Varint.delimited_encode _, ?_, rfl, ?_⟩
  · exact length_encode_le_four hsize
  · rw [publishHeader, Varint.value_encode, (publishFlags_parts qos retain dup 0).1]

theorem and_3_of_le {q : UInt8} (h : q ≤ 2) : q &&& 3 = q := by
  apply UInt8.toNat_inj.mp
  have hq : q.toNat ≤ 2 := UInt8.le_iff_toNat_le.mp h
  rw [UInt8.toNat_and]
  exact (Nat.and_two_pow_sub_one_eq_mod q.toNat 2).trans (Nat.mod_eq_of_lt (by omega))

theorem publishHeader_parts {qos : UInt8} (retain dup : Bool) (length : Nat) (hqos : qos ≤ 2) :
    (publishHeader qos retain dup length).dup = dup ∧
      (publishHeader qos retain dup length).qos = qos ∧
      (publishHeader qos retain dup length).retain = retain := by
  have hparts := (publishFlags_parts qos retain dup length).2
  rw [and_3_of_le hqos] at hparts
  exact hparts

theorem length_le_of_valid {topic : GoString} (h : validTopicName topic = true) :
    topic.length ≤ maxTopicLen := by
  rw [validTopicName] at h
  split at h
  · cases h
  · omega

theorem sentID_ne_zero {qos : UInt8} {packetID : UInt16} (h : qos > 0 → packetID ≠ 0) :
    (if qos > 0 then packetID else 0) ≠ 0 ↔ qos > 0 := by
  split
  · next hqos => exact ⟨fun _ => hqos, fun _ => h hqos⟩
  · next hqos => exact ⟨fun h0 => absurd rfl h0, fun h0 => absurd h0 hqos⟩

theorem idField_sentID (qos : UInt8) (packetID : UInt16) :
    idField qos (if qos > 0 then packetID else 0) = idField qos packetID := by
  simp only [idField]
  split <;> rfl

theorem decodePublish_wire {version : UInt8} {topic : GoString} {qos : UInt8} {packetID : UInt16}
    {props payload : List UInt8} {expiry : UInt32} {topicAlias : UInt16}
    (retain dup : Bool) (now : Nat) (hqos : qos ≤ 2) (hdup : qos = 0 → dup = false)
    (hid : qos > 0 → packetID ≠ 0) (hlen : topic.length ≤ maxTopicLen)
    (hvalid : version ≠ v50 ∨ topic ≠ [] → validTopicName topic = true)
    (hprops : ∀ u, u.rest = props ++ payload →
      publishProps version topic u = .ok (expiry, topicAlias) (u.advance props.length)) :
    let body := publishWire topic qos packetID props payload
    ∃ t, decodePublish version now (publishHeader qos retain dup body.length) body =
      .ok ⟨dup, qos, retain, topic, if qos > 0 then packetID
        else 0, payload, expiry, topicAlias, now⟩ t := by
  intro body
  obtain ⟨hd, hq, hr⟩ := publishHeader_parts retain dup body.length hqos
  let r := newSliceReader body
  let u := r.advance (2 + topic.length + (idField qos packetID).length)
  have hbody : r.rest = stringField topic ++ idField qos packetID ++ (props ++ payload) :=
    (List.append_assoc _ _ _).symm
  have hu : u.rest = props ++ payload := by
    have hrest := rest_advance hbody
    rw [List.length_append, length_stringField] at hrest
    exact hrest
  refine ⟨_, publishBody_eq_ok.mpr ⟨by rw [hq]; exact hqos, by rw [hq, hd]; exact hdup, topic,
    if qos > 0 then packetID
    else 0, u, expiry, topicAlias, u.advance props.length, hlen, hvalid, ?_, ?_,
    ?_, hprops u hu, ?_, rfl⟩⟩
  · rw [hq]
    exact sentID_ne_zero hid
  · rw [hq, idField_sentID]
  · rw [hq, idField_sentID, hu]
    rfl
  · rw [hd, hq, hr, rest_advance hu]

theorem decode_encodePublish {topic : GoString} {payload : List UInt8} {qos : UInt8}
    {packetID : UInt16} {dup : Bool} (retain : Bool) (now : Nat)
    (htopic : validTopicName topic = true) (hqos : qos ≤ 2) (hid : qos > 0 → packetID ≠ 0)
    (hdup : qos = 0 → dup = false)
    (hsize : 2 + topic.length + (if qos > 0 then 2 else 0) + payload.length ≤ maxRemainingLength) :
    ∃ out fh body t, encodePublish topic payload qos retain packetID dup = some out ∧
      readFixed out = .ok fh body ∧ fh.type = .publish ∧ fh.remainingLength = body.length ∧
      decodePublish v311 now fh body =
        .ok ⟨dup, qos, retain, topic, if qos > 0 then packetID else 0, payload, 0, 0, now⟩ t := by
  have hwire : (publishWire topic qos packetID [] payload).length ≤ maxRemainingLength := by
    rw [length_publishWire]
    exact hsize
  have hlen := length_le_of_valid htopic
  have hprops (u : SliceReader) (_ : u.rest = [] ++ payload) :
      publishProps v311 topic u = .ok (0, 0) (u.advance ([] : List UInt8).length) := rfl
  obtain ⟨t, ht⟩ := decodePublish_wire retain dup now hqos hdup hid hlen (fun _ => htopic) hprops
  exact ⟨_, _, _, t, encodePublishWith_of_le retain dup hlen hwire,
    readFixed_encode qos retain dup _ hwire, rfl, rfl, ht⟩

theorem publishFlags_of_header {fh : FixedHeader} (h : fh.flags < 16) :
    publishFlags fh.qos fh.retain fh.dup = 0x30 ||| fh.flags := by
  have hflags : ∀ n < 16, ∀ fh ∈ [FixedHeader.mk .publish (UInt8.ofNat n) 0],
      publishFlags fh.qos fh.retain fh.dup = 0x30 ||| fh.flags := by
    decide
  have hfh := hflags fh.flags.toNat (UInt8.lt_iff_toNat_lt.mp h) _ (List.mem_singleton_self _)
  rw [UInt8.ofNat_toNat] at hfh
  exact hfh

theorem encode_decodePublish {now : Nat} {fh : FixedHeader} {body : List UInt8}
    {pkt : PublishPacket} {t : SliceReader} (h : decodePublish v311 now fh body = .ok pkt t)
    (hsize : body.length ≤ maxRemainingLength) (hflags : fh.flags < 16) :
    encodePublish pkt.topic pkt.payload pkt.qos pkt.retain pkt.packetID pkt.dup =
      some ((0x30 ||| fh.flags) :: (Varint.encode body.length ++ body)) := by
  obtain ⟨-, -, topic, packetID, u, expiry, topicAlias, w, hlen, -, -, -, hbody, hprops, rfl, -⟩ :=
    publishBody_eq_ok.mp h
  cases hprops
  have hwire : body = publishWire topic fh.qos packetID [] u.rest := hbody
  rw [encodePublish, encodePublishWith_of_le fh.retain fh.dup hlen (by rw [← hwire]; exact hsize),
    ← hwire, publishFlags_of_header hflags]

/-- The v3.1.1 PUBLISH codec goes both ways. What is encoded is read back with nothing left
over, with the packet identifier that QoS 0 does not send taken as zero; and what was
decoded is encoded to the same bytes behind the shortest length. -/
theorem publish_codec_v311 :
    (∀ topic payload qos retain packetID dup now, validTopicName topic = true → qos ≤ 2 →
      (qos > 0 → packetID ≠ 0) → (qos = 0 → dup = false) →
      2 + topic.length + (if qos > 0 then 2 else 0) + payload.length ≤ maxRemainingLength →
      ∃ out fh body t, encodePublish topic payload qos retain packetID dup = some out ∧
        readFixed out = .ok fh body ∧ fh.type = .publish ∧ fh.remainingLength = body.length ∧
        decodePublish v311 now fh body =
          .ok ⟨dup, qos, retain, topic, if qos > 0 then packetID else 0, payload, 0, 0, now⟩ t) ∧
    ∀ now fh body pkt t, decodePublish v311 now fh body = .ok pkt t →
      body.length ≤ maxRemainingLength → fh.flags < 16 →
      ∃ len, encodePublish pkt.topic pkt.payload pkt.qos pkt.retain pkt.packetID pkt.dup =
          some ((0x30 ||| fh.flags) :: (len ++ body)) ∧
        Varint.Delimited len ∧ Varint.value len = body.length ∧
        ∀ len', Varint.Delimited len' → Varint.value len' = body.length →
          len.length ≤ len'.length := by
  constructor
  · intro topic payload qos retain packetID dup now htopic hqos hid hdup hsize
    exact decode_encodePublish retain now htopic hqos hid hdup hsize
  · intro now fh body pkt t h hsize hflags
    refine ⟨Varint.encode body.length, encode_decodePublish h hsize hflags,
      Varint.delimited_encode _, Varint.value_encode _, ?_⟩
    intro len' hdel hvalue
    rw [← hvalue]
    exact Varint.length_encode_value_le hdel

/-- A QoS 1 message goes out and comes back, and its body is encoded again. -/
theorem publish_codec_v311_qos1 :
    (∃ out fh body t, encodePublish (str "a/b") [1, 2] 1 true 7 true = some out ∧
      readFixed out = .ok fh body ∧ fh.type = .publish ∧ fh.remainingLength = body.length ∧
      decodePublish v311 5 fh body = .ok ⟨true, 1, true, str "a/b", 7, [1, 2], 0, 0, 5⟩ t) ∧
    ∃ len, encodePublish (str "a/b") [1, 2] 1 true 7 true =
        some ((0x30 ||| 0x0B) :: (len ++ [0, 3, 97, 47, 98, 0, 7, 1, 2])) ∧
      Varint.Delimited len ∧ Varint.value len = 9 ∧
      ∀ len', Varint.Delimited len' → Varint.value len' = 9 → len.length ≤ len'.length :=
  ⟨publish_codec_v311.1 (str "a/b") [1, 2] 1 true 7 true 5 (by decide) (by decide)
    (fun _ => by decide)
      (fun h => absurd h (by decide)) (by decide),
    publish_codec_v311.2 5 ⟨.publish, 0x0B, 9⟩ [0, 3, 97, 47, 98, 0, 7, 1, 2]
      ⟨true, 1, true, str "a/b", 7, [1, 2], 0, 0, 5⟩ ⟨[0, 3, 97, 47, 98, 0, 7, 1, 2], 9⟩ (by decide)
      (by decide) (by decide)⟩

/-- At QoS 0 the packet identifier 7 is not sent and comes back as zero; and flags beyond
the four bits of the header are decoded without them. -/
theorem publish_drops_id_and_high_flags :
    encodePublish (str "a") [1] 0 false 7 false = some [0x30, 4, 0, 1, 97, 1] ∧
    readFixed [0x30, 4, 0, 1, 97, 1] = .ok ⟨.publish, 0, 4⟩ [0, 1, 97, 1] ∧
    decodePublish v311 0 ⟨.publish, 0, 4⟩ [0, 1, 97, 1] =
      .ok ⟨false, 0, false, str "a", 0, [1], 0, 0, 0⟩ ⟨[0, 1, 97, 1], 4⟩ ∧
    decodePublish v311 0 ⟨.publish, 0x40, 4⟩ [0, 1, 97, 1] =
      .ok ⟨false, 0, false, str "a", 0, [1], 0, 0, 0⟩ ⟨[0, 1, 97, 1], 4⟩ ∧
    encodePublish (str "a") [1] 0 false 0 false = some [0x30, 4, 0, 1, 97, 1] ∧
    (0x30 ||| 0x40 : UInt8) ≠ 0x30 := by
  decide

/-- The properties of a PUBLISH the decoder knows. -/
inductive Property where
  | messageExpiry (seconds : UInt32)
  | topicAlias (n : UInt16)
  | sessionExpiry (seconds : UInt32)
  deriving DecidableEq

namespace Property

def wire : Property → UInt8 × List UInt8
  | messageExpiry n => (0x02, bytes32 n)
  | topicAlias n => (0x23, bytes16 n)
  | sessionExpiry n => (0x11, bytes32 n)

def expiry? : Property → Option UInt32
  | messageExpiry n => some n
  | _ => none

def sessionExpiry? : Property → Option UInt32
  | sessionExpiry n => some n
  | _ => none

def alias? : Property → Option UInt16
  | topicAlias n => some n
  | _ => none

/-- The last occurrence, and zero without one. -/
def lastExpiry (ps : List Property) : UInt32 := (ps.filterMap expiry?).getLast?.getD 0

def lastSessionExpiry? (ps : List Property) : Option UInt32 :=
  (ps.filterMap sessionExpiry?).getLast?

def lastAlias (ps : List Property) : UInt16 := (ps.filterMap alias?).getLast?.getD 0

def encodeProps (ps : List Property) : List UInt8 := propBytes (ps.map wire)

theorem known_map_wire (ps : List Property) : Known propSize (ps.map wire) := by
  intro p hp
  obtain ⟨q, -, rfl⟩ := List.mem_map.mp hp
  cases q <;> rfl

theorem setProps_append (props : Props) (ps : List (UInt8 × List UInt8)) (p : UInt8 × List UInt8) :
    setProps props (ps ++ [p]) = (setProps props ps).set p.1 p.2 := by
  simp [setProps]

theorem value32_set (props : Props) (id : UInt8) (n : UInt32) :
    value32 (props.set id (bytes32 n)) id = some n := by
  have hn := uint32_bytes32 n []
  rw [List.append_nil] at hn
  simp [value32, hn]

theorem value32_set_ne (props : Props) {id id' : UInt8} (v : List UInt8) (h : id ≠ id') :
    value32 (props.set id' v) id = value32 props id := by
  rw [value32, value32, FinMap.get_set_ne props v h]

theorem value16_set (props : Props) (id : UInt8) (n : UInt16) :
    value16 (props.set id (bytes16 n)) id = some n := by
  have hn := uint16_bytes16 n []
  rw [List.append_nil] at hn
  simp [value16, hn]

theorem value16_set_ne (props : Props) {id id' : UInt8} (v : List UInt8) (h : id ≠ id') :
    value16 (props.set id' v) id = value16 props id := by
  rw [value16, value16, FinMap.get_set_ne props v h]

/-- Of the properties with one identifier the last counts. -/
theorem read_setProps {γ : Type} (read : Props → Option γ) {value? : Property → Option γ}
    (hempty : read FinMap.empty = none)
    (hthis : ∀ (props : Props) p n, value? p = some n → read (props.set p.wire.1 p.wire.2) = some n)
    (hother : ∀ (props : Props) p, value? p = none →
      read (props.set p.wire.1 p.wire.2) = read props)
    (ps : List Property) :
    read (setProps FinMap.empty (ps.map wire)) = (ps.filterMap value?).getLast? := by
  induction ps using List.reverseRecOn with
  | nil => exact hempty
  | append_singleton ps p ih =>
      rw [List.map_append, List.map_singleton, setProps_append, List.filterMap_append]
      cases hp : value? p with
      | some n => simp [hthis _ p n hp, hp]
      | none => simp [hother _ p hp, hp, ih]

theorem value32_setProps (ps : List Property) :
    value32 (setProps FinMap.empty (ps.map wire)) 0x02 = (ps.filterMap expiry?).getLast? := by
  refine read_setProps (fun props => value32 props 0x02) rfl ?_ ?_ ps
  · rintro props (m | m | m) n ⟨⟩
    exact value32_set props 0x02 m
  · rintro props (m | m | m) ⟨⟩ <;> exact value32_set_ne props _ (by simp [wire])

theorem value32_setProps_sessionExpiry (ps : List Property) :
    value32 (setProps FinMap.empty (ps.map wire)) 0x11 = lastSessionExpiry? ps := by
  refine read_setProps (fun props => value32 props 0x11) rfl ?_ ?_ ps
  · rintro props (m | m | m) n ⟨⟩
    exact value32_set props 0x11 m
  · rintro props (m | m | m) ⟨⟩ <;> exact value32_set_ne props _ (by simp [wire])

theorem value16_setProps (ps : List Property) :
    value16 (setProps FinMap.empty (ps.map wire)) 0x23 = (ps.filterMap alias?).getLast? := by
  refine read_setProps (fun props => value16 props 0x23) rfl ?_ ?_ ps
  · rintro props (m | m | m) n ⟨⟩
    exact value16_set props 0x23 m
  · rintro props (m | m | m) ⟨⟩ <;> exact value16_set_ne props _ (by simp [wire])

theorem readProps_encodeProps {ps : List Property} {rest : List UInt8} {u : SliceReader}
    (hsize : (encodeProps ps).length ≤ maxRemainingLength)
    (hu : u.rest = Varint.encode (encodeProps ps).length ++ encodeProps ps ++ rest) :
    readProps u = .ok (setProps FinMap.empty (ps.map wire))
      (u.advance (Varint.encode (encodeProps ps).length ++ encodeProps ps).length) :=
  readPropsWith_encode hsize (known_map_wire ps) hu

theorem publishProps_encodeProps {topic : GoString} {ps : List Property} {payload : List UInt8}
    {u : SliceReader} (htopic : ¬ (topic = [] ∧ lastAlias ps = 0))
    (hsize : (encodeProps ps).length ≤ maxRemainingLength)
    (hu : u.rest = Varint.encode (encodeProps ps).length ++ encodeProps ps ++ payload) :
    publishProps v50 topic u = .ok (lastExpiry ps, lastAlias ps)
      (u.advance (Varint.encode (encodeProps ps).length ++ encodeProps ps).length) := by
  refine publishProps_v50.mpr ⟨_, readProps_encodeProps hsize hu, ?_, ?_, htopic⟩
  · rw [value32_setProps, lastExpiry]
  · rw [value16_setProps, lastAlias]

end Property

open Property

/-- A v5 PUBLISH comes back with the last occurrence of each property, and with the packet
identifier that QoS 0 does not send taken as zero. -/
theorem decode_encodePublishV5 (topic : GoString) (payload : List UInt8) (qos : UInt8)
    (retain : Bool) (packetID : UInt16) (dup : Bool) (ps : List Property) (now : Nat)
    (hqos : qos ≤ 2) (hid : qos > 0 → packetID ≠ 0) (hdup : qos = 0 → dup = false)
    (htopic : validTopicName topic = true ∨ topic = [] ∧ lastAlias ps ≠ 0)
    (hsize : 2 + topic.length + (if qos > 0 then 2 else 0) +
      ((Varint.encode (encodeProps ps).length).length + (encodeProps ps).length) + payload.length ≤
        maxRemainingLength) :
    ∃ out fh body t, encodePublishV5 topic payload qos retain packetID dup
      (encodeProps ps) = some out ∧
      readFixed out = .ok fh body ∧ fh.type = .publish ∧ fh.remainingLength = body.length ∧
      decodePublish v50 now fh body =
        .ok ⟨dup, qos, retain, topic, if qos > 0 then packetID else 0, payload, lastExpiry ps,
          lastAlias ps, now⟩ t := by
  have hprops : (encodeProps ps).length ≤ maxRemainingLength := by omega
  have hwire : (publishWire topic qos packetID
      (Varint.encode (encodeProps ps).length ++ encodeProps ps) payload).length ≤
        maxRemainingLength := by
    rw [length_publishWire, List.length_append]
    exact hsize
  have hlen : topic.length ≤ maxTopicLen := by
    rcases htopic with hvalid | ⟨rfl, -⟩
    · exact length_le_of_valid hvalid
    · exact Nat.zero_le _
  have hvalid : v50 ≠ v50 ∨ topic ≠ [] → validTopicName topic = true := by
    rintro (h | h)
    · exact absurd rfl h
    · exact htopic.resolve_right fun hempty => h hempty.1
  have halias : ¬ (topic = [] ∧ lastAlias ps = 0) := by
    rintro ⟨rfl, hzero⟩
    rcases htopic with hvalid | ⟨-, hne⟩
    · cases hvalid
    · exact hne hzero
  obtain ⟨t, ht⟩ := decodePublish_wire retain dup now hqos hdup hid hlen hvalid
    (fun u hu => publishProps_encodeProps halias hprops hu)
  refine ⟨_, _, _, t, ?_, readFixed_encode qos retain dup _ hwire, rfl, rfl, ht⟩
  rw [encodePublishV5, encodeVarInt_of_le hprops, Option.bind_some,
    encodePublishWith_of_le retain dup hlen hwire]

/-- An empty topic with two aliases, of which the second counts. -/
theorem decode_encodePublishV5_alias :
    let ps := [topicAlias 3, messageExpiry 60, topicAlias 7]
    ∃ out fh body t, encodePublishV5 [] [1, 2] 1 false 9 true (encodeProps ps) = some out ∧
      readFixed out = .ok fh body ∧ fh.type = .publish ∧ fh.remainingLength = body.length ∧
      decodePublish v50 4 fh body = .ok ⟨true, 1, false, [], 9, [1, 2], 60, 7, 4⟩ t := by
  intro ps
  have hprops : (encodeProps ps).length = 11 := rfl
  have hlen : (Varint.encode 11).length ≤ 1 := Varint.length_encode_le (by decide)
  apply decode_encodePublishV5 [] [1, 2] 1 false 9 true ps 4 (by decide) (fun _ => by decide)
    (fun h => absurd h (by decide)) (.inr ⟨rfl, by decide⟩)
  rw [hprops, maxRemainingLength, if_pos (by decide), List.length_nil, List.length_cons,
    List.length_singleton]
  omega

/-- At QoS 0 the packet identifier 7 is not sent and comes back as zero. -/
theorem publishV5_drops_id :
    encodePublishV5 (str "a") [1] 0 false 7 false [] = some [0x30, 5, 0, 1, 97, 0, 1] ∧
    readFixed [0x30, 5, 0, 1, 97, 0, 1] = .ok ⟨.publish, 0, 5⟩ [0, 1, 97, 0, 1] ∧
    decodePublish v50 0 ⟨.publish, 0, 5⟩ [0, 1, 97, 0, 1] =
      .ok ⟨false, 0, false, str "a", 0, [1], 0, 0, 0⟩ ⟨[0, 1, 97, 0, 1], 5⟩ := by
  decide

theorem decodePacketID_bytes16 (packetID : UInt16) (rest : List UInt8) :
    decodePacketID (bytes16 packetID ++ rest) = .ok packetID () := by
  have hlen : ¬ (bytes16 packetID ++ rest).length < 2 := by
    rw [List.length_append, length_bytes16]
    omega
  have hid := uint16_bytes16 packetID []
  have hslice : slice (bytes16 packetID ++ rest) 0 2 = some (bytes16 packetID ++ []) :=
    slice_eq_some.mpr ⟨by omega, by omega, rfl⟩
  rw [decodePacketID, if_neg hlen, hslice]
  change Prog.orPanic (uint16 (bytes16 packetID ++ [])) () = _
  rw [hid]
  rfl

/-- The length of an acknowledgment is one digit. -/
theorem readFixed_ack (t : PacketType) {n : UInt8} (hn : n.toNat < 128) (body : List UInt8) :
    readFixed (ackFlags t :: n :: body) = .ok ⟨t, ackFlags t &&& 0x0F, n.toNat⟩ body := by
  have htype : PacketType.ofByte (ackFlags t >>> 4) = t := by
    cases t <;> rfl
  refine readFixed_eq_ok.mpr ⟨ackFlags t, [n], Varint.delimited_singleton hn, by simp, rfl, ?_⟩
  rw [htype, Varint.value, Nat.mod_eq_of_lt hn]
  rfl

theorem encodeAckV5_plain (t : PacketType) (packetID : UInt16) (reasonCode : UInt8) :
    encodeAckV5 t packetID reasonCode [] =
      some (ackFlags t :: 4 :: (bytes16 packetID ++ [reasonCode, 0])) := rfl

end LumaBroker.Protocol
