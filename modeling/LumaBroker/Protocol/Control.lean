import LumaBroker.Protocol.Codec
import LumaBroker.Protocol.Reads

/-!
The control packets that the broker encodes: CONNACK, the acknowledgments of PUBLISH, SUBACK,
UNSUBACK and DISCONNECT of internal/protocol/packet.go. Each encoder adds up its remaining
length by hand, from the fields and, on v5, from a property section that begins with a length
of its own; a wrong sum would make the peer read the next packet from the middle of this one.
-/

namespace LumaBroker.Protocol

open Faulting SliceReader

def connAccepted : UInt8 := 0x00

structure ConnackMQTT5Options where
  topicAliasMax : UInt16
  receiveMaximum : UInt16
  maximumQoS : UInt8
  maxPacketSize : UInt32
  retainAvailable : Bool
  wildcardSubscriptionAvailable : Bool
  subscriptionIDAvailable : Bool
  sharedSubscriptionAvailable : Bool

/-- The properties that EncodeConnackV5 writes for a success, in their order. -/
def connackProps (opts : ConnackMQTT5Options) : List (UInt8 × List UInt8) :=
  (if opts.receiveMaximum > 0 then [(0x21, bytes16 opts.receiveMaximum)] else []) ++
    (if opts.maximumQoS < 2 then [(0x24, [opts.maximumQoS &&& 0x03])] else []) ++
    (if opts.maxPacketSize > 0 then [(0x27, bytes32 opts.maxPacketSize)] else []) ++
    (if opts.topicAliasMax > 0 then [(0x22, bytes16 opts.topicAliasMax)] else []) ++
    [(0x25, [if opts.retainAvailable then 1 else 0]),
      (0x28, [if opts.wildcardSubscriptionAvailable then 1 else 0]),
      (0x29, [if opts.subscriptionIDAvailable then 1 else 0]),
      (0x2A, [if opts.sharedSubscriptionAvailable then 1 else 0])]

/-- EncodeConnackV5: a refusal has neither properties nor a session. -/
def encodeConnackV5 (sessionPresent : Bool) (reasonCode : UInt8) (opts : ConnackMQTT5Options) :
    Option (List UInt8) :=
  let flags : UInt8 := if reasonCode = connAccepted ∧ sessionPresent then 0x01 else 0
  let props := if reasonCode = connAccepted then propBytes (connackProps opts) else []
  (encodeVarInt 4 props.length).bind fun propLenEnc =>
    let rem := 2 + propLenEnc.length + props.length
    (encodeVarInt 4 rem).map fun remEnc =>
      [PacketType.connack.code <<< 4] ++ remEnc ++ [flags, reasonCode] ++ propLenEnc ++ props

def encodeDisconnectV5 (reasonCode : UInt8) (props : List UInt8) : Option (List UInt8) :=
  (encodeVarInt 4 props.length).bind fun propLenEnc =>
    let rem := 1 + propLenEnc.length + props.length
    (encodeVarInt 4 rem).map fun remEnc =>
      [PacketType.disconnect.code <<< 4] ++ remEnc ++ [reasonCode] ++ propLenEnc ++ props

/-- A first byte, the length of the body, and the body. -/
def packet (first : UInt8) (body : List UInt8) : List UInt8 :=
  first :: (Varint.encode body.length ++ body)

/-- ReadFixed finds the type, the flags and the length of the body, and stops before the body,
whatever comes behind the packet. -/
def Frames (out : List UInt8) (t : PacketType) (flags : UInt8) (body : List UInt8) : Prop :=
  ∀ rest, readFixed (out ++ rest) = .ok ⟨t, flags, body.length⟩ (body ++ rest)

/-- A body that fits into the remaining length goes out as one packet. -/
def Sends (encoded : Option (List UInt8)) (t : PacketType) (flags : UInt8)
    (body : List UInt8) : Prop :=
  body.length ≤ maxRemainingLength → ∃ out, encoded = some out ∧ Frames out t flags body

section Framing
variable {body props codes : List UInt8}

theorem frames_packet {t : PacketType} {first flags : UInt8}
    (htype : PacketType.ofByte (first >>> 4) = t) (hflags : first &&& 0x0F = flags)
    (hsize : body.length ≤ maxRemainingLength) : Frames (packet first body) t flags body := by
  intro rest
  refine readFixed_eq_ok.mpr ⟨first, Varint.encode body.length, Varint.delimited_encode _,
    length_encode_le_four hsize, ?_, ?_⟩
  · rw [packet, List.cons_append, List.append_assoc]
  · rw [htype, hflags, Varint.value_encode]

theorem sends_plain {encoded : Option (List UInt8)} {t : PacketType}
    (h : body.length ≤ maxRemainingLength → encoded = some (packet (t.code <<< 4) body)) :
    Sends encoded t 0 body :=
  fun hsize => ⟨_, h hsize, frames_packet (by cases t <;> rfl) (by cases t <;> rfl) hsize⟩

/-- An encoder that writes its fields and then a property section. -/
theorem encode_fields (first : UInt8) {fields : List UInt8}
    (hsize : (fields ++ propertySection props).length ≤ maxRemainingLength) :
    ((encodeVarInt 4 props.length).bind fun propLenEnc =>
      (encodeVarInt 4 (fields.length + propLenEnc.length + props.length)).map fun remEnc =>
        [first] ++ remEnc ++ fields ++ propLenEnc ++ props) =
      some (packet first (fields ++ propertySection props)) := by
  have hlen : (fields ++ propertySection props).length =
      fields.length + (Varint.encode props.length).length + props.length := by
    rw [List.length_append, length_propertySection, Nat.add_assoc]
  have hprops : props.length ≤ maxRemainingLength := by omega
  rw [hlen] at hsize
  rw [encodeVarInt_of_le hprops, Option.bind_some, encodeVarInt_of_le hsize, packet, hlen]
  simp [propertySection]

/-- SUBACK and UNSUBACK, with a property section or without. -/
theorem encodeCodes_packet (t : PacketType) (packetID : UInt16) {before : List UInt8}
    (hsize : (bytes16 packetID ++ (before ++ codes)).length ≤ maxRemainingLength) :
    encodeCodes t before packetID codes =
      some (packet (t.code <<< 4) (bytes16 packetID ++ (before ++ codes))) := by
  have hlen : (bytes16 packetID ++ (before ++ codes)).length = 2 + before.length +
      codes.length := by
    rw [List.length_append, List.length_append, length_bytes16, Nat.add_assoc]
  rw [hlen] at hsize
  rw [encodeCodes, encodeVarInt_of_le hsize, packet, hlen]
  simp [appendUint16_eq]

theorem encodeCodes_section (t : PacketType) (packetID : UInt16)
    (hsize : (bytes16 packetID ++ (propertySection props ++ codes)).length ≤ maxRemainingLength) :
    ((encodeVarInt 4 props.length).bind fun propLenEnc =>
      encodeCodes t (propLenEnc ++ props) packetID codes) =
      some (packet (t.code <<< 4) (bytes16 packetID ++ (propertySection props ++ codes))) := by
  have hprops : props.length ≤ maxRemainingLength := by
    rw [List.length_append, List.length_append, length_propertySection] at hsize
    omega
  rw [encodeVarInt_of_le hprops, Option.bind_some]
  exact encodeCodes_packet t packetID hsize

theorem length_propBytes_ite_le (c : Prop) [Decidable c] (id : UInt8) (value : List UInt8) :
    (propBytes (if c then [(id, value)] else [])).length ≤ value.length + 1 := by
  split
  · simp [propBytes]
  · exact Nat.zero_le _

/-- At most 3, 2, 5 and 3 bytes for what is sent on a condition, and 8 for what always is. -/
theorem length_connackProps_le (opts : ConnackMQTT5Options) :
    (propBytes (connackProps opts)).length ≤ 21 := by
  have hreceive :=
    length_propBytes_ite_le (opts.receiveMaximum > 0) 0x21 (bytes16 opts.receiveMaximum)
  have hqos := length_propBytes_ite_le (opts.maximumQoS < 2) 0x24 [opts.maximumQoS &&& 0x03]
  have hsize := length_propBytes_ite_le (opts.maxPacketSize > 0) 0x27 (bytes32 opts.maxPacketSize)
  have halias := length_propBytes_ite_le (opts.topicAliasMax > 0) 0x22 (bytes16 opts.topicAliasMax)
  rw [length_bytes16] at hreceive halias
  rw [List.length_singleton] at hqos
  rw [length_bytes32] at hsize
  simp only [propBytes] at hreceive hqos hsize halias
  simp only [connackProps, propBytes, List.flatMap_append, List.length_append, List.flatMap_cons,
    List.flatMap_nil, List.length_cons, List.length_nil]
  omega

end Framing

section Encoders

theorem sends_connackV5 (sessionPresent : Bool) (reasonCode : UInt8) (opts : ConnackMQTT5Options) :
    Sends (encodeConnackV5 sessionPresent reasonCode opts) .connack 0
      ([if reasonCode = 0 ∧ sessionPresent then 1 else 0, reasonCode] ++
        propertySection (if reasonCode = 0 then propBytes (connackProps opts) else [])) :=
  sends_plain fun hsize => encode_fields (PacketType.connack.code <<< 4) hsize

theorem connackV5_fits (flags reasonCode : UInt8) (opts : ConnackMQTT5Options) :
    ([flags, reasonCode] ++ propertySection (if reasonCode = 0 then propBytes (connackProps opts)
      else [])).length ≤
      maxRemainingLength := by
  have hprops : (if reasonCode = 0 then propBytes (connackProps opts) else []).length ≤ 21 := by
    split_ifs
    · exact length_connackProps_le opts
    · exact Nat.zero_le 21
  have hvar := length_encode_le_four (Nat.le_trans hprops (by decide : 21 ≤ maxRemainingLength))
  rw [List.length_append, length_propertySection, List.length_cons, List.length_singleton,
    maxRemainingLength]
  omega

theorem sends_ackV5 (t : PacketType) (packetID : UInt16) (reasonCode : UInt8) (props : List UInt8) :
    Sends (encodeAckV5 t packetID reasonCode props) t (if t = .pubrel then 2 else 0)
      (bytes16 packetID ++ ([reasonCode] ++ propertySection props)) := by
  intro hsize
  have htype : PacketType.ofByte (ackFlags t >>> 4) = t := by cases t <;> rfl
  have hflags : ackFlags t &&& 0x0F = if t = .pubrel then 2 else 0 := by cases t <;> rfl
  refine ⟨_, ?_, frames_packet htype hflags hsize⟩
  rw [← List.append_assoc] at hsize ⊢
  rw [← encode_fields (ackFlags t) hsize]
  simp only [encodeAckV5, appendUint16_eq, List.append_assoc]
  rfl

theorem sends_disconnectV5 (reasonCode : UInt8) (props : List UInt8) :
    Sends (encodeDisconnectV5 reasonCode props) .disconnect 0
      ([reasonCode] ++ propertySection props) :=
  sends_plain fun hsize => encode_fields (PacketType.disconnect.code <<< 4) hsize

end Encoders

/-- The body of a DISCONNECT with properties the decoder knows. -/
theorem decodeDisconnect_body (reasonCode : UInt8) (ps : List Property)
    (hsize : ([reasonCode] ++ propertySection (Property.encodeProps ps)).length ≤
      maxRemainingLength) :
    ∃ t, decodeDisconnect v50 ([reasonCode] ++ propertySection (Property.encodeProps ps)) = .ok
      ⟨reasonCode, (Property.lastSessionExpiry? ps).getD 0,
        (Property.lastSessionExpiry? ps).isSome⟩ t := by
  let r := newSliceReader ([reasonCode] ++ propertySection (Property.encodeProps ps))
  have hprops : (Property.encodeProps ps).length ≤ maxRemainingLength := by
    rw [List.length_append, length_propertySection] at hsize
    omega
  have hcode : read 1 r = .ok [reasonCode] (r.advance 1) := read_of_lt (Nat.succ_pos _) 1
  have hrest : (r.advance 1).rest = propertySection (Property.encodeProps ps) ++ [] := by
    rw [List.append_nil]
    rfl
  have hread := Property.readProps_encodeProps hprops hrest
  have hend :
      ¬ ((r.advance 1).advance (propertySection (Property.encodeProps ps)).length).remaining ≠
        0 := by
    rw [not_not, remaining, data_advance, data_advance, pos_advance, pos_advance]
    simp only [r, newSliceReader, List.length_append, List.length_singleton]
    omega
  refine ⟨(r.advance 1).advance (propertySection (Property.encodeProps ps)).length, ?_⟩
  change disconnectBody r = _
  rw [disconnectBody, Prog.bind_ok hcode]
  change (readProps >>= _) (r.advance 1) = _
  rw [Prog.bind_ok hread, Prog.gets_bind, id_eq]
  rw [propertySection] at hend
  rw [if_neg hend, Prog.bind_ok (propUint32_eq _ _ _), Property.value32_setProps_sessionExpiry]
  rfl

/-- Every control packet that the broker encodes is read back as one packet, with the fields,
the property section and the codes in its body. The identifier of an acknowledgment and the
reason and session expiry of a DISCONNECT come back from the body. -/
theorem control_packets_framed :
    (∀ sessionPresent reasonCode opts, ∃ out,
      encodeConnackV5 sessionPresent reasonCode opts = some out ∧
      Frames out .connack 0 ([if reasonCode = 0 ∧ sessionPresent then 1 else 0, reasonCode] ++
        propertySection (if reasonCode = 0 then propBytes (connackProps opts) else []))) ∧
    (∀ t packetID reasonCode props, Sends (encodeAckV5 t packetID reasonCode props) t
      (if t = .pubrel then 2 else 0)
      (bytes16 packetID ++ ([reasonCode] ++ propertySection props))) ∧
    (∀ packetID codes, Sends (encodeSuback packetID codes) .suback 0 (bytes16 packetID ++ codes)) ∧
    (∀ packetID props codes, Sends (encodeSubackV5 packetID props codes) .suback 0
      (bytes16 packetID ++ (propertySection props ++ codes))) ∧
    (∀ packetID props codes, Sends (encodeUnsubackV5 packetID props codes) .unsuback 0
      (bytes16 packetID ++ (propertySection props ++ codes))) ∧
    (∀ reasonCode props, Sends (encodeDisconnectV5 reasonCode props) .disconnect 0
      ([reasonCode] ++ propertySection props)) ∧
    (∀ packetID fields, decodePacketID (bytes16 packetID ++ fields) = .ok packetID ()) ∧
    ∀ reasonCode ps,
      ([reasonCode] ++ propertySection (Property.encodeProps ps)).length ≤ maxRemainingLength →
        ∃ t, decodeDisconnect v50 ([reasonCode] ++ propertySection (Property.encodeProps ps)) = .ok
          ⟨reasonCode, (Property.lastSessionExpiry? ps).getD 0,
            (Property.lastSessionExpiry? ps).isSome⟩ t := by
  refine ⟨fun sessionPresent reasonCode opts => ?_, sends_ackV5, ?_, ?_, ?_, sends_disconnectV5,
    decodePacketID_bytes16, decodeDisconnect_body⟩
  · exact sends_connackV5 sessionPresent reasonCode opts (connackV5_fits _ reasonCode opts)
  · exact fun packetID codes => sends_plain fun hsize => encodeCodes_packet .suback packetID hsize
  · exact fun packetID props codes => sends_plain fun hsize =>
      encodeCodes_section .suback packetID hsize
  · exact fun packetID props codes => sends_plain fun hsize =>
      encodeCodes_section .unsuback packetID hsize

/-- A DISCONNECT whose session expiry is given twice. -/
theorem control_packets_framed_disconnect :
    ∃ t, decodeDisconnect v50 ([4] ++ propertySection
      (Property.encodeProps [.sessionExpiry 7, .topicAlias 1, .sessionExpiry 9])) =
        .ok ⟨4, 9, true⟩ t := by
  obtain ⟨-, -, -, -, -, -, -, hdecode⟩ := control_packets_framed
  refine hdecode 4 [.sessionExpiry 7, .topicAlias 1, .sessionExpiry 9] ?_
  have hvar := length_encode_le_four (by decide : 13 ≤ maxRemainingLength)
  rw [List.length_append, length_propertySection, maxRemainingLength]
  exact Nat.le_trans (Nat.add_le_add_left (Nat.add_le_add_right hvar _) _) (by decide)

end LumaBroker.Protocol
