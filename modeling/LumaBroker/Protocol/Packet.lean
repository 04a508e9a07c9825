import LumaBroker.Go.Bytes
import LumaBroker.Lib.Faulting
import LumaBroker.Lib.Varint
import LumaBroker.Protocol.Reason
import Mathlib.Data.Nat.Bitwise

/-!
The fixed header, the length-prefixed fields and the encoders of PUBLISH and of the
acknowledgments, of internal/protocol/packet.go. A Go int is a natural number here: no
length or position comes near 2^63. The buffers of the encoders are byte lists, and none
is the panic of an index out of range.
-/

namespace LumaBroker.Protocol

open Faulting

inductive PacketType where
  | reserved
  | connect
  | connack
  | publish
  | puback
  | pubrec
  | pubrel
  | pubcomp
  | subscribe
  | suback
  | unsubscribe
  | unsuback
  | pingreq
  | pingresp
  | disconnect
  | auth
  deriving DecidableEq

namespace PacketType

/-- All types, in the order of their codes. -/
def all : List PacketType :=
  [reserved, connect, connack, publish, puback, pubrec, pubrel, pubcomp, subscribe, suback,
    unsubscribe, unsuback, pingreq, pingresp, disconnect, auth]

/-- The conversion PacketType(b), of a byte below 16. -/
def ofByte (b : UInt8) : PacketType := all[b.toNat]?.getD reserved

def code (t : PacketType) : UInt8 := UInt8.ofNat (all.idxOf t)

end PacketType

/-- The error values of decoding, those of io.ReadFull included. Wrap is fmt.Errorf with
the verb %w after the context. -/
inductive DecodeError where
  | malformed
  | protocolViolation
  | invalidVarInt
  | invalidQoS
  | invalidTopic
  | unsupportedVersion
  | zeroPacketID
  | eof
  | unexpectedEOF
  | wrap (context : String) (err : DecodeError)
  deriving DecidableEq

/-- The header present in every packet; the flags are bits 3-0 of the first byte. -/
structure FixedHeader where
  type : PacketType
  flags : UInt8
  remainingLength : Nat
  deriving DecidableEq

def maxRemainingLength : Nat := 268435455

/-- io.ReadFull into a buffer of one byte, from a connection that has these bytes to give. -/
def readByte : Prog DecodeError (List UInt8) UInt8
  | [] => .error .eof
  | b :: rest => .ok b rest

/-- The loop of ReadFixed, with the number of turns left. -/
def readRemainingLength : Nat → Nat → Nat → Prog DecodeError (List UInt8) Nat
  | 0, _, val => pure val
  | i + 1, mult, val => do
      let b1 ← (readByte).mapError (.wrap "remaining length")
      let digit := b1.toNat
      let val := val + (digit &&& 0x7F) * mult
      if digit &&& 0x80 = 0 then pure val
      else if i = 0 then Prog.fail .invalidVarInt
      else readRemainingLength i (mult * 128) val

def readFixed : Prog DecodeError (List UInt8) FixedHeader := do
  let b1 ← readByte
  let val ← readRemainingLength 4 1 0
  pure { type := PacketType.ofByte (b1 >>> 4), flags := b1 &&& 0x0F, remainingLength := val }

/-- The bytes encodeVarInt writes into a buffer with this much room left. -/
def encodeVarInt : Nat → Nat → Option (List UInt8)
  | 0, _ => none
  | room + 1, n =>
      let digit := n % 128
      let n := n / 128
      if n > 0 then
        (encodeVarInt room n).map fun rest => UInt8.ofNat (digit ||| 0x80) :: rest
      else some [UInt8.ofNat digit]

def appendString (b : List UInt8) (s : GoString) : List UInt8 :=
  let s := if s.length > 65535 then s.take 65535 else s
  b ++ [UInt8.ofNat (s.length >>> 8), UInt8.ofNat s.length] ++ s

def appendUint16 (b : List UInt8) (v : UInt16) : List UInt8 :=
  b ++ [(v >>> 8).toUInt8, v.toUInt8]

/-- A decoded PUBLISH. -/
structure PublishPacket where
  dup : Bool
  qos : UInt8
  retain : Bool
  topic : GoString
  packetID : UInt16
  payload : List UInt8
  messageExpiryInterval : UInt32
  topicAlias : UInt16
  receivedAt : Nat
  deriving DecidableEq

/-- The first byte of a PUBLISH. -/
def publishFlags (qos : UInt8) (retain dup : Bool) : UInt8 :=
  let flags := PacketType.publish.code <<< 4
  let flags := if dup then flags ||| 0x08 else flags
  let flags := flags ||| ((qos &&& 0x03) <<< 1)
  if retain then flags ||| 0x01 else flags

/-- The two encoders, with the property section of the v5 one. The remaining length counts
the whole topic, of which appendString may write less. -/
def encodePublishWith (props : List UInt8) (topic : GoString) (payload : List UInt8) (qos : UInt8)
    (retain : Bool) (packetID : UInt16) (dup : Bool) : Option (List UInt8) :=
  let topicLen := 2 + topic.length
  let pidLen := if qos > 0 then 2 else 0
  let remaining := topicLen + pidLen + props.length + payload.length
  (encodeVarInt 4 remaining).map fun varBuf =>
    let out := [publishFlags qos retain dup] ++ varBuf
    let out := appendString out topic
    let out := if qos > 0 then appendUint16 out packetID else out
    out ++ props ++ payload

def encodePublish (topic : GoString) (payload : List UInt8) (qos : UInt8) (retain : Bool)
    (packetID : UInt16) (dup : Bool) : Option (List UInt8) :=
  encodePublishWith [] topic payload qos retain packetID dup

def encodePublishV5 (topic : GoString) (payload : List UInt8) (qos : UInt8) (retain : Bool)
    (packetID : UInt16) (dup : Bool) (props : List UInt8) : Option (List UInt8) :=
  (encodeVarInt 4 props.length).bind fun propLenEnc =>
    encodePublishWith (propLenEnc ++ props) topic payload qos retain packetID dup

/-- The first byte of PUBACK, PUBREC, PUBREL and PUBCOMP. -/
def ackFlags (t : PacketType) : UInt8 :=
  let flags : UInt8 := if t = .pubrel then 0x02 else 0
  t.code <<< 4 ||| flags

def encodeAck (t : PacketType) (packetID : UInt16) : List UInt8 :=
  [ackFlags t, 2, (packetID >>> 8).toUInt8, packetID.toUInt8]

def encodeAckV5 (t : PacketType) (packetID : UInt16) (reasonCode : UInt8) (props : List UInt8) :
    Option (List UInt8) :=
  (encodeVarInt 4 props.length).bind fun propLenEnc =>
    let remaining := 2 + 1 + propLenEnc.length + props.length
    (encodeVarInt 4 remaining).map fun remEnc =>
      appendUint16 ([ackFlags t] ++ remEnc) packetID ++ [reasonCode] ++ propLenEnc ++ props

/-- SUBACK and UNSUBACK: the packet identifier, the property section of a v5 packet and a code
for each entry. -/
def encodeCodes (t : PacketType) (props : List UInt8) (packetID : UInt16) (codes : List UInt8) :
    Option (List UInt8) :=
  let remaining := 2 + props.length + codes.length
  (encodeVarInt 4 remaining).map fun varBuf =>
    appendUint16 ([t.code <<< 4] ++ varBuf) packetID ++ props ++ codes

def encodeSuback (packetID : UInt16) (codes : List UInt8) : Option (List UInt8) :=
  encodeCodes .suback [] packetID codes

def encodeSubackV5 (packetID : UInt16) (props reasonCodes : List UInt8) : Option (List UInt8) :=
  (encodeVarInt 4 props.length).bind fun propLenEnc =>
    encodeCodes .suback (propLenEnc ++ props) packetID reasonCodes

def encodeUnsuback (packetID : UInt16) : List UInt8 :=
  [PacketType.unsuback.code <<< 4, 2, (packetID >>> 8).toUInt8, packetID.toUInt8]

def encodeUnsubackV5 (packetID : UInt16) (props reasonCodes : List UInt8) : Option (List UInt8) :=
  (encodeVarInt 4 props.length).bind fun propLenEnc =>
    encodeCodes .unsuback (propLenEnc ++ props) packetID reasonCodes

theorem and_7F (n : Nat) : n &&& 0x7F = n % 128 := Nat.and_two_pow_sub_one_eq_mod n 7

theorem and_80_eq_zero {n : Nat} (h : n < 256) : n &&& 0x80 = 0 ↔ n < 128 := by
  have hbit : n &&& 0x80 = (decide (n / 128 % 2 = 1)).toNat * 128 := by
    rw [← Nat.testBit_eq_decide_div_mod_eq (x := n) (i := 7)]
    exact Nat.and_two_pow n 7
  rw [hbit]
  by_cases hn : n < 128
  · have hodd : ¬ n / 128 % 2 = 1 := by omega
    simp [hn, hodd]
  · have hodd : n / 128 % 2 = 1 := by omega
    simp [hn, hodd]

theorem or_80 {n : Nat} (h : n < 128) : n ||| 0x80 = n + 128 := by
  have hor := Nat.two_pow_add_eq_or_of_lt (b := n) (i := 7) h 1
  rw [Nat.or_comm]
  exact hor.symm.trans (Nat.add_comm _ _)

/-- With room enough the encoder writes the shortest varint, and it panics without. -/
theorem encodeVarInt_eq (room n : Nat) :
    encodeVarInt room n = if n < 128 ^ room ∧ 0 < room then some (Varint.encode n) else none := by
  induction room generalizing n with
  | zero => simp [encodeVarInt]
  | succ room ih =>
      rw [encodeVarInt, Varint.encode]
      by_cases hn : n < 128
      · have hdiv : ¬ n / 128 > 0 := by omega
        have hlt : n < 128 ^ (room + 1) := by
          have hpow : 1 ≤ 128 ^ room :=
            Nat.one_le_two_pow.trans (Nat.pow_le_pow_left (by decide) room)
          rw [Nat.pow_succ]
          omega
        simp [hdiv, hlt, hn, Nat.mod_eq_of_lt hn]
      · have hdiv : n / 128 > 0 := by omega
        have hiff : n / 128 < 128 ^ room ↔ n < 128 ^ (room + 1) := by
          rw [Nat.div_lt_iff_lt_mul (by decide), ← Nat.pow_succ]
        have hroom : n / 128 < 128 ^ room → 0 < room := by
          intro hlt
          cases room with
          | zero => omega
          | succ room => exact Nat.succ_pos room
        simp only [hdiv, if_true, ih, or_80 (Nat.mod_lt n (by decide)), hn, if_false]
        by_cases hlt : n < 128 ^ (room + 1)
        · simp [hiff.mpr hlt, hroom (hiff.mpr hlt), hlt]
        · simp [hiff, hlt]

theorem encodeVarInt_of_le {n : Nat} (h : n ≤ maxRemainingLength) :
    encodeVarInt 4 n = some (Varint.encode n) := by
  rw [encodeVarInt_eq, if_pos ⟨Nat.lt_of_le_of_lt h (by decide), by decide⟩]

theorem length_encode_le_four {n : Nat} (h : n ≤ maxRemainingLength) :
    (Varint.encode n).length ≤ 4 :=
  Varint.length_encode_le (Nat.lt_of_le_of_lt h (by decide))

/-- The fields of a packet, before they are put into one buffer. -/
def stringField (s : GoString) : List UInt8 :=
  [UInt8.ofNat (s.length >>> 8), UInt8.ofNat s.length] ++ s

@[simp] theorem length_stringField (s : GoString) : (stringField s).length = 2 + s.length := by
  rw [stringField, List.length_append]
  rfl

/-- The packet identifier of a PUBLISH, which QoS 0 does not have. -/
def idField (qos : UInt8) (packetID : UInt16) : List UInt8 :=
  if qos > 0 then bytes16 packetID else []

theorem appendString_eq (b : List UInt8) (s : GoString) :
    appendString b s = b ++ stringField (s.take maxTopicLen) := by
  have hcut : (if s.length > 65535 then s.take 65535 else s) = s.take maxTopicLen := by
    split
    · rfl
    · next h => exact (List.take_of_length_le (Nat.le_of_not_lt h)).symm
  simp only [appendString, hcut, stringField, List.append_assoc]

theorem appendUint16_eq (b : List UInt8) (v : UInt16) : appendUint16 b v = b ++ bytes16 v := rfl

end LumaBroker.Protocol
