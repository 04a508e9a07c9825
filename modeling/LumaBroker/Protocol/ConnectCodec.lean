import LumaBroker.Protocol.Codec
import LumaBroker.Protocol.PropertyOrder
import LumaBroker.Protocol.Reads
import Mathlib.Data.List.Perm.Subperm

/-!
CONNECT on the wire. The flags say which fields of the payload follow, a v5 packet has a block
of properties and another one before its will, and each field begins where the one before it
has ended. DecodeConnect of internal/protocol/packet.go gives back every packet that is
written so, and no packet that can be built here is refused.
-/

namespace LumaBroker.Protocol

open Faulting SliceReader

/-- The properties of a CONNECT that the decoder knows. -/
inductive ConnectProp where
  | sessionExpiryInterval (seconds : UInt32)
  | receiveMaximum (n : UInt16) (pos : n ≠ 0)
  | topicAliasMaximum (n : UInt16)
  | maximumPacketSize (n : UInt32) (pos : n ≠ 0)

namespace ConnectProp

def id : ConnectProp → UInt8
  | sessionExpiryInterval _ => 0x11
  | receiveMaximum _ _ => 0x21
  | topicAliasMaximum _ => 0x22
  | maximumPacketSize _ _ => 0x27

def value : ConnectProp → List UInt8
  | sessionExpiryInterval n => bytes32 n
  | receiveMaximum n _ => bytes16 n
  | topicAliasMaximum n => bytes16 n
  | maximumPacketSize n _ => bytes32 n

def wire (p : ConnectProp) : UInt8 × List UInt8 := (p.id, p.value)

def expiry? : ConnectProp → Option UInt32
  | sessionExpiryInterval n => some n
  | _ => none

def receive? : ConnectProp → Option UInt16
  | receiveMaximum n _ => some n
  | _ => none

def alias? : ConnectProp → Option UInt16
  | topicAliasMaximum n => some n
  | _ => none

def size? : ConnectProp → Option UInt32
  | maximumPacketSize n _ => some n
  | _ => none

theorem known_map_wire (ps : List ConnectProp) : Known connectPropSize (ps.map wire) := by
  intro p hp
  obtain ⟨q, -, rfl⟩ := List.mem_map.mp hp
  cases q <;> rfl

/-- Without a repetition there are four properties at most, of five bytes at most. -/
theorem length_propBytes_le {ps : List ConnectProp} (h : (ps.map id).Nodup) :
    (propBytes (ps.map wire)).length ≤ 20 := by
  have hfour : (ps.map id).length ≤ 4 := by
    have hsub : ps.map id ⊆ [0x11, 0x21, 0x22, 0x27] := by
      intro i hi
      obtain ⟨p, -, rfl⟩ := List.mem_map.mp hi
      cases p <;> simp [id]
    exact (List.subperm_of_subset h hsub).length_le
  have hfive (qs : List ConnectProp) : (propBytes (qs.map wire)).length ≤ 5 * qs.length := by
    induction qs with
    | nil => exact Nat.le_refl 0
    | cons q qs ih =>
        have hq : q.value.length ≤ 4 := by
          cases q <;> simp [value]
        rw [List.map_cons, wire, propBytes_cons, List.length_cons, List.length_append,
          List.length_cons]
        omega
  have := hfive ps
  rw [List.length_map] at hfour
  omega

theorem reads_readConnectProps {ps : List ConnectProp} (h : (ps.map id).Nodup) :
    Reads readConnectProps (propBlock (ps.map wire)) (setProps FinMap.empty (ps.map wire)) :=
  fun _ _ hr =>
    readPropsWith_encode (Nat.le_trans (length_propBytes_le h) (by decide)) (known_map_wire ps) hr

/-- What a lookup in the map finds is the one property with the identifier. -/
theorem lookup_props {β : Type} {i : UInt8} {f : ConnectProp → Option β} {g : List UInt8 → Option β}
    (hf : ∀ p : ConnectProp, f p = if p.id = i then g p.value else none) {ps : List ConnectProp}
    (hdistinct : (ps.map id).Nodup) :
    ((setProps FinMap.empty (ps.map wire)).get i).bind g = ps.findSome? f := by
  induction ps using List.reverseRecOn with
  | nil => rfl
  | append_singleton ps p ih =>
      rw [List.map_append, List.nodup_append] at hdistinct
      obtain ⟨hps, -, hnew⟩ := hdistinct
      have hlast : List.findSome? f [p] = f p := by
        rw [List.findSome?_singleton]
      rw [List.map_append, List.map_singleton, Property.setProps_append, List.findSome?_append,
        hlast, hf p]
      by_cases hid : p.id = i
      · have hnone : ps.findSome? f = none := by
          rw [List.findSome?_eq_none_iff]
          intro q hq
          rw [hf q, if_neg]
          rintro rfl
          exact hnew _ (List.mem_map_of_mem hq) p.id (List.mem_singleton_self _) hid.symm
        subst hid
        rw [hnone, if_pos rfl]
        simp [wire]
      · have hother : i ≠ (wire p).1 := fun h => hid h.symm
        rw [FinMap.get_set_ne _ _ hother, ih hps, if_neg hid, Option.or_none]

section Values
variable {ps : List ConnectProp}

theorem value32_expiry (h : (ps.map id).Nodup) :
    value32 (setProps FinMap.empty (ps.map wire)) 0x11 = ps.findSome? expiry? := by
  refine lookup_props (fun p => ?_) h
  cases p with
  | sessionExpiryInterval n => exact (Property.value32_set FinMap.empty 0x11 n).symm
  | receiveMaximum | topicAliasMaximum | maximumPacketSize => rfl

theorem value16_receive (h : (ps.map id).Nodup) :
    value16 (setProps FinMap.empty (ps.map wire)) 0x21 = ps.findSome? receive? := by
  refine lookup_props (fun p => ?_) h
  cases p with
  | receiveMaximum n => exact (Property.value16_set FinMap.empty 0x21 n).symm
  | sessionExpiryInterval | topicAliasMaximum | maximumPacketSize => rfl

theorem value16_alias (h : (ps.map id).Nodup) :
    value16 (setProps FinMap.empty (ps.map wire)) 0x22 = ps.findSome? alias? := by
  refine lookup_props (fun p => ?_) h
  cases p with
  | topicAliasMaximum n => exact (Property.value16_set FinMap.empty 0x22 n).symm
  | sessionExpiryInterval | receiveMaximum | maximumPacketSize => rfl

theorem value32_size (h : (ps.map id).Nodup) :
    value32 (setProps FinMap.empty (ps.map wire)) 0x27 = ps.findSome? size? := by
  refine lookup_props (fun p => ?_) h
  cases p with
  | maximumPacketSize n => exact (Property.value32_set FinMap.empty 0x27 n).symm
  | sessionExpiryInterval | receiveMaximum | topicAliasMaximum => rfl

theorem receive?_ne_zero (p : ConnectProp) : p.receive? ≠ some 0 := by
  cases p with
  | receiveMaximum n pos => exact fun h => pos (Option.some.inj h)
  | sessionExpiryInterval | topicAliasMaximum | maximumPacketSize =>
      exact (Option.some_ne_none _).symm

theorem size?_ne_zero (p : ConnectProp) : p.size? ≠ some 0 := by
  cases p with
  | maximumPacketSize n pos => exact fun h => pos (Option.some.inj h)
  | sessionExpiryInterval | receiveMaximum | topicAliasMaximum => exact (Option.some_ne_none _).symm

theorem findSome?_ne {β : Type} {f : ConnectProp → Option β} {b : β} (hf : ∀ p, f p ≠ some b) :
    ps.findSome? f ≠ some b := by
  intro h
  obtain ⟨p, -, hp⟩ := List.exists_of_findSome?_eq_some h
  exact hf p hp

end Values

end ConnectProp

/-- The protocol level, with the properties that only a v5 packet has. -/
inductive ConnectLevel where
  | v311
  | v50 (props : List ConnectProp) (distinct : (props.map ConnectProp.id).Nodup)

/-- A will. The block of properties is written for v5 only, and may hold anything. -/
structure WillFields where
  qos : UInt8
  retain : Bool
  topic : Text
  payload : Text
  props : List UInt8
  qos_le : qos ≤ 2
  props_le : props.length ≤ maxRemainingLength

/-- The fields of a CONNECT. -/
structure ConnectFields where
  level : ConnectLevel
  cleanSession : Bool
  keepAlive : UInt16
  clientID : Text
  will : Option WillFields
  username : Option Text
  password : Option Text

namespace ConnectLevel

def byte : ConnectLevel → UInt8
  | v311 => Protocol.v311
  | v50 _ _ => Protocol.v50

def props : ConnectLevel → List ConnectProp
  | v311 => []
  | v50 ps _ => ps

def wire : ConnectLevel → List UInt8
  | v311 => []
  | v50 ps _ => propBlock (ps.map ConnectProp.wire)

end ConnectLevel

namespace WillFields

def blockWire (will : WillFields) : ConnectLevel → List UInt8
  | .v311 => []
  | .v50 _ _ => Varint.encode will.props.length ++ will.props

def wire (level : ConnectLevel) (will : WillFields) : List UInt8 :=
  will.blockWire level ++ (will.topic.wire ++ will.payload.wire)

end WillFields

def flag (set : Bool) (bit : UInt8) : UInt8 := if set then bit else 0

/-- The connect flags, from the highest bit down. A will is its QoS and whether it is retained. -/
def flagByte (username password : Bool) (will : Option (UInt8 × Bool)) (clean : Bool) : UInt8 :=
  flag username 0x80 ||| flag password 0x40 |||
    (match will with
      | some (qos, retain) => flag retain 0x20 ||| (qos <<< 3) ||| 0x04
      | none => 0) |||
    flag clean 0x02

/-- What the decoder takes from the flags. -/
theorem flagByte_parts (username password clean : Bool) {will : Option (UInt8 × Bool)}
    (hqos : ∀ w ∈ will, w.1 ≤ 2) :
    let f := flagByte username password will clean
    f &&& 0x01 = 0 ∧ decide (f &&& 0x02 ≠ 0) = clean ∧ decide (f &&& 0x04 ≠ 0) = will.isSome ∧
      (f >>> 3) &&& 0x03 = (will.map Prod.fst).getD 0 ∧
      decide (f &&& 0x20 ≠ 0) = (will.map Prod.snd).getD false ∧
      decide (f &&& 0x80 ≠ 0) = username ∧ decide (f &&& 0x40 ≠ 0) = password := by
  cases will with
  | none =>
      revert username password clean
      decide
  | some w =>
      obtain ⟨qos, retain⟩ := w
      have hle : qos.toNat ≤ 2 := UInt8.le_iff_toNat_le.mp (hqos _ rfl)
      have hthree : qos = 0 ∨ qos = 1 ∨ qos = 2 := by
        simp only [← UInt8.toNat_inj]
        change qos.toNat = 0 ∨ qos.toNat = 1 ∨ qos.toNat = 2
        omega
      rcases hthree with rfl | rfl | rfl
      all_goals
        clear hqos hle
        revert username password clean retain
        decide

theorem connectProps_v50 (pkt : ConnectPacket) {props : Props} {r t : SliceReader}
    (hversion : pkt.version = v50) (hread : readConnectProps r = .ok props t)
    (hreceive : value16 props 0x21 ≠ some 0) (hsize : value32 props 0x27 ≠ some 0) :
    connectProps pkt r = .ok
      { pkt with
        sessionExpiryInterval := (value32 props 0x11).getD 0
        receiveMaximum := (value16 props 0x21).getD 0
        maximumPacketSize := (value32 props 0x27).getD 0
        topicAliasMaximum := (value16 props 0x22).getD 0 } t := by
  rw [connectProps, if_pos hversion, Prog.bind_ok hread, Prog.bind_ok (propUint32_eq props 0x11 t),
    Prog.bind_ok (propUint16_eq props 0x21 t), if_neg hreceive,
    Prog.bind_ok (propUint32_eq props 0x27 t),
    if_neg hsize, Prog.bind_ok (propUint16_eq props 0x22 t)]
  rfl

namespace ConnectFields

def flags (c : ConnectFields) : UInt8 :=
  flagByte c.username.isSome c.password.isSome (c.will.map fun will => (will.qos, will.retain))
    c.cleanSession

/-- The body of the packet. -/
def wire (c : ConnectFields) : List UInt8 :=
  (stringField (str "MQTT") ++ [c.level.byte] ++ ([c.flags] ++ bytes16 c.keepAlive)) ++
    (c.level.wire ++ (c.clientID.wire ++ ((c.will.map (WillFields.wire c.level)).getD [] ++
      ((c.username.map Text.wire).getD [] ++ (c.password.map Text.wire).getD []))))

/-- The packet with these fields. What is absent is false, zero or empty. -/
def packet (c : ConnectFields) : ConnectPacket where
  version := c.level.byte
  cleanSession := c.cleanSession
  keepAlive := c.keepAlive
  sessionExpiryInterval := (c.level.props.findSome? ConnectProp.expiry?).getD 0
  receiveMaximum := (c.level.props.findSome? ConnectProp.receive?).getD 0
  maximumPacketSize := (c.level.props.findSome? ConnectProp.size?).getD 0
  topicAliasMaximum := (c.level.props.findSome? ConnectProp.alias?).getD 0
  willFlag := c.will.isSome
  willQoS := (c.will.map WillFields.qos).getD 0
  willRetain := (c.will.map WillFields.retain).getD false
  hasUsername := c.username.isSome
  hasPassword := c.password.isSome
  clientID := c.clientID.bytes
  willTopic := (c.will.map fun will => will.topic.bytes).getD []
  willPayload := (c.will.map fun will => will.payload.bytes).getD []
  username := (c.username.map Text.bytes).getD []
  password := (c.password.map Text.bytes).getD []

/-- The packet as far as its flags tell. -/
def head (c : ConnectFields) : ConnectPacket where
  version := c.level.byte
  cleanSession := c.cleanSession
  keepAlive := 0
  sessionExpiryInterval := 0
  receiveMaximum := 0
  maximumPacketSize := 0
  topicAliasMaximum := 0
  willFlag := c.will.isSome
  willQoS := (c.will.map WillFields.qos).getD 0
  willRetain := (c.will.map WillFields.retain).getD false
  hasUsername := c.username.isSome
  hasPassword := c.password.isSome
  clientID := []
  willTopic := []
  willPayload := []
  username := []
  password := []

theorem connectFlags_flags (c : ConnectFields) :
    c.flags &&& 0x01 = 0 ∧ connectFlags c.level.byte c.flags = c.head := by
  have hqos : ∀ w ∈ c.will.map (fun will => (will.qos, will.retain)), w.1 ≤ 2 := by
    intro w hw
    obtain ⟨will, -, rfl⟩ := Option.map_eq_some_iff.mp hw
    exact will.qos_le
  obtain ⟨hreserved, hclean, hwill, hq, hretain, husername, hpassword⟩ :=
    flagByte_parts c.username.isSome c.password.isSome c.cleanSession hqos
  refine ⟨hreserved, ?_⟩
  rw [Option.isSome_map] at hwill
  rw [Option.map_map] at hq hretain
  rw [connectFlags, head, flags, hclean, hwill, hq, hretain, husername, hpassword]
  rfl

section Parts
variable (c : ConnectFields)

theorem reads_connectProtocol (version : UInt8) :
    Reads connectProtocol (stringField (str "MQTT") ++ [version]) version := by
  have hname := reads_readString ⟨str "MQTT", by decide⟩
  refine (hname.mapError _).bind ((reads_readOne version).guard ?_)
  exact fun h => h.1 rfl

theorem reads_connectHeader :
    Reads connectHeader (stringField (str "MQTT") ++ [c.level.byte] ++
      ([c.flags] ++ bytes16 c.keepAlive))
      { c.head with keepAlive := c.keepAlive } := by
  obtain ⟨hreserved, hflags⟩ := connectFlags_flags c
  have hlevel : ¬ (c.level.byte ≠ v311 ∧ c.level.byte ≠ v50) := by
    cases c.level <;> simp [ConnectLevel.byte]
  have hwill : ¬ (!c.head.willFlag ∧ (c.head.willQoS ≠ 0 ∨ c.head.willRetain)) := by
    cases hw : c.will <;> simp [head, hw]
  have hqos : ¬ c.head.willQoS > 2 := by
    cases hw : c.will with
    | none => simp [head, hw]
    | some will =>
        simp only [head, hw, Option.map_some, Option.getD_some]
        exact not_lt.mpr will.qos_le
  refine (reads_connectProtocol c.level.byte).bind (.guard hlevel ((reads_readOne c.flags).bind ?_))
  refine .guard (not_not.mpr hreserved) ?_
  dsimp only
  rw [hflags]
  exact .guard hwill (.guard hqos ((reads_readUint16 c.keepAlive).map _))

/-- The packet after the properties. -/
def described (c : ConnectFields) : ConnectPacket :=
  { c.head with
    keepAlive := c.keepAlive
    sessionExpiryInterval := (c.level.props.findSome? ConnectProp.expiry?).getD 0
    receiveMaximum := (c.level.props.findSome? ConnectProp.receive?).getD 0
    maximumPacketSize := (c.level.props.findSome? ConnectProp.size?).getD 0
    topicAliasMaximum := (c.level.props.findSome? ConnectProp.alias?).getD 0 }

theorem reads_connectProps :
    Reads (connectProps { c.head with keepAlive := c.keepAlive }) c.level.wire c.described := by
  obtain ⟨level, clean, keepAlive, clientID, will, username, password⟩ := c
  cases level with
  | v311 => exact Reads.pure _
  | v50 ps hdistinct =>
      intro r tail hr
      have hreceive := ConnectProp.value16_receive hdistinct
      have hsize := ConnectProp.value32_size hdistinct
      have hprops :=
        connectProps_v50 { head ⟨.v50 ps hdistinct, clean, keepAlive, clientID, will, username,
            password⟩ with keepAlive := keepAlive } rfl
          (ConnectProp.reads_readConnectProps hdistinct r tail hr)
          (hreceive ▸ ConnectProp.findSome?_ne ConnectProp.receive?_ne_zero)
          (hsize ▸ ConnectProp.findSome?_ne ConnectProp.size?_ne_zero)
      rw [ConnectProp.value32_expiry hdistinct, hreceive, hsize,
        ConnectProp.value16_alias hdistinct] at hprops
      exact hprops

def withWill (pkt : ConnectPacket) (will : Option WillFields) : ConnectPacket :=
  { pkt with
    willTopic := (will.map fun w => w.topic.bytes).getD pkt.willTopic
    willPayload := (will.map fun w => w.payload.bytes).getD pkt.willPayload }

def withUsername (pkt : ConnectPacket) (username : Option Text) : ConnectPacket :=
  { pkt with username := (username.map Text.bytes).getD pkt.username }

def withPassword (pkt : ConnectPacket) (password : Option Text) : ConnectPacket :=
  { pkt with password := (password.map Text.bytes).getD pkt.password }

theorem reads_connectWill {pkt : ConnectPacket} (hflag : pkt.willFlag = c.will.isSome)
    (hversion : pkt.version = c.level.byte) :
    Reads (connectWill pkt) ((c.will.map (WillFields.wire c.level)).getD [])
      (withWill pkt c.will) := by
  rw [connectWill]
  refine Reads.optional (v := withWill pkt) hflag fun will => ?_
  have hskip : Reads (skipPropsV5 pkt.version) (will.blockWire c.level) () := by
    rw [hversion]
    cases c.level with
    | v311 => exact Reads.pure ()
    | v50 ps hdistinct => exact reads_skipProps will.props_le
  exact hskip.bind (((reads_readString will.topic).mapError _).bind
    ((reads_readBinary will.payload).map _))

theorem reads_connectUsername {pkt : ConnectPacket} (hflag : pkt.hasUsername = c.username.isSome) :
    Reads (connectUsername pkt) ((c.username.map Text.wire).getD [])
      (withUsername pkt c.username) := by
  rw [connectUsername]
  refine Reads.optional (v := withUsername pkt) hflag fun username => ?_
  exact ((reads_readString username).mapError _).map _

theorem reads_connectPassword {pkt : ConnectPacket} (hflag : pkt.hasPassword = c.password.isSome) :
    Reads (connectPassword pkt) ((c.password.map Text.wire).getD [])
      (withPassword pkt c.password) := by
  rw [connectPassword]
  refine Reads.optional (v := withPassword pkt) hflag fun password => ?_
  exact (reads_readBinary password).map _

theorem reads_connectBody : Reads connectBody c.wire c.packet := by
  refine (reads_connectHeader c).bind ((reads_connectProps c).bind ?_)
  refine ((reads_readString c.clientID).mapError _).bind ?_
  refine (reads_connectWill c rfl rfl).bind ?_
  exact (reads_connectUsername c rfl).bind (reads_connectPassword c rfl)

/-- DecodeConnect returns exactly the fields of a CONNECT and reads it to its end. -/
theorem decodeConnect_wire : decodeConnect c.wire = .ok c.packet ⟨c.wire, c.wire.length⟩ := by
  have hread := reads_connectBody c (newSliceReader c.wire) [] (List.append_nil _).symm
  rw [decodeConnect, hread, SliceReader.advance, newSliceReader, Nat.zero_add]

/-- A v3.1.1 client c1 with a retained will of QoS 1 and a user name. -/
example : (⟨.v311, true, 60, ⟨str "c1", by decide⟩,
      some ⟨1, true, ⟨str "w", by decide⟩, ⟨[7], by decide⟩, [], by decide, by decide⟩,
      some ⟨str "u", by decide⟩, none⟩ : ConnectFields).wire =
    [0, 4, 77, 81, 84, 84, 4, 0xAE, 0, 60, 0, 2, 99, 49, 0, 1, 119, 0, 1, 7, 0, 1, 117] := by
  decide

end Parts

end ConnectFields

end LumaBroker.Protocol
