import LumaBroker.Protocol.Reader

/-!
The packet decoders of internal/protocol/packet.go, and that none of them reads outside
the body it is given or fails to return, whatever the body holds.
-/

namespace LumaBroker.Protocol

open Faulting SliceReader

/-- A decoded CONNECT. An absent property is zero. -/
structure ConnectPacket where
  version : UInt8
  cleanSession : Bool
  keepAlive : UInt16
  sessionExpiryInterval : UInt32
  receiveMaximum : UInt16
  maximumPacketSize : UInt32
  topicAliasMaximum : UInt16
  willFlag : Bool
  willQoS : UInt8
  willRetain : Bool
  hasUsername : Bool
  hasPassword : Bool
  clientID : GoString
  willTopic : GoString
  willPayload : List UInt8
  username : GoString
  password : List UInt8
  deriving DecidableEq

/-- A property of four bytes, when the map has one. -/
def propUint32 (props : Props) (id : UInt8) : Reader (Option UInt32) :=
  match props.get id with
  | some v =>
      if v.length = 4 then do
        let n ← Prog.orPanic (uint32 v)
        pure (some n)
      else pure none
  | none => pure none

/-- A property of two bytes, when the map has one. -/
def propUint16 (props : Props) (id : UInt8) : Reader (Option UInt16) :=
  match props.get id with
  | some v =>
      if v.length = 2 then do
        let n ← Prog.orPanic (uint16 v)
        pure (some n)
      else pure none
  | none => pure none

/-- The packet after its version and its connect flags. -/
def connectFlags (version f : UInt8) : ConnectPacket where
  version := version
  cleanSession := f &&& 0x02 ≠ 0
  keepAlive := 0
  sessionExpiryInterval := 0
  receiveMaximum := 0
  maximumPacketSize := 0
  topicAliasMaximum := 0
  willFlag := f &&& 0x04 ≠ 0
  willQoS := (f >>> 3) &&& 0x03
  willRetain := f &&& 0x20 ≠ 0
  hasUsername := f &&& 0x80 ≠ 0
  hasPassword := f &&& 0x40 ≠ 0
  clientID := []
  willTopic := []
  willPayload := []
  username := []
  password := []

def connectProtocol : Reader UInt8 := do
  let protoName ← readString.mapError (.wrap "proto name")
  if protoName ≠ str "MQTT" ∧ protoName ≠ str "MQIsdp" then Prog.fail .unsupportedVersion
  else readOne

def connectHeader : Reader ConnectPacket := do
  let version ← connectProtocol
  if version ≠ v311 ∧ version ≠ v50 then Prog.fail .unsupportedVersion
  else
    let f ← readOne
    -- the reserved bit must be 0
    if f &&& 0x01 ≠ 0 then Prog.fail .protocolViolation
    else
      let pkt := connectFlags version f
      if !pkt.willFlag ∧ (pkt.willQoS ≠ 0 ∨ pkt.willRetain) then Prog.fail .protocolViolation
      else if pkt.willQoS > 2 then Prog.fail .invalidQoS
      else
        let ka ← readUint16
        pure { pkt with keepAlive := ka }

def connectProps (pkt : ConnectPacket) : Reader ConnectPacket :=
  if pkt.version = v50 then do
    let props ← readConnectProps
    let expiry ← propUint32 props 0x11
    let receive ← propUint16 props 0x21
    if receive = some 0 then Prog.fail .protocolViolation
    else
      let size ← propUint32 props 0x27
      if size = some 0 then Prog.fail .protocolViolation
      else
        let topicAlias ← propUint16 props 0x22
        pure { pkt with
          sessionExpiryInterval := expiry.getD 0
          receiveMaximum := receive.getD 0
          maximumPacketSize := size.getD 0
          topicAliasMaximum := topicAlias.getD 0 }
  else pure pkt

/-- A length of two bytes and so many bytes. -/
def readBinary : Reader (List UInt8) := do
  let length ← readUint16
  if length > 0 then readFull length.toNat else pure []

/-- The property block that only a v5 packet has here. -/
def skipPropsV5 (version : UInt8) : Reader Unit := if version = v50 then skipProps else pure ()

def connectWill (pkt : ConnectPacket) : Reader ConnectPacket :=
  if pkt.willFlag then do
    skipPropsV5 pkt.version
    let topic ← readString.mapError (.wrap "will topic")
    let payload ← readBinary
    pure { pkt with willTopic := topic, willPayload := payload }
  else pure pkt

def connectUsername (pkt : ConnectPacket) : Reader ConnectPacket :=
  if pkt.hasUsername then do
    let username ← readString.mapError (.wrap "username")
    pure { pkt with username := username }
  else pure pkt

def connectPassword (pkt : ConnectPacket) : Reader ConnectPacket :=
  if pkt.hasPassword then do
    let password ← readBinary
    pure { pkt with password := password }
  else pure pkt

def connectBody : Reader ConnectPacket := do
  let pkt ← connectHeader
  let pkt ← connectProps pkt
  let clientID ← readString.mapError (.wrap "client id")
  let pkt ← connectWill { pkt with clientID := clientID }
  let pkt ← connectUsername pkt
  connectPassword pkt

def decodeConnect (body : List UInt8) : Outcome DecodeError SliceReader ConnectPacket :=
  connectBody (newSliceReader body)

/-- An error is the result with ok = false. -/
def peekConnectProtocolLevel (body : List UInt8) : Outcome DecodeError SliceReader UInt8 :=
  connectProtocol (newSliceReader body)

/-- The packet identifier, which must not be zero. -/
def publishID (qos : UInt8) : Reader UInt16 :=
  if qos > 0 then do
    let packetID ← readUint16
    if packetID = 0 then Prog.fail .zeroPacketID else pure packetID
  else pure 0

/-- The message expiry interval and the topic alias. -/
def publishProps (version : UInt8) (topic : GoString) : Reader (UInt32 × UInt16) :=
  if version = v50 then do
    let props ← readProps
    let expiry ← propUint32 props 0x02
    let topicAlias ← propUint16 props 0x23
    if topic = [] ∧ topicAlias.getD 0 = 0 then Prog.fail .protocolViolation
    else pure (expiry.getD 0, topicAlias.getD 0)
  else pure (0, 0)

/-- The method ReadFull, which copies what there is and counts the whole buffer. -/
def copyFull (n : Nat) : Reader (List UInt8) := do
  let r ← Prog.gets id
  let tail ← Prog.orPanic (slice r.data r.pos r.data.length)
  Prog.modify (advance n)
  pure (tail.take n ++ List.replicate (n - tail.length) 0)

def publishPayload : Reader (List UInt8) := do
  let r ← Prog.gets id
  if r.remaining > 0 then copyFull r.remaining.toNat else pure []

namespace FixedHeader

def dup (fh : FixedHeader) : Bool := fh.flags &&& 0x08 ≠ 0

def qos (fh : FixedHeader) : UInt8 := (fh.flags >>> 1) &&& 0x03

def retain (fh : FixedHeader) : Bool := fh.flags &&& 0x01 ≠ 0

end FixedHeader

def publishBody (version : UInt8) (now : Nat) (fh : FixedHeader) : Reader PublishPacket := do
  if fh.qos > 2 then Prog.fail .invalidQoS
  else if fh.qos = 0 ∧ fh.dup then Prog.fail .protocolViolation
  else
    let topic ← readString.mapError (.wrap "topic")
    if (version ≠ v50 ∨ topic ≠ []) ∧ !validTopicName topic then Prog.fail .invalidTopic
    else
      let packetID ← publishID fh.qos
      let (expiry, topicAlias) ← publishProps version topic
      let payload ← publishPayload
      pure {
        dup := fh.dup, qos := fh.qos, retain := fh.retain, topic := topic, packetID := packetID
        payload := payload, messageExpiryInterval := expiry, topicAlias := topicAlias
        receivedAt := now }

def decodePublish (version : UInt8) (now : Nat) (fh : FixedHeader) (body : List UInt8) :
    Outcome DecodeError SliceReader PublishPacket :=
  publishBody version now fh (newSliceReader body)

def decodePacketID (body : List UInt8) : Outcome DecodeError Unit UInt16 :=
  if body.length < 2 then .error .malformed
  else
    (do
      let buf ← Prog.orPanic (slice body 0 2)
      Prog.orPanic (uint16 buf) : Prog DecodeError Unit UInt16) ()

structure Subscription where
  filter : GoString
  qos : UInt8
  deriving DecidableEq

/-- One turn of the loop while r.Remaining() > 0. -/
def fieldsTurn {α : Type} (field : Reader α) (fields : List α) :
    Reader (Turn (List α) (List α)) := do
  let r ← Prog.gets id
  if r.remaining > 0 then
    let f ← field
    pure (.again (fields ++ [f]))
  else pure (.stop fields)

/-- Fields of one kind, to the end of the data. -/
def readFields {α : Type} (field : Reader α) : Reader (List α) := do
  let r ← Prog.gets id
  loop (fieldsTurn field) (r.data.length + 1) []

/-- The lowest two bits of the options are the maximum QoS. -/
def subscribeField : Reader Subscription := do
  let filter ← readString
  let options ← readOne
  pure { filter := filter, qos := options &&& 0x03 }

/-- The packet identifier and, of a v5 packet, the properties. -/
def ackHeader (version : UInt8) : Reader UInt16 := do
  let packetID ← readUint16
  skipPropsV5 version
  pure packetID

def subscribeBody (version : UInt8) : Reader (UInt16 × List Subscription) := do
  let packetID ← ackHeader version
  let subs ← readFields subscribeField
  if subs.length = 0 then Prog.fail .protocolViolation
  else pure (packetID, subs)

def decodeSubscribe (version : UInt8) (body : List UInt8) :
    Outcome DecodeError SliceReader (UInt16 × List Subscription) :=
  subscribeBody version (newSliceReader body)

def unsubscribeBody (version : UInt8) : Reader (UInt16 × List GoString) := do
  let packetID ← ackHeader version
  let filters ← readFields readString
  pure (packetID, filters)

def decodeUnsubscribe (version : UInt8) (body : List UInt8) :
    Outcome DecodeError SliceReader (UInt16 × List GoString) :=
  unsubscribeBody version (newSliceReader body)

structure DisconnectPacket where
  reasonCode : UInt8
  sessionExpiryInterval : UInt32
  hasSessionExpiryProp : Bool
  deriving DecidableEq

def reasonSuccess : UInt8 := 0x00

/-- A v5 body that is not empty. -/
def disconnectBody : Reader DisconnectPacket := do
  let rc ← read 1
  let reasonCode ← Prog.orPanic rc[0]?
  let props ← readProps
  let r ← Prog.gets id
  if r.remaining ≠ 0 then Prog.fail .malformed
  else
    let expiry ← propUint32 props 0x11
    pure {
      reasonCode := reasonCode, sessionExpiryInterval := expiry.getD 0
      hasSessionExpiryProp := expiry.isSome }

/-- A v3.1.1 body must be empty. -/
def decodeDisconnect (version : UInt8) (body : List UInt8) :
    Outcome DecodeError SliceReader DisconnectPacket :=
  let normal : DisconnectPacket :=
    { reasonCode := reasonSuccess, sessionExpiryInterval := 0, hasSessionExpiryProp := false }
  if version ≠ v50 then
    if body.length ≠ 0 then .error .protocolViolation else .ok normal (newSliceReader body)
  else if body.length = 0 then .ok normal (newSliceReader body)
  else disconnectBody (newSliceReader body)

/-- The number of a four-byte property; the properties that are read have their length. -/
def value32 (props : Props) (id : UInt8) : Option UInt32 :=
  (props.get id).bind fun v => if v.length = 4 then uint32 v else none

def value16 (props : Props) (id : UInt8) : Option UInt16 :=
  (props.get id).bind fun v => if v.length = 2 then uint16 v else none

theorem propUint32_eq (props : Props) (id : UInt8) (r : SliceReader) :
    propUint32 props id r = .ok (value32 props id) r := by
  rw [propUint32, value32]
  cases props.get id with
  | none => rfl
  | some v =>
      by_cases hlen : v.length = 4
      · match v, hlen with
        | [a, b, c, d], _ => rfl
      · simp [hlen]

theorem propUint16_eq (props : Props) (id : UInt8) (r : SliceReader) :
    propUint16 props id r = .ok (value16 props id) r := by
  rw [propUint16, value16]
  cases props.get id with
  | none => rfl
  | some v =>
      by_cases hlen : v.length = 2
      · obtain ⟨a, b, rfl⟩ := List.length_eq_two.mp hlen
        rfl
      · simp [hlen]

theorem safe_propUint32 (props : Props) (id : UInt8) : Safe Forward (propUint32 props id) :=
  fun r => .inl ⟨_, r, propUint32_eq props id r, refl_of Forward r⟩

theorem safe_propUint16 (props : Props) (id : UInt8) : Safe Forward (propUint16 props id) :=
  fun r => .inl ⟨_, r, propUint16_eq props id r, refl_of Forward r⟩

theorem safe_connectProtocol : Safe Forward connectProtocol := by
  apply (safe_readString.mapError _).bind
  intro protoName
  exact Safe.ite (safe_fail _) safe_readOne

theorem safe_connectHeader : Safe Forward connectHeader := by
  apply safe_connectProtocol.bind
  intro version
  apply Safe.ite (safe_fail _)
  apply safe_readOne.bind
  intro f
  apply Safe.ite (safe_fail _)
  apply Safe.ite (safe_fail _)
  apply Safe.ite (safe_fail _)
  exact safe_readUint16.bind fun ka => safe_pure _

theorem safe_connectProps (pkt : ConnectPacket) : Safe Forward (connectProps pkt) := by
  apply Safe.ite _ (safe_pure pkt)
  apply (safe_readPropsWith connectPropSize).bind
  intro props
  apply (safe_propUint32 props 0x11).bind
  intro expiry
  apply (safe_propUint16 props 0x21).bind
  intro receive
  apply Safe.ite (safe_fail _)
  apply (safe_propUint32 props 0x27).bind
  intro size
  apply Safe.ite (safe_fail _)
  exact (safe_propUint16 props 0x22).bind fun topicAlias => safe_pure _

theorem safe_readBinary : Safe Forward readBinary := by
  apply safe_readUint16.bind
  intro length
  exact Safe.ite (safe_readFull length.toNat) (safe_pure [])

theorem safe_skipPropsV5 (version : UInt8) : Safe Forward (skipPropsV5 version) :=
  Safe.ite safe_skipProps (safe_pure ())

theorem safe_connectWill (pkt : ConnectPacket) : Safe Forward (connectWill pkt) := by
  apply Safe.ite _ (safe_pure pkt)
  apply (safe_skipPropsV5 _).bind
  intro _
  apply (safe_readString.mapError _).bind
  intro topic
  exact safe_readBinary.bind fun payload => safe_pure _

theorem safe_connectUsername (pkt : ConnectPacket) : Safe Forward (connectUsername pkt) :=
  Safe.ite ((safe_readString.mapError _).bind fun _ => safe_pure _) (safe_pure pkt)

theorem safe_connectPassword (pkt : ConnectPacket) : Safe Forward (connectPassword pkt) :=
  Safe.ite (safe_readBinary.bind fun _ => safe_pure _) (safe_pure pkt)

theorem safe_connectBody : Safe Forward connectBody := by
  apply safe_connectHeader.bind
  intro pkt
  apply (safe_connectProps pkt).bind
  intro pkt
  apply (safe_readString.mapError _).bind
  intro clientID
  apply (safe_connectWill _).bind
  intro pkt
  apply (safe_connectUsername pkt).bind
  exact safe_connectPassword

theorem safe_publishID (qos : UInt8) : Safe Forward (publishID qos) := by
  apply Safe.ite _ (safe_pure 0)
  apply safe_readUint16.bind
  intro packetID
  exact Safe.ite (safe_fail _) (safe_pure packetID)

theorem safe_publishProps (version : UInt8) (topic : GoString) :
    Safe Forward (publishProps version topic) := by
  apply Safe.ite _ (safe_pure _)
  apply (safe_readPropsWith propSize).bind
  intro props
  apply (safe_propUint32 props 0x02).bind
  intro expiry
  apply (safe_propUint16 props 0x23).bind
  intro topicAlias
  exact Safe.ite (safe_fail _) (safe_pure _)

/-- The payload is what is left; past the end of the data nothing is. -/
theorem publishPayload_eq (r : SliceReader) :
    publishPayload r = .ok r.rest (r.advance r.rest.length) := by
  by_cases hmore : r.pos < r.data.length
  · have hpos : r.remaining > 0 := by
      rw [remaining]
      omega
    have hlen : r.remaining.toNat = r.rest.length := by
      rw [length_rest, remaining]
      omega
    have hslice : slice r.data r.pos r.data.length = some r.rest := by
      refine slice_eq_some.mpr ⟨Nat.le_of_lt hmore, Nat.le_refl _, ?_⟩
      rw [rest, List.take_of_length_le (List.length_drop.le)]
    simp [publishPayload, copyFull, hpos, hlen, hslice]
  · have hend : ¬ r.remaining > 0 := by
      rw [remaining]
      omega
    have hnil : r.rest = [] := List.drop_eq_nil_iff.mpr (Nat.le_of_not_lt hmore)
    rw [publishPayload, Prog.gets_bind, id_eq, if_neg hend, hnil]
    rfl

theorem safe_publishBody (version : UInt8) (now : Nat) (fh : FixedHeader) :
    Safe Forward (publishBody version now fh) := by
  apply Safe.ite (safe_fail _)
  apply Safe.ite (safe_fail _)
  apply (safe_readString.mapError _).bind
  intro topic
  apply Safe.ite (safe_fail _)
  apply (safe_publishID _).bind
  intro packetID
  apply (safe_publishProps version topic).bind
  intro props r
  apply SafeAt.bind (.inl ⟨_, _, publishPayload_eq r, forward_advance _ r⟩)
  intro payload t _
  exact safe_pure _ t

theorem decodePacketID_returns (body : List UInt8) : (decodePacketID body).Returns := by
  match body with
  | [] => trivial
  | [a] => trivial
  | a :: b :: tail =>
      have hlen : ¬ (a :: b :: tail).length < 2 := by simp
      rw [decodePacketID, if_neg hlen]
      trivial

theorem fieldsTurn_again {α : Type} {field : Reader α} {fields fields' : List α}
    {r t : SliceReader} :
    fieldsTurn field fields r = .ok (.again fields') t ↔
      r.remaining > 0 ∧ ∃ f, field r = .ok f t ∧ fields' = fields ++ [f] := by
  by_cases hrem : r.remaining > 0
  · simp only [fieldsTurn, Prog.gets_bind, id_eq, hrem, if_true, Prog.bind_eq_ok, true_and]
    constructor
    · rintro ⟨f, u, hf, hu⟩
      cases hu
      exact ⟨f, hf, rfl⟩
    · rintro ⟨f, hf, rfl⟩
      exact ⟨f, t, hf, rfl⟩
  · simp [fieldsTurn, hrem]

theorem fieldsTurn_stop {α : Type} {field : Reader α} {fields fields' : List α}
    {r t : SliceReader} :
    fieldsTurn field fields r = .ok (.stop fields') t ↔
      ¬ r.remaining > 0 ∧ fields' = fields ∧ t = r := by
  by_cases hrem : r.remaining > 0
  · simp only [fieldsTurn, Prog.gets_bind, id_eq, hrem, if_true, Prog.bind_eq_ok, not_true,
      false_and, iff_false]
    rintro ⟨f, u, -, hu⟩
    cases hu
  · simp only [fieldsTurn, Prog.gets_bind, id_eq, hrem, if_false, not_false_eq_true, true_and]
    constructor
    · intro h
      cases h
      exact ⟨rfl, rfl⟩
    · rintro ⟨rfl, rfl⟩
      rfl

/-- A field that is not empty makes progress to the end of the data. -/
theorem safe_readFields {α : Type} {field : Reader α} (hfield : Safe Forward field)
    (hmore : ∀ r f t, field r = .ok f t → r.pos < t.pos) : Safe Forward (readFields field) := by
  apply safe_gets_bind
  intro r
  apply safe_loop (fun r => r.data.length - r.pos)
  · intro fields
    apply safe_gets_bind
    intro s
    exact Safe.ite (hfield.bind fun f => safe_pure _) (safe_pure _) s
  · intro fields s fields' t hturn
    obtain ⟨hrem, f, hf, -⟩ := fieldsTurn_again.mp hturn
    have hforward := (hfield s).rel hf
    have hpos := hmore s f t hf
    rw [remaining] at hrem
    rw [hforward.1]
    omega
  · rw [id_eq]
    omega

theorem readString_pos {r t : SliceReader} {s : GoString} (h : readString r = .ok s t) :
    r.pos < t.pos := by
  obtain ⟨-, rfl, -⟩ := readString_eq_ok.mp h
  rw [pos_advance]
  omega

theorem safe_subscribeField : Safe Forward subscribeField := by
  apply safe_readString.bind
  intro filter
  exact safe_readOne.bind fun options => safe_pure _

theorem subscribeField_pos {r t : SliceReader} {s : Subscription} (h : subscribeField r = .ok s t) :
    r.pos < t.pos := by
  obtain ⟨filter, u, hfilter, hrest⟩ := Prog.bind_eq_ok.mp h
  have hforward := ((safe_readOne.bind fun options => safe_pure _) u).rel hrest
  exact Nat.lt_of_lt_of_le (readString_pos hfilter) hforward.2

/-- Fields of two bytes at least are at most half as many as the bytes that are left. -/
theorem length_readFields {α : Type} {field : Reader α}
    (hfield : ∀ r f t, field r = .ok f t → t.rest.length + 2 ≤ r.rest.length) {r t : SliceReader}
    {fields : List α} (h : readFields field r = .ok fields t) :
    2 * fields.length ≤ r.rest.length := by
  have hloop : loop (fieldsTurn field) (r.data.length + 1) [] r = .ok fields t := h
  refine loop_rule (I := fun acc s => 2 * acc.length + s.rest.length ≤ r.rest.length)
    (Q := fun acc _ => 2 * acc.length ≤ r.rest.length) ?_ ?_ (by simp) hloop
  · intro acc s acc' u hI hturn
    obtain ⟨-, f, hf, rfl⟩ := fieldsTurn_again.mp hturn
    have hless := hfield s f u hf
    rw [List.length_append, List.length_singleton]
    omega
  · intro acc s acc' u hI hturn
    obtain ⟨-, rfl, rfl⟩ := fieldsTurn_stop.mp hturn
    omega

theorem length_readString {r t : SliceReader} {s : GoString} (h : readString r = .ok s t) :
    t.rest.length + 2 ≤ r.rest.length := by
  obtain ⟨-, -, hrest⟩ := readString_eq_ok.mp h
  rw [hrest, List.length_append, length_stringField]
  omega

theorem length_subscribeField {r t : SliceReader} {s : Subscription}
    (h : subscribeField r = .ok s t) : t.rest.length + 2 ≤ r.rest.length := by
  obtain ⟨filter, u, hfilter, hrest⟩ := Prog.bind_eq_ok.mp h
  have hforward := ((safe_readOne.bind fun options => safe_pure _) u).rel hrest
  have hless := length_readString hfilter
  have hle := hforward.length_rest_le
  omega

theorem length_ackHeader {version : UInt8} {r t : SliceReader} {id : UInt16}
    (h : ackHeader version r = .ok id t) : t.rest.length + 2 ≤ r.rest.length := by
  obtain ⟨packetID, u, hid, hrest⟩ := Prog.bind_eq_ok.mp h
  obtain ⟨-, hu⟩ := readUint16_eq_ok.mp hid
  have hforward := (((safe_skipPropsV5 version).bind fun _ => safe_pure packetID) u).rel hrest
  have hle := hforward.length_rest_le
  rw [hu, List.length_append, length_bytes16]
  omega

/-- The packet identifier and at least two bytes an entry. -/
theorem length_decodeSubscribe {version : UInt8} {body : List UInt8} {packetID : UInt16}
    {subs : List Subscription} {t : SliceReader}
    (h : decodeSubscribe version body = .ok (packetID, subs) t) :
    2 + 2 * subs.length ≤ body.length := by
  obtain ⟨id, u, hid, hrest⟩ := Prog.bind_eq_ok.mp h
  obtain ⟨fields, v, hfields, hend⟩ := Prog.bind_eq_ok.mp hrest
  have hheader := length_ackHeader hid
  have hless := length_readFields (fun _ _ _ => length_subscribeField) hfields
  rw [Prog.ite_fail_eq_ok] at hend
  cases hend.2
  have hbody : (newSliceReader body).rest.length = body.length := rfl
  omega

theorem length_decodeUnsubscribe {version : UInt8} {body : List UInt8} {packetID : UInt16}
    {filters : List GoString} {t : SliceReader}
    (h : decodeUnsubscribe version body = .ok (packetID, filters) t) :
    2 + 2 * filters.length ≤ body.length := by
  obtain ⟨id, u, hid, hrest⟩ := Prog.bind_eq_ok.mp h
  obtain ⟨fields, v, hfields, hend⟩ := Prog.bind_eq_ok.mp hrest
  have hheader := length_ackHeader hid
  have hless := length_readFields (fun _ _ _ => length_readString) hfields
  cases hend
  have hbody : (newSliceReader body).rest.length = body.length := rfl
  omega

theorem safe_ackHeader (version : UInt8) : Safe Forward (ackHeader version) := by
  apply safe_readUint16.bind
  intro packetID
  exact (safe_skipPropsV5 version).bind fun _ => safe_pure packetID

theorem safe_subscribeBody (version : UInt8) : Safe Forward (subscribeBody version) := by
  apply (safe_ackHeader version).bind
  intro packetID
  apply (safe_readFields safe_subscribeField fun r s t => subscribeField_pos).bind
  intro subs
  exact Safe.ite (safe_fail _) (safe_pure _)

theorem safe_unsubscribeBody (version : UInt8) : Safe Forward (unsubscribeBody version) := by
  apply (safe_ackHeader version).bind
  intro packetID
  exact (safe_readFields safe_readString fun r s t => readString_pos).bind fun _ => safe_pure _

theorem safeAt_disconnectBody {r : SliceReader} (h : r.rest ≠ []) :
    SafeAt Forward disconnectBody r := by
  cases hrest : r.rest with
  | nil => exact absurd hrest h
  | cons b tail =>
      have hpos : r.pos < r.data.length := by
        have hlen := congrArg List.length hrest
        rw [length_rest, List.length_cons] at hlen
        omega
      have hread := read_of_lt hpos 1
      apply SafeAt.bind (.inl ⟨_, _, hread, forward_advance _ r⟩)
      intro rc t hrc
      rw [hread, hrest] at hrc
      cases hrc
      apply ((safe_readPropsWith propSize).bind ?_ _)
      intro props
      apply safe_gets_bind
      intro u
      exact Safe.ite (safe_fail _) ((safe_propUint32 props 0x11).bind fun _ => safe_pure _) u

theorem decodeDisconnect_returns (version : UInt8) (body : List UInt8) :
    (decodeDisconnect version body).Returns := by
  rw [decodeDisconnect]
  split
  · split <;> trivial
  · split
    · trivial
    · next hbody =>
        apply SafeAt.returns
        apply safeAt_disconnectBody
        intro hnil
        exact hbody (List.length_eq_zero_iff.mpr hnil)

/-- On any version byte, any flags and any body the decoders return: no access is out of
range and no loop runs on, not even behind a property block that put the reader past the
end. -/
theorem decoders_return (version : UInt8) (now : Nat) (fh : FixedHeader) (body : List UInt8) :
    (decodeConnect body).Returns ∧ (peekConnectProtocolLevel body).Returns ∧
      (decodePublish version now fh body).Returns ∧ (decodeSubscribe version body).Returns ∧
      (decodeUnsubscribe version body).Returns ∧ (decodeDisconnect version body).Returns ∧
      (decodePacketID body).Returns :=
  ⟨(safe_connectBody _).returns, (safe_connectProtocol _).returns,
    (safe_publishBody version now fh _).returns, (safe_subscribeBody version _).returns,
    (safe_unsubscribeBody version _).returns, decodeDisconnect_returns version body,
    decodePacketID_returns body⟩

end LumaBroker.Protocol
