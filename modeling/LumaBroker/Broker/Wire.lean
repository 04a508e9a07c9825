import LumaBroker.Api.Server
import LumaBroker.Broker.Deliver
import LumaBroker.Broker.Publish
import LumaBroker.Protocol.Codec

/-!
The bytes of a delivered PUBLISH. Messages come to Router.Publish from clients, wills, the
REST interface, WebSocket commands and other brokers, and each path checks the topic and
the QoS in its own way or not at all; the delivery closure encodes what it is given.
-/

namespace LumaBroker.Broker

open Faulting Protocol Protocol.SliceReader

/-- The call apiPublishLoop makes for a message of the interface. -/
def apiPublishCall (msg : Api.APIPublishMsg) : PublishCall :=
  ⟨msg.topic, msg.payload, msg.qos, msg.retain⟩

/-- The argument of the closure for a message and the QoS of the subscriber. -/
def deliverArg (call : PublishCall) (subQoS : UInt8) (retain : Bool) : Session.Queued :=
  ⟨call.topic, call.payload, if subQoS < call.qos then subQoS else call.qos, retain⟩

/-- The encoding of the closure; none is the panic of encodeVarInt. -/
def encodeDelivery (version : UInt8) (topic : GoString) (payload : List UInt8) (qos : UInt8)
    (retain : Bool) (pid : UInt16) : Option (List UInt8) :=
  if version = v50 then encodePublishV5 topic payload qos retain pid false []
  else encodePublish topic payload qos retain pid false

/-- The bytes are one PUBLISH packet that DecodePublish accepts. -/
def WellFormed (version : UInt8) (now : Nat) (bytes : List UInt8) : Prop :=
  ∃ fh body, readFixed bytes = .ok fh body ∧ fh.type = .publish ∧ fh.remainingLength = body.length ∧
    ∃ pkt t, decodePublish version now fh body = .ok pkt t

/-- The empty property section of the closure's v5 packets. -/
def propSection (version : UInt8) : List UInt8 := if version = v50 then [0] else []

/-- The packet fits into the remaining length, the topic into its field, the QoS bits are
not 3, and the topic is valid. On v5 a QoS byte above 3 with both QoS bits clear makes the
decoder read the packet identifier as the beginning of the property section. -/
def Sendable (version : UInt8) (topic : GoString) (payload : List UInt8) (qos : UInt8)
    (pid : UInt16) : Prop :=
  2 + topic.length + (if qos > 0 then 2 else 0) + (propSection version).length + payload.length ≤
      maxRemainingLength ∧
    topic.length ≤ maxTopicLen ∧ qos &&& 3 ≠ 3 ∧
    if version = v50 ∧ qos > 0 ∧ qos &&& 3 = 0 then
      (topic ≠ [] → validTopicName topic = true) ∧
        ∃ x t, publishProps v50 topic ⟨publishWire topic qos pid [0] payload, 2 + topic.length⟩ =
          .ok x t
    else validTopicName topic = true

theorem encodeDelivery_eq (version : UInt8) (topic : GoString) (payload : List UInt8) (qos : UInt8)
    (retain : Bool) (pid : UInt16) :
    encodeDelivery version topic payload qos retain pid =
      encodePublishWith (propSection version) topic payload qos retain pid false := by
  rw [encodeDelivery, propSection]
  split <;> rfl

theorem stringField_append_inj {s s' : GoString} {x x' : List UInt8} (h : s.length ≤ maxTopicLen)
    (h' : s'.length ≤ maxTopicLen) (heq : stringField s ++ x = stringField s' ++ x') :
    s = s' ∧ x = x' := by
  let r := newSliceReader (stringField s ++ x)
  have hx : (r.advance (2 + s.length)).rest = x := by
    rw [← length_stringField]
    exact rest_advance rfl
  have hx' : (r.advance (2 + s'.length)).rest = x' := by
    rw [← length_stringField]
    exact rest_advance heq
  have hread : readString r = .ok s _ := readString_eq_ok.mpr ⟨h, rfl, by rw [hx]; rfl⟩
  have hread' : readString r = .ok s' _ := readString_eq_ok.mpr ⟨h', rfl, by rw [hx']; exact heq⟩
  rw [hread] at hread'
  cases hread'
  exact ⟨rfl, hx.symm.trans hx'⟩

/-- The reader behind the fields that the QoS bits of the header announce. -/
def propsReader (topic : GoString) (qos : UInt8) (wire : List UInt8) : SliceReader :=
  ⟨wire, 2 + topic.length + if qos &&& 3 > 0 then 2 else 0⟩

theorem pos_of_and_3 {qos : UInt8} (h : qos &&& 3 > 0) : qos > 0 := by
  by_contra hzero
  have hqos : qos = 0 := UInt8.le_zero_iff.mp (UInt8.not_lt.mp hzero)
  rw [hqos] at h
  exact absurd h (by decide)

theorem rest_propsReader (topic : GoString) (qos : UInt8) (pid : UInt16)
    (tail payload : List UInt8) :
    (propsReader topic qos (publishWire topic qos pid tail payload)).rest =
      if qos &&& 3 > 0 then tail ++ payload else idField qos pid ++ (tail ++ payload) := by
  by_cases h : qos &&& 3 > 0
  · have hid : idField qos pid = bytes16 pid := if_pos (pos_of_and_3 h)
    have hlen : 2 + topic.length + 2 = (stringField topic ++ bytes16 pid).length := by
      rw [List.length_append, length_stringField, length_bytes16]
    rw [propsReader, if_pos h, if_pos h, rest, publishWire, hid, ← List.append_assoc, hlen,
      List.drop_left]
  · rw [propsReader, if_neg h, if_neg h, rest, publishWire, Nat.add_zero, ← length_stringField,
      List.drop_left]

theorem decodes_iff {version : UInt8} {topic : GoString} {qos : UInt8} {pid : UInt16}
    {tail payload : List UInt8} (now n : Nat) (retain : Bool) (hlen : topic.length ≤ maxTopicLen)
    (hid : qos > 0 → pid ≠ 0) :
    (∃ pkt t, decodePublish version now (publishHeader qos retain false n)
        (publishWire topic qos pid tail payload) = .ok pkt t) ↔
      qos &&& 3 ≠ 3 ∧ (version ≠ v50 ∨ topic ≠ [] → validTopicName topic = true) ∧
        ∃ x w, publishProps version topic
          (propsReader topic qos (publishWire topic qos pid tail payload)) = .ok x w := by
  obtain ⟨-, hdup, hqos, -⟩ := publishFlags_parts qos retain false n
  have hreader (id : UInt16) :
      (newSliceReader (publishWire topic qos pid tail payload)).advance
        (2 + topic.length + (idField (qos &&& 3) id).length) =
      propsReader topic qos (publishWire topic qos pid tail payload) := by
    rw [length_idField]
    simp [advance, newSliceReader, propsReader]
  constructor
  · rintro ⟨pkt, t, h⟩
    obtain ⟨hle, -, topic', id, u, expiry, topicAlias, w, hlen', hvalid, -, hu, hbody, hprops, -⟩ :=
      publishBody_eq_ok.mp h
    obtain ⟨rfl, -⟩ := stringField_append_inj hlen hlen' hbody
    rw [publishHeader, hqos, hreader] at hu
    rw [publishHeader, hqos] at hle
    refine ⟨?_, hvalid, (expiry, topicAlias), w, hu ▸ hprops⟩
    intro hthree
    rw [hthree] at hle
    exact absurd hle (by decide)
  · rintro ⟨hthree, hvalid, ⟨expiry, topicAlias⟩, w, hprops⟩
    have hle : qos &&& 3 ≤ 2 := by
      rcases and_3_cases qos with h | h | h | h
      · rw [h]; decide
      · rw [h]; decide
      · rw [h]
      · exact absurd h hthree
    refine ⟨_, _, publishBody_eq_ok.mpr ⟨?_, fun _ => hdup, topic,
      if qos &&& 3 > 0 then pid else 0, _,
      expiry, topicAlias, w, hlen, hvalid, ?_, ?_, ?_, hprops, rfl, rfl⟩⟩
    · rw [publishHeader, hqos]
      exact hle
    · rw [publishHeader, hqos]
      exact sentID_ne_zero fun h => hid (pos_of_and_3 h)
    · rw [publishHeader, hqos, hreader]
    · rw [publishHeader, hqos, rest_propsReader, idField_sentID]
      change publishWire topic qos pid tail payload = _
      rw [publishWire]
      by_cases h : qos &&& 3 > 0
      · rw [if_pos h, idField, if_pos (pos_of_and_3 h), idField, if_pos h]
      · rw [if_neg h, idField, idField, if_neg h, List.nil_append]

/-- An empty property section is accepted with any topic but the empty one. -/
theorem publishProps_empty {topic : GoString} {payload : List UInt8} {u : SliceReader}
    (hu : u.rest = 0 :: payload) :
    (∃ x w, publishProps v50 topic u = .ok x w) ↔ topic ≠ [] := by
  have hblock : payload = propBytes [] ++ ([] ++ payload) := rfl
  have hlen : u.rest = [0] ++ payload := hu
  have hread : readProps u = .ok FinMap.empty (u.advance 1) :=
    readPropsWith_of_fits (Varint.delimited_singleton (by decide)) (by decide) hlen hblock rfl
      (by simp [Known]) (by simp)
  constructor
  · rintro ⟨⟨expiry, topicAlias⟩, w, h⟩ rfl
    obtain ⟨props, hprops, -, rfl, hbad⟩ := publishProps_v50.mp h
    rw [hread] at hprops
    cases hprops
    exact hbad ⟨rfl, rfl⟩
  · intro htopic
    exact ⟨(0, 0), _, publishProps_v50.mpr ⟨_, hread, rfl, rfl, fun h => htopic h.1⟩⟩

theorem ne_nil_of_valid {topic : GoString} (h : validTopicName topic = true) : topic ≠ [] := by
  rintro rfl
  cases h

/-- What the decoder asks of the properties, by version and QoS byte. -/
theorem props_accepted_iff {version : UInt8} {topic : GoString} {qos : UInt8} {pid : UInt16}
    {payload : List UInt8} :
    ((version ≠ v50 ∨ topic ≠ [] → validTopicName topic = true) ∧
      ∃ x w, publishProps version topic
        (propsReader topic qos (publishWire topic qos pid (propSection version) payload)) =
          .ok x w) ↔
    if version = v50 ∧ qos > 0 ∧ qos &&& 3 = 0 then
      (topic ≠ [] → validTopicName topic = true) ∧
        ∃ x t, publishProps v50 topic ⟨publishWire topic qos pid [0] payload, 2 + topic.length⟩ =
          .ok x t
    else validTopicName topic = true := by
  by_cases hv : version = v50
  · subst hv
    by_cases hodd : qos > 0 ∧ qos &&& 3 = 0
    · rw [if_pos ⟨rfl, hodd⟩, propsReader, if_neg (by rw [hodd.2]; decide), Nat.add_zero]
      simp only [ne_eq, not_true, false_or]
      rfl
    · rw [if_neg fun h => hodd h.2]
      have hrest :
          (propsReader topic qos (publishWire topic qos pid (propSection v50) payload)).rest =
          0 :: payload := by
        rw [rest_propsReader]
        split
        · rfl
        · next h =>
            have hzero : ¬ qos > 0 :=
              fun hpos => hodd ⟨hpos, UInt8.le_zero_iff.mp (UInt8.not_lt.mp h)⟩
            rw [idField, if_neg hzero]
            rfl
      rw [publishProps_empty hrest]
      constructor
      · rintro ⟨hvalid, hne⟩
        exact hvalid (.inr hne)
      · intro hvalid
        exact ⟨fun _ => hvalid, ne_nil_of_valid hvalid⟩
  · rw [if_neg fun h => hv h.1]
    constructor
    · rintro ⟨hvalid, -⟩
      exact hvalid (.inl hv)
    · intro hvalid
      exact ⟨fun _ => hvalid, (0, 0), _, by rw [publishProps, if_neg hv]; rfl⟩

/-- The closure's encoding is one acceptable packet just when the message is sendable. -/
theorem encodeDelivery_wellFormed_iff {version : UInt8} {topic : GoString} {payload : List UInt8}
    {qos : UInt8} {pid : UInt16} (now : Nat) (retain : Bool) (hid : qos > 0 → pid ≠ 0) :
    (∃ bytes, encodeDelivery version topic payload qos retain pid = some bytes ∧
      WellFormed version now bytes) ↔ Sendable version topic payload qos pid := by
  rw [encodeDelivery_eq, encodePublishWith_eq, Sendable, ← length_publishWire topic qos pid]
  by_cases hsize : (publishWire topic qos pid (propSection version) payload).length ≤
    maxRemainingLength
  · rw [if_pos hsize]
    have hfixed := readFixed_encode qos retain false
      (publishWire (topic.take maxTopicLen) qos pid (propSection version) payload) hsize
    constructor
    · rintro ⟨bytes, hbytes, fh, body, hread, -, hlength, hdecode⟩
      cases hbytes
      rw [hfixed] at hread
      cases hread
      have hlen : topic.length ≤ maxTopicLen := by
        change (publishWire topic qos pid (propSection version) payload).length = _ at hlength
        rw [length_publishWire, length_publishWire, List.length_take] at hlength
        omega
      rw [List.take_of_length_le hlen] at hdecode
      obtain ⟨hthree, hprops⟩ := (decodes_iff now _ retain hlen hid).mp hdecode
      exact ⟨hsize, hlen, hthree, props_accepted_iff.mp hprops⟩
    · rintro ⟨-, hlen, hthree, hprops⟩
      refine ⟨_, rfl, _, _, hfixed, rfl, ?_, ?_⟩
      · rw [List.take_of_length_le hlen]
        rfl
      · rw [List.take_of_length_le hlen]
        exact (decodes_iff now _ retain hlen hid).mpr ⟨hthree, props_accepted_iff.mpr hprops⟩
  · rw [if_neg hsize]
    constructor
    · rintro ⟨bytes, hbytes, -⟩
      cases hbytes
    · rintro ⟨h, -⟩
      exact absurd h hsize

/-- The identifier the closure draws for a message. -/
def drawnID (sess : Session) (qos : UInt8) : UInt16 :=
  if qos = 0 then 0 else (sess.nextPacketID.map Prod.fst).getD 0

theorem handed_eq {now : Nat} {m : Session.Queued} {c : Conn} {sess : Session} {d : Delivered}
    {out : Outbound} (h : deliver now m c sess = some d) (hout : out ∈ d.handed) :
    out = .publish c.version m.topic m.payload m.qos m.retain (drawnID sess m.qos) ∧
      (m.qos > 0 → drawnID sess m.qos ≠ 0) := by
  simp only [deliver] at h
  split_ifs at h with hstate hpeer hqos
  · cases h
    cases hout
  · cases h
    cases hout
  · cases h
    rw [drawnID, if_pos hqos]
    exact ⟨List.mem_singleton.mp hout, fun hpos => absurd hqos.symm (UInt8.ne_of_lt hpos)⟩
  · obtain ⟨⟨pid, sess'⟩, hpid, rfl⟩ := Option.map_eq_some_iff.mp h
    have hdrawn : drawnID sess m.qos = pid := by simp [drawnID, hqos, hpid]
    rw [hdrawn]
    refine ⟨?_, fun _ => Session.nextPacketIDFrom_ne_zero hpid⟩
    simp only [sendTracked] at hout
    split at hout
    · exact List.mem_singleton.mp hout
    · cases hout

/-- The bytes of a PUBLISH that was passed to enqueue. -/
def publishBytes : Outbound → Option (List UInt8)
  | .publish version topic payload qos retain pid =>
      encodeDelivery version topic payload qos retain pid
  | _ => none

/-- Whatever path a message took to Router.Publish and whatever QoS the subscriber has, the
bytes for a connected client are one well-formed PUBLISH just when the message is sendable. -/
theorem delivered_wellFormed_iff (call : PublishCall) (subQoS : UInt8) (retain : Bool) (now : Nat)
    (c : Conn) (sess : Session) (d : Delivered) (out : Outbound)
    (hdeliver : deliver now (deliverArg call subQoS retain) c sess = some d)
    (hout : out ∈ d.handed) :
    (∃ bytes, publishBytes out = some bytes ∧ WellFormed c.version now bytes) ↔
      Sendable c.version call.topic call.payload (deliverArg call subQoS retain).qos
        (drawnID sess (deliverArg call subQoS retain).qos) := by
  obtain ⟨rfl, hid⟩ := handed_eq hdeliver hout
  exact encodeDelivery_wellFormed_iff now retain hid

def online (version : UInt8) : Conn :=
  ⟨str "c1", version, .connected, [], 512, FinMap.empty, 0, 0, 0⟩

/-- A QoS 1 message of the REST interface for a v5 subscriber. -/
theorem delivered_wellFormed_rest :
    ∃ msg d, Api.handlePublish ⟨str "a/b", str "on", 1, false⟩ (str "u1") = some msg ∧
      deliver 0 (deliverArg (apiPublishCall msg) 1 false) (online v50)
        (Session.new (str "c1") true 0) =
        some d ∧
      ∃ out ∈ d.handed, ∃ bytes, publishBytes out = some bytes ∧ WellFormed v50 0 bytes := by
  refine ⟨_, _, rfl, rfl, .publish v50 (str "a/b") (str "on") 1 false 1,
    List.mem_singleton_self _, ?_⟩
  apply (delivered_wellFormed_iff (apiPublishCall ⟨str "a/b", str "on", 1, false, str "u1"⟩) 1
    false 0 (online v50) (Session.new (str "c1") true 0) _ _ rfl (List.mem_singleton_self _)).mpr
  refine ⟨by decide, by decide, by decide, ?_⟩
  rw [if_neg (by decide)]
  decide

/-- The client is handed bytes that are not one acceptable PUBLISH. -/
def Garbled (call : PublishCall) (subQoS : UInt8) (version : UInt8) : Prop :=
  ∃ d, deliver 0 (deliverArg call subQoS false) (online version)
    (Session.new (str "c1") true 0) = some d ∧
    ∃ out ∈ d.handed, ¬ ∃ bytes, publishBytes out = some bytes ∧ WellFormed version 0 bytes

theorem garbled_of_not_sendable {call : PublishCall} {subQoS version : UInt8} {d : Delivered}
    {out : Outbound}
    (h : deliver 0 (deliverArg call subQoS false) (online version)
      (Session.new (str "c1") true 0) = some d)
    (hout : out ∈ d.handed)
    (hnot : ¬ Sendable version call.topic call.payload (deliverArg call subQoS false).qos
      (drawnID (Session.new (str "c1") true 0) (deliverArg call subQoS false).qos)) :
    Garbled call subQoS version := by
  obtain ⟨rfl, hid⟩ := handed_eq h hout
  exact ⟨d, h, _, hout, fun hgood => hnot ((encodeDelivery_wellFormed_iff 0 false hid).mp hgood)⟩

theorem deliver_qos0 {m : Session.Queued} {c : Conn} (hstate : c.state = .connected)
    (hpeer : c.peerMaxPacketSize = 0) (hqos : m.qos = 0) (now : Nat) (sess : Session) :
    deliver now m c sess = some (sendPublish m 0 c sess) := by
  simp [deliver, hstate, hpeer, hqos]

theorem garbled_of_long_topic {call : PublishCall} (hqos : call.qos = 0)
    (hlen : maxTopicLen < call.topic.length) : Garbled call 0 v311 := by
  have harg : (deliverArg call 0 false).qos = 0 := by simp [deliverArg, hqos]
  apply garbled_of_not_sendable (deliver_qos0 rfl rfl harg 0 _) (List.mem_singleton_self _)
  rintro ⟨-, hle, -⟩
  omega

/-- The REST check has no bound on the length of the topic. -/
theorem handlePublish_replicate {n : Nat} (hn : n ≠ 0) :
    Api.handlePublish ⟨List.replicate n 97, str "on", 0, false⟩ (str "u1") =
      some ⟨List.replicate n 97, str "on", 0, false, str "u1"⟩ := by
  simp [Api.handlePublish, Api.protocolValidTopic, wildcardByte, hn]

/-- A CONNECT with the will topic a/# . -/
def wildcardWill : List UInt8 :=
  stringField (str "MQTT") ++ [4, 6, 0, 10] ++ stringField (str "c2") ++ stringField (str "a/#") ++
    stringField (str "bye")

def wildcardWillPacket : Protocol.ConnectPacket :=
  { connectFlags 4 6 with
    keepAlive := 10, clientID := str "c2", willTopic := str "a/#", willPayload := str "bye" }

/-- A WebSocket command with a wildcard topic, a REST message with a topic of 65536 bytes, a
REST message and a restored subscription of QoS 3, and a will with a wildcard topic. -/
theorem ingress_garbled :
    (∃ msg, Api.handleWSPublish (str "a/+") (str "on") 0 = some msg ∧
      Garbled (apiPublishCall msg) 0 v311) ∧
    (∃ msg, Api.handlePublish ⟨List.replicate 65536 97, str "on", 0, false⟩ (str "u1") = some msg ∧
      Garbled (apiPublishCall msg) 0 v311) ∧
    (∃ msg, Api.handlePublish ⟨str "a/b", str "on", 3, false⟩ (str "u1") = some msg ∧
      Garbled (apiPublishCall msg) 3 v50) ∧
    (decodeConnect wildcardWill = .ok wildcardWillPacket ⟨wildcardWill, 24⟩ ∧
      Garbled (willCall (connectWill wildcardWillPacket)) 0 v311) := by
  refine ⟨⟨_, rfl, ?_⟩, ⟨_, handlePublish_replicate (by decide), garbled_of_long_topic rfl ?_⟩,
    ⟨_, rfl, ?_⟩, ⟨by decide +kernel, ?_⟩⟩
  · apply garbled_of_not_sendable rfl (List.mem_singleton_self _)
    rintro ⟨-, -, -, hvalid⟩
    rw [if_neg (by decide)] at hvalid
    exact absurd hvalid (by decide)
  · rw [apiPublishCall, List.length_replicate]
    decide
  · apply garbled_of_not_sendable rfl (List.mem_singleton_self _)
    rintro ⟨-, -, hthree, -⟩
    exact absurd hthree (by decide)
  · apply garbled_of_not_sendable rfl (List.mem_singleton_self _)
    rintro ⟨-, -, -, hvalid⟩
    rw [if_neg (by decide)] at hvalid
    exact absurd hvalid (by decide)

section PacketSize
variable {now : Nat} {m : Session.Queued} {c : Conn} {sess : Session} {d : Delivered}

/-- The remaining length that the encoders announce for a message. -/
def announcedLength (version : UInt8) (m : Session.Queued) : Nat :=
  2 + m.topic.length + (if m.qos > 0 then 2 else 0) + (propSection version).length +
    m.payload.length

theorem approxClientOutboundPublishBytes_eq (version : UInt8) (m : Session.Queued) :
    approxClientOutboundPublishBytes version m.topic m.payload.length m.qos = 5 +
      announcedLength version m := by
  have hprops : (propSection version).length = if version = v50 then 1 else 0 := by
    rw [propSection]
    split <;> rfl
  rw [announcedLength, hprops]
  rfl

/-- The estimate takes four bytes for the length and counts the part of the topic that
appendString cuts off. -/
theorem length_encodeDelivery_le {version : UInt8}
    (hfits : announcedLength version m ≤ maxRemainingLength) (pid : UInt16) :
    ∃ bytes, encodeDelivery version m.topic m.payload m.qos m.retain pid = some bytes ∧
      bytes.length ≤ approxClientOutboundPublishBytes version m.topic m.payload.length m.qos := by
  have hwire : (publishWire m.topic m.qos pid (propSection version) m.payload).length =
      announcedLength version m := length_publishWire ..
  have hvar : (Varint.encode (announcedLength version m)).length ≤ 4 :=
    length_encode_le_four hfits
  rw [encodeDelivery_eq, encodePublishWith_eq, hwire, if_pos hfits]
  refine ⟨_, rfl, ?_⟩
  have hcut :
      (publishWire (m.topic.take maxTopicLen) m.qos pid (propSection version) m.payload).length ≤
      announcedLength version m := by
    rw [length_publishWire, announcedLength, List.length_take]
    omega
  rw [approxClientOutboundPublishBytes_eq, List.length_cons, List.length_append]
  omega

theorem approx_le_of_handed {out : Outbound} (h : deliver now m c sess = some d)
    (hout : out ∈ d.handed) (hlimit : c.peerMaxPacketSize > 0) :
    UInt32.ofNat (approxClientOutboundPublishBytes c.version m.topic m.payload.length m.qos) ≤
      c.peerMaxPacketSize := by
  simp only [deliver] at h
  split_ifs at h with hstate hpeer hqos
  · cases h
    cases hout
  · cases h
    cases hout
  · exact UInt32.not_lt.mp fun hlt => hpeer ⟨hlimit, hlt⟩
  · exact UInt32.not_lt.mp fun hlt => hpeer ⟨hlimit, hlt⟩

/-- No PUBLISH that the closure passes on is longer than the peer's Maximum Packet Size: the
estimate it compares is never below the encoded length and survives the conversion to uint32. -/
theorem delivered_within_peerMaxPacketSize
    (hfits : announcedLength c.version m ≤ maxRemainingLength)
    (hdeliver : deliver now m c sess = some d) :
    let approx := approxClientOutboundPublishBytes c.version m.topic m.payload.length m.qos
    (UInt32.ofNat approx).toNat = approx ∧
      (∀ pid, ∃ bytes, encodeDelivery c.version m.topic m.payload m.qos m.retain pid = some bytes ∧
        bytes.length ≤ approx) ∧
      (c.peerMaxPacketSize > 0 → ∀ out ∈ d.handed, ∃ bytes, publishBytes out = some bytes ∧
        bytes.length ≤ c.peerMaxPacketSize.toNat) := by
  intro approx
  have happrox : approx < 2 ^ 32 := by
    rw [maxRemainingLength] at hfits
    simp only [approx, approxClientOutboundPublishBytes_eq]
    omega
  have hsame : (UInt32.ofNat approx).toNat = approx := UInt32.toNat_ofNat_of_lt' happrox
  refine ⟨hsame, length_encodeDelivery_le hfits, fun hlimit out hout => ?_⟩
  obtain ⟨rfl, -⟩ := handed_eq hdeliver hout
  obtain ⟨bytes, hbytes, hle⟩ := length_encodeDelivery_le hfits (drawnID sess m.qos)
  have hpeer : (UInt32.ofNat approx).toNat ≤ c.peerMaxPacketSize.toNat :=
    UInt32.le_iff_toNat_le.mp (approx_le_of_handed hdeliver hout hlimit)
  rw [hsame] at hpeer
  exact ⟨bytes, hbytes, Nat.le_trans hle hpeer⟩

/-- A QoS 1 message for a v5 client that takes packets of up to 12 bytes. -/
theorem delivered_within_peerMaxPacketSize_twelve :
    ∃ d, deliver 0 ⟨str "a", [1], 1, false⟩ { online v50 with peerMaxPacketSize := 12 }
        (Session.new (str "c1") true 0) = some d ∧
      ∃ out ∈ d.handed, ∃ bytes, publishBytes out = some bytes ∧ bytes.length ≤ 12 := by
  obtain ⟨d, hdeliver, hout⟩ : ∃ d, deliver 0 ⟨str "a", [1], 1, false⟩
      { online v50 with peerMaxPacketSize := 12 } (Session.new (str "c1") true 0) = some d ∧
      .publish v50 (str "a") [1] 1 false 1 ∈ d.handed := ⟨_, rfl, List.mem_singleton_self _⟩
  have hwithin := delivered_within_peerMaxPacketSize (by decide) hdeliver
  exact ⟨d, hdeliver, _, hout, hwithin.2.2 (by decide) _ hout⟩

end PacketSize

end LumaBroker.Broker
