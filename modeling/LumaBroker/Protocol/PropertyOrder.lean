import LumaBroker.Protocol.Codec
import Mathlib.Data.List.TakeWhile

/-!
The order of the properties of a v5 PUBLISH or CONNECT. readProps and readConnectProps of
internal/protocol/packet.go know some of the identifiers that MQTT allows in these packets;
at one they do not know they skip the remainder of the block. So only the properties ahead
of the first such one count, and among these the order does not matter.
-/

namespace LumaBroker.Protocol

open Faulting SliceReader

/-- The forms that MQTT gives the value of a property. -/
inductive ValueForm where
  | byte
  | twoByteInteger
  | fourByteInteger
  | variableByteInteger
  | string
  | binaryData
  | stringPair
  deriving DecidableEq

def ValueForm.Holds : ValueForm → List UInt8 → Prop
  | .byte, v => v.length = 1
  | .twoByteInteger, v => v.length = 2
  | .fourByteInteger, v => v.length = 4
  | .variableByteInteger, v => Varint.Delimited v ∧ v.length ≤ 4
  | .string, v | .binaryData, v => ∃ s : List UInt8, s.length ≤ maxTopicLen ∧ v = stringField s
  | .stringPair, v =>
      ∃ name value : GoString, name.length ≤ maxTopicLen ∧ value.length ≤ maxTopicLen ∧
      v = stringField name ++ stringField value

/-- The properties of a PUBLISH: payload format, message expiry, content type, response topic,
correlation data, subscription identifier, topic alias and user property. -/
def publishForm (id : UInt8) : Option ValueForm :=
  if id = 0x01 then some .byte
  else if id = 0x02 then some .fourByteInteger
  else if id = 0x03 then some .string
  else if id = 0x08 then some .string
  else if id = 0x09 then some .binaryData
  else if id = 0x0B then some .variableByteInteger
  else if id = 0x23 then some .twoByteInteger
  else if id = 0x26 then some .stringPair
  else none

/-- The properties of a CONNECT: session expiry, authentication method and data, request problem
and response information, receive maximum, topic alias maximum, user property and maximum
packet size. -/
def connectForm (id : UInt8) : Option ValueForm :=
  if id = 0x11 then some .fourByteInteger
  else if id = 0x15 then some .string
  else if id = 0x16 then some .binaryData
  else if id = 0x17 then some .byte
  else if id = 0x19 then some .byte
  else if id = 0x21 then some .twoByteInteger
  else if id = 0x22 then some .twoByteInteger
  else if id = 0x26 then some .stringPair
  else if id = 0x27 then some .fourByteInteger
  else none

/-- Properties that are allowed in a packet and well formed, no identifier twice. -/
structure WellFormed (form : UInt8 → Option ValueForm) (ps : List (UInt8 × List UInt8)) : Prop where
  form : ∀ p ∈ ps, ∃ f, form p.1 = some f ∧ f.Holds p.2
  distinct : (ps.map Prod.fst).Nodup

theorem WellFormed.perm {form : UInt8 → Option ValueForm} {ps qs : List (UInt8 × List UInt8)}
    (h : WellFormed form ps) (hperm : ps.Perm qs) : WellFormed form qs where
  form p hp := h.form p (hperm.mem_iff.mpr hp)
  distinct := (hperm.map Prod.fst).nodup_iff.mp h.distinct

/-- The properties ahead of the first one that the reader does not know. -/
def readPart (size : UInt8 → Option Nat) (ps : List (UInt8 × List UInt8)) :
    List (UInt8 × List UInt8) :=
  ps.takeWhile fun p => (size p.1).isSome

/-- A property block: its length and the properties. -/
def propBlock (ps : List (UInt8 × List UInt8)) : List UInt8 :=
  Varint.encode (propBytes ps).length ++ propBytes ps

section Maps
variable {ps qs : List (UInt8 × List UInt8)}

theorem get_setProps_of_nodup (h : (ps.map Prod.fst).Nodup) (id : UInt8) (v : List UInt8) :
    (setProps FinMap.empty ps).get id = some v ↔ (id, v) ∈ ps := by
  induction ps using List.reverseRecOn with
  | nil => simp [setProps]
  | append_singleton ps p ih =>
      rw [List.map_append, List.nodup_append] at h
      obtain ⟨hps, -, hdisjoint⟩ := h
      rw [Property.setProps_append, FinMap.get_set, List.mem_append, List.mem_singleton]
      split
      · next hid =>
          subst hid
          have hnot : (p.1, v) ∉ ps := fun hmem =>
            hdisjoint p.1 (List.mem_map.mpr ⟨_, hmem, rfl⟩) p.1 (by simp) rfl
          simp [hnot, Prod.ext_iff, eq_comm]
      · next hid =>
          rw [ih hps]
          exact ⟨.inl, fun h => h.resolve_right fun heq => hid (by rw [← heq])⟩

theorem setProps_perm (h : (ps.map Prod.fst).Nodup) (hperm : ps.Perm qs) :
    setProps FinMap.empty ps = setProps FinMap.empty qs := by
  have hqs : (qs.map Prod.fst).Nodup := (hperm.map Prod.fst).nodup_iff.mp h
  refine FinMap.ext_get fun id => Option.ext fun v => ?_
  rw [get_setProps_of_nodup h, get_setProps_of_nodup hqs, hperm.mem_iff]

theorem length_propBytes_perm (hperm : ps.Perm qs) :
    (propBytes ps).length = (propBytes qs).length :=
  (hperm.flatMap_right fun p : UInt8 × List UInt8 => p.1 :: p.2).length_eq

end Maps

section Blocks
variable {size : UInt8 → Option Nat} {form : UInt8 → Option ValueForm}
    {ps : List (UInt8 × List UInt8)}

/-- A reader takes as many bytes for a property as MQTT gives it. -/
def Sized (size : UInt8 → Option Nat) (form : UInt8 → Option ValueForm) : Prop :=
  ∀ id f n v, form id = some f → size id = some n → f.Holds v → v.length = n

theorem sized_publish : Sized propSize publishForm := by
  intro id f n v hform hsize hv
  simp only [propSize] at hsize
  split_ifs at hsize with h2 h23 h11
  all_goals
    cases hsize
    subst id
  · cases hform
    exact hv
  · cases hform
    exact hv
  · -- a session expiry is no property of a PUBLISH
    cases hform

theorem sized_connect : Sized connectPropSize connectForm := by
  intro id f n v hform hsize hv
  simp only [connectPropSize] at hsize
  split_ifs at hsize with h11 h21 h22 h27
  all_goals
    cases hsize
    subst id
    cases hform
    exact hv

theorem known_readPart (hsized : Sized size form) (h : WellFormed form ps) :
    Known size (readPart size ps) := by
  intro p hp
  obtain ⟨f, hform, hv⟩ := h.form p ((List.takeWhile_sublist _).mem hp)
  have hsome : (size p.1).isSome = true :=
    List.mem_takeWhile_imp (p := fun p : UInt8 × List UInt8 => (size p.1).isSome) hp
  obtain ⟨n, hn⟩ := Option.isSome_iff_exists.mp hsome
  rw [hn, hsized p.1 f n p.2 hform hn hv]

theorem readVarIntFrom_long {bytes tail : List UInt8} {i : Nat} {r : SliceReader}
    (hdel : Varint.Delimited bytes) (hlong : i < bytes.length) (hr : r.rest = bytes ++ tail)
    (mult val : Nat) : readVarIntFrom i mult val r = .error .invalidVarInt := by
  induction i generalizing bytes r mult val with
  | zero => rfl
  | succ i ih =>
      cases bytes with
      | nil => exact hdel.elim
      | cons b bytes =>
          have hmore : ¬ b.toNat < 128 := by
            intro hb
            rw [(Varint.delimited_cons_last hb).mp hdel] at hlong
            simp at hlong
          rw [readVarIntFrom_cons hr, if_neg hmore]
          exact ih ((Varint.delimited_cons (Nat.le_of_not_lt hmore)).mp hdel)
            (Nat.lt_of_succ_lt_succ hlong)
            (rest_advance_one hr) _ _

/-- A block of well-formed properties: what is read, and that a reader ends behind the block. A
block longer than four digits can say is refused. -/
theorem readPropsWith_block (hknown : Known size (readPart size ps)) {r : SliceReader}
    {after : List UInt8} (hr : r.rest = propBlock ps ++ after) :
    readPropsWith size r =
      if (Varint.encode (propBytes ps).length).length ≤ 4 then
        .ok (setProps FinMap.empty (readPart size ps)) (r.advance (propBlock ps).length)
      else .error .invalidVarInt := by
  rw [propBlock, List.append_assoc] at hr
  split
  · next hfour =>
      have hsplit : propBytes ps = propBytes (readPart size ps) ++
          propBytes (ps.dropWhile fun p => (size p.1).isSome) := by
        rw [readPart, propBytes, propBytes, propBytes, ← List.flatMap_append,
          List.takeWhile_append_dropWhile]
      have hunknown : ∀ id ∈ (propBytes (ps.dropWhile fun p => (size p.1).isSome)).head?,
          size id = none := by
        cases hrest : ps.dropWhile fun p => (size p.1).isSome with
        | nil => simp [propBytes]
        | cons p rest =>
            have hne : ps.dropWhile (fun p => (size p.1).isSome) ≠ [] := by
              rw [hrest]
              exact List.cons_ne_nil p rest
            have hp := List.head_dropWhile_not (fun p : UInt8 × List UInt8 => (size p.1).isSome) hne
            simp only [hrest, List.head_cons] at hp
            simpa [propBytes] using hp
      have hread := readPropsWith_of_fits (Varint.delimited_encode _) hfour hr
        (by rw [hsplit, List.append_assoc])
        (by rw [← hsplit, Varint.value_encode]) hknown hunknown
      rw [Varint.value_encode] at hread
      rw [hread, propBlock, List.length_append]
  · next hlong =>
      rw [readPropsWith]
      exact Prog.bind_error
        (readVarIntFrom_long (Varint.delimited_encode _) (Nat.lt_of_not_le hlong) hr 1 0) _

end Blocks

/-- Two readers at the same place that have these bytes ahead of them and then perhaps
different ones. -/
structure Next (bytes X Y : List UInt8) (r t : SliceReader) : Prop where
  pos : r.pos = t.pos
  length : r.data.length = t.data.length
  left : r.rest = bytes ++ X
  right : t.rest = bytes ++ Y

/-- Two readers that have the same ahead of them. -/
structure Same (r t : SliceReader) : Prop where
  pos : r.pos = t.pos
  length : r.data.length = t.data.length
  rest : r.rest = t.rest

section Readers
variable {bytes field X Y : List UInt8} {r t : SliceReader}

theorem Next.advance (h : Next (field ++ bytes) X Y r t) :
    Next bytes X Y (r.advance field.length) (t.advance field.length) where
  pos := by rw [pos_advance, pos_advance, h.pos]
  length := h.length
  left := rest_advance (by rw [h.left, List.append_assoc])
  right := rest_advance (by rw [h.right, List.append_assoc])

theorem Next.readFull (h : Next (field ++ bytes) X Y r t) :
    (readFull field.length r).Agree (Next bytes X Y) (readFull field.length t) := by
  have hnext := h.advance
  have hr : Protocol.readFull field.length r = .ok field (r.advance field.length) :=
    readFull_eq_ok.mpr ⟨rfl, rfl, by rw [hnext.left, h.left, List.append_assoc]⟩
  have ht : Protocol.readFull field.length t = .ok field (t.advance field.length) :=
    readFull_eq_ok.mpr ⟨rfl, rfl, by rw [hnext.right, h.right, List.append_assoc]⟩
  rw [hr, ht]
  exact .ok field hnext

theorem Next.readUint16 {v : UInt16} (h : Next (bytes16 v ++ bytes) X Y r t) :
    (readUint16 r).Agree (Next bytes X Y) (readUint16 t) :=
  h.readFull.bind fun buf => refines_orPanic (uint16 buf)

theorem Next.readOne {b : UInt8} (h : Next (b :: bytes) X Y r t) :
    (readOne r).Agree (Next bytes X Y) (readOne t) := by
  have hfield : Next ([b] ++ bytes) X Y r t := h
  exact hfield.readFull.bind fun buf => refines_orPanic buf[0]?

theorem Next.readString {s : GoString} (hlen : s.length ≤ maxTopicLen)
    (h : Next (stringField s ++ bytes) X Y r t) :
    (readString r).Agree (Next bytes X Y) (readString t) := by
  have hnext := h.advance
  rw [length_stringField] at hnext
  have hr : Protocol.readString r = .ok s (r.advance (2 + s.length)) :=
    readString_eq_ok.mpr ⟨hlen, rfl, by rw [hnext.left, h.left, List.append_assoc]⟩
  have ht : Protocol.readString t = .ok s (t.advance (2 + s.length)) :=
    readString_eq_ok.mpr ⟨hlen, rfl, by rw [hnext.right, h.right, List.append_assoc]⟩
  rw [hr, ht]
  exact .ok s hnext

/-- The same properties ahead of the first unknown one are read alike. -/
theorem Next.readPropsWith {size : UInt8 → Option Nat} {ps qs : List (UInt8 × List UInt8)}
    {after : List UInt8} (hps : Known size (readPart size ps)) (hqs : Known size (readPart size qs))
    (hdistinct : (ps.map Prod.fst).Nodup) (hperm : ps.Perm qs)
    (hread : (readPart size ps).Perm (readPart size qs))
    (h : Next [] (propBlock ps ++ after) (propBlock qs ++ after) r t) :
    (readPropsWith size r).Agree Same (readPropsWith size t) := by
  have hbytes := length_propBytes_perm hperm
  have hblock : (propBlock ps).length = (propBlock qs).length := by
    rw [propBlock, propBlock, List.length_append, List.length_append, hbytes]
  have hmap : setProps FinMap.empty (readPart size ps) = setProps FinMap.empty (readPart size qs) :=
    setProps_perm (hdistinct.sublist ((List.takeWhile_sublist _).map Prod.fst)) hread
  rw [readPropsWith_block hps h.left, readPropsWith_block hqs h.right, ← hbytes]
  split
  · rw [hmap, hblock]
    have hleft : r.rest = propBlock ps ++ after := h.left
    have hright : t.rest = propBlock qs ++ after := h.right
    refine .ok _ ⟨by rw [pos_advance, pos_advance, h.pos], h.length, ?_⟩
    rw [rest_advance hright, ← hblock, rest_advance hleft]
  · exact .error _

theorem agrees_read (n : Nat) : Agrees Same (read n) := by
  intro r t h
  by_cases hend : r.pos < r.data.length
  · have hend' : t.pos < t.data.length := by rw [← h.pos, ← h.length]; exact hend
    rw [read_of_lt hend, read_of_lt hend', h.rest]
    refine .ok _ ⟨by rw [pos_advance, pos_advance, h.pos], h.length, ?_⟩
    rw [drop_rest, drop_rest, h.rest]
  · have hend' : t.data.length ≤ t.pos := by rw [← h.pos, ← h.length]; exact Nat.le_of_not_lt hend
    rw [read_of_le (Nat.le_of_not_lt hend), read_of_le hend']
    exact .error _

theorem agrees_readFull (n : Nat) : Agrees Same (readFull n) :=
  refines_loop
    (fun _ => (refines_pure _).ite (((agrees_read _).mapError _).bind fun _ => refines_pure _)) _ _

theorem agrees_readUint16 : Agrees Same readUint16 :=
  (agrees_readFull 2).bind fun _ => refines_orPanic _

theorem agrees_readString : Agrees Same readString :=
  (agrees_readFull 2).bind fun _ => (refines_orPanic _).bind fun _ =>
    (refines_pure _).ite (agrees_readFull _)

theorem agrees_readBinary : Agrees Same readBinary :=
  agrees_readUint16.bind fun _ => (agrees_readFull _).ite (refines_pure _)

theorem agrees_skipPropLen (i mult propLen : Nat) : Agrees Same (skipPropLen i mult propLen) := by
  induction i generalizing mult propLen with
  | zero => exact refines_pure propLen
  | succ i ih =>
      exact (agrees_read 1).bind fun _ => (refines_orPanic _).bind fun _ =>
        (refines_pure _).ite (ih _ _)

theorem agrees_skipProps : Agrees Same skipProps := by
  refine (agrees_skipPropLen 4 1 0).bind fun propLen => (refines_pure ()).ite ?_
  intro r t h
  have hpast : (r.advance propLen).pos > (r.advance propLen).data.length ↔
      (t.advance propLen).pos > (t.advance propLen).data.length := by
    rw [pos_advance, pos_advance, data_advance, data_advance, h.pos, h.length]
  simp only [Prog.modify_bind, Prog.gets_bind, id_eq, hpast]
  split
  · exact .error _
  · refine .ok _ ⟨by rw [pos_advance, pos_advance, h.pos], h.length, ?_⟩
    rw [drop_rest, drop_rest, h.rest]

theorem agrees_propUint32 (props : Props) (id : UInt8) : Agrees Same (propUint32 props id) := by
  intro r t h
  rw [propUint32_eq, propUint32_eq]
  exact .ok _ h

theorem agrees_propUint16 (props : Props) (id : UInt8) : Agrees Same (propUint16 props id) := by
  intro r t h
  rw [propUint16_eq, propUint16_eq]
  exact .ok _ h

end Readers

section Publish
variable {ps qs : List (UInt8 × List UInt8)} {X Y after : List UInt8} {r t : SliceReader}

theorem Next.publishID {qos : UInt8} {packetID : UInt16} (h : Next (idField qos packetID) X Y r t) :
    (publishID qos r).Agree (Next [] X Y) (publishID qos t) := by
  rw [Protocol.publishID]
  rw [idField] at h
  split
  · next hqos =>
      rw [if_pos hqos, ← List.append_nil (bytes16 packetID)] at h
      exact h.readUint16.bind fun _ => (refines_fail _).ite (refines_pure _)
  · next hqos =>
      rw [if_neg hqos] at h
      exact .ok 0 h

theorem Same.publishPayload : Agrees Same publishPayload := by
  intro r t h
  rw [publishPayload_eq, publishPayload_eq, h.rest]
  refine .ok _ ⟨by rw [pos_advance, pos_advance, h.pos], h.length, ?_⟩
  rw [drop_rest, drop_rest, h.rest]

theorem agree_publishBody {now : Nat} {fh : FixedHeader} {topic : GoString} {packetID : UInt16}
    (htopic : topic.length ≤ maxTopicLen) (h : WellFormed publishForm ps) (hperm : ps.Perm qs)
    (hread : (readPart propSize ps).Perm (readPart propSize qs))
    (hnext : Next (stringField topic ++ idField fh.qos packetID) (propBlock ps ++ after)
      (propBlock qs ++ after) r t) :
    (publishBody v50 now fh r).Agree Same (publishBody v50 now fh t) := by
  have hps := known_readPart sized_publish h
  have hqs := known_readPart sized_publish (h.perm hperm)
  rw [publishBody]
  split
  · exact .error _
  · split
    · exact .error _
    · refine ((hnext.readString htopic).mapError _).bind fun name u v hid => ?_
      dsimp only
      split
      · exact .error _
      · refine hid.publishID.bind fun id u v hprops => ?_
        refine Outcome.Agree.bind ?_ fun _ => Same.publishPayload.bind fun _ => refines_pure _
        refine (hprops.readPropsWith hps hqs h.distinct hperm hread).bind fun props => ?_
        exact (agrees_propUint32 props 0x02).bind fun _ =>
          (agrees_propUint16 props 0x23).bind fun _ =>
          (refines_fail _).ite (refines_pure _)

end Publish

section Connect
variable {ps qs : List (UInt8 × List UInt8)} {X Y after : List UInt8} {r t : SliceReader}
  {name : GoString} {version flags : UInt8} {keepAlive : UInt16}

theorem Next.connectProtocol {bytes : List UInt8} (hname : name.length ≤ maxTopicLen)
    (h : Next (stringField name ++ version :: bytes) X Y r t) :
    (connectProtocol r).Agree (Next bytes X Y) (connectProtocol t) := by
  refine ((h.readString hname).mapError _).bind fun _ _ _ hnext => ?_
  split
  · exact .error _
  · exact hnext.readOne

theorem Next.connectHeader (hname : name.length ≤ maxTopicLen)
    (h : Next (stringField name ++ version :: flags :: bytes16 keepAlive) X Y r t) :
    (connectHeader r).Agree (Next [] X Y) (connectHeader t) := by
  refine (h.connectProtocol hname).bind fun _ _ _ hflags => ?_
  split
  · exact .error _
  · refine hflags.readOne.bind fun _ _ _ hkeepAlive => ?_
    rw [← List.append_nil (bytes16 keepAlive)] at hkeepAlive
    dsimp only
    split
    · exact .error _
    · split
      · exact .error _
      · split
        · exact .error _
        · exact hkeepAlive.readUint16.bind fun _ => refines_pure _

theorem version_connectHeader {pkt : ConnectPacket} {u : SliceReader} {tail : List UInt8}
    (hname : name.length ≤ maxTopicLen) (hr : r.rest = stringField name ++ version :: tail)
    (h : connectHeader r = .ok pkt u) : pkt.version = version := by
  have hafter := rest_advance hr
  rw [length_stringField] at hafter
  have hstring : readString r = .ok name (r.advance (2 + name.length)) :=
    readString_eq_ok.mpr ⟨hname, rfl, by rw [hafter, hr]⟩
  obtain ⟨v, r₁, hprotocol, h⟩ := Prog.bind_eq_ok.mp h
  obtain ⟨name', r₂, hname', hprotocol⟩ := Prog.bind_eq_ok.mp hprotocol
  rw [Prog.mapError_eq_ok, hstring] at hname'
  cases hname'
  obtain ⟨-, hone⟩ := Prog.ite_fail_eq_ok.mp hprotocol
  obtain ⟨buf, r₃, hbuf, hv⟩ := Prog.bind_eq_ok.mp hone
  obtain ⟨hlen, -, hrest⟩ := readFull_eq_ok.mp hbuf
  obtain ⟨b, rfl⟩ := List.length_eq_one_iff.mp hlen
  rw [hafter] at hrest
  cases hrest
  cases hv
  obtain ⟨-, h⟩ := Prog.ite_fail_eq_ok.mp h
  obtain ⟨f, r₄, -, h⟩ := Prog.bind_eq_ok.mp h
  obtain ⟨-, h⟩ := Prog.ite_fail_eq_ok.mp h
  obtain ⟨-, h⟩ := Prog.ite_fail_eq_ok.mp h
  obtain ⟨-, h⟩ := Prog.ite_fail_eq_ok.mp h
  obtain ⟨ka, r₅, -, h⟩ := Prog.bind_eq_ok.mp h
  cases h
  rfl

theorem agree_connectProps {pkt : ConnectPacket} (hversion : pkt.version = v50)
    (h : WellFormed connectForm ps) (hperm : ps.Perm qs)
    (hread : (readPart connectPropSize ps).Perm (readPart connectPropSize qs))
    (hnext : Next [] (propBlock ps ++ after) (propBlock qs ++ after) r t) :
    (connectProps pkt r).Agree Same (connectProps pkt t) := by
  have hps := known_readPart sized_connect h
  have hqs := known_readPart sized_connect (h.perm hperm)
  rw [connectProps, if_pos hversion]
  refine (hnext.readPropsWith hps hqs h.distinct hperm hread).bind fun props => ?_
  refine (agrees_propUint32 props 0x11).bind fun _ =>
    (agrees_propUint16 props 0x21).bind fun _ => ?_
  refine (refines_fail _).ite ((agrees_propUint32 props 0x27).bind fun _ => (refines_fail _).ite ?_)
  exact (agrees_propUint16 props 0x22).bind fun _ => refines_pure _

theorem agrees_connectWill (pkt : ConnectPacket) : Agrees Same (connectWill pkt) := by
  refine Refines.ite ?_ (refines_pure pkt)
  refine (agrees_skipProps.ite (refines_pure ())).bind fun _ => ?_
  exact (agrees_readString.mapError _).bind fun _ => agrees_readBinary.bind fun _ => refines_pure _

theorem agrees_connectUsername (pkt : ConnectPacket) : Agrees Same (connectUsername pkt) :=
  Refines.ite ((agrees_readString.mapError _).bind fun _ => refines_pure _) (refines_pure pkt)

theorem agrees_connectPassword (pkt : ConnectPacket) : Agrees Same (connectPassword pkt) :=
  Refines.ite (agrees_readBinary.bind fun _ => refines_pure _) (refines_pure pkt)

/-- What follows the properties is not looked into. -/
theorem agree_connectBody (hname : name.length ≤ maxTopicLen) (h : WellFormed connectForm ps)
    (hperm : ps.Perm qs) (hread : (readPart connectPropSize ps).Perm (readPart connectPropSize qs))
    (hnext : Next (stringField name ++ v50 :: flags :: bytes16 keepAlive) (propBlock ps ++ after)
      (propBlock qs ++ after) r t) :
    (connectBody r).Agree Same (connectBody t) := by
  have hr : r.rest = stringField name ++ v50 ::
      (flags :: bytes16 keepAlive ++ (propBlock ps ++ after)) := by
    rw [hnext.left]
    simp
  refine (hnext.connectHeader hname).bind_of fun pkt u v hpkt hprops => ?_
  have hversion := version_connectHeader hname hr hpkt
  refine (agree_connectProps hversion h hperm hread hprops).bind fun pkt => ?_
  refine (agrees_readString.mapError _).bind fun _ => (agrees_connectWill _).bind fun pkt => ?_
  exact (agrees_connectUsername pkt).bind fun pkt => agrees_connectPassword pkt

end Connect

/-- The body of a v5 CONNECT: the protocol name, the version, the flags, the keep-alive, the
properties and what follows them. -/
def connectWire (name : GoString) (flags : UInt8) (keepAlive : UInt16)
    (ps : List (UInt8 × List UInt8)) (after : List UInt8) : List UInt8 :=
  stringField name ++ v50 :: flags :: (bytes16 keepAlive ++ (propBlock ps ++ after))

/-- A reordering of the properties that leaves the same ones ahead of the first unknown one
does not change what is decoded. -/
theorem property_order (ps qs : List (UInt8 × List UInt8)) (hperm : ps.Perm qs) :
    (WellFormed publishForm ps → (readPart propSize ps).Perm (readPart propSize qs) →
      ∀ now fh topic packetID payload, topic.length ≤ maxTopicLen →
        (decodePublish v50 now fh
          (publishWire topic fh.qos packetID (propBlock ps) payload)).value? =
          (decodePublish v50 now fh
            (publishWire topic fh.qos packetID (propBlock qs) payload)).value?) ∧
    (WellFormed connectForm ps → (readPart connectPropSize ps).Perm (readPart connectPropSize qs) →
      ∀ name flags keepAlive after, name.length ≤ maxTopicLen →
        (decodeConnect (connectWire name flags keepAlive ps after)).value? =
          (decodeConnect (connectWire name flags keepAlive qs after)).value?) := by
  have hblock : (propBlock ps).length = (propBlock qs).length := by
    rw [propBlock, propBlock, List.length_append, List.length_append, length_propBytes_perm hperm]
  constructor
  · intro h hread now fh topic packetID payload htopic
    have hnext : Next (stringField topic ++ idField fh.qos packetID) (propBlock ps ++ payload)
        (propBlock qs ++ payload)
        (newSliceReader (publishWire topic fh.qos packetID (propBlock ps) payload))
        (newSliceReader (publishWire topic fh.qos packetID (propBlock qs) payload)) :=
      ⟨rfl, by simp [newSliceReader, publishWire, hblock], (List.append_assoc _ _ _).symm,
        (List.append_assoc _ _ _).symm⟩
    exact (agree_publishBody htopic h hperm hread hnext).value_eq
  · intro h hread name flags keepAlive after hname
    have hnext : Next (stringField name ++ v50 :: flags :: bytes16 keepAlive)
        (propBlock ps ++ after)
        (propBlock qs ++ after) (newSliceReader (connectWire name flags keepAlive ps after))
        (newSliceReader (connectWire name flags keepAlive qs after)) :=
      ⟨rfl, by simp [newSliceReader, connectWire, hblock],
        by simp [newSliceReader, connectWire, SliceReader.rest],
        by simp [newSliceReader, connectWire, SliceReader.rest]⟩
    exact (agree_connectBody hname h hperm hread hnext).value_eq

/-- A topic alias and a message expiry change places ahead of a payload format, and so do a
session expiry and a receive maximum ahead of a user property. -/
theorem property_order_known_first :
    (decodePublish v50 0 ⟨.publish, 0, 0⟩ (publishWire [] 0 0
        (propBlock [(0x02, [0, 0, 0, 9]), (0x23, [0, 7]), (0x01, [1])]) [1])).value? =
      (decodePublish v50 0 ⟨.publish, 0, 0⟩ (publishWire [] 0 0
        (propBlock [(0x23, [0, 7]), (0x02, [0, 0, 0, 9]), (0x01, [1])]) [1])).value? ∧
    (decodeConnect (connectWire (str "MQTT") 0 0
        [(0x11, [0, 0, 0, 9]), (0x21, [0, 5]), (0x26, [0, 0, 0, 0])]
        (stringField (str "c1")))).value? =
      (decodeConnect (connectWire (str "MQTT") 0 0
        [(0x21, [0, 5]), (0x11, [0, 0, 0, 9]), (0x26, [0, 0, 0, 0])]
        (stringField (str "c1")))).value? := by
  constructor
  · refine (property_order _ _ (by decide)).1 ⟨?_, by decide⟩ (by decide) 0 ⟨.publish, 0, 0⟩ [] 0
      [1] (by decide)
    intro p hp
    simp only [List.mem_cons, List.not_mem_nil, or_false] at hp
    obtain rfl | rfl | rfl := hp
    · exact ⟨.fourByteInteger, rfl, rfl⟩
    · exact ⟨.twoByteInteger, rfl, rfl⟩
    · exact ⟨.byte, rfl, rfl⟩
  · refine (property_order _ _ (by decide)).2 ⟨?_, by decide⟩ (by decide) (str "MQTT") 0 0
      _ (by decide)
    intro p hp
    simp only [List.mem_cons, List.not_mem_nil, or_false] at hp
    obtain rfl | rfl | rfl := hp
    · exact ⟨.fourByteInteger, rfl, rfl⟩
    · exact ⟨.twoByteInteger, rfl, rfl⟩
    · exact ⟨.stringPair, rfl, [], [], by decide, by decide, rfl⟩

/-- A topic alias behind a payload format is dropped, so that a PUBLISH without a topic is
refused, and a receive maximum behind a request problem information is. -/
theorem unknown_property_first :
    decodePublish v50 0 ⟨.publish, 0, 0⟩
      (publishWire [] 0 0 (propBlock [(0x01, [1]), (0x23, [0, 7])]) [1]) =
      .error .protocolViolation ∧
    (decodePublish v50 0 ⟨.publish, 0, 0⟩
        (publishWire [] 0 0 (propBlock [(0x23, [0, 7]), (0x01, [1])]) [1])).value?.map
          PublishPacket.topicAlias =
      some 7 ∧
    (decodeConnect (connectWire (str "MQTT") 0 0 [(0x17, [1]), (0x21, [0, 5])]
        (stringField (str "c1")))).value?.map ConnectPacket.receiveMaximum = some 0 ∧
    (decodeConnect (connectWire (str "MQTT") 0 0 [(0x21, [0, 5]), (0x17, [1])]
        (stringField (str "c1")))).value?.map ConnectPacket.receiveMaximum = some 5 := by
  decide +kernel

end LumaBroker.Protocol
