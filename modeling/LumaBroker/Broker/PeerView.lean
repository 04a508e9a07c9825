import LumaBroker.Broker.Transport
import LumaBroker.Broker.WriteLoop
import LumaBroker.Protocol.Control

/-!
What the peer of a connection reads. Every packet that internal/broker/client.go passes to
enqueue comes from an encoder of internal/protocol/packet.go and is one frame, and the write
loop puts whole packets on the wire, so that the peer's framing finds these packets and
nothing else, also when the connection ends in the middle of one.
-/

namespace LumaBroker.Protocol

def encodeConnack (sessionPresent : Bool) (code : UInt8) : List UInt8 :=
  [PacketType.connack.code <<< 4, 2, if sessionPresent then 0x01 else 0, code]

def pingresp : List UInt8 := [PacketType.pingresp.code <<< 4, 0]

def encodeDisconnectV311 : List UInt8 := [PacketType.disconnect.code <<< 4, 0]

theorem le_of_encodeVarInt {n : Nat} {enc : List UInt8} (h : encodeVarInt 4 n = some enc) :
    n ≤ maxRemainingLength := by
  rw [encodeVarInt_eq] at h
  split at h
  · next hlt => exact Nat.le_of_lt_succ hlt.1
  · cases h

end LumaBroker.Protocol

namespace LumaBroker.Broker.PeerView

open Protocol Transport WriteLoop Transition Faulting ByteSource

/-- A packet for a client, by the encoder that writes it and with the arguments that
client.go gives it. -/
inductive Outgoing where
  | connack (sessionPresent : Bool) (code : UInt8)
  | connackV5 (sessionPresent : Bool) (reasonCode : UInt8) (opts : ConnackMQTT5Options)
  | publish (topic : GoString) (payload : List UInt8) (qos : UInt8) (retain : Bool)
      (packetID : UInt16)
  | publishV5 (topic : GoString) (payload : List UInt8) (qos : UInt8) (retain : Bool)
      (packetID : UInt16)
  | ack (t : PacketType) (packetID : UInt16)
  | ackV5 (t : PacketType) (packetID : UInt16)
  | suback (packetID : UInt16) (codes : List UInt8)
  | subackV5 (packetID : UInt16) (codes : List UInt8)
  | unsuback (packetID : UInt16)
  | unsubackV5 (packetID : UInt16) (reasons : List UInt8)
  | pingresp
  | disconnectV311
  | disconnectV5 (reasonCode : UInt8)

namespace Outgoing

/-- None is the panic of encodeVarInt. -/
def encode : Outgoing → Option (List UInt8)
  | connack sessionPresent code => some (encodeConnack sessionPresent code)
  | connackV5 sessionPresent reasonCode opts => encodeConnackV5 sessionPresent reasonCode opts
  | publish topic payload qos retain packetID =>
      encodePublish topic payload qos retain packetID false
  | publishV5 topic payload qos retain packetID =>
      encodePublishV5 topic payload qos retain packetID false []
  | ack t packetID => some (encodeAck t packetID)
  | ackV5 t packetID => encodeAckV5 t packetID 0 []
  | suback packetID codes => encodeSuback packetID codes
  | subackV5 packetID codes => encodeSubackV5 packetID [] codes
  | unsuback packetID => some (encodeUnsuback packetID)
  | unsubackV5 packetID reasons => encodeUnsubackV5 packetID [] reasons
  | pingresp => some Protocol.pingresp
  | disconnectV311 => some encodeDisconnectV311
  | disconnectV5 reasonCode => encodeDisconnectV5 reasonCode []

/-- The topic fits into its field; a longer one is cut there and counted as a whole. -/
def TopicFits : Outgoing → Prop
  | publish topic .. | publishV5 topic .. => topic.length ≤ maxTopicLen
  | _ => True

instance decidableTopicFits : ∀ o : Outgoing, Decidable o.TopicFits
  | publish topic .. | publishV5 topic .. =>
      inferInstanceAs (Decidable (topic.length ≤ maxTopicLen))
  | connack .. | connackV5 .. | ack .. | ackV5 .. | suback .. | subackV5 .. | unsuback ..
  | unsubackV5 .. | pingresp | disconnectV311 | disconnectV5 .. => isTrue trivial

end Outgoing

/-- The bytes are one frame. -/
def Framed (out : List UInt8) : Prop :=
  ∃ f : Frame, f.bytes = out ∧ f.body.length ≤ maxRemainingLength

theorem framed_packet {first : UInt8} {body : List UInt8} (h : body.length ≤ maxRemainingLength) :
    Framed (packet first body) := ⟨Frame.ofBody first body h, rfl, h⟩

/-- A length of one digit. -/
theorem framed_short (first : UInt8) {n : UInt8} {body : List UInt8} (hn : n.toNat < 128)
    (hlen : body.length = n.toNat) : Framed (first :: n :: body) := by
  have hvalue : Varint.value [n] = body.length := by
    rw [Varint.value, Nat.mod_eq_of_lt hn, hlen]
    rfl
  refine ⟨⟨first, [n], body, Varint.delimited_singleton hn, by simp, hvalue⟩, rfl, ?_⟩
  rw [hlen, maxRemainingLength]
  omega

theorem framed_encodeCodes {t : PacketType} {before codes out : List UInt8} {packetID : UInt16}
    (h : encodeCodes t before packetID codes = some out) : Framed out := by
  have hsize : (bytes16 packetID ++ (before ++ codes)).length ≤ maxRemainingLength := by
    obtain ⟨varBuf, hvar, -⟩ := Option.map_eq_some_iff.mp h
    have hle := le_of_encodeVarInt hvar
    rw [List.length_append, List.length_append, length_bytes16]
    omega
  rw [encodeCodes_packet t packetID hsize] at h
  cases h
  exact framed_packet hsize

theorem framed_encodePublishWith {props payload out : List UInt8} {topic : GoString} {qos : UInt8}
    {retain dup : Bool} {packetID : UInt16} (hlen : topic.length ≤ maxTopicLen)
    (h : encodePublishWith props topic payload qos retain packetID dup = some out) :
    Framed out := by
  rw [encodePublishWith_eq, List.take_of_length_le hlen] at h
  split at h
  · next hsize =>
      cases h
      exact framed_packet hsize
  · cases h

theorem framed_sends {encoded : Option (List UInt8)} {first : UInt8} {body out : List UInt8}
    (hencoded : encoded = some (packet first body)) (hsize : body.length ≤ maxRemainingLength)
    (h : encoded = some out) : Framed out := by
  rw [hencoded] at h
  cases h
  exact framed_packet hsize

theorem framed_encode {o : Outgoing} {out : List UInt8} (hfits : o.TopicFits)
    (h : o.encode = some out) : Framed out := by
  cases o with
  | connack sessionPresent code =>
      cases h
      exact framed_short _ (by decide) rfl
  | connackV5 sessionPresent reasonCode opts =>
      have hsize :=
        connackV5_fits (if reasonCode = 0 ∧ sessionPresent then 1 else 0) reasonCode opts
      exact framed_sends (encode_fields (PacketType.connack.code <<< 4) hsize) hsize h
  | publish topic payload qos retain packetID => exact framed_encodePublishWith hfits h
  | publishV5 topic payload qos retain packetID =>
      rw [Outgoing.encode, encodePublishV5] at h
      obtain ⟨propLenEnc, -, hwith⟩ := Option.bind_eq_some_iff.mp h
      exact framed_encodePublishWith hfits hwith
  | ack t packetID =>
      cases h
      exact framed_short _ (by decide) rfl
  | ackV5 t packetID =>
      rw [Outgoing.encode, encodeAckV5_plain] at h
      cases h
      exact framed_short _ (by decide) rfl
  | suback packetID codes => exact framed_encodeCodes h
  | subackV5 packetID codes =>
      rw [Outgoing.encode, encodeSubackV5] at h
      obtain ⟨propLenEnc, -, hcodes⟩ := Option.bind_eq_some_iff.mp h
      exact framed_encodeCodes hcodes
  | unsubackV5 packetID reasons =>
      rw [Outgoing.encode, encodeUnsubackV5] at h
      obtain ⟨propLenEnc, -, hcodes⟩ := Option.bind_eq_some_iff.mp h
      exact framed_encodeCodes hcodes
  | unsuback packetID =>
      cases h
      exact framed_short _ (by decide) rfl
  | pingresp | disconnectV311 =>
      cases h
      exact framed_short _ (by decide) rfl
  | disconnectV5 reasonCode =>
      have hplain : encodeDisconnectV5 reasonCode [] =
          some (PacketType.disconnect.code <<< 4 :: 2 :: [reasonCode, 0]) := rfl
      rw [Outgoing.encode, hplain] at h
      cases h
      exact framed_short _ (by decide) rfl

/-! ReadFixed on the piece of a frame that a failed Write leaves behind. -/

theorem readRemainingLength_returns (i mult val : Nat) (s : List UInt8) :
    (readRemainingLength i mult val s).Returns := by
  induction i generalizing mult val s with
  | zero => trivial
  | succ i ih =>
      cases s with
      | nil => trivial
      | cons b tail =>
          rw [readRemainingLength_cons]
          split_ifs
          · trivial
          · trivial
          · exact ih _ _ _

theorem readFixed_returns (s : List UInt8) : (readFixed s).Returns := by
  cases s with
  | nil => trivial
  | cons b tail =>
      have hbyte : readByte (b :: tail) = .ok b tail := rfl
      have hlen := readRemainingLength_returns 4 1 0 tail
      rw [readFixed, Prog.bind_ok hbyte]
      cases h : readRemainingLength 4 1 0 tail with
      | ok n rest =>
          rw [Prog.bind_ok h]
          trivial
      | error e =>
          rw [Prog.bind_error h]
          trivial
      | panic | timeout => simp [h, Outcome.Returns] at hlen

/-- A header that can be read off a piece of a frame is the header of the frame. -/
theorem readFixed_piece {f : Frame} {piece tail rest : List UInt8} {fh : FixedHeader}
    (hpiece : piece ++ tail = f.bytes) (h : readFixed piece = .ok fh rest) :
    fh.remainingLength = f.body.length ∧ rest ++ tail = f.body := by
  obtain ⟨b, len, hdel, -, rfl, rfl⟩ := readFixed_eq_ok.mp h
  rw [Frame.bytes, List.cons_append, List.cons.injEq, List.append_assoc] at hpiece
  obtain ⟨hlen, hbody⟩ := Varint.delimited_append_inj hdel f.delimited hpiece.2
  exact ⟨by rw [hlen, f.value_len], hbody⟩

theorem takeFull_short {n : Nat} {bytes : List UInt8} (h : bytes.length < n) :
    ∃ e, takeFull DecodeError.eof .unexpectedEOF n bytes = .error e := by
  rw [takeFull, takeRest, if_neg (by simpa using h)]
  split_ifs
  · exact ⟨_, rfl⟩
  · exact ⟨_, rfl⟩

section Reading
variable {ρ : Type} (src : Source DecodeError.eof ρ UInt8) {maxPacketSize : Nat}

/-- The piece of a frame is no packet. -/
theorem readPacket_torn {f : Frame} (hmax : f.body.length ≤ maxPacketSize) {piece tail : List UInt8}
    (hpiece : piece ++ tail = f.bytes) (htail : tail ≠ []) {r : ρ} (hr : src.Holds r piece) :
    ∃ e, readPacket src maxPacketSize r = .error e := by
  have hreturns := readFixed_returns piece
  cases hfixed : readFixed piece with
  | error e =>
      refine ⟨e, ?_⟩
      rw [readPacket, Prog.bind_error ((readFixedFrom_refines r piece hr).eq_error hfixed)]
  | ok fh rest =>
      obtain ⟨r₁, hfh, hr₁⟩ := (readFixedFrom_refines r piece hr).exists_ok hfixed
      obtain ⟨hremaining, hbody⟩ := readFixed_piece hpiece hfixed
      have hshort : rest.length < fh.remainingLength := by
        rw [hremaining, ← hbody, List.length_append]
        have hpos := List.length_pos_iff.mpr htail
        omega
      have hpos : fh.remainingLength > 0 := Nat.zero_lt_of_lt hshort
      have hsize : ¬ fh.remainingLength > maxPacketSize := by
        rw [hremaining]
        exact Nat.not_lt.mpr hmax
      obtain ⟨e, he⟩ := takeFull_short hshort
      refine ⟨e, ?_⟩
      rw [readPacket, Prog.bind_ok hfh, if_pos hpos, if_neg hsize,
        Prog.bind_error ((readFull_refines src .unexpectedEOF _ r₁ rest hr₁).eq_error he)]
  | panic | timeout => simp [hfixed, Outcome.Returns] at hreturns

/-- Whole frames are read as their packets, and the piece of one behind them as none. -/
theorem readLoop_torn (frames : List Frame)
    (hmax : ∀ f ∈ frames, f.body.length ≤ maxPacketSize) {f : Frame}
    (hf : f.body.length ≤ maxPacketSize) {piece tail : List UInt8}
    (hpiece : piece ++ tail = f.bytes) (htail : tail ≠ []) {r : ρ}
    (hr : src.Holds r (frames.flatMap Frame.bytes ++ piece)) {turns : Nat}
    (hturns : frames.length < turns) :
    ∃ e, readLoop src maxPacketSize turns r = (frames.map Frame.packet, .error e) := by
  induction frames generalizing r turns with
  | nil =>
      cases turns with
      | zero => exact absurd hturns (Nat.not_lt_zero _)
      | succ turns =>
          obtain ⟨e, he⟩ := readPacket_torn src hf hpiece htail hr
          exact ⟨e, by simp only [readLoop, he, List.map_nil]⟩
  | cons g frames ih =>
      cases turns with
      | zero => exact absurd hturns (Nat.not_lt_zero _)
      | succ turns =>
          rw [List.flatMap_cons, List.append_assoc] at hr
          obtain ⟨r', hpacket, hr'⟩ := readPacket_frame src (hmax g List.mem_cons_self) hr
          obtain ⟨e, hloop⟩ := ih (fun f hf => hmax f (List.mem_cons_of_mem _ hf)) hr'
            (Nat.lt_of_succ_lt_succ hturns)
          exact ⟨e, by simp only [readLoop, hpacket, hloop, List.map_cons]⟩

end Reading

theorem exists_frames {msgs : List WriteMsg} (h : ∀ msg ∈ msgs, Framed msg.data) :
    ∃ frames : List Frame, frames.map Frame.bytes = msgs.map WriteMsg.data ∧
      ∀ f ∈ frames, f.body.length ≤ maxRemainingLength := by
  induction msgs with
  | nil => exact ⟨[], rfl, by simp⟩
  | cons msg msgs ih =>
      obtain ⟨f, hbytes, hf⟩ := h msg List.mem_cons_self
      obtain ⟨frames, hmap, hframes⟩ := ih fun m hm => h m (List.mem_cons_of_mem _ hm)
      refine ⟨f :: frames, by rw [List.map_cons, List.map_cons, hbytes, hmap], ?_⟩
      intro g hg
      cases List.mem_cons.mp hg with
      | inl heq => exact heq ▸ hf
      | inr hmem => exact hframes g hmem

theorem flatMap_eq {frames : List Frame} {msgs : List WriteMsg}
    (h : frames.map Frame.bytes = msgs.map WriteMsg.data) :
    msgs.flatMap WriteMsg.data = frames.flatMap Frame.bytes := by
  rw [List.flatMap_def, List.flatMap_def, h]

/-- The peer's framing of these bytes yields these packets, and then an error. -/
def Reads (wire : List UInt8) (packets : List Packet) (ends : DecodeError → Prop) : Prop :=
  ∀ (ρ : Type) (src : Source DecodeError.eof ρ UInt8) (r : ρ), src.Holds r wire →
    ∀ turns, packets.length < turns →
    ∃ e, ends e ∧ readLoop src maxRemainingLength turns r = (packets, .error e)

theorem reads_frames {frames : List Frame}
    (hmax : ∀ f ∈ frames, f.body.length ≤ maxRemainingLength) :
    Reads (frames.flatMap Frame.bytes) (frames.map Frame.packet) (· = .eof) := by
  intro ρ src r hr turns hturns
  rw [List.length_map] at hturns
  exact ⟨.eof, rfl, readLoop_frames src frames hmax hr hturns⟩

/-- The first bytes of one more frame: all of them are its packet, and fewer are none. -/
theorem reads_cut {frames : List Frame}
    (hmax : ∀ f ∈ frames, f.body.length ≤ maxRemainingLength) {f : Frame}
    (hf : f.body.length ≤ maxRemainingLength) (n : Nat) :
    ∃ last, last.Sublist [f] ∧ Reads (frames.flatMap Frame.bytes ++ f.bytes.take n)
      ((frames ++ last).map Frame.packet) fun e => f.bytes.take n = [] → e = .eof := by
  by_cases hn : n < f.bytes.length
  · refine ⟨[], List.nil_sublist _, fun ρ src r hr turns hturns => ?_⟩
    rw [List.append_nil] at hturns ⊢
    have htail : f.bytes.drop n ≠ [] := fun hnil => Nat.not_le.mpr hn (List.drop_eq_nil_iff.mp hnil)
    by_cases hpiece : f.bytes.take n = []
    · rw [hpiece, List.append_nil] at hr
      obtain ⟨e, heof, he⟩ := reads_frames hmax ρ src r hr turns hturns
      exact ⟨e, fun _ => heof, he⟩
    · rw [List.length_map] at hturns
      obtain ⟨e, he⟩ :=
        readLoop_torn src frames hmax hf (List.take_append_drop n f.bytes) htail hr hturns
      exact ⟨e, fun hnil => absurd hnil hpiece, he⟩
  · have hmax' : ∀ g ∈ frames ++ [f], g.body.length ≤ maxRemainingLength := by
      intro g hg
      cases List.mem_append.mp hg with
      | inl hmem => exact hmax g hmem
      | inr hmem => exact List.mem_singleton.mp hmem ▸ hf
    refine ⟨[f], List.Sublist.refl _, fun ρ src r hr turns hturns => ?_⟩
    rw [List.take_of_length_le (Nat.not_lt.mp hn), ← List.flatMap_singleton Frame.bytes f,
      ← List.flatMap_append] at hr
    obtain ⟨e, heof, he⟩ := reads_frames hmax' ρ src r hr turns hturns
    exact ⟨e, fun _ => heof, he⟩

/-- Whatever the goroutines of a connection do, however its bytes are cut on their way and
wherever the connection breaks off: the peer reads packets that were passed to enqueue, each
goroutine's in the order of its calls and none twice, and then the end. Unless a Write has
failed, the end comes between two packets. -/
theorem peer_reads_sent_packets (writeQueueSize : Nat) (as : List Action) (s : State)
    (hrun : run step as (newClient writeQueueSize) = some s)
    (hencoded : ∀ msg ∈ callsOf as, ∃ o : Outgoing, o.TopicFits ∧ o.encode = some msg.data) :
    ∃ (got : List WriteMsg) (frames : List Frame),
      frames.map Frame.bytes = got.map WriteMsg.data ∧
      (∀ g, (sentBy g got).Sublist (sentBy g (callsOf as))) ∧
      Reads s.wire (frames.map Frame.packet) fun e => s.writer.torn = [] → e = .eof := by
  obtain ⟨written, hw⟩ := (inv_run hrun).written
  have horder (g : Nat) :
      (sentBy g (written ++ s.writer.inHand)).Sublist (sentBy g (callsOf as)) := by
    rw [← hw.received]
    exact (sentBy_sublist (List.sublist_append_left _ _) g).trans (sublist_callsOf hrun g)
  have hframed : ∀ msg ∈ written ++ s.writer.inHand, Framed msg.data := by
    intro msg hmsg
    have hmem := (horder msg.sender).subset (List.mem_filter.mpr ⟨hmsg, by simp⟩)
    obtain ⟨o, hfits, ho⟩ := hencoded msg (List.mem_filter.mp hmem).1
    exact framed_encode hfits ho
  obtain ⟨frames, hframes, hmax⟩ :=
    exists_frames fun msg hmsg => hframed msg (List.mem_append_left _ hmsg)
  have hwire := hw.wire
  rw [flatMap_eq hframes] at hwire
  cases hwriter : s.writer with
  | select | writing | left =>
      rw [hwriter, Writer.torn, List.append_nil] at hwire
      refine ⟨written, frames, hframes, fun g => ?_, fun ρ src r hr turns hturns => ?_⟩
      · exact (sentBy_sublist (List.sublist_append_left _ _) g).trans (horder g)
      · rw [hwire] at hr
        obtain ⟨e, heof, he⟩ := reads_frames hmax ρ src r hr turns hturns
        exact ⟨e, fun _ => heof, he⟩
  | failed msg n =>
      rw [hwriter] at horder hframed
      obtain ⟨f, hbytes, hf⟩ := hframed msg (List.mem_append_right _ List.mem_cons_self)
      rw [hwriter, Writer.torn, ← hbytes] at hwire
      obtain ⟨last, hlast, hreads⟩ := reads_cut hmax hf n
      rw [← hwire, hbytes] at hreads
      -- the packet counts if the error came behind its last byte
      cases List.sublist_singleton.mp hlast with
      | inl hnone =>
          rw [hnone, List.append_nil] at hreads
          refine ⟨written, frames, hframes, fun g => ?_, hreads⟩
          exact (sentBy_sublist (List.sublist_append_left _ _) g).trans (horder g)
      | inr hwhole =>
          rw [hwhole] at hreads
          refine ⟨written ++ [msg], frames ++ [f], ?_, horder, hreads⟩
          rw [List.map_append, List.map_append, hframes, List.map_singleton,
            List.map_singleton, hbytes]

/-- The run in which the Write of a PUBACK is cut short behind a PINGRESP. -/
theorem peer_reads_sent_packets_torn :
    ∃ s, run step tornRun (newClient 1) = some s ∧
      ∃ (got : List WriteMsg) (frames : List Frame),
        frames.map Frame.bytes = got.map WriteMsg.data ∧
        (sentBy 1 got).Sublist [⟨1, [0x40, 2, 0, 7]⟩, ⟨1, [0x40, 2, 0, 8]⟩] ∧
        Reads [0xD0, 0, 0x40, 2, 0] (frames.map Frame.packet) fun _ => True := by
  obtain ⟨s, hrun, hwire⟩ := reaches_of_any step tornRun (newClient 1)
    (fun s => s.wire = [0xD0, 0, 0x40, 2, 0]) (by decide)
  have hencoded : ∀ msg ∈ callsOf tornRun,
      ∃ o : Outgoing, o.TopicFits ∧ o.encode = some msg.data := by
    have hcalls : callsOf tornRun =
        [⟨0, [0xD0, 0]⟩, ⟨1, [0x40, 2, 0, 7]⟩, ⟨1, [0x40, 2, 0, 8]⟩] := by decide
    rw [hcalls]
    intro msg hmsg
    simp only [List.mem_cons, List.not_mem_nil, or_false] at hmsg
    rcases hmsg with rfl | rfl | rfl
    · exact ⟨.pingresp, trivial, rfl⟩
    · exact ⟨.ack .puback 7, trivial, rfl⟩
    · exact ⟨.ack .puback 8, trivial, rfl⟩
  obtain ⟨got, frames, hframes, horder, hreads⟩ := peer_reads_sent_packets 1 tornRun s hrun hencoded
  refine ⟨s, hrun, got, frames, hframes, horder 1, fun ρ src r hr turns hturns => ?_⟩
  obtain ⟨e, -, he⟩ := hreads ρ src r (hwire ▸ hr) turns hturns
  exact ⟨e, trivial, he⟩

end LumaBroker.Broker.PeerView
