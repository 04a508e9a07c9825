import LumaBroker.Lib.ByteSource
import LumaBroker.Protocol.Publish

/-!
From WebSocket messages to packets: wsConn.Read of internal/broker/transports.go, ReadFixed of
internal/protocol/packet.go on a connection, and the reads of readLoop of
internal/broker/client.go. The peer sends its bytes in messages of any length, wsConn keeps a
cursor into the message it reads, and the loop asks for single bytes and for whole bodies, over
the bufio.Reader of newClient. The connection's last error is io.EOF here; the loop returns on
any error alike.
-/

namespace LumaBroker.Broker.Transport

open Faulting Protocol ByteSource

/-- The messages ReadMessage has yet to return, and the one being read. -/
structure WsConn where
  messages : List (List UInt8)
  readBuf : List UInt8
  readCursor : Nat
  deriving DecidableEq

def newWSConn (messages : List (List UInt8)) : WsConn := ⟨messages, [], 0⟩

namespace WsConn

/-- The call ReadMessage and the new buffer. -/
def readMessage : Prog DecodeError WsConn Unit := fun c =>
  match c.messages with
  | [] => .error .eof
  | msg :: messages => .ok () ⟨messages, msg, 0⟩

/-- The call copy(p, c.readBuf[c.readCursor:]) for a buffer p of n bytes. -/
def copyOut (n : Nat) : Prog DecodeError WsConn (List UInt8) := do
  let c ← Prog.gets id
  let tail ← Prog.orPanic (slice c.readBuf c.readCursor c.readBuf.length)
  let p := tail.take n
  Prog.modify fun c => { c with readCursor := c.readCursor + p.length }
  pure p

def read (n : Nat) : Prog DecodeError WsConn (List UInt8) := do
  let c ← Prog.gets id
  if c.readCursor ≥ c.readBuf.length then
    readMessage
    copyOut n
  else copyOut n

/-- The bytes yet to be read. -/
def content (c : WsConn) : List UInt8 := c.readBuf.drop c.readCursor ++ c.messages.flatten

theorem copyOut_of_le (n : Nat) {c : WsConn} (h : c.readCursor ≤ c.readBuf.length) :
    copyOut n c = .ok ((c.readBuf.drop c.readCursor).take n)
      { c with readCursor := c.readCursor + ((c.readBuf.drop c.readCursor).take n).length } := by
  have hslice : slice c.readBuf c.readCursor c.readBuf.length =
      some (c.readBuf.drop c.readCursor) := by
    simp [slice, h, ← List.length_drop]
  simp [copyOut, hslice]

theorem content_copyOut (n : Nat) (c : WsConn) :
    c.content = (c.readBuf.drop c.readCursor).take n ++ content
      { c with readCursor := c.readCursor + ((c.readBuf.drop c.readCursor).take n).length } := by
  rw [content, content, ← List.append_assoc, ← List.drop_drop]
  congr 1
  rw [List.length_take]
  rcases Nat.le_total n (c.readBuf.drop c.readCursor).length with hn | hn
  · rw [Nat.min_eq_left hn, List.take_append_drop]
  · rw [Nat.min_eq_right hn, List.take_of_length_le hn, List.drop_length, List.append_nil]

/-- The connection as a source of bytes: its reads are bounded by the bytes and the messages. -/
def source : Source DecodeError.eof WsConn UInt8 where
  read := read
  content := content
  left c := c.content.length + c.messages.length
  read_cases := by
    intro n c hn
    by_cases hread : c.readCursor ≥ c.readBuf.length
    · have hempty : c.readBuf.drop c.readCursor = [] := List.drop_eq_nil_of_le hread
      cases hmsgs : c.messages with
      | nil =>
          have hmsg : readMessage c = .error .eof := by simp [readMessage, hmsgs]
          refine .inr ⟨?_, by simp [content, hempty, hmsgs]⟩
          simp only [read, Prog.gets_bind, id, if_pos hread]
          exact Prog.bind_error hmsg _
      | cons msg messages =>
          let c' : WsConn := ⟨messages, msg, 0⟩
          have hmsg : readMessage c = .ok () c' := by simp [readMessage, hmsgs, c']
          have hc : c.content = c'.content := by simp [content, hempty, hmsgs, c']
          have hcopy := content_copyOut n c'
          refine .inl ⟨_, _, ?_, List.length_take_le n _, hc.trans hcopy, ?_, ?_⟩
          · simp only [read, Prog.gets_bind, id, if_pos hread]
            rw [Prog.bind_ok hmsg, copyOut_of_le n (Nat.zero_le _)]
          · rw [hc, hcopy, List.length_append, List.length_cons]
            simp only [c']
            omega
          · rw [hc, hcopy, List.length_append, List.length_cons]
            simp only [c']
            omega
    · have hcopy := content_copyOut n c
      have hpos : 0 < ((c.readBuf.drop c.readCursor).take n).length := by
        rw [List.length_take, List.length_drop]
        omega
      refine .inl ⟨_, _, ?_, List.length_take_le n _, hcopy, ?_, ?_⟩
      · simp only [read, Prog.gets_bind, id, if_neg hread]
        exact copyOut_of_le n (by omega)
      · rw [hcopy, List.length_append]
        simp only
        omega
      · rw [hcopy, List.length_append]
        simp only
        omega

end WsConn

section Loop
variable {ρ : Type} (src : Source DecodeError.eof ρ UInt8)

/-- io.ReadFull into a buffer of one byte. -/
def readByteFrom : Prog DecodeError ρ UInt8 := do
  let b1 ← readFull src .unexpectedEOF 1
  Prog.orPanic b1[0]?

/-- The loop of ReadFixed, with the number of turns left. -/
def readRemainingLengthFrom : Nat → Nat → Nat → Prog DecodeError ρ Nat
  | 0, _, val => pure val
  | i + 1, mult, val => do
      let b1 ← (readByteFrom src).mapError (.wrap "remaining length")
      let digit := b1.toNat
      let val := val + (digit &&& 0x7F) * mult
      if digit &&& 0x80 = 0 then pure val
      else if i = 0 then Prog.fail .invalidVarInt
      else readRemainingLengthFrom i (mult * 128) val

def readFixedFrom : Prog DecodeError ρ FixedHeader := do
  let b1 ← readByteFrom src
  let val ← readRemainingLengthFrom src 4 1 0
  pure { type := PacketType.ofByte (b1 >>> 4), flags := b1 &&& 0x0F, remainingLength := val }

structure Packet where
  fh : FixedHeader
  body : List UInt8
  deriving DecidableEq

/-- The reads of one turn of readLoop; none is the return on an oversized packet. -/
def readPacket (maxPacketSize : Nat) : Prog DecodeError ρ (Option Packet) := do
  let fh ← readFixedFrom src
  if fh.remainingLength > 0 then
    if fh.remainingLength > maxPacketSize then pure none
    else
      let body ← readFull src .unexpectedEOF fh.remainingLength
      pure (some ⟨fh, body⟩)
  else pure (some ⟨fh, []⟩)

/-- The packets of the first turns of readLoop, and how the loop left off. -/
def readLoop (maxPacketSize : Nat) : Nat → ρ → List Packet × Outcome DecodeError ρ Unit
  | 0, _ => ([], .timeout)
  | turns + 1, r =>
      match readPacket src maxPacketSize r with
      | .ok (some p) r =>
          let (packets, last) := readLoop maxPacketSize turns r
          (p :: packets, last)
      | .ok none r => ([], .ok () r)
      | .error e => ([], .error e)
      | .panic => ([], .panic)
      | .timeout => ([], .timeout)

/-! Over the bytes alone, ReadFixed is the function of internal/protocol/packet.go. -/

variable {src}

theorem readByteFrom_refines : Refines src.Holds (readByteFrom src) readByte := by
  intro r bytes hr
  have hfull := readFull_refines src .unexpectedEOF 1 r bytes hr
  cases bytes with
  | nil =>
      have hend : takeFull DecodeError.eof .unexpectedEOF 1 ([] : List UInt8) = .error .eof := rfl
      rw [readByteFrom, Prog.bind_error (hfull.eq_error hend)]
      exact .error _
  | cons b rest =>
      have htake : takeFull DecodeError.eof .unexpectedEOF 1 (b :: rest) = .ok [b] rest := by
        simp [takeFull, takeRest]
      obtain ⟨r', hread, hr'⟩ := hfull.exists_ok htake
      rw [readByteFrom, Prog.bind_ok hread]
      exact .ok b hr'

theorem readRemainingLengthFrom_refines (i mult val : Nat) :
    Refines src.Holds (readRemainingLengthFrom src i mult val)
      (readRemainingLength i mult val) := by
  induction i generalizing mult val with
  | zero => exact refines_pure val
  | succ i ih =>
      refine (readByteFrom_refines.mapError _).bind fun b1 => ?_
      exact (refines_pure _).ite ((refines_fail _).ite (ih _ _))

theorem readFixedFrom_refines : Refines src.Holds (readFixedFrom src) readFixed :=
  readByteFrom_refines.bind fun _ =>
    (readRemainingLengthFrom_refines 4 1 0).bind fun _ => refines_pure _

end Loop

/-- A packet on the wire: its first byte, its length in varint form, and its body. -/
structure Frame where
  first : UInt8
  len : List UInt8
  body : List UInt8
  delimited : Varint.Delimited len
  length_len : len.length ≤ 4
  value_len : Varint.value len = body.length

namespace Frame

/-- The frame with the shortest form of its length. -/
def ofBody (first : UInt8) (body : List UInt8) (h : body.length ≤ maxRemainingLength) : Frame where
  first := first
  len := Varint.encode body.length
  body := body
  delimited := Varint.delimited_encode _
  length_len := Varint.length_encode_le (Nat.lt_succ_of_le h)
  value_len := Varint.value_encode _

def bytes (f : Frame) : List UInt8 := f.first :: (f.len ++ f.body)

/-- What the broker should take it for. -/
def packet (f : Frame) : Packet :=
  ⟨⟨PacketType.ofByte (f.first >>> 4), f.first &&& 0x0F, f.body.length⟩, f.body⟩

end Frame

/-- The first byte that a header stands for. -/
def firstByte (fh : FixedHeader) : UInt8 := fh.type.code <<< 4 ||| fh.flags

theorem firstByte_packet (f : Frame) : firstByte f.packet.fh = f.first := by
  have hall : ∀ b :
      Fin 256, firstByte ⟨PacketType.ofByte (UInt8.ofNat b >>> 4), UInt8.ofNat b &&& 0x0F, 0⟩ =
      UInt8.ofNat b := by
    decide +kernel
  simpa [firstByte, Frame.packet] using hall ⟨f.first.toNat, f.first.toNat_lt⟩

section Framing
variable {ρ : Type} (src : Source DecodeError.eof ρ UInt8) {maxPacketSize : Nat}

theorem readPacket_frame {f : Frame} (hmax : f.body.length ≤ maxPacketSize) {r : ρ}
    {rest : List UInt8} (hr : src.Holds r (f.bytes ++ rest)) :
    ∃ r', readPacket src maxPacketSize r = .ok (some f.packet) r' ∧ src.Holds r' rest := by
  have hfixed : readFixed (f.bytes ++ rest) = .ok f.packet.fh (f.body ++ rest) :=
    readFixed_eq_ok.mpr ⟨f.first, f.len, f.delimited, f.length_len,
      by simp [Frame.bytes], by rw [f.value_len]; rfl⟩
  obtain ⟨r₁, hfh, hr₁⟩ := (readFixedFrom_refines r _ hr).exists_ok hfixed
  rw [readPacket, Prog.bind_ok hfh]
  by_cases hbody : f.body.length = 0
  · have hnil : f.body = [] := List.length_eq_zero_iff.mp hbody
    rw [hnil] at hr₁
    refine ⟨r₁, ?_, hr₁⟩
    simp [Frame.packet, hnil]
  · have hpos : f.packet.fh.remainingLength > 0 := Nat.pos_of_ne_zero hbody
    have hsize : ¬ f.packet.fh.remainingLength > maxPacketSize := Nat.not_lt.mpr hmax
    have htake : takeFull DecodeError.eof .unexpectedEOF f.packet.fh.remainingLength
        (f.body ++ rest) =
        .ok f.body rest := by
      simp [takeFull, takeRest, Frame.packet]
    obtain ⟨r₂, hfull, hr₂⟩ := (readFull_refines src .unexpectedEOF _ r₁ _ hr₁).exists_ok htake
    rw [if_pos hpos, if_neg hsize, Prog.bind_ok hfull]
    exact ⟨r₂, rfl, hr₂⟩

theorem readPacket_end {r : ρ} (hr : src.Holds r []) :
    readPacket src maxPacketSize r = .error .eof :=
  Prog.bind_error ((readFixedFrom_refines r [] hr).eq_error rfl) _

/-- The run of the loop over any source of the bytes of these packets. -/
theorem readLoop_frames (frames : List Frame) (hmax : ∀ f ∈ frames, f.body.length ≤ maxPacketSize)
    {r : ρ} (hr : src.Holds r (frames.flatMap Frame.bytes)) {turns : Nat}
    (hturns : frames.length < turns) :
    readLoop src maxPacketSize turns r = (frames.map Frame.packet, .error .eof) := by
  induction frames generalizing r turns with
  | nil =>
      cases turns with
      | zero => exact absurd hturns (Nat.not_lt_zero _)
      | succ turns => simp only [readLoop, readPacket_end src hr, List.map_nil]
  | cons f frames ih =>
      cases turns with
      | zero => exact absurd hturns (Nat.not_lt_zero _)
      | succ turns =>
          obtain ⟨r', hpacket, hr'⟩ := readPacket_frame src (hmax f List.mem_cons_self) hr
          have hloop :=
            ih (fun f hf => hmax f (List.mem_cons_of_mem _ hf)) hr' (Nat.lt_of_succ_lt_succ hturns)
          simp only [readLoop, hpacket, hloop, List.map_cons]

end Framing

/-- The reader of newClient over a connection: bufio.NewReaderSize, whose buffer has 16 bytes
at least. -/
def newReaderSize (readBufSize : Nat) : Source DecodeError.eof (Buffered WsConn UInt8) UInt8 :=
  buffered WsConn.source (max readBufSize 16)
    (Nat.lt_of_lt_of_le (by decide) (Nat.le_max_right _ 16))

/-- However the bytes of the packets are cut into messages, the loop yields the packets, and
then only the end of the connection: through wsConn.Read itself and through the buffer in
front of it. -/
theorem framing_independent_of_chunking (maxPacketSize readBufSize : Nat) (frames : List Frame)
    (hmax : ∀ f ∈ frames, f.body.length ≤ maxPacketSize) (messages : List (List UInt8))
    (hcut : messages.flatten = frames.flatMap Frame.bytes) (turns : Nat)
    (hturns : frames.length < turns) :
    readLoop WsConn.source maxPacketSize turns (newWSConn messages) =
        (frames.map Frame.packet, .error .eof) ∧
      readLoop (newReaderSize readBufSize) maxPacketSize turns ⟨[], newWSConn messages⟩ =
        (frames.map Frame.packet, .error .eof) ∧
      (frames.map Frame.packet).map (fun p => (firstByte p.fh, p.body)) =
        frames.map fun f => (f.first, f.body) := by
  have hws : WsConn.source.Holds (newWSConn messages) (frames.flatMap Frame.bytes) := by
    rw [← hcut]
    rfl
  have hbuf : (newReaderSize readBufSize).Holds ⟨[], newWSConn messages⟩
      (frames.flatMap Frame.bytes) := hws
  refine ⟨readLoop_frames _ frames hmax hws hturns, readLoop_frames _ frames hmax hbuf hturns, ?_⟩
  rw [List.map_map]
  apply List.map_congr_left
  intro f hf
  rw [Function.comp_apply, firstByte_packet]
  rfl

/-- A PINGREQ, and a PUBLISH of three bytes whose length has a byte too many. -/
def sampleFrames : List Frame :=
  [Frame.ofBody 0xC0 [] (by decide),
    ⟨0x30, [0x83, 0x00], [1, 2, 3],
      (Varint.delimited_cons (by decide)).mpr (Varint.delimited_singleton (by decide)),
        by decide, by decide⟩]

/-- Their bytes, cut inside both headers, with empty messages. -/
def sampleMessages : List (List UInt8) :=
  [[0xC0], [], [0x00, 0x30], [], [], [0x83, 0x00, 1], [2, 3], []]

theorem framing_across_messages :
    readLoop WsConn.source 3 5 (newWSConn sampleMessages) =
        ([⟨⟨.pingreq, 0, 0⟩, []⟩, ⟨⟨.publish, 0, 3⟩, [1, 2, 3]⟩], .error .eof) ∧
      readLoop (newReaderSize 4096) 3 5 ⟨[], newWSConn sampleMessages⟩ =
        ([⟨⟨.pingreq, 0, 0⟩, []⟩, ⟨⟨.publish, 0, 3⟩, [1, 2, 3]⟩], .error .eof) := by
  have hcut : sampleMessages.flatten = sampleFrames.flatMap Frame.bytes := by
    simp [sampleMessages, sampleFrames, Frame.bytes, Frame.ofBody, Varint.encode]
  have hpackets : sampleFrames.map Frame.packet =
      [⟨⟨.pingreq, 0, 0⟩, []⟩, ⟨⟨.publish, 0, 3⟩, [1, 2, 3]⟩] := by
    decide
  have h := framing_independent_of_chunking 3 4096 sampleFrames (by decide) sampleMessages hcut
    5 (by decide)
  rw [hpackets] at h
  exact ⟨h.1, h.2.1⟩

end LumaBroker.Broker.Transport
