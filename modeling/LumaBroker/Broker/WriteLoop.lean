import LumaBroker.Broker.Conn
import LumaBroker.Lib.Channel
import LumaBroker.Lib.Transition

/-!
The sending side of a connection in internal/broker/client.go. Any number of goroutines call
enqueue: the read loop for its answers, the deliveries of other clients' messages, the
goroutines of a resumed session. One goroutine, writeLoop, empties the queue into the socket.
A call of enqueue first looks at the state and then tries to send, and anything may happen
in between; cleanup, a takeover or the peer may end the connection at any point.
-/

namespace LumaBroker.Broker.WriteLoop

open Channel Transition

/-- The struct writeMsg, with the goroutine that it comes from. -/
structure WriteMsg where
  sender : Nat
  data : List UInt8
  deriving DecidableEq

/-- Where writeLoop is: at its select, in a Write, or behind its end; failed after a Write that
took some bytes of the packet and then returned an error. -/
inductive Writer where
  | select
  | writing (msg : WriteMsg)
  | failed (msg : WriteMsg) (n : Nat)
  | left
  deriving DecidableEq

/-- The packet that writeLoop has taken off the queue and not written as a whole. -/
def Writer.inHand : Writer → List WriteMsg
  | .writing msg | .failed msg _ => [msg]
  | .select | .left => []

/-- The bytes of a Write that failed. -/
def Writer.torn : Writer → List UInt8
  | .failed msg n => msg.data.take n
  | .select | .writing _ | .left => []

/-- One connection. The calls of enqueue that have found it open are kept by goroutine; the
last two fields record the calls and what went through the queue. -/
structure State where
  closed : Bool
  closeCh : Bool
  ctxDone : Bool
  socketOpen : Bool
  writeQ : Chan WriteMsg
  senders : Nat → Option (List UInt8)
  writer : Writer
  wire : List UInt8
  txPackets : UInt64
  txBytes : UInt64
  dropped : Nat
  calls : List WriteMsg
  traffic : Traffic WriteMsg

/-- The connection of newClient. -/
def newClient (writeQueueSize : Nat) : State where
  closed := false
  closeCh := false
  ctxDone := false
  socketOpen := true
  writeQ := Chan.make writeQueueSize
  senders _ := none
  writer := .select
  wire := []
  txPackets := 0
  txBytes := 0
  dropped := 0
  calls := []
  traffic := Traffic.none

inductive Action where
  /-- A goroutine calls enqueue, which looks at the state and copies the packet. -/
  | call (sender : Nat) (data : List UInt8)
  /-- The select of enqueue. -/
  | send (sender : Nat)
  /-- The select of writeLoop, which takes a packet or blocks. -/
  | poll
  | write
  /-- A Write that returns an error after n bytes. -/
  | writeError (n : Nat)
  /-- The select of writeLoop takes one of its other branches. -/
  | leave
  /-- The steps of cleanup, and the closing of the socket by anyone. -/
  | storeClosed
  | closeCloseCh
  | closeSocket
  | cancel

def call (sender : Nat) (data : List UInt8) (s : State) : State :=
  { s with
    senders := if s.closed then s.senders else Function.update s.senders sender (some data)
    calls := s.calls ++ [⟨sender, data⟩] }

/-- The packet goes to a waiting writeLoop, into the queue, or is dropped. -/
def send (msg : WriteMsg) (s : State) : State :=
  { s with
    senders := Function.update s.senders msg.sender none
    writeQ := s.writeQ.trySend msg
    writer := if s.writeQ.waiting then .writing msg else s.writer
    dropped := if s.writeQ.Ready then s.dropped else s.dropped + 1
    traffic := s.traffic.offer msg s.writeQ }

def poll (s : State) : State :=
  match s.writeQ.buf with
  | [] => { s with writeQ := s.writeQ.block }
  | msg :: _ =>
      { s with writeQ := s.writeQ.take, writer := .writing msg, traffic := s.traffic.receive msg }

def write (msg : WriteMsg) (s : State) : State :=
  { s with
    writer := .select
    wire := s.wire ++ msg.data
    txPackets := s.txPackets + 1
    txBytes := s.txBytes + UInt64.ofNat msg.data.length }

def step (s : State) : Action → Option State
  | .call sender data => if s.senders sender = none then some (call sender data s) else none
  | .send sender => (s.senders sender).map fun data => send ⟨sender, data⟩ s
  | .poll => if s.writer = .select ∧ s.writeQ.waiting = false then some (poll s) else none
  | .write =>
      match s.writer with
      | .writing msg => if s.socketOpen then some (write msg s) else none
      | _ => none
  | .writeError n =>
      match s.writer with
      | .writing msg => some { s with writer := .failed msg n, wire := s.wire ++ msg.data.take n }
      | _ => none
  | .leave =>
      if s.writer = .select ∧ (s.closeCh = true ∨ s.ctxDone = true) then
        some { s with writer := .left, writeQ := s.writeQ.unblock }
      else none
  | .storeClosed => some { s with closed := true }
  | .closeCloseCh => some { s with closeCh := true }
  | .closeSocket => some { s with socketOpen := false }
  | .cancel => some { s with ctxDone := true }

/-- The calls of enqueue in a run. -/
def callsOf (as : List Action) : List WriteMsg :=
  as.filterMap fun
    | .call sender data => some ⟨sender, data⟩
    | _ => none

/-- What comes from one goroutine. -/
def sentBy (g : Nat) (msgs : List WriteMsg) : List WriteMsg := msgs.filter fun msg => msg.sender = g

/-- The call of a goroutine that has not come to its select. -/
def pending (g : Nat) (senders : Nat → Option (List UInt8)) : List WriteMsg :=
  (senders g).toList.map fun data => ⟨g, data⟩

theorem sentBy_append (g : Nat) (msgs msgs' : List WriteMsg) :
    sentBy g (msgs ++ msgs') = sentBy g msgs ++ sentBy g msgs' := List.filter_append _ _

theorem sentBy_sublist {msgs msgs' : List WriteMsg} (h : msgs.Sublist msgs') (g : Nat) :
    (sentBy g msgs).Sublist (sentBy g msgs') := h.filter _

section Pending
variable {senders : Nat → Option (List UInt8)} {g : Nat}

/-- A call is added to the calls of its goroutine and to no others. -/
theorem pending_call (hfree : senders g = none) (data : List UInt8) (g' : Nat) :
    pending g' (Function.update senders g (some data)) = pending g' senders ++
      sentBy g' [⟨g, data⟩] := by
  by_cases hg : g' = g
  · subst hg
    simp [pending, sentBy, hfree]
  · simp [pending, sentBy, hg, Ne.symm hg]

/-- The select of enqueue ends the call of its goroutine. -/
theorem pending_send {data : List UInt8} (hcall : senders g = some data) (g' : Nat) :
    sentBy g' [⟨g, data⟩] ++ pending g' (Function.update senders g none) = pending g' senders := by
  by_cases hg : g' = g
  · subst hg
    simp [pending, sentBy, hcall]
  · simp [pending, sentBy, hg, Ne.symm hg]

end Pending

/-- Of what came out of the queue, these packets are on the wire as a whole; behind them stands
what is left of a failed Write. -/
structure Written (received : List WriteMsg) (writer : Writer) (wire : List UInt8)
    (txPackets txBytes : UInt64) (written : List WriteMsg) : Prop where
  received : received = written ++ writer.inHand
  wire : wire = written.flatMap WriteMsg.data ++ writer.torn
  txPackets : txPackets = UInt64.ofNat written.length
  txBytes : txBytes = UInt64.ofNat (written.flatMap WriteMsg.data).length

structure Inv (writeQueueSize : Nat) (s : State) : Prop where
  capacity : s.writeQ.capacity = writeQueueSize
  carries : Carries s.writeQ s.traffic
  blocked : s.writeQ.waiting = true → s.writer = .select
  written : ∃ written, Written s.traffic.received s.writer s.wire s.txPackets s.txBytes written
  dropped : s.traffic.offered.length = s.traffic.accepted.length + s.dropped
  order : ∀ g, (sentBy g s.traffic.offered ++ pending g s.senders).Sublist (sentBy g s.calls)
  complete : s.closed = false → ∀ g, sentBy g s.traffic.offered ++
    pending g s.senders = sentBy g s.calls

theorem inv_newClient (writeQueueSize : Nat) : Inv writeQueueSize (newClient writeQueueSize) where
  capacity := rfl
  carries := carries_make writeQueueSize
  blocked h := absurd h Bool.false_ne_true
  written := ⟨[], rfl, rfl, rfl, rfl⟩
  dropped := rfl
  order _ := List.Sublist.refl _
  complete _ _ := rfl

variable {writeQueueSize : Nat} {s : State}

theorem inv_call (h : Inv writeQueueSize s) {g : Nat} (hfree : s.senders g = none)
    (data : List UInt8) : Inv writeQueueSize (call g data s) where
  capacity := h.capacity
  carries := h.carries
  blocked := h.blocked
  written := h.written
  dropped := h.dropped
  order g' := by
    simp only [call, sentBy_append]
    split
    · exact (h.order g').trans (List.sublist_append_left _ _)
    · rw [pending_call hfree, ← List.append_assoc]
      exact (h.order g').append (List.Sublist.refl _)
  complete hopen g' := by
    have hclosed : s.closed = false := hopen
    simp only [call, sentBy_append, hclosed, Bool.false_eq_true, if_false]
    rw [pending_call hfree, ← List.append_assoc, h.complete hclosed g']

theorem written_send (h : Inv writeQueueSize s) (msg : WriteMsg) :
    ∃ written, Written (s.traffic.offer msg s.writeQ).received (send msg s).writer s.wire
      s.txPackets s.txBytes
      written := by
  obtain ⟨written, hw⟩ := h.written
  cases hwait : s.writeQ.waiting with
  | false => exact ⟨written, by simpa [send, Traffic.offer, hwait] using hw⟩
  | true =>
      have hselect := h.blocked hwait
      rw [hselect] at hw
      refine ⟨written, ?_, ?_, hw.txPackets, hw.txBytes⟩
      · simp [send, Traffic.offer, hwait, hw.received, Writer.inHand]
      · simpa [send, hwait, Writer.torn] using hw.wire

theorem inv_send (h : Inv writeQueueSize s) {msg : WriteMsg}
    (hcall : s.senders msg.sender = some msg.data) : Inv writeQueueSize (send msg s) := by
  have hoffered (g : Nat) : sentBy g (s.traffic.offered ++ [msg]) ++
      pending g (Function.update s.senders msg.sender none) =
        sentBy g s.traffic.offered ++ pending g s.senders := by
    rw [sentBy_append, List.append_assoc, pending_send hcall]
  refine ⟨(Chan.capacity_trySend msg s.writeQ).trans h.capacity, h.carries.trySend msg, ?_,
    written_send h msg, ?_, ?_, ?_⟩
  · intro hwait
    simp [send] at hwait
  · have hdropped := h.dropped
    simp only [send, Traffic.offer, List.length_append, List.length_singleton]
    split_ifs
    · rw [List.length_append, List.length_singleton]
      omega
    · omega
  · intro g
    exact (hoffered g).symm ▸ h.order g
  · intro hopen g
    exact (hoffered g).trans (h.complete hopen g)

theorem inv_poll (h : Inv writeQueueSize s) (hselect : s.writer = .select) :
    Inv writeQueueSize (poll s) := by
  obtain ⟨written, hw⟩ := h.written
  rw [poll]
  split
  · next hbuf =>
      exact ⟨h.capacity, h.carries.block hbuf, fun _ => hselect, h.written, h.dropped,
        h.order, h.complete⟩
  · next msg rest hbuf =>
      have htake := h.carries.take hbuf
      rw [hselect] at hw
      refine ⟨h.capacity, htake, ?_, ⟨written, ?_, ?_, hw.txPackets, hw.txBytes⟩, h.dropped,
        h.order, h.complete⟩
      · intro hwait
        have hnil := h.carries.empty hwait
        rw [hbuf] at hnil
        cases hnil
      · simp [Traffic.receive, hw.received, Writer.inHand]
      · simpa [Writer.torn] using hw.wire

theorem inv_write (h : Inv writeQueueSize s) {msg : WriteMsg} (hwriting : s.writer = .writing msg) :
    Inv writeQueueSize (write msg s) := by
  obtain ⟨written, hw⟩ := h.written
  rw [hwriting] at hw
  refine ⟨h.capacity, h.carries, fun _ => rfl, ⟨written ++ [msg], ?_, ?_, ?_, ?_⟩, h.dropped,
    h.order, h.complete⟩
  · simpa [write, Writer.inHand] using hw.received
  · simp [write, hw.wire, Writer.torn]
  · simp [write, hw.txPackets]
  · simp [write, hw.txBytes]

theorem inv_writeError (h : Inv writeQueueSize s) {msg : WriteMsg}
    (hwriting : s.writer = .writing msg) (n : Nat) :
    Inv writeQueueSize { s with writer := .failed msg n, wire := s.wire ++ msg.data.take n } := by
  obtain ⟨written, hw⟩ := h.written
  rw [hwriting] at hw
  refine ⟨h.capacity, h.carries, ?_, ⟨written, hw.received, ?_, hw.txPackets, hw.txBytes⟩,
    h.dropped, h.order, h.complete⟩
  · intro hwait
    have hselect := h.blocked hwait
    rw [hwriting] at hselect
    cases hselect
  · simp [hw.wire, Writer.torn]

theorem inv_leave (h : Inv writeQueueSize s) (hselect : s.writer = .select) :
    Inv writeQueueSize { s with writer := .left, writeQ := s.writeQ.unblock } := by
  obtain ⟨written, hw⟩ := h.written
  rw [hselect] at hw
  refine ⟨h.capacity, h.carries.unblock, ?_,
    ⟨written, hw.received, hw.wire, hw.txPackets, hw.txBytes⟩, h.dropped, h.order, h.complete⟩
  exact fun hwait => absurd hwait Bool.false_ne_true

theorem inv_step {s t : State} {a : Action} (h : Inv writeQueueSize s) (hstep : step s a = some t) :
    Inv writeQueueSize t := by
  cases a with
  | call g data =>
      rw [step] at hstep
      split at hstep
      · next hfree =>
          cases hstep
          exact inv_call h hfree data
      · cases hstep
  | send g =>
      obtain ⟨data, hcall, rfl⟩ := Option.map_eq_some_iff.mp hstep
      exact inv_send h hcall
  | poll =>
      rw [step] at hstep
      split at hstep
      · next hready =>
          cases hstep
          exact inv_poll h hready.1
      · cases hstep
  | write =>
      rw [step] at hstep
      split at hstep
      · next msg hwriting =>
          split at hstep
          · cases hstep
            exact inv_write h hwriting
          · cases hstep
      · cases hstep
  | writeError n =>
      rw [step] at hstep
      split at hstep
      · next msg hwriting =>
          cases hstep
          exact inv_writeError h hwriting n
      · cases hstep
  | leave =>
      rw [step] at hstep
      split at hstep
      · next hready =>
          cases hstep
          exact inv_leave h hready.1
      · cases hstep
  | storeClosed =>
      cases hstep
      exact ⟨h.capacity, h.carries, h.blocked, h.written, h.dropped, h.order,
        fun hopen => absurd hopen.symm Bool.false_ne_true⟩
  | closeCloseCh | closeSocket | cancel =>
      cases hstep
      exact ⟨h.capacity, h.carries, h.blocked, h.written, h.dropped, h.order, h.complete⟩

theorem calls_step {s t : State} {a : Action} (hstep : step s a = some t) :
    t.calls = s.calls ++ callsOf [a] := by
  cases a with
  | call g data =>
      rw [step] at hstep
      split at hstep
      · cases hstep
        rfl
      · cases hstep
  | send g =>
      obtain ⟨data, -, rfl⟩ := Option.map_eq_some_iff.mp hstep
      exact (List.append_nil _).symm
  | poll =>
      rw [step] at hstep
      split at hstep
      · cases hstep
        rw [poll]
        split <;> exact (List.append_nil _).symm
      · cases hstep
  | write =>
      rw [step] at hstep
      split at hstep
      · split at hstep
        · cases hstep
          exact (List.append_nil _).symm
        · cases hstep
      · cases hstep
  | writeError n =>
      rw [step] at hstep
      split at hstep
      · cases hstep
        exact (List.append_nil _).symm
      · cases hstep
  | leave =>
      rw [step] at hstep
      split at hstep
      · cases hstep
        exact (List.append_nil _).symm
      · cases hstep
  | storeClosed | closeCloseCh | closeSocket | cancel =>
      cases hstep
      exact (List.append_nil _).symm

theorem calls_run {s t : State} {as : List Action} (hrun : run step as s = some t) :
    t.calls = s.calls ++ callsOf as := by
  induction as generalizing s with
  | nil =>
      cases hrun
      exact (List.append_nil _).symm
  | cons a as ih =>
      obtain ⟨u, hu, hrest⟩ := Option.bind_eq_some_iff.mp hrun
      have happend : callsOf (a :: as) = callsOf [a] ++ callsOf as :=
        List.filterMap_append (l := [a])
      rw [ih hrest, calls_step hu, happend, List.append_assoc]

theorem inv_run {as : List Action} (hrun : run step as (newClient writeQueueSize) = some s) :
    Inv writeQueueSize s :=
  preserved_run (fun _ _ _ hs hstep => inv_step hs hstep) (inv_newClient writeQueueSize) hrun

/-- What has come out of the queue or is in it are calls, in the order of each goroutine. -/
theorem sublist_callsOf {as : List Action}
    (hrun : run step as (newClient writeQueueSize) = some s) (g : Nat) :
    (sentBy g (s.traffic.received ++ s.writeQ.buf)).Sublist (sentBy g (callsOf as)) := by
  have h := inv_run hrun
  have hcalls : s.calls = callsOf as := calls_run hrun
  rw [← hcalls]
  exact (sentBy_sublist h.carries.sublist_offered g).trans
    ((List.sublist_append_left _ _).trans (h.order g))

/-- Whatever the goroutines do, the socket gets packets as a whole, behind which only a failed
Write leaves a piece of one. Each goroutine's packets keep the order of its calls and none
comes twice, and none is missing while the queue has not been full and the connection is
open. The counters count what was written, and the queue stays within its size. -/
theorem wire_carries_calls (writeQueueSize : Nat) (as : List Action) (s : State)
    (hrun : run step as (newClient writeQueueSize) = some s) :
    ∃ written : List WriteMsg,
      s.wire = written.flatMap WriteMsg.data ++ s.writer.torn ∧
      s.txPackets = UInt64.ofNat written.length ∧
      s.txBytes = UInt64.ofNat (written.flatMap WriteMsg.data).length ∧
      s.writeQ.buf.length ≤ writeQueueSize ∧
      (∀ g, (sentBy g (written ++ s.writer.inHand ++ s.writeQ.buf)).Sublist
        (sentBy g (callsOf as))) ∧
      (s.dropped = 0 → s.closed = false → (∀ g, s.senders g = none) →
        ∀ g, sentBy g (written ++ s.writer.inHand ++ s.writeQ.buf) = sentBy g (callsOf as)) := by
  have h := inv_run hrun
  have hcalls : s.calls = callsOf as := calls_run hrun
  obtain ⟨written, hw⟩ := h.written
  refine ⟨written, hw.wire, hw.txPackets, hw.txBytes, h.capacity ▸ h.carries.bounded, ?_, ?_⟩
  · intro g
    rw [← hw.received]
    exact sublist_callsOf hrun g
  · intro hdropped hopen hidle g
    have hall := h.carries.eq_offered (by rw [h.dropped, hdropped, Nat.add_zero])
    have hcomplete := h.complete hopen g
    rw [pending, hidle g] at hcomplete
    rw [← hw.received, hall, ← hcalls, ← hcomplete]
    simp

/-- Two goroutines and a queue with one place. The third packet finds it full, and the Write of
the second one is cut short. -/
def tornRun : List Action :=
  [.poll, .call 0 [0xD0, 0], .call 1 [0x40, 2, 0, 7], .send 0, .send 1, .call 1 [0x40, 2, 0, 8],
    .send 1, .write, .poll, .closeSocket, .writeError 3]

theorem wire_carries_calls_torn :
    ∃ s, run step tornRun (newClient 1) = some s ∧ s.wire = [0xD0, 0, 0x40, 2, 0] ∧ s.dropped = 1 ∧
      ∃ written : List WriteMsg, s.wire = written.flatMap WriteMsg.data ++ s.writer.torn ∧
        (sentBy 1 (written ++ s.writer.inHand ++ s.writeQ.buf)).Sublist
          [⟨1, [0x40, 2, 0, 7]⟩, ⟨1, [0x40, 2, 0, 8]⟩] := by
  obtain ⟨s, hrun, hwire, hdropped⟩ := reaches_of_any step tornRun (newClient 1)
    (fun s => s.wire = [0xD0, 0, 0x40, 2, 0] ∧ s.dropped = 1) (by decide)
  obtain ⟨written, hs, -, -, -, horder, -⟩ := wire_carries_calls 1 tornRun s hrun
  exact ⟨s, hrun, hwire, hdropped, written, hs, horder 1⟩

/-- The connection of the handlers, while writeLoop is busy. -/
structure Represents (encode : Outbound → List UInt8) (c : Conn) (s : State) : Prop where
  queue : s.writeQ.buf.map WriteMsg.data = c.writeQ.map encode
  capacity : s.writeQ.capacity = c.writeQueueSize
  closed : s.closed = true ↔ c.state = .closed
  busy : s.writeQ.waiting = false

section Conn
variable {encode : Outbound → List UInt8} {c : Conn}

theorem Represents.length (h : Represents encode c s) : s.writeQ.buf.length = c.writeQ.length := by
  simpa using congrArg List.length h.queue

/-- A call of enqueue that nothing interrupts is the one of the handlers. -/
theorem conn_enqueue (h : Represents encode c s) {g : Nat} (hidle : s.senders g = none)
    (out : Outbound) :
    ∃ as t, callsOf as = [⟨g, encode out⟩] ∧ run step as s = some t ∧
      Represents encode (c.enqueue out) t := by
  cases hclosed : s.closed with
  | true =>
      have hfull : ¬ c.HasRoom := fun hroom => hroom.1 (h.closed.mp hclosed)
      refine ⟨[.call g (encode out)], call g (encode out) s, rfl, by simp [run, step, hidle], ?_⟩
      rw [Conn.enqueue, if_neg hfull]
      exact ⟨h.queue, h.capacity, h.closed, h.busy⟩
  | false =>
      have hopen : c.state ≠ .closed :=
        fun hstate => Bool.false_ne_true (hclosed.symm.trans (h.closed.mpr hstate))
      refine ⟨[.call g (encode out), .send g], send ⟨g, encode out⟩ (call g (encode out) s),
        rfl, ?_, ?_⟩
      · simp [run, step, hidle, call, hclosed]
      · have hlength := h.length
        have hroom : c.HasRoom ↔ s.writeQ.buf.length < s.writeQ.capacity := by
          rw [Conn.HasRoom, hlength, h.capacity]
          exact and_iff_right hopen
        by_cases hspace : s.writeQ.buf.length < s.writeQ.capacity
        · rw [Conn.enqueue, if_pos (hroom.mpr hspace)]
          refine ⟨?_, h.capacity ▸ ?_, h.closed, ?_⟩
          · simp [send, call, Chan.trySend, h.busy, hspace, h.queue]
          · simp [send, call]
          · simp [send, call]
        · rw [Conn.enqueue, if_neg (fun hc => hspace (hroom.mp hc))]
          refine ⟨?_, h.capacity ▸ ?_, h.closed, ?_⟩
          · simp [send, call, Chan.trySend, h.busy, hspace, h.queue]
          · simp [send, call]
          · simp [send, call]

/-- A turn of writeLoop takes the packet that the handlers' queue loses. -/
theorem conn_write (h : Represents encode c s) (hselect : s.writer = .select)
    (hne : c.writeQ ≠ []) : ∃ t, step s .poll = some t ∧ Represents encode c.write t := by
  cases hbuf : s.writeQ.buf with
  | nil =>
      have hlength := h.length
      rw [hbuf] at hlength
      exact absurd (List.length_eq_zero_iff.mp hlength.symm) hne
  | cons msg rest =>
      refine ⟨poll s, by simp [step, hselect, h.busy], ?_⟩
      have hpoll : poll s =
          { s with
            writeQ := s.writeQ.take, writer := .writing msg,
              traffic := s.traffic.receive msg } := by
        rw [poll, hbuf]
      rw [hpoll]
      refine ⟨?_, h.capacity, h.closed, h.busy⟩
      rw [Conn.write, Chan.take, List.map_tail, List.map_tail, h.queue]

end Conn

end LumaBroker.Broker.WriteLoop
