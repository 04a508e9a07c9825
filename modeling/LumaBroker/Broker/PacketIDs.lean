import LumaBroker.Broker.Stranded
import LumaBroker.Session.ReceiveMaximum
import Mathlib.Order.Interval.Finset.Nat

/-!
Whether NextPacketID of internal/session/session.go returns. Its loop ends only at an ID that
is not in flight, and the closure of makeDeliverFn in internal/broker/client.go asks for an ID
before it looks at the Receive Maximum. Deliveries on any connections of a session and the
acknowledgements of the client come in any order.
-/

namespace LumaBroker.Broker.PacketIDs

open Session Transition
open Stranded (check track)

inductive Action where
  /-- A call of the closure of a connection. -/
  | deliver (now : Nat) (m : Queued) (c : Conn)
  /-- PUBACK or PUBCOMP. -/
  | ack (id : UInt16)
  | pubrec (id : UInt16)

/-- None when a closure does not return. -/
def step (s : Session) : Action → Option Session
  | .deliver now m c => (Broker.deliver now m c s).map fun r => r.sess
  | .ack id => some (s.ackOutFlight id).1
  | .pubrec id => some (s.setOutFlightPhase id .received)

/-- Some ID in 1..65535 is not in flight. -/
def HasFree (s : Session) : Prop := ∃ id : UInt16, id ≠ 0 ∧ s.outFlight.get id = none

/-- A delivery that takes an ID leaves another one: the table is not about to fill up, or the
Receive Maximum keeps it below 65535. -/
def LeavesFree (s : Session) : Action → Prop
  | .deliver _ m c => check m c = .track →
      s.outFlight.size < 65534 ∨ recvLim c > 0 ∧ recvLim c < 65535
  | _ => True

instance (s : Session) (a : Action) : Decidable (LeavesFree s a) :=
  match a with
  | .deliver _ m c => inferInstanceAs (Decidable (check m c = .track → _))
  | .ack _ => isTrue trivial
  | .pubrec _ => isTrue trivial

/-- What the deliveries make of the table. -/
structure Good (s : Session) : Prop where
  tracked : Tracked s
  nonzero : s.outFlight.get 0 = none

section Free
variable {s : Session}

theorem nextPacketID_isSome_iff : (nextPacketID s).isSome = true ↔ HasFree s := by
  constructor
  · intro h
    obtain ⟨⟨id, s'⟩, hnext⟩ := Option.isSome_iff_exists.mp h
    exact ⟨id, nextPacketIDFrom_ne_zero hnext, (nextPacketID_spec hnext).1⟩
  · rintro ⟨id, hid, hfree⟩
    exact nextPacketID_isSome hid hfree

theorem nextPacketIDFrom_eq_none (h : ¬ HasFree s) (turns : Nat) :
    nextPacketIDFrom turns s = none := by
  cases hnext : nextPacketIDFrom turns s with
  | none => rfl
  | some r => exact absurd ⟨r.1, nextPacketIDFrom_ne_zero hnext, (nextPacketIDFrom_spec hnext).1⟩ h

def used (s : Session) : Finset Nat := (s.outFlight.keys.map UInt16.toNat).toFinset

theorem mem_used {id : UInt16} : id.toNat ∈ used s ↔ (s.outFlight.get id).isSome = true := by
  rw [used, List.mem_toFinset, List.mem_map_of_injective fun _ _ => UInt16.toNat_inj.mp,
    FinMap.mem_keys, Option.isSome_iff_exists]

theorem card_used (s : Session) : (used s).card = s.outFlight.size := by
  rw [used, List.toFinset_card_of_nodup, List.length_map, FinMap.length_keys]
  exact s.outFlight.keys_nodup.map fun _ _ => UInt16.toNat_inj.mp

theorem toNat_mem_Icc {id : UInt16} (hid : id ≠ 0) : id.toNat ∈ Finset.Icc 1 65535 := by
  have hlt := id.toNat_lt
  have hpos : id.toNat ≠ 0 := fun hzero => hid (UInt16.toNat_inj.mp hzero)
  exact Finset.mem_Icc.mpr ⟨by omega, by omega⟩

theorem used_subset (h : s.outFlight.get 0 = none) : used s ⊆ Finset.Icc 1 65535 := by
  intro n hn
  obtain ⟨id, hid, rfl⟩ := List.mem_map.mp (List.mem_toFinset.mp hn)
  refine toNat_mem_Icc fun hzero => ?_
  obtain ⟨v, hv⟩ := (s.outFlight.mem_keys id).mp hid
  rw [hzero, h] at hv
  cases hv

theorem hasFree_iff (h : s.outFlight.get 0 = none) : HasFree s ↔ s.outFlight.size < 65535 := by
  have hcard : (Finset.Icc 1 65535).card = 65535 := by simp
  rw [← card_used]
  constructor
  · rintro ⟨id, hid, hfree⟩
    have hnot : id.toNat ∉ used s := by
      rw [mem_used, hfree]
      decide
    calc (used s).card < (Finset.Icc 1 65535).card :=
          Finset.card_lt_card ⟨used_subset h, fun hsub => hnot (hsub (toNat_mem_Icc hid))⟩
      _ = 65535 := hcard
  · intro hlt
    obtain ⟨n, hn, hnot⟩ := Finset.exists_mem_notMem_of_card_lt_card (hlt.trans_eq hcard.symm)
    obtain ⟨hlow, hhigh⟩ := Finset.mem_Icc.mp hn
    have hnat : (UInt16.ofNat n).toNat = n := UInt16.toNat_ofNat_of_lt (Nat.lt_succ_of_le hhigh)
    refine ⟨UInt16.ofNat n, ?_, ?_⟩
    · intro hzero
      rw [hzero] at hnat
      change 0 = n at hnat
      omega
    · rw [← hnat, mem_used] at hnot
      simpa using hnot

end Free

section Steps
variable {s t : Session}

theorem qos_of_track {m : Queued} {c : Conn} (h : check m c = .track) : m.qos ≠ 0 := by
  simp only [check] at h
  split_ifs at h with _ _ hqos
  exact hqos

theorem track_cases {now : Nat} {m : Queued} {c : Conn} {r : Conn × Session × Bool} (hs : Tracked s)
    (hqos : m.qos ≠ 0) (h : track now m c s = some r) :
    (r.2.1.outFlight = s.outFlight ∧ recvLim c > 0 ∧ s.outFlight.size ≥ (recvLim c).toNat) ∨
      ¬ (recvLim c > 0 ∧ s.outFlight.size ≥ (recvLim c).toNat) ∧
        ∃ id msg, id ≠ 0 ∧ msg.qos > 0 ∧ s.outFlight.get id = none ∧
          r.2.1.outFlight = s.outFlight.set id msg := by
  obtain ⟨⟨id, s'⟩, hnext, heq⟩ := Option.map_eq_some_iff.mp h
  have hid := nextPacketIDFrom_ne_zero hnext
  obtain ⟨hfree, n, rfl⟩ := nextPacketID_spec hnext
  have hs' : Tracked { s with nextPktID := n } := hs
  have hadd :
      addOutFlightLimited ⟨id, m.topic, m.payload, m.qos, m.retain, now, .published⟩ (recvLim c)
      { s with nextPktID := n } = _ := addOutFlightLimited_of_tracked hs' hqos (recvLim c)
  simp only [hadd] at heq
  by_cases hfull : recvLim c > 0 ∧ s.outFlight.size ≥ (recvLim c).toNat
  · simp only [if_pos hfull] at heq
    cases heq
    exact .inl ⟨rfl, hfull⟩
  · simp only [if_neg hfull] at heq
    cases heq
    exact .inr ⟨hfull, id, _, hid, qos_pos_iff.mpr hqos, hfree, rfl⟩

/-- A delivery leaves the table alone when it does not track its message or meets the Receive
Maximum, and puts a new ID into it otherwise. -/
theorem deliver_cases {now : Nat} {m : Queued} {c : Conn} (hs : Tracked s)
    (h : step s (.deliver now m c) = some t) :
    (t.outFlight = s.outFlight ∧ (check m c = .track →
        recvLim c > 0 ∧ s.outFlight.size ≥ (recvLim c).toNat)) ∨
      check m c = .track ∧ ¬ (recvLim c > 0 ∧ s.outFlight.size ≥ (recvLim c).toNat) ∧
        ∃ id msg, id ≠ 0 ∧ msg.qos > 0 ∧ s.outFlight.get id = none ∧
          t.outFlight = s.outFlight.set id msg := by
  have hsections := congrArg (Option.map Prod.snd) (Stranded.deliver_eq now m c s)
  rw [Option.map_map] at hsections
  have ht := hsections.symm.trans h
  cases hcheck : check m c with
  | queue =>
      rw [hcheck] at ht
      cases ht
      exact .inl ⟨Session.apply_enqueue Session.outFlight (fun _ _ => rfl) m s,
        fun htrack => (by cases htrack)⟩
  | send =>
      rw [hcheck] at ht
      cases ht
      exact .inl ⟨rfl, fun htrack => (by cases htrack)⟩
  | track =>
      simp only [hcheck, Option.map_map] at ht
      obtain ⟨r, hr, rfl⟩ := Option.map_eq_some_iff.mp ht
      have hout : (if r.2.2 then r.2.1 else (r.2.1.enqueue m).1).outFlight = r.2.1.outFlight := by
        split
        · rfl
        · exact Session.apply_enqueue Session.outFlight (fun _ _ => rfl) m r.2.1
      simp only [Function.comp_apply, hout]
      cases track_cases hs (qos_of_track hcheck) hr with
      | inl hfull => exact .inl ⟨hfull.1, fun _ => hfull.2⟩
      | inr hadded => exact .inr ⟨trivial, hadded⟩

theorem Good.step {a : Action} (hs : Good s) (h : step s a = some t) : Good t := by
  cases a with
  | deliver now m c =>
      cases deliver_cases hs.tracked h with
      | inl hsame =>
          refine ⟨fun id msg hmsg => hs.tracked id msg (hsame.1 ▸ hmsg), ?_⟩
          rw [hsame.1]
          exact hs.nonzero
      | inr hadded =>
          obtain ⟨-, -, id, msg, hid, hqos, -, hset⟩ := hadded
          refine ⟨fun j msg' hmsg => ?_, ?_⟩
          · rw [hset] at hmsg
            exact hs.tracked.set hqos id j msg' hmsg
          · rw [hset, FinMap.get_set_ne _ _ (Ne.symm hid)]
            exact hs.nonzero
  | ack id =>
      cases h
      refine ⟨hs.tracked.ackOutFlight id, ?_⟩
      simp only [ackOutFlight, FinMap.get_erase, hs.nonzero, ite_self]
  | pubrec id =>
      cases h
      refine ⟨hs.tracked.setOutFlightPhase id _, ?_⟩
      have hsame := Race.isSome_setOutFlightPhase s id 0 .received
      rw [hs.nonzero] at hsame
      simpa using hsame

/-- A step from a table with a free ID leaves one exactly when it meets the condition. -/
theorem hasFree_step_iff {a : Action} (hs : Good s) (hfree : HasFree s) (h : step s a = some t) :
    HasFree t ↔ LeavesFree s a := by
  have hsize := (hasFree_iff hs.nonzero).mp hfree
  rw [hasFree_iff (hs.step h).nonzero]
  cases a with
  | deliver now m c =>
      have hlim : recvLim c > 0 ↔ 0 < (recvLim c).toNat := UInt16.lt_iff_toNat_lt
      have hmax : recvLim c < 65535 ↔ (recvLim c).toNat < 65535 := UInt16.lt_iff_toNat_lt
      have hbound := (recvLim c).toNat_lt
      simp only [LeavesFree, hmax]
      cases deliver_cases hs.tracked h with
      | inl hsame =>
          rw [hsame.1]
          refine ⟨fun _ htrack => ?_, fun _ => hsize⟩
          obtain ⟨hpos, hge⟩ := hsame.2 htrack
          exact .inr ⟨hpos, by omega⟩
      | inr hadded =>
          obtain ⟨htrack, hroom, id, msg, -, -, hget, hset⟩ := hadded
          rw [hset, FinMap.size_set_of_get_none msg hget]
          simp only [htrack, true_implies]
          rw [hlim] at hroom ⊢
          omega
  | ack id =>
      cases h
      exact iff_of_true ((size_ackOutFlight_le s id).trans_lt hsize) trivial
  | pubrec id =>
      cases h
      exact iff_of_true ((size_setOutFlightPhase s id _).trans_lt hsize) trivial

end Steps

theorem good_new (cid : GoString) (clean : Bool) (now : Nat) :
    Good (Session.new cid clean now) where
  tracked _ _ h := by cases h
  nonzero := rfl

theorem hasFree_new (cid : GoString) (clean : Bool) (now : Nat) :
    HasFree (Session.new cid clean now) :=
  ⟨1, by decide, rfl⟩

/-- As long as every delivery leaves a free ID, the loop of the next one ends; and a step
leaves a free ID exactly when it meets the condition. -/
theorem nextPacketID_returns (cid : GoString) (clean : Bool) (now : Nat) (actions : List Action)
    (t : Session) (hok : Meets step LeavesFree actions (Session.new cid clean now))
    (hrun : run step actions (Session.new cid clean now) = some t) :
    (nextPacketID t).isSome = true ∧ HasFree t ∧
      ∀ a u, step t a = some u → (HasFree u ↔ LeavesFree t a) := by
  have hinv := invariant_run (I := fun s => Good s ∧ HasFree s)
    (fun s a u hs ha hu => ⟨hs.1.step hu, (hasFree_step_iff hs.1 hs.2 hu).mpr ha⟩)
    ⟨good_new cid clean now, hasFree_new cid clean now⟩ hok hrun
  exact ⟨nextPacketID_isSome_iff.mpr hinv.2, hinv.2,
    fun a u hu => hasFree_step_iff hinv.1 hinv.2 hu⟩

/-- A connection of MQTT 3.1.1, which has no Receive Maximum. -/
def unlimited : Conn where
  clientID := str "c1"
  version := Protocol.v311
  state := .connected
  writeQ := []
  writeQueueSize := 512
  topicAliases := FinMap.empty
  peerRecvMax := 0
  peerMaxPacketSize := 0
  negotiatedTopicAliasMax := 0

def reading : Queued := ⟨str "t", [1], 1, false⟩

theorem nextPacketID_returns_sample :
    ∃ t, run step [.deliver 0 reading unlimited, .ack 1, .deliver 0 reading unlimited]
        (Session.new (str "c1") false 0) = some t ∧
      t.outFlight.keys = [2] ∧ (nextPacketID t).isSome = true := by
  obtain ⟨t, hrun, hkeys⟩ := reaches_of_any step
    [.deliver 0 reading unlimited, .ack 1, .deliver 0 reading unlimited]
    (Session.new (str "c1") false 0)
    (fun t => t.outFlight.keys = [2]) (by decide +kernel)
  exact ⟨t, hrun, hkeys, (nextPacketID_returns (str "c1") false 0 _ t (by decide +kernel) hrun).1⟩

theorem unlimited_step {s : Session} (hs : Good s) (hfree : HasFree s) :
    ∃ t, step s (.deliver 0 reading unlimited) = some t ∧
      t.outFlight.size = s.outFlight.size + 1 := by
  obtain ⟨id, hid, hget⟩ := hfree
  obtain ⟨r, hr⟩ := Option.isSome_iff_exists.mp (deliver_isSome hid hget 0 reading unlimited)
  have hstep : step s (.deliver 0 reading unlimited) = some r.sess := by
    rw [step, hr]
    rfl
  refine ⟨r.sess, hstep, ?_⟩
  cases deliver_cases hs.tracked hstep with
  | inl hsame =>
      have hpos := (hsame.2 (by decide)).1
      cases hpos
  | inr hadded =>
      obtain ⟨-, -, id', msg, -, -, hfree', hset⟩ := hadded
      rw [hset]
      exact FinMap.size_set_of_get_none msg hfree'

theorem unlimited_run (k : Nat) (hk : k ≤ 65535) :
    ∃ t, run step (List.replicate k (.deliver 0 reading unlimited))
      (Session.new (str "c1") false 0) = some t ∧
      Good t ∧ t.outFlight.size = k := by
  induction k with
  | zero => exact ⟨_, rfl, good_new _ _ _, rfl⟩
  | succ k ih =>
      obtain ⟨s, hrun, hgood, hsize⟩ := ih (by omega)
      obtain ⟨t, ht, hadded⟩ := unlimited_step hgood ((hasFree_iff hgood.nonzero).mpr (by omega))
      refine ⟨t, ?_, hgood.step ht, by omega⟩
      rw [List.replicate_succ', run_append, hrun]
      simp [run, ht]

/-- After 65535 deliveries without an acknowledgement the loop has no end. -/
theorem nextPacketID_hangs :
    ∃ t, run step (List.replicate 65535 (.deliver 0 reading unlimited))
      (Session.new (str "c1") false 0) = some t ∧
      (∀ turns, nextPacketIDFrom turns t = none) ∧ step t
      (.deliver 0 reading unlimited) = none := by
  obtain ⟨t, hrun, hgood, hsize⟩ := unlimited_run 65535 (Nat.le_refl _)
  have hnone : ¬ HasFree t := by
    rw [hasFree_iff hgood.nonzero]
    omega
  have hstuck := nextPacketIDFrom_eq_none hnone
  have hnext : nextPacketID t = none := hstuck 65536
  refine ⟨t, hrun, hstuck, ?_⟩
  rw [step, Broker.deliver, if_neg (by decide), if_neg (by decide), if_neg (by decide), hnext]
  rfl

end LumaBroker.Broker.PacketIDs
