import LumaBroker.Lib.Transition
import LumaBroker.Session.Session

/-!
Outbound packet IDs. NextPacketID draws from an atomic counter and looks its ID up in
one critical section of outMu; AddOutFlightLimited records it in a later one. The first
part has NextPacketID run alone, the second any number of deliveries to one session.
-/

namespace LumaBroker.Session

/-- The ID of a counter value: its low 16 bits, with 0 folded onto 1. -/
def packetIDOf (next : UInt32) : UInt16 :=
  let id := next.toUInt16
  if id = 0 then 1 else id

/-- The loop of NextPacketID, with none when the bound on its turns is reached. -/
def nextPacketIDFrom : Nat → Session → Option (UInt16 × Session)
  | 0, _ => none
  | turns + 1, s =>
      let s := { s with nextPktID := s.nextPktID + 1 }
      let id := packetIDOf s.nextPktID
      match s.outFlight.get id with
      | some _ => nextPacketIDFrom turns s
      | none => some (id, s)

/-- NextPacketID: after 65536 turns every ID was seen in use, and the loop never ends. -/
def nextPacketID (s : Session) : Option (UInt16 × Session) := nextPacketIDFrom 65536 s

theorem nextPacketIDFrom_spec {turns : Nat} {s s' : Session} {id : UInt16}
    (h : nextPacketIDFrom turns s = some (id, s')) :
    s.outFlight.get id = none ∧ ∃ n, s' = { s with nextPktID := n } := by
  induction turns generalizing s with
  | zero => cases h
  | succ turns ih =>
      simp only [nextPacketIDFrom] at h
      split at h
      · obtain ⟨hfree, n, hn⟩ := ih h
        exact ⟨hfree, n, hn⟩
      · rename_i hfree
        cases h
        exact ⟨hfree, _, rfl⟩

theorem nextPacketID_spec {s s' : Session} {id : UInt16} (h : nextPacketID s = some (id, s')) :
    s.outFlight.get id = none ∧ ∃ n, s' = { s with nextPktID := n } :=
  nextPacketIDFrom_spec h

theorem packetIDOf_ne_zero (next : UInt32) : packetIDOf next ≠ 0 := by
  simp only [packetIDOf]
  split_ifs with h
  · decide
  · exact h

theorem nextPacketIDFrom_ne_zero {turns : Nat} {s s' : Session} {id : UInt16}
    (h : nextPacketIDFrom turns s = some (id, s')) : id ≠ 0 := by
  induction turns generalizing s with
  | zero => cases h
  | succ turns ih =>
      simp only [nextPacketIDFrom] at h
      split at h
      · exact ih h
      · cases h
        exact packetIDOf_ne_zero _

theorem isSome_of_nextPacketIDFrom {turns : Nat} {s : Session}
    (h : nextPacketIDFrom turns s = none) {k : Nat} (hk : k < turns) :
    (s.outFlight.get (packetIDOf (s.nextPktID + 1 + UInt32.ofNat k))).isSome := by
  induction turns generalizing s k with
  | zero => omega
  | succ turns ih =>
      simp only [nextPacketIDFrom] at h
      split at h
      · rename_i hused
        cases k with
        | zero => simpa using Option.isSome_of_eq_some hused
        | succ k =>
            have hnext := ih h (Nat.lt_of_succ_lt_succ hk)
            have hsum : s.nextPktID + 1 + 1 + UInt32.ofNat k =
                s.nextPktID + 1 + UInt32.ofNat (k + 1) := by
              rw [UInt32.ofNat_add, UInt32.add_assoc _ 1, UInt32.add_comm 1]
              rfl
            rwa [← hsum]
      · cases h

/-- The low 16 bits of 65536 counter values in a row are all of UInt16. -/
theorem exists_packetIDOf (n : UInt32) {id : UInt16} (hid : id ≠ 0) :
    ∃ k, k < 65536 ∧ packetIDOf (n + 1 + UInt32.ofNat k) = id := by
  let k := (id.toNat + 65536 - (n.toNat + 1) % 65536) % 65536
  have hlt := id.toNat_lt
  have hk : k < 65536 := Nat.mod_lt _ (by decide)
  have hlow : (n + 1 + UInt32.ofNat k).toUInt16 = id := by
    apply UInt16.toNat_inj.mp
    simp only [UInt32.toNat_toUInt16, UInt32.toNat_add, UInt32.toNat_ofNat', UInt32.reduceToNat]
    omega
  refine ⟨k, hk, ?_⟩
  simp only [packetIDOf, hlow, hid, if_false]

/-- The bound on the turns is never the reason: a free ID is found. -/
theorem nextPacketID_isSome {s : Session} {id : UInt16} (hid : id ≠ 0)
    (hfree : s.outFlight.get id = none) : (nextPacketID s).isSome := by
  obtain ⟨k, hk, hpid⟩ := exists_packetIDOf s.nextPktID hid
  cases h : nextPacketID s with
  | some r => rfl
  | none =>
      have hused := isSome_of_nextPacketIDFrom h hk
      rw [hpid, hfree] at hused
      cases hused

theorem nextPacketIDFrom_of_le {turns turns' : Nat} {s : Session} {r : UInt16 × Session}
    (h : nextPacketIDFrom turns s = some r) (hle : turns ≤ turns') :
    nextPacketIDFrom turns' s = some r := by
  induction turns generalizing s turns' with
  | zero => cases h
  | succ turns ih =>
      obtain ⟨turns', rfl⟩ := Nat.exists_eq_add_of_le' (Nat.one_le_of_lt hle)
      simp only [nextPacketIDFrom] at h ⊢
      split at h
      · exact ih h (Nat.le_of_succ_le_succ hle)
      · exact h

/-- As long as one ID is free the loop ends within 65536 turns, with a free one. -/
theorem nextPacketID_of_free {s : Session} {free : UInt16} (hfree : free ≠ 0)
    (hunused : s.outFlight.get free = none) :
    ∃ id s', nextPacketID s = some (id, s') ∧
      (∀ turns ≥ 65536, nextPacketIDFrom turns s = some (id, s')) ∧
      id ≠ 0 ∧ s.outFlight.get id = none ∧ ∃ n, s' = { s with nextPktID := n } := by
  obtain ⟨⟨id, s'⟩, hnext⟩ := Option.isSome_iff_exists.mp (nextPacketID_isSome hfree hunused)
  obtain ⟨hget, hsame⟩ := nextPacketID_spec hnext
  refine ⟨id, s', hnext, fun turns hturns => ?_, nextPacketIDFrom_ne_zero hnext, hget, hsame⟩
  exact nextPacketIDFrom_of_le hnext hturns

/-- The counter is about to wrap to 0, which stands for ID 1, and ID 1 is in use. -/
theorem nextPacketID_of_free_wrapping : ∃ id s',
    nextPacketID { Session.new (str "c1") false 0 with
      nextPktID := 0xFFFFFFFF
      outFlight := FinMap.empty.set 1 ⟨1, str "t", [], 1, false, 0, .published⟩ } = some (id, s') ∧
      id ≠ 0 ∧ id ≠ 1 := by
  obtain ⟨id, s', hnext, -, hid, hget, -⟩ := nextPacketID_of_free
    (s := { Session.new (str "c1") false 0 with
      nextPktID := 0xFFFFFFFF
      outFlight := FinMap.empty.set 1 ⟨1, str "t", [], 1, false, 0, .published⟩ })
    (by decide : (2 : UInt16) ≠ 0) (by decide)
  refine ⟨id, s', hnext, hid, ?_⟩
  rintro rfl
  exact absurd hget (by decide)

namespace Race

open Transition

/-- A delivery between its steps: it has drawn an ID, or has found it unused. -/
inductive Delivery where
  | drawn (id : UInt16)
  | checked (id : UInt16)
  deriving DecidableEq

def Delivery.id : Delivery → UInt16
  | .drawn id => id
  | .checked id => id

/-- The session, the deliveries in progress, and the IDs of the PUBLISH packets that are
sent and not acknowledged. -/
structure State where
  sess : Session
  deliveries : FinMap Nat Delivery
  unacked : List UInt16

inductive Action where
  | draw (i : Nat)
  | check (i : Nat)
  | record (i : Nat) (msg : InFlight) (receiveMax : UInt16)
  | ack (id : UInt16)
  | pubrec (id : UInt16)

/-- The atomic increment; also the next turn of a loop that found its ID in use. -/
def draw (i : Nat) (s : State) : Option State :=
  match s.deliveries.get i with
  | some _ => none
  | none =>
      let sess := { s.sess with nextPktID := s.sess.nextPktID + 1 }
      some { s with
        sess := sess, deliveries := s.deliveries.set i (.drawn (packetIDOf sess.nextPktID)) }

def check (i : Nat) (s : State) : Option State :=
  match s.deliveries.get i with
  | some (.drawn id) =>
      match s.sess.outFlight.get id with
      | some _ => some { s with deliveries := s.deliveries.erase i }
      | none => some { s with deliveries := s.deliveries.set i (.checked id) }
  | _ => none

/-- AddOutFlightLimited of a message of QoS 1 or 2 under the delivery's ID; the PUBLISH is
sent when it succeeds. -/
def record (i : Nat) (msg : InFlight) (receiveMax : UInt16) (s : State) : Option State :=
  match s.deliveries.get i with
  | some (.checked id) =>
      if msg.qos = 0 then none
      else
        let (sess, added) := s.sess.addOutFlightLimited { msg with packetID := id } receiveMax
        some
          { sess := sess, deliveries := s.deliveries.erase i
            unacked := if added then s.unacked ++ [id] else s.unacked }
  | _ => none

def step (s : State) : Action → Option State
  | .draw i => draw i s
  | .check i => check i s
  | .record i msg receiveMax => record i msg receiveMax s
  | .ack id =>
      some { s with
        sess := (s.sess.ackOutFlight id).1, unacked := s.unacked.filter fun j => j ≠ id }
  | .pubrec id => some { s with sess := s.sess.setOutFlightPhase id .received }

/-- A delivery that no other one interrupts gets the ID of NextPacketID. -/
theorem exists_run_nextPacketID {turns : Nat} {s : State} {i : Nat} {id : UInt16} {sess : Session}
    (hidle : s.deliveries.get i = none) (h : nextPacketIDFrom turns s.sess = some (id, sess)) :
    ∃ actions, (∀ a ∈ actions, a = .draw i ∨ a = .check i) ∧
      run step actions s =
        some { s with sess := sess, deliveries := s.deliveries.set i (.checked id) } := by
  induction turns generalizing s with
  | zero => cases h
  | succ turns ih =>
      simp only [nextPacketIDFrom] at h
      cases hget : s.sess.outFlight.get (packetIDOf (s.sess.nextPktID + 1)) with
      | none =>
          simp only [hget] at h
          cases h
          refine ⟨[.draw i, .check i], by simp, ?_⟩
          simp only [run, step, draw, hidle, Option.bind_some, check, FinMap.get_set_self, hget]
          rw [← FinMap.put_some, ← FinMap.put_some, FinMap.put_put, FinMap.put_some]
      | some used =>
          simp only [hget] at h
          obtain ⟨actions, hown, hrun⟩ := @ih { s with
            sess := { s.sess with nextPktID := s.sess.nextPktID + 1 } } hidle h
          refine ⟨[.draw i, .check i] ++ actions, ?_, ?_⟩
          · intro a ha
            cases List.mem_append.mp ha with
            | inl hfirst => simpa using hfirst
            | inr hlater => exact hown a hlater
          · rw [run_append]
            simp only [run, step, draw, hidle, Option.bind_some, check, FinMap.get_set_self, hget]
            rw [← FinMap.put_some, ← FinMap.put_none, FinMap.put_put, FinMap.put_none,
              FinMap.erase_of_get_none hidle]
            exact hrun

/-- Any counter and any in-flight table, with no delivery in progress. -/
structure Start (s : State) : Prop where
  idle : s.deliveries = FinMap.empty
  unacked : s.unacked = s.sess.outFlight.keys

/-- A delivery that finds its ID unused is the only one that has found so. -/
def CheckedAlone (s : State) : Action → Prop
  | .check i => ∀ d ∈ s.deliveries.get i, (s.sess.outFlight.get d.id).isNone →
      ∀ e ∈ s.deliveries.entries, e.1 ≠ i → e.2 ≠ .checked d.id
  | _ => True

instance (s : State) (a : Action) : Decidable (CheckedAlone s a) :=
  match a with
  | .check _ => inferInstanceAs (Decidable (∀ d ∈ _, _ → ∀ e ∈ _, _ → _))
  | .draw _ => isTrue trivial
  | .record _ _ _ => isTrue trivial
  | .ack _ => isTrue trivial
  | .pubrec _ => isTrue trivial

structure Inv (s : State) : Prop where
  free : ∀ i id, s.deliveries.get i = some (.checked id) → s.sess.outFlight.get id = none
  alone : ∀ i j id, s.deliveries.get i = some (.checked id) →
    s.deliveries.get j = some (.checked id) → i = j
  unacked : ∀ id, id ∈ s.unacked ↔ (s.sess.outFlight.get id).isSome
  nodup : s.unacked.Nodup

theorem inv_start {s : State} (h : Start s) : Inv s := by
  refine ⟨?_, ?_, ?_, ?_⟩
  · intro i id hi
    rw [h.idle] at hi
    cases hi
  · intro i j id hi
    rw [h.idle] at hi
    cases hi
  · intro id
    rw [h.unacked, s.sess.outFlight.mem_keys, Option.isSome_iff_exists]
  · rw [h.unacked]
    exact s.sess.outFlight.keys_nodup

theorem Inv.set_drawn {s : State} (h : Inv s) (i : Nat) (id : UInt16) (n : UInt32) :
    Inv { s with
      sess := { s.sess with nextPktID := n }, deliveries := s.deliveries.set i (.drawn id) } := by
  have hchecked {j : Nat} {id' : UInt16}
      (hj : (s.deliveries.set i (.drawn id)).get j = some (.checked id')) :
      s.deliveries.get j = some (.checked id') := by
    rw [FinMap.get_set] at hj
    split_ifs at hj with hij
    · cases hj
    · exact hj
  exact ⟨fun j id' hj => h.free j id' (hchecked hj),
    fun j k id' hj hk => h.alone j k id' (hchecked hj) (hchecked hk), h.unacked, h.nodup⟩

theorem Inv.erase {s : State} (h : Inv s) (i : Nat) :
    Inv { s with deliveries := s.deliveries.erase i } := by
  have hchecked {j : Nat} {id : UInt16} (hj : (s.deliveries.erase i).get j = some (.checked id)) :
      s.deliveries.get j = some (.checked id) := by
    rw [FinMap.get_erase] at hj
    split_ifs at hj with hij
    exact hj
  exact ⟨fun j id hj => h.free j id (hchecked hj),
    fun j k id hj hk => h.alone j k id (hchecked hj) (hchecked hk), h.unacked, h.nodup⟩

theorem inv_check {s t : State} {i : Nat} (h : Inv s) (hok : CheckedAlone s (.check i))
    (ht : check i s = some t) : Inv t := by
  simp only [check] at ht
  split at ht
  · rename_i id hi
    split at ht
    · cases ht
      exact h.erase i
    · rename_i hfree
      cases ht
      have hothers (j : Nat) (hj : s.deliveries.get j = some (.checked id)) (hij : j ≠ i) : False :=
        hok (.drawn id) hi (by simp [Delivery.id, hfree]) (j, .checked id)
          ((s.deliveries.mem_entries j _).mpr hj) hij rfl
      refine ⟨?_, ?_, h.unacked, h.nodup⟩
      · intro j id' hj
        change (s.deliveries.set i (.checked id)).get j = some (.checked id') at hj
        rw [FinMap.get_set] at hj
        split_ifs at hj with hij
        · cases hj
          exact hfree
        · exact h.free j id' hj
      · intro j k id' hj hk
        change (s.deliveries.set i (.checked id)).get j = some (.checked id') at hj
        change (s.deliveries.set i (.checked id)).get k = some (.checked id') at hk
        rw [FinMap.get_set] at hj hk
        split_ifs at hj hk with hij hik hik
        · rw [hij, hik]
        · cases hj
          exact (hothers k hk hik).elim
        · cases hk
          exact (hothers j hj hij).elim
        · exact h.alone j k id' hj hk
  · cases ht

theorem inv_record {s t : State} {i : Nat} {msg : InFlight} {receiveMax : UInt16} (h : Inv s)
    (ht : record i msg receiveMax s = some t) : Inv t := by
  simp only [record] at ht
  split at ht
  · rename_i id hi
    have hfree := h.free i id hi
    by_cases hqos : msg.qos = 0
    · simp [hqos] at ht
    · simp only [hqos, if_false] at ht
      cases @addOutFlightLimited_cases { msg with packetID := id } hqos receiveMax s.sess with
      | inl hrefused =>
          rw [hrefused] at ht
          cases ht
          exact h.erase i
      | inr hadded =>
          rw [hadded] at ht
          cases ht
          refine ⟨?_, (h.erase i).alone, ?_, ?_⟩
          · intro j id' hj
            change (s.deliveries.erase i).get j = some (.checked id') at hj
            rw [FinMap.get_erase] at hj
            split_ifs at hj with hij
            -- another delivery holds another ID, which stays unused
            have hne : id' ≠ id := by
              intro hid
              exact hij (h.alone j i id (hid ▸ hj) hi)
            simp only [FinMap.get_set, hne, if_false]
            exact h.free j id' hj
          · intro id'
            simp only [if_true, List.mem_append, List.mem_singleton, h.unacked id', FinMap.get_set]
            by_cases hid : id' = id
            · simp [hid]
            · simp [hid]
          · change (s.unacked ++ [id]).Nodup
            rw [List.nodup_append]
            refine ⟨h.nodup, by simp, ?_⟩
            intro a ha b hb hab
            have hid : a = id := hab.trans (List.mem_singleton.mp hb)
            have hsome := (h.unacked a).mp ha
            rw [hid, hfree] at hsome
            cases hsome
  · cases ht

theorem inv_ack {s : State} (h : Inv s) (id : UInt16) :
    Inv { s with
      sess := (s.sess.ackOutFlight id).1, unacked := s.unacked.filter fun j => j ≠ id } := by
  refine ⟨?_, h.alone, ?_, h.nodup.filter _⟩
  · intro i id' hi
    simp only [ackOutFlight, FinMap.get_erase, h.free i id' hi, ite_self]
  · intro id'
    simp only [List.mem_filter, h.unacked id', ackOutFlight, FinMap.get_erase]
    by_cases hid : id' = id
    · simp [hid]
    · simp [hid]

theorem isSome_setOutFlightPhase (s : Session) (id j : UInt16) (phase : QoS2Phase) :
    ((s.setOutFlightPhase id phase).outFlight.get j).isSome = (s.outFlight.get j).isSome := by
  simp only [setOutFlightPhase]
  split
  · rename_i msg hmsg
    by_cases hj : j = id
    · simp [hj, hmsg]
    · simp [FinMap.get_set, hj]
  · rfl

theorem inv_pubrec {s : State} (h : Inv s) (id : UInt16) :
    Inv { s with sess := s.sess.setOutFlightPhase id .received } := by
  refine ⟨?_, h.alone, ?_, h.nodup⟩
  · intro i id' hi
    have hsame := isSome_setOutFlightPhase s.sess id id' .received
    rw [h.free i id' hi] at hsame
    exact Option.isNone_iff_eq_none.mp (by simpa using hsame)
  · intro id'
    rw [h.unacked id', isSome_setOutFlightPhase]

theorem inv_step {s t : State} {a : Action} (h : Inv s) (hok : CheckedAlone s a)
    (ht : step s a = some t) : Inv t := by
  cases a with
  | draw i =>
      simp only [step, draw] at ht
      split at ht
      · cases ht
      · cases ht
        exact h.set_drawn i _ _
  | check i => exact inv_check h hok ht
  | record i msg receiveMax => exact inv_record h ht
  | ack id =>
      cases ht
      exact inv_ack h id
  | pubrec id =>
      cases ht
      exact inv_pubrec h id

/-- If no two deliveries hold one ID as checked, every delivery that records a message
finds its ID unused, and no two unacknowledged PUBLISH packets carry the same ID. -/
theorem recorded_ids_unique (s t : State) (actions : List Action) (hstart : Start s)
    (hok : Meets step CheckedAlone actions s) (hrun : run step actions s = some t) :
    (∀ i id, t.deliveries.get i = some (.checked id) → t.sess.outFlight.get id = none) ∧
      t.unacked.Nodup := by
  have hinv := invariant_run (fun _ _ _ h hok ht => inv_step h hok ht) (inv_start hstart) hok hrun
  exact ⟨hinv.free, hinv.nodup⟩

/-- A session whose counter has reached a value, with nothing in flight. -/
def counterAt (n : UInt32) : State where
  sess := { Session.new (str "c1") false 0 with nextPktID := n }
  deliveries := FinMap.empty
  unacked := []

theorem start_counterAt (n : UInt32) : Start (counterAt n) := ⟨rfl, rfl⟩

def reading (payload : UInt8) : InFlight := ⟨0, str "t", [payload], 1, false, 0, .published⟩

/-- Two deliveries whose three steps are taken in turn. -/
def twoDeliveries : List Action :=
  [.draw 1, .draw 2, .check 1, .check 2, .record 1 (reading 1) 0, .record 2 (reading 2) 0]

theorem recorded_ids_unique_fresh :
    ∃ t, run step twoDeliveries (counterAt 0) = some t ∧ t.unacked = [1, 2] ∧
      (∀ i id, t.deliveries.get i = some (.checked id) → t.sess.outFlight.get id = none) ∧
      t.unacked.Nodup := by
  obtain ⟨t, hrun, hids⟩ := reaches_of_any step twoDeliveries (counterAt 0)
    (fun t => t.unacked = [1, 2]) (by decide +kernel)
  exact ⟨t, hrun, hids, recorded_ids_unique (counterAt 0) t twoDeliveries (start_counterAt 0)
    (by decide +kernel) hrun⟩

/-- With the counter at 65535 the next two values are 65536 and 65537, whose IDs are both 1:
the second message takes the place of the first, which nobody has acknowledged. -/
theorem wrapped_counter_reuses_id :
    ∃ t u, run step (twoDeliveries.take 5) (counterAt 65535) = some t ∧
      t.deliveries.get 2 = some (.checked 1) ∧ (t.sess.outFlight.get 1).isSome ∧
      step t (.record 2 (reading 2) 0) = some u ∧ u.unacked = [1, 1] ∧
      (u.sess.outFlight.get 1).map InFlight.payload = some [2] := by
  obtain ⟨t, hrun, hheld, hsome, hnext⟩ := reaches_of_any step (twoDeliveries.take 5)
    (counterAt 65535)
    (fun t => t.deliveries.get 2 = some (.checked 1) ∧ (t.sess.outFlight.get 1).isSome ∧
      (step t (.record 2 (reading 2) 0)).any fun u => decide (u.unacked = [1, 1] ∧
        (u.sess.outFlight.get 1).map InFlight.payload = some [2])) (by decide +kernel)
  cases hu : step t (.record 2 (reading 2) 0) with
  | none => simp [hu] at hnext
  | some u =>
      rw [hu] at hnext
      exact ⟨t, u, hrun, hheld, hsome, hu, of_decide_eq_true hnext⟩

end Race
end LumaBroker.Session
