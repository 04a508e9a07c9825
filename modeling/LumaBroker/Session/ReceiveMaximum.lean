import LumaBroker.Session.PacketID

/-!
The client's Receive Maximum in internal/session/session.go. Deliveries and acknowledgements
of one session run side by side; what they do to its in-flight table is a sequence of critical
sections, with packet IDs that may repeat or be unknown. The table is counted anew for each
message that asks to be added.
-/

namespace LumaBroker.Session

/-- A critical section of outMu, or the atomic increment before it. -/
inductive Section where
  /-- The counter of NextPacketID. -/
  | draw
  /-- The lookup of NextPacketID. -/
  | lookup (id : UInt16)
  | addOutFlightLimited (msg : InFlight)
  | ackOutFlight (id : UInt16)
  | setOutFlightPhase (id : UInt16) (phase : QoS2Phase)

def exec (receiveMax : UInt16) (s : Session) : Section → Session
  | .draw => { s with nextPktID := s.nextPktID + 1 }
  | .lookup _ => s
  | .addOutFlightLimited msg => (s.addOutFlightLimited msg receiveMax).1
  | .ackOutFlight id => (s.ackOutFlight id).1
  | .setOutFlightPhase id phase => s.setOutFlightPhase id phase

/-- The session after an interleaving of the callers' sections. -/
def execAll (receiveMax : UInt16) (sections : List Section) (s : Session) : Session :=
  sections.foldl (exec receiveMax) s

/-- QoS 0 messages are not in the table. -/
def Tracked (s : Session) : Prop := ∀ id msg, s.outFlight.get id = some msg → msg.qos > 0

section Table
variable {s : Session}

theorem qos_pos_iff {q : UInt8} : q > 0 ↔ q ≠ 0 := by
  rw [gt_iff_lt, UInt8.lt_iff_toNat_lt, ← UInt8.toNat_inj.ne]
  exact Nat.pos_iff_ne_zero

/-- The count of the source is the size of the table. -/
theorem count_of_tracked (h : Tracked s) : s.inFlightCount = s.outFlight.size := by
  refine congrArg List.length (List.filter_eq_self.mpr fun e he => ?_)
  exact decide_eq_true (h e.1 e.2 ((s.outFlight.mem_entries e.1 e.2).mp he))

theorem addOutFlightLimited_of_tracked (h : Tracked s) {msg : InFlight} (hqos : msg.qos ≠ 0)
    (receiveMax : UInt16) :
    s.addOutFlightLimited msg receiveMax =
      if receiveMax > 0 ∧ s.outFlight.size ≥ receiveMax.toNat then (s, false)
      else ({ s with outFlight := s.outFlight.set msg.packetID msg }, true) := by
  simp only [addOutFlightLimited, hqos, if_false, count_of_tracked h]

theorem Tracked.set (h : Tracked s) {msg : InFlight} (hqos : msg.qos > 0) (id : UInt16) :
    Tracked { s with outFlight := s.outFlight.set id msg } := by
  intro j m hm
  rw [FinMap.get_set] at hm
  split at hm
  · cases hm
    exact hqos
  · exact h j m hm

theorem Tracked.addOutFlightLimited (h : Tracked s) (msg : InFlight) (receiveMax : UInt16) :
    Tracked (s.addOutFlightLimited msg receiveMax).1 := by
  by_cases hqos : msg.qos = 0
  · simp only [Session.addOutFlightLimited, hqos, if_true]
    exact h
  · cases addOutFlightLimited_cases hqos receiveMax s with
    | inl hrefused =>
        rw [hrefused]
        exact h
    | inr hadded =>
        rw [hadded]
        exact h.set (qos_pos_iff.mpr hqos) msg.packetID

theorem Tracked.ackOutFlight (h : Tracked s) (id : UInt16) : Tracked (s.ackOutFlight id).1 := by
  intro j m hm
  simp only [Session.ackOutFlight, FinMap.get_erase] at hm
  split at hm
  · cases hm
  · exact h j m hm

theorem Tracked.setOutFlightPhase (h : Tracked s) (id : UInt16) (phase : QoS2Phase) :
    Tracked (s.setOutFlightPhase id phase) := by
  rw [Session.setOutFlightPhase]
  split
  · next msg hmsg =>
      refine Tracked.set h ?_ id
      exact h id msg hmsg
  · exact h

theorem Tracked.exec (h : Tracked s) (receiveMax : UInt16) (a : Section) :
    Tracked (exec receiveMax s a) := by
  cases a with
  | draw => exact h
  | lookup id => exact h
  | addOutFlightLimited msg => exact h.addOutFlightLimited msg receiveMax
  | ackOutFlight id => exact h.ackOutFlight id
  | setOutFlightPhase id phase => exact h.setOutFlightPhase id phase

theorem size_ackOutFlight_le (s : Session) (id : UInt16) :
    (s.ackOutFlight id).1.outFlight.size ≤ s.outFlight.size :=
  FinMap.size_erase_le ..

theorem size_setOutFlightPhase (s : Session) (id : UInt16) (phase : QoS2Phase) :
    (s.setOutFlightPhase id phase).outFlight.size = s.outFlight.size := by
  rw [setOutFlightPhase]
  split
  · next msg hmsg => exact FinMap.size_set_of_get_some _ hmsg
  · rfl

theorem size_addOutFlightLimited_le (h : Tracked s) (msg : InFlight) {receiveMax : UInt16}
    (hpos : receiveMax > 0) (hsize : s.outFlight.size ≤ receiveMax.toNat) :
    (s.addOutFlightLimited msg receiveMax).1.outFlight.size ≤ receiveMax.toNat := by
  by_cases hqos : msg.qos = 0
  · simp only [addOutFlightLimited, hqos, if_true]
    exact hsize
  · rw [addOutFlightLimited_of_tracked h hqos]
    split
    · exact hsize
    · next hroom =>
        have hbelow : s.outFlight.size < receiveMax.toNat := by
          exact Nat.lt_of_not_ge fun hge => hroom ⟨hpos, hge⟩
        have hset := s.outFlight.size_set msg.packetID msg
        have herase := s.outFlight.size_erase_le msg.packetID
        change (s.outFlight.set msg.packetID msg).size ≤ receiveMax.toNat
        omega

theorem size_exec_le (h : Tracked s) {receiveMax : UInt16} (hpos : receiveMax > 0)
    (hsize : s.outFlight.size ≤ receiveMax.toNat) (a : Section) :
    (exec receiveMax s a).outFlight.size ≤ receiveMax.toNat := by
  cases a with
  | draw => exact hsize
  | lookup id => exact hsize
  | addOutFlightLimited msg => exact size_addOutFlightLimited_le h msg hpos hsize
  | ackOutFlight id => exact (size_ackOutFlight_le s id).trans hsize
  | setOutFlightPhase id phase => exact (size_setOutFlightPhase s id phase).trans_le hsize

theorem addOutFlightLimited_refused (h : Tracked s) (msg : InFlight) {receiveMax : UInt16}
    (hpos : receiveMax > 0) (hsize : s.outFlight.size ≤ receiveMax.toNat) :
    ((s.addOutFlightLimited msg receiveMax).2 = false ↔
      msg.qos > 0 ∧ s.outFlight.size = receiveMax.toNat) ∧
    ((s.addOutFlightLimited msg receiveMax).2 = false →
      (s.addOutFlightLimited msg receiveMax).1 = s) := by
  by_cases hqos : msg.qos = 0
  · simp [addOutFlightLimited, hqos]
  · rw [addOutFlightLimited_of_tracked h hqos]
    split
    · next hfull =>
        exact ⟨⟨fun _ => ⟨qos_pos_iff.mpr hqos, hsize.antisymm hfull.2⟩, fun _ => rfl⟩,
          fun _ => rfl⟩
    · next hroom =>
        have hne : s.outFlight.size ≠ receiveMax.toNat := fun heq => hroom ⟨hpos, heq.ge⟩
        simp [hne]

theorem tracked_execAll (h : Tracked s) (receiveMax : UInt16) (sections : List Section) :
    Tracked (execAll receiveMax sections s) := by
  induction sections generalizing s with
  | nil => exact h
  | cons a sections ih => exact ih (h.exec receiveMax a)

theorem size_execAll_le (h : Tracked s) {receiveMax : UInt16} (hpos : receiveMax > 0)
    (hsize : s.outFlight.size ≤ receiveMax.toNat) (sections : List Section) :
    (execAll receiveMax sections s).outFlight.size ≤ receiveMax.toNat := by
  induction sections generalizing s with
  | nil => exact hsize
  | cons a sections ih => exact ih (h.exec receiveMax a) (size_exec_le h hpos hsize a)

end Table

/-- However the sections of deliveries and acknowledgements are interleaved, the table stays
within the Receive Maximum; a message is refused exactly when it is of QoS 1 or 2 and finds
the table full, and leaves it alone. -/
theorem receiveMaximum_respected (receiveMax : UInt16) (s : Session) (sections : List Section)
    (hpos : receiveMax > 0) (hsize : s.outFlight.size ≤ receiveMax.toNat)
    (htracked : ∀ id msg, s.outFlight.get id = some msg → msg.qos > 0) :
    let t := execAll receiveMax sections s
    t.outFlight.size ≤ receiveMax.toNat ∧
      ∀ msg, ((t.addOutFlightLimited msg receiveMax).2 = false →
          (t.addOutFlightLimited msg receiveMax).1.outFlight = t.outFlight) ∧
        ((t.addOutFlightLimited msg receiveMax).2 = false ↔
          msg.qos > 0 ∧ t.outFlight.size = receiveMax.toNat) := by
  have hfits := size_execAll_le htracked hpos hsize sections
  refine ⟨hfits, fun msg => ?_⟩
  have hrefused :=
    addOutFlightLimited_refused (tracked_execAll htracked receiveMax sections) msg hpos hfits
  exact ⟨fun h => congrArg outFlight (hrefused.2 h), hrefused.1⟩

/-- Two deliveries and an acknowledgement under a Receive Maximum of 1. -/
def sampleSections : List Section :=
  [.draw, .lookup 1, .draw, .addOutFlightLimited ⟨1, str "t", [1], 1, false, 0, .published⟩,
    .lookup 2, .addOutFlightLimited ⟨2, str "t", [2], 1, false, 0, .published⟩, .ackOutFlight 7]

theorem receiveMaximum_respected_sample :
    (execAll 1 sampleSections (Session.new (str "c1") false 0)).outFlight.keys = [1] ∧
      (execAll 1 sampleSections (Session.new (str "c1") false 0)).outFlight.size ≤ 1 :=
  ⟨by decide +kernel,
    (receiveMaximum_respected 1 (Session.new (str "c1") false 0) sampleSections
      (by decide) (by decide)
      (fun _ _ h => (by cases h))).1⟩

namespace Race

open Transition

/-- The section of an action of the deliveries; record and draw name no ID of their own. -/
def Action.section? (s : State) : Action → Option Section
  | .draw _ => some .draw
  | .check i => (s.deliveries.get i).map fun d => .lookup d.id
  | .record i msg _ =>
      (s.deliveries.get i).map fun d => .addOutFlightLimited { msg with packetID := d.id }
  | .ack id => some (.ackOutFlight id)
  | .pubrec id => some (.setOutFlightPhase id .received)

def Under (receiveMax : UInt16) : Action → Prop
  | .record _ _ max => max = receiveMax
  | _ => True

theorem sess_step {receiveMax : UInt16} {s t : State} {a : Action} (hunder : Under receiveMax a)
    (h : step s a = some t) : ∃ c ∈ a.section? s, t.sess = exec receiveMax s.sess c := by
  cases a with
  | draw i =>
      simp only [step, draw] at h
      split at h
      · cases h
      · cases h
        exact ⟨.draw, rfl, rfl⟩
  | check i =>
      simp only [step, check] at h
      split at h
      · next id hid =>
          refine ⟨.lookup id, by simp [Action.section?, hid, Delivery.id], ?_⟩
          split at h <;> cases h <;> rfl
      · cases h
  | record i msg max =>
      cases hunder
      simp only [step, record] at h
      split at h
      · next id hid =>
          split at h
          · cases h
          · cases h
            exact ⟨.addOutFlightLimited { msg with packetID := id },
              by simp [Action.section?, hid, Delivery.id], rfl⟩
      · cases h
  | ack id =>
      cases h
      exact ⟨.ackOutFlight id, rfl, rfl⟩
  | pubrec id =>
      cases h
      exact ⟨.setOutFlightPhase id .received, rfl, rfl⟩

/-- What concurrent deliveries do to the session is an interleaving of sections. -/
theorem sections_of_run {receiveMax : UInt16} {actions : List Action} {s t : State}
    (hunder : ∀ a ∈ actions, Under receiveMax a) (h : run step actions s = some t) :
    ∃ sections, t.sess = execAll receiveMax sections s.sess := by
  induction actions generalizing s with
  | nil =>
      cases h
      exact ⟨[], rfl⟩
  | cons a actions ih =>
      obtain ⟨u, hu, hrest⟩ := Option.bind_eq_some_iff.mp h
      obtain ⟨c, -, hc⟩ := sess_step (hunder a List.mem_cons_self) hu
      obtain ⟨sections, hsections⟩ := ih (fun b hb => hunder b (List.mem_cons_of_mem a hb)) hrest
      exact ⟨c :: sections, by rw [hsections, hc]; rfl⟩

/-- Concurrent deliveries keep the Receive Maximum that all of them are given. -/
theorem run_within_receiveMaximum {receiveMax : UInt16} {actions : List Action} {s t : State}
    (hpos : receiveMax > 0) (htracked : Tracked s.sess)
    (hsize : s.sess.outFlight.size ≤ receiveMax.toNat) (hunder : ∀ a ∈ actions, Under receiveMax a)
    (h : run step actions s = some t) : t.sess.outFlight.size ≤ receiveMax.toNat := by
  obtain ⟨sections, hsections⟩ := sections_of_run hunder h
  rw [hsections]
  exact size_execAll_le htracked hpos hsize sections

end Race
end LumaBroker.Session
