import LumaBroker.Broker.Persistent
import Mathlib.Data.List.Induction

/-!
The acknowledgments of outbound messages: handlePuback, handlePubrec and handlePubcomp of
internal/broker/client.go beside everything else that a session goes through. PUBACK and
PUBCOMP both take whatever is in flight under their packet ID, although the table knows the
QoS of the message and how far its exchange has come.
-/

namespace LumaBroker.Broker.OutboundAck

open Session Transition Persistent

/-- The steps of a session that the packets of this module make. -/
def isAck : Persistent.Event → Bool
  | .ack _ | .pubrec _ => true
  | _ => false

/-- A packet of the client on one of the connections, or another step of the session. -/
inductive Event where
  | puback (i : Nat) (id : UInt16)
  | pubrec (i : Nat) (id : UInt16)
  | pubcomp (i : Nat) (id : UInt16)
  | other (e : Persistent.Event) (h : isAck e = false)

def handlePuback (cfg : Config) (i : Nat) (id : UInt16) (s : State) : Option State :=
  s.links[i]?.bind fun _ => Persistent.step cfg s (.ack id)

def handlePubrec (cfg : Config) (i : Nat) (id : UInt16) (s : State) : Option State :=
  s.links[i]?.bind fun l =>
    let links := s.links.set i { l with conn := l.conn.enqueuePubAck .pubrel id }
    Persistent.step cfg { s with links := links } (.pubrec id)

def handlePubcomp (cfg : Config) (i : Nat) (id : UInt16) (s : State) : Option State :=
  s.links[i]?.bind fun _ => Persistent.step cfg s (.ack id)

def step (cfg : Config) (s : State) : Event → Option State
  | .puback i id => handlePuback cfg i id s
  | .pubrec i id => handlePubrec cfg i id s
  | .pubcomp i id => handlePubcomp cfg i id s
  | .other e _ => Persistent.step cfg s e

/-- What is in flight under a packet ID. -/
def entry (s : State) (id : UInt16) : Option InFlight := s.sess.outFlight.get id

/-- A PUBREC for the ID has come since the entry that is there now was created: the ID was
in use from then on. -/
def PubrecSince (cfg : Config) (s₀ : State) (es : List Event) (id : UInt16) : Prop :=
  ∃ before i after, es = before ++ .pubrec i id :: after ∧
    ∀ rest, rest <+: after → ∀ s, run (step cfg) (before ++ .pubrec i id :: rest) s₀ = some s →
      (entry s id).isSome

/-- Whether a step may take the entry away, after the given events. -/
def MayRemove (cfg : Config) (s₀ : State) (es : List Event) (id : UInt16) (msg : InFlight)
    (e : Event) : Prop :=
  (msg.qos = 1 → ∃ i, e = .puback i id) ∧
    (msg.qos = 2 → (∃ i, e = .pubcomp i id) ∧ PubrecSince cfg s₀ es id)

/-- Every entry that a step of the run removes is acknowledged as its QoS asks. -/
def Acknowledged (cfg : Config) (s₀ : State) (es : List Event) : Prop :=
  ∀ before e after, es = before ++ e :: after → ∀ s s', run (step cfg) before s₀ = some s →
    step cfg s e = some s' → ∀ id msg, entry s id = some msg → entry s' id = none →
      MayRemove cfg s₀ before id msg e

/-- A PUBACK comes for no QoS 2 message, a PUBCOMP for no QoS 1 message and for a QoS 2
message only after its PUBREC. -/
def Expected (s : State) : Event → Prop
  | .puback _ id => ∀ msg ∈ entry s id, msg.qos ≠ 2
  | .pubcomp _ id => ∀ msg ∈ entry s id, msg.qos ≠ 1 ∧ (msg.qos = 2 → msg.qos2Phase = .received)
  | _ => True

instance decidableExpected (s : State) : ∀ e : Event, Decidable (Expected s e)
  | .puback _ id => inferInstanceAs (Decidable (∀ msg ∈ entry s id, msg.qos ≠ 2))
  | .pubcomp _ id =>
      inferInstanceAs
        (Decidable (∀ msg ∈ entry s id, msg.qos ≠ 1 ∧ (msg.qos = 2 → msg.qos2Phase = .received)))
  | .pubrec _ _ | .other _ _ => isTrue trivial

section Entries
variable {cfg : Config} {s s' : State}

theorem outFlight_deliver {now : Nat} {m : Queued} {c : Conn} {sess : Session} {r : Delivered}
    (h : deliver now m c sess = some r) (id : UInt16) :
    r.sess.outFlight.get id = sess.outFlight.get id ∨
      sess.outFlight.get id = none ∧ ∃ msg, r.sess.outFlight.get id = some msg ∧
        msg.qos2Phase = .published := by
  simp only [deliver] at h
  split_ifs at h with hstate hsize hqos
  · cases h
    exact .inl (Session.apply_enqueue (fun u => u.outFlight.get id) (fun _ _ => rfl) m sess)
  · cases h
    exact .inl (Session.apply_enqueue (fun u => u.outFlight.get id) (fun _ _ => rfl) m sess)
  · cases h
    exact .inl rfl
  · obtain ⟨⟨pid, sess'⟩, hnext, rfl⟩ := Option.map_eq_some_iff.mp h
    obtain ⟨hfree, n, rfl⟩ := nextPacketID_spec hnext
    let msg : InFlight := ⟨pid, m.topic, m.payload, m.qos, m.retain, now, .published⟩
    cases @addOutFlightLimited_cases msg hqos (recvLim c) { sess with nextPktID := n } with
    | inl hrefused =>
        simp only [sendTracked, hrefused, msg]
        exact .inl (Session.apply_enqueue (fun u => u.outFlight.get id) (fun _ _ => rfl)
          m { sess with nextPktID := n })
    | inr hadded =>
        simp only [sendTracked, hadded, msg]
        change (sess.outFlight.set pid msg).get id = _ ∨ _ ∧
          ∃ msg', (sess.outFlight.set pid msg).get id = _ ∧ _
        by_cases hid : id = pid
        · subst hid
          exact .inr ⟨hfree, msg, FinMap.get_set_self .., rfl⟩
        · exact .inl (FinMap.get_set_ne _ msg hid)

/-- What a step does to the entry of one ID. -/
inductive Change (id : UInt16) (e : Event) : Option InFlight → Option InFlight → Prop where
  | same (o : Option InFlight) (h : ∀ i, e = .pubrec i id → o = none) : Change id e o o
  | created (msg : InFlight) (h : msg.qos2Phase = .published) (he : ∀ i, e ≠ .pubrec i id) :
      Change id e none (some msg)
  | received (i : Nat) (h : e = .pubrec i id) (msg : InFlight) :
      Change id e (some msg) (some { msg with qos2Phase := .received })
  | acked (i : Nat) (h : e = .puback i id) (o : Option InFlight) : Change id e o none
  | completed (i : Nat) (h : e = .pubcomp i id) (o : Option InFlight) : Change id e o none

theorem change_of_outFlight {id : UInt16} {e : Persistent.Event} {he : isAck e = false}
    (h : s'.sess.outFlight = s.sess.outFlight) :
    Change id (.other e he) (entry s id) (entry s' id) := by
  rw [entry, entry, h]
  exact .same _ (fun _ he => by cases he)

theorem change_callClosure {i now : Nat} {m : Queued} {l : Link} {drain : List Queued}
    (h : callClosure i now m l drain s = some s') (id : UInt16) {e : Persistent.Event}
    (he : isAck e = false) : Change id (.other e he) (entry s id) (entry s' id) := by
  obtain ⟨r, hr, rfl⟩ := Option.map_eq_some_iff.mp h
  cases outFlight_deliver hr id with
  | inl hsame =>
      rw [entry, entry, hsame]
      exact .same _ (fun _ he => by cases he)
  | inr hnew =>
      obtain ⟨hfree, msg, hmsg, hphase⟩ := hnew
      rw [entry, entry, hfree, hmsg]
      exact .created msg hphase (fun _ he => by cases he)

theorem change_other {id : UInt16} {e : Persistent.Event} (he : isAck e = false)
    (h : step cfg s (.other e he) = some s') :
    Change id (.other e he) (entry s id) (entry s' id) := by
  cases e with
  | connect now pkt =>
      simp only [step, Persistent.step] at h
      split at h
      · cases h
      · cases h
        exact change_of_outFlight (congrArg Tables.outFlight (tables_connectSession pkt now s.sess))
  | handleDisconnect expiry =>
      simp only [step, Persistent.step] at h
      cases h
      exact change_of_outFlight (congrArg Tables.outFlight (tables_handleDisconnect expiry s.sess))
  | disconnect i now =>
      obtain ⟨l, -, hl⟩ := Option.bind_eq_some_iff.mp h
      split at hl
      · cases hl
      · cases hl
        exact change_of_outFlight (congrArg Tables.outFlight (tables_disconnectSession now s.sess))
  | deliver i now m =>
      obtain ⟨l, -, hl⟩ := Option.bind_eq_some_iff.mp h
      obtain ⟨t, ht, rfl⟩ := Option.map_eq_some_iff.mp hl
      exact change_callClosure ht id he
  | drainQueue i =>
      obtain ⟨l, -, hl⟩ := Option.bind_eq_some_iff.mp h
      split at hl
      · cases hl
      · cases hl
        exact change_of_outFlight rfl
  | drainNext i now =>
      obtain ⟨l, -, hl⟩ := Option.bind_eq_some_iff.mp h
      split at hl
      · cases hl
      · exact change_callClosure hl id he
  | write i =>
      obtain ⟨l, -, rfl⟩ := Option.map_eq_some_iff.mp h
      exact change_of_outFlight rfl
  | ack id => cases he
  | pubrec id => cases he

theorem entry_ack {id j : UInt16} (h : Persistent.step cfg s (.ack j) = some s') :
    entry s' id = if id = j then none else entry s id := by
  cases h
  exact FinMap.get_erase ..

theorem change_step (id : UInt16) {e : Event} (h : step cfg s e = some s') :
    Change id e (entry s id) (entry s' id) := by
  cases e with
  | puback i j =>
      obtain ⟨l, -, hl⟩ := Option.bind_eq_some_iff.mp h
      rw [entry_ack hl]
      split
      · next hid => exact .acked i (by rw [hid]) _
      · exact .same _ (fun _ he => by cases he)
  | pubcomp i j =>
      obtain ⟨l, -, hl⟩ := Option.bind_eq_some_iff.mp h
      rw [entry_ack hl]
      split
      · next hid => exact .completed i (by rw [hid]) _
      · exact .same _ (fun _ he => by cases he)
  | pubrec i j =>
      obtain ⟨l, -, hl⟩ := Option.bind_eq_some_iff.mp h
      cases hl
      simp only [entry, setOutFlightPhase]
      cases hj : s.sess.outFlight.get j with
      | none =>
          refine .same _ fun _ he => ?_
          cases he
          exact hj
      | some msg =>
          dsimp only
          rw [FinMap.get_set]
          split
          · next hid =>
              rw [hid, hj]
              exact .received i rfl msg
          · next hid =>
              refine .same _ fun _ he => ?_
              cases he
              exact absurd rfl hid
  | other e he => exact change_other he h

end Entries

section History
variable {cfg : Config} {s₀ : State}

theorem run_snoc {es : List Event} {e : Event} {s' : State} :
    run (step cfg) (es ++ [e]) s₀ = some s' ↔ ∃ s, run (step cfg) es s₀ = some s ∧
      step cfg s e = some s' := by
  rw [run_append, Option.bind_eq_some_iff]
  simp [run]

/-- One event more: the ID stays in use, or the event is the PUBREC itself. -/
theorem pubrecSince_snoc {es : List Event} {e : Event} {s' : State} {id : UInt16}
    (hrun : run (step cfg) (es ++ [e]) s₀ = some s') :
    PubrecSince cfg s₀ (es ++ [e]) id ↔
      ((∃ i, e = .pubrec i id) ∨ PubrecSince cfg s₀ es id) ∧ (entry s' id).isSome := by
  constructor
  · rintro ⟨before, i, after, heq, hused⟩
    have hlast := hused after (List.prefix_refl after) s' (heq ▸ hrun)
    refine ⟨?_, hlast⟩
    rcases List.eq_nil_or_concat' after with rfl | ⟨after', x, rfl⟩
    · exact .inl ⟨i, (List.append_inj' heq rfl).2 |> List.singleton_inj.mp⟩
    · have hsplit : es ++ [e] = (before ++ .pubrec i id :: after') ++ [x] := by simpa using heq
      obtain ⟨rfl, -⟩ := List.append_inj' hsplit rfl
      refine .inr ⟨before, i, after', rfl, ?_⟩
      intro rest hrest
      exact hused rest (hrest.trans (List.prefix_append after' [x]))
  · rintro ⟨⟨i, rfl⟩ | ⟨before, i, after, rfl, hused⟩, hlast⟩
    · refine ⟨es, i, [], rfl, ?_⟩
      intro rest hrest s hs
      rw [List.prefix_nil.mp hrest, hrun] at hs
      cases hs
      exact hlast
    · refine ⟨before, i, after ++ [e], by simp, ?_⟩
      intro rest hrest s hs
      rcases List.prefix_concat_iff.mp hrest with rfl | hrest
      · rw [← List.cons_append, ← List.append_assoc, hrun] at hs
        cases hs
        exact hlast
      · exact hused rest hrest s hs

/-- The phase of an entry says whether its PUBREC has come. -/
theorem phase_iff_pubrecSince {es : List Event} {s : State}
    (hstart : s₀.sess.outFlight = FinMap.empty) (hrun : run (step cfg) es s₀ = some s) {id : UInt16}
    {msg : InFlight} (hmsg : entry s id = some msg) :
    msg.qos2Phase = .received ↔ PubrecSince cfg s₀ es id := by
  -- the induction takes the events from the end, as an entry looks back at them
  induction es using List.reverseRecOn generalizing s msg with
  | nil =>
      cases hrun
      rw [entry, hstart] at hmsg
      cases hmsg
  | append_singleton es e ih =>
      obtain ⟨t, ht, hstep⟩ := run_snoc.mp hrun
      rw [pubrecSince_snoc hrun, hmsg, Option.isSome_some, and_iff_left rfl]
      have hchange := change_step id hstep
      rw [hmsg] at hchange
      generalize hbefore : entry t id = o at hchange
      cases hchange with
      | same _ hother =>
          have hne : ¬ ∃ i, e = .pubrec i id := by
            rintro ⟨i, hi⟩
            cases hother i hi
          rw [ih ht hbefore]
          exact (or_iff_right hne).symm
      | created _ hphase hne =>
          have hno : ¬ PubrecSince cfg s₀ es id := by
            rintro ⟨before, i, after, rfl, hused⟩
            have hsome := hused after (List.prefix_refl after) t ht
            rw [hbefore] at hsome
            cases hsome
          have hpublished : msg.qos2Phase ≠ .received := by simp [hphase]
          refine iff_of_false hpublished ?_
          rintro (⟨i, hi⟩ | hsince)
          · exact hne i hi
          · exact hno hsince
      | received i he msg => simp [he]

theorem removed_iff {e : Event} {s s' : State} (hstep : step cfg s e = some s') {id : UInt16}
    {msg : InFlight} (hmsg : entry s id = some msg) :
    entry s' id = none ↔ (∃ i, e = .puback i id) ∨ ∃ i, e = .pubcomp i id := by
  constructor
  · intro hnone
    have hchange := change_step id hstep
    rw [hmsg, hnone] at hchange
    cases hchange with
    | acked i he => exact .inl ⟨i, he⟩
    | completed i he => exact .inr ⟨i, he⟩
  · rintro (⟨i, rfl⟩ | ⟨i, rfl⟩)
    all_goals
      obtain ⟨l, -, hl⟩ := Option.bind_eq_some_iff.mp hstep
      rw [entry_ack hl, if_pos rfl]

/-- The entries that a step removes may be removed exactly if the step is expected. -/
theorem mayRemove_iff {es : List Event} {e : Event} {s s' : State}
    (hstart : s₀.sess.outFlight = FinMap.empty) (hrun : run (step cfg) es s₀ = some s)
    (hstep : step cfg s e = some s') :
    (∀ id msg, entry s id = some msg → entry s' id = none → MayRemove cfg s₀ es id msg e) ↔
      Expected s e := by
  constructor
  · intro h
    cases e with
    | puback i id =>
        intro msg hmsg hqos
        have hremoved := (removed_iff hstep hmsg).mpr (.inl ⟨i, rfl⟩)
        obtain ⟨⟨j, hj⟩, -⟩ := (h id msg hmsg hremoved).2 hqos
        cases hj
    | pubcomp i id =>
        intro msg hmsg
        have hmay := h id msg hmsg ((removed_iff hstep hmsg).mpr (.inr ⟨i, rfl⟩))
        refine ⟨?_, fun hqos => (phase_iff_pubrecSince hstart hrun hmsg).mpr (hmay.2 hqos).2⟩
        intro hqos
        obtain ⟨j, hj⟩ := hmay.1 hqos
        cases hj
    | pubrec i id => trivial
    | other e he => trivial
  · intro h id msg hmsg hnone
    rcases (removed_iff hstep hmsg).mp hnone with ⟨i, rfl⟩ | ⟨i, rfl⟩
    · exact ⟨fun _ => ⟨i, rfl⟩, fun hqos => absurd hqos (h msg hmsg)⟩
    · have hexpected := h msg hmsg
      refine ⟨fun hqos => absurd hqos hexpected.1, fun hqos => ⟨⟨i, rfl⟩, ?_⟩⟩
      exact (phase_iff_pubrecSince hstart hrun hmsg).mp (hexpected.2 hqos)

end History

/-- Every removal is the acknowledgment that the QoS of the message asks for exactly if every
PUBACK and every PUBCOMP of the run is expected. -/
theorem acknowledged_iff (cfg : Config) (s₀ s : State) (es : List Event)
    (hstart : s₀.sess.outFlight = FinMap.empty) (hrun : run (step cfg) es s₀ = some s) :
    Acknowledged cfg s₀ es ↔ Meets (step cfg) Expected es s₀ := by
  rw [meets_iff]
  constructor
  · intro h before e after heq t ht
    subst heq
    rw [run_append, ht, Option.bind_some] at hrun
    obtain ⟨t', ht', -⟩ := Option.bind_eq_some_iff.mp hrun
    exact (mayRemove_iff hstart ht ht').mp (h before e after rfl t t' ht ht')
  · intro h before e after heq t t' ht ht'
    exact (mayRemove_iff hstart ht ht').mpr (h before e after heq t ht)

def sampleConfig : Config := ⟨str "c1", 16, 0⟩

def sampleStart : State := ⟨[], Session.new (str "c1") false 0, [], [], [], []⟩

def sampleConnect : ConnectPacket := ⟨4, false, 60, 0, 0, 0, 0, none⟩

/-- A QoS 2 message goes out under packet ID 1. -/
def sampleDelivery : List Event :=
  [.other (.connect 0 sampleConnect) rfl, .other (.deliver 0 0 ⟨str "t", [1], 2, false⟩) rfl]

/-- A PUBREC and a PUBCOMP end the exchange. -/
theorem acknowledged_exchange :
    Acknowledged sampleConfig sampleStart (sampleDelivery ++ [.pubrec 0 1, .pubcomp 0 1]) := by
  obtain ⟨s, hrun, -⟩ :=
    reaches_of_any (step sampleConfig) (sampleDelivery ++ [.pubrec 0 1, .pubcomp 0 1])
    sampleStart (fun _ => True) (by decide +kernel)
  exact (acknowledged_iff _ _ s _ rfl hrun).mpr (by decide +kernel)

/-- A PUBACK ends the exchange of a QoS 2 message that the client never confirmed, and so does
a PUBCOMP without a PUBREC. -/
theorem puback_ends_qos2 :
    ∃ s s' s'' msg, run (step sampleConfig) sampleDelivery sampleStart = some s ∧
      entry s 1 = some msg ∧ msg.qos = 2 ∧ msg.qos2Phase = .published ∧
      step sampleConfig s (.puback 0 1) = some s' ∧ entry s' 1 = none ∧
      step sampleConfig s (.pubcomp 0 1) = some s'' ∧ entry s'' 1 = none :=
  ⟨_, _, _, _, rfl, rfl, rfl, rfl, rfl, rfl, rfl, rfl⟩

end LumaBroker.Broker.OutboundAck
