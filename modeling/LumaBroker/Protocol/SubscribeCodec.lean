import LumaBroker.Protocol.Reads

/-!
SUBSCRIBE and UNSUBSCRIBE on the wire. The decoders of internal/protocol/packet.go have named
results that a loop fills entry by entry, so an error in the middle of an entry finds a list
that is already there; the first part has the functions with their three results, as the
source returns them. The second part compares them with the grammar of the two packets.
-/

namespace LumaBroker.Protocol

open Faulting SliceReader

/-- The named results packetID, subs or filters, and err. -/
structure Results (α : Type) where
  packetID : UInt16
  entries : List α
  err : Option DecodeError
  deriving DecidableEq

namespace Results
variable {α β : Type}

/-- The statement return 0, nil, err. -/
def failed (err : DecodeError) : Results α := ⟨0, [], some err⟩

/-- A call whose error makes the function return; none is a panic. -/
def attempt (m : Reader β) (r : SliceReader) (onErr : DecodeError → Results α)
    (next : β → SliceReader → Option (Results α)) : Option (Results α) :=
  match m r with
  | .ok b t => next b t
  | .error err => some (onErr err)
  | .panic => none
  | .timeout => none

/-- The loop over the entries, with what follows it; none when the bound on its turns is reached. -/
def entriesLoop (field : Reader α) (finish : Results α → Results α) :
    Nat → Results α → SliceReader → Option (Results α)
  | 0, _, _ => none
  | turns + 1, res, r =>
      if r.remaining > 0 then
        attempt field r failed fun f r =>
          entriesLoop field finish turns { res with entries := res.entries ++ [f] } r
      else some (finish res)

end Results

open Results

/-- DecodeSubscribe with its results. -/
def decodeSubscribeResults (version : UInt8) (body : List UInt8) : Option (Results Subscription) :=
  attempt readUint16 (newSliceReader body) failed fun packetID r =>
    attempt (skipPropsV5 version) r failed fun _ r =>
      entriesLoop subscribeField
        (fun res => if res.entries.length = 0 then failed .protocolViolation else res)
        (r.data.length + 1) ⟨packetID, [], none⟩ r

/-- What readUint16 returns beside its error: the bytes it got, in a buffer of zeros. -/
def partialUint16 (body : List UInt8) : UInt16 := (uint16 (body ++ [0, 0])).getD 0

/-- DecodeUnsubscribe with its results. Its first return statement names none of them, so the
part of the identifier that was read goes out with the error. -/
def decodeUnsubscribeResults (version : UInt8) (body : List UInt8) : Option (Results GoString) :=
  attempt readUint16 (newSliceReader body) (fun err => ⟨partialUint16 body, [], some err⟩)
    fun packetID r =>
    attempt (skipPropsV5 version) r failed fun _ r =>
      entriesLoop readString id (r.data.length + 1) ⟨packetID, [], none⟩ r

namespace Results
variable {α β : Type}

/-- The results of a decoder that leaves them out of its errors. -/
def ofOutcome : Outcome DecodeError SliceReader (UInt16 × List α) → Option (Results α)
  | .ok (packetID, entries) _ => some ⟨packetID, entries, none⟩
  | .error err => some (failed err)
  | .panic => none
  | .timeout => none

theorem ofOutcome_eq_accepted {o : Outcome DecodeError SliceReader (UInt16 × List α)}
    {packetID : UInt16} {entries : List α} :
    ofOutcome o = some ⟨packetID, entries, none⟩ ↔ ∃ t, o = .ok (packetID, entries) t := by
  cases o with
  | ok a t =>
      obtain ⟨packetID', entries'⟩ := a
      simp [ofOutcome]
  | error err => simp [ofOutcome, failed]
  | panic => simp [ofOutcome]
  | timeout => simp [ofOutcome]

theorem ofOutcome_bind (m : Reader β) (k : β → Reader (UInt16 × List α)) (r : SliceReader) :
    ofOutcome ((m >>= k) r) = attempt m r failed fun b t => ofOutcome (k b t) := by
  rw [Prog.bind_apply, Prog.bind, attempt]
  cases m r <;> rfl

theorem attempt_ok {m : Reader β} {r t : SliceReader} {b : β} (h : m r = .ok b t)
    (onErr : DecodeError → Results α) (next : β → SliceReader → Option (Results α)) :
    attempt m r onErr next = next b t := by
  rw [attempt, h]

theorem loop_fieldsTurn_more {field : Reader α} {r : SliceReader} (hrem : r.remaining > 0)
    (turns : Nat) (entries : List α) :
    loop (fieldsTurn field) (turns + 1) entries r =
      (field >>= fun f => loop (fieldsTurn field) turns (entries ++ [f])) r := by
  have hturn : fieldsTurn field entries r =
      (field >>= fun f => pure (.again (entries ++ [f]))) r := by
    simp only [fieldsTurn, Prog.gets_bind, id_eq, if_pos hrem]
  rw [loop, Prog.bind_apply, Prog.bind, hturn, Prog.bind_apply, Prog.bind,
    Prog.bind_apply, Prog.bind]
  cases field r <;> rfl

/-- The loop that fills the named results is the loop of the decoder that returns its list. -/
theorem entriesLoop_eq {field : Reader α} {finish : Results α → Results α} {packetID : UInt16}
    {k : List α → Reader (UInt16 × List α)}
    (hfinish : ∀ entries r, some (finish ⟨packetID, entries, none⟩) = ofOutcome (k entries r))
    (turns : Nat) (entries : List α) (r : SliceReader) :
    entriesLoop field finish turns ⟨packetID, entries, none⟩ r =
      ofOutcome ((loop (fieldsTurn field) turns entries >>= k) r) := by
  induction turns generalizing entries r with
  | zero => rfl
  | succ turns ih =>
      rw [entriesLoop]
      by_cases hrem : r.remaining > 0
      · rw [if_pos hrem]
        have hmore : (loop (fieldsTurn field) (turns + 1) entries >>= k) r =
            ((field >>= fun f => loop (fieldsTurn field) turns (entries ++ [f])) >>= k) r := by
          rw [Prog.bind_apply, Prog.bind, loop_fieldsTurn_more hrem]
          rfl
        rw [hmore, Prog.bind_assoc, ofOutcome_bind]
        simp only [ih]
      · have hstop : fieldsTurn field entries r = .ok (.stop entries) r :=
          fieldsTurn_stop.mpr ⟨hrem, rfl, rfl⟩
        rw [if_neg hrem, Prog.bind_ok (loop_stop hstop turns), hfinish entries r]

end Results

section Decoders
variable (version : UInt8) (body : List UInt8)

theorem decodeSubscribeResults_eq :
    decodeSubscribeResults version body = ofOutcome (decodeSubscribe version body) := by
  rw [decodeSubscribe, subscribeBody, ackHeader, Prog.bind_assoc, ofOutcome_bind,
    decodeSubscribeResults]
  congr 1
  funext packetID r
  rw [Prog.bind_assoc, ofOutcome_bind]
  congr 1
  funext _ u
  refine entriesLoop_eq (fun entries t => ?_) (u.data.length + 1) [] u
  split_ifs <;> rfl

theorem decodeUnsubscribeResults_of_ok {packetID : UInt16} {t : SliceReader}
    (h : readUint16 (newSliceReader body) = .ok packetID t) :
    decodeUnsubscribeResults version body = ofOutcome (decodeUnsubscribe version body) := by
  rw [decodeUnsubscribe, unsubscribeBody, ackHeader, Prog.bind_assoc, ofOutcome_bind,
    decodeUnsubscribeResults, attempt_ok h, attempt_ok h, Prog.bind_assoc, ofOutcome_bind]
  congr 1
  funext _ u
  exact entriesLoop_eq (fun entries t => rfl) (u.data.length + 1) [] u

theorem decodeUnsubscribeResults_of_error {err : DecodeError}
    (h : readUint16 (newSliceReader body) = .error err) :
    decodeUnsubscribeResults version body = some ⟨partialUint16 body, [], some err⟩ := by
  rw [decodeUnsubscribeResults, attempt, h]

/-- The decoders always return, and with an error there is no list beside it. -/
theorem decodeSubscribeResults_returns :
    ∃ res, decodeSubscribeResults version body = some res ∧
      (res.err ≠ none → res.entries = []) := by
  rw [decodeSubscribeResults_eq, decodeSubscribe]
  rcases safe_subscribeBody version (newSliceReader body) with ⟨a, t, h, -⟩ | ⟨err, h⟩
  · rw [h]
    exact ⟨_, rfl, fun herr => absurd rfl herr⟩
  · rw [h]
    exact ⟨_, rfl, fun _ => rfl⟩

theorem decodeUnsubscribeResults_returns :
    ∃ res, decodeUnsubscribeResults version body = some res ∧
      (res.err ≠ none → res.entries = []) := by
  rcases safe_readUint16 (newSliceReader body) with ⟨packetID, u, hid, -⟩ | ⟨err, herr⟩
  · rw [decodeUnsubscribeResults_of_ok version body hid, decodeUnsubscribe]
    rcases safe_unsubscribeBody version (newSliceReader body) with ⟨a, t, h, -⟩ | ⟨err, h⟩
    · rw [h]
      exact ⟨_, rfl, fun herr => absurd rfl herr⟩
    · rw [h]
      exact ⟨_, rfl, fun _ => rfl⟩
  · exact ⟨_, decodeUnsubscribeResults_of_error version body herr, fun _ => rfl⟩

end Decoders

/-- An entry of a SUBSCRIBE: a filter and a byte of options. -/
structure Requested where
  filter : Text
  options : UInt8

namespace Requested

def wire (e : Requested) : List UInt8 := e.filter.wire ++ [e.options]

def subscription (e : Requested) : Subscription := ⟨e.filter.bytes, e.options &&& 0x03⟩

end Requested

/-- The payload of a SUBSCRIBE and the subscriptions it asks for. -/
def SubscribePayload (subs : List Subscription) (rest : List UInt8) : Prop :=
  ∃ entries : List Requested, entries ≠ [] ∧ rest = entries.flatMap Requested.wire ∧
    subs = entries.map Requested.subscription

def UnsubscribePayload (filters : List GoString) (rest : List UInt8) : Prop :=
  ∃ entries : List Text, rest = entries.flatMap Text.wire ∧ filters = entries.map Text.bytes

section Grammar
variable {version : UInt8} {body rest : List UInt8} {packetID : UInt16}

theorem parses_subscribeField : Parses subscribeField Requested.wire Requested.subscription := by
  intro r a t
  rw [subscribeField, Prog.bind_eq_ok]
  constructor
  · rintro ⟨filter, u, hfilter, hoptions⟩
    obtain ⟨s, rfl, rfl, hrest⟩ := (parses_readString _ _ _).mp hfilter
    obtain ⟨options, v, hread, hend⟩ := Prog.bind_eq_ok.mp hoptions
    obtain ⟨_, rfl, rfl, hlast⟩ := (parses_readOne _ _ _).mp hread
    cases hend
    refine ⟨⟨s, options⟩, rfl, ?_, ?_⟩
    · rw [Requested.wire, advance_advance, List.length_append]
    · rw [Requested.wire, List.append_assoc, ← hlast]
      exact hrest
  · rintro ⟨⟨s, options⟩, rfl, rfl, hrest⟩
    rw [Requested.wire, List.length_append, List.append_assoc] at hrest
    have hnext := rest_advance hrest
    rw [← advance_advance] at hrest hnext
    refine ⟨s.bytes, r.advance s.wire.length, (parses_readString _ _ _).mpr ⟨s, rfl, rfl, ?_⟩, ?_⟩
    · rw [hnext]
      exact hrest
    · refine Prog.bind_eq_ok.mpr
        ⟨options, _, (parses_readOne _ _ _).mpr ⟨options, rfl, rfl, hnext⟩, ?_⟩
      rw [Requested.wire, List.length_append, ← advance_advance]
      rfl

theorem Text.wire_ne_nil (s : Text) : s.wire ≠ [] := by
  refine List.ne_nil_of_length_pos ?_
  rw [Text.wire, length_stringField]
  omega

theorem subscribe_accepted_iff {subs : List Subscription} :
    decodeSubscribeResults version body = some ⟨packetID, subs, none⟩ ↔
      ∃ u, ackHeader version (newSliceReader body) = .ok packetID u ∧
        SubscribePayload subs u.rest := by
  have hne (e : Requested) : e.wire ≠ [] := List.append_ne_nil_of_left_ne_nil e.filter.wire_ne_nil _
  rw [decodeSubscribeResults_eq, ofOutcome_eq_accepted, decodeSubscribe, subscribeBody]
  simp only [Prog.bind_eq_ok, Prog.ite_fail_eq_ok, readFields_eq_ok parses_subscribeField hne]
  constructor
  · rintro ⟨t, id, u, hid, _, v, ⟨entries, rfl, hrest, -⟩, hsome, hend⟩
    cases hend
    refine ⟨u, hid, entries, ?_, hrest, rfl⟩
    rintro rfl
    exact hsome rfl
  · rintro ⟨u, hid, entries, hsome, hrest, rfl⟩
    refine ⟨_, packetID, u, hid, _, _, ⟨entries, rfl, hrest, rfl⟩, ?_, rfl⟩
    rwa [List.length_map, List.length_eq_zero_iff]

theorem unsubscribe_accepted_iff {filters : List GoString} :
    decodeUnsubscribeResults version body = some ⟨packetID, filters, none⟩ ↔
      ∃ u, ackHeader version (newSliceReader body) = .ok packetID u ∧
        UnsubscribePayload filters u.rest := by
  rcases safe_readUint16 (newSliceReader body) with ⟨packetID', u', hid', -⟩ | ⟨err, herr⟩
  · rw [decodeUnsubscribeResults_of_ok version body hid', ofOutcome_eq_accepted, decodeUnsubscribe,
      unsubscribeBody]
    simp only [Prog.bind_eq_ok, readFields_eq_ok parses_readString Text.wire_ne_nil]
    constructor
    · rintro ⟨t, id, u, hid, _, v, ⟨entries, rfl, hrest, -⟩, hend⟩
      cases hend
      exact ⟨u, hid, entries, hrest, rfl⟩
    · rintro ⟨u, hid, entries, hrest, rfl⟩
      exact ⟨_, packetID, u, hid, _, _, ⟨entries, rfl, hrest, rfl⟩, rfl⟩
  · rw [decodeUnsubscribeResults_of_error version body herr, ackHeader]
    simp [Prog.bind_error herr]

/-- Behind a header that is read from these bytes come the entries. -/
theorem exists_ackHeader_iff {wire : List UInt8} {id : UInt16}
    (h : Reads (ackHeader version) wire packetID) (P : List UInt8 → Prop) :
    (∃ u, ackHeader version (newSliceReader (wire ++ rest)) = .ok id u ∧ P u.rest) ↔
      packetID = id ∧ P rest := by
  have hread := h (newSliceReader (wire ++ rest)) rest rfl
  have hnext : ((newSliceReader (wire ++ rest)).advance wire.length).rest = rest := rest_advance rfl
  rw [hread]
  constructor
  · rintro ⟨u, hu, hP⟩
    cases hu
    rw [hnext] at hP
    exact ⟨rfl, hP⟩
  · rintro ⟨rfl, hP⟩
    exact ⟨_, rfl, by rwa [hnext]⟩

theorem reads_ackHeader_v311 (packetID : UInt16) :
    Reads (ackHeader v311) (bytes16 packetID) packetID :=
  (reads_readUint16 packetID).map id

theorem reads_ackHeader_v50 {props : List UInt8} (hsize : props.length ≤ maxRemainingLength)
    (packetID : UInt16) :
    Reads (ackHeader v50) (bytes16 packetID ++ propertySection props) packetID :=
  (reads_readUint16 packetID).bind ((reads_skipProps hsize).map fun _ => packetID)

theorem ackHeader_v311_iff (P : List UInt8 → Prop) :
    (∃ u, ackHeader v311 (newSliceReader body) = .ok packetID u ∧ P u.rest) ↔
      ∃ rest, body = bytes16 packetID ++ rest ∧ P rest := by
  constructor
  · rintro ⟨u, hu, hP⟩
    obtain ⟨id, v, hid, hend⟩ := Prog.bind_eq_ok.mp hu
    cases hend
    obtain ⟨-, hrest⟩ := readUint16_eq_ok.mp hid
    exact ⟨u.rest, hrest, hP⟩
  · rintro ⟨rest, rfl, hP⟩
    exact (exists_ackHeader_iff (reads_ackHeader_v311 packetID) P).mpr ⟨rfl, hP⟩

end Grammar

/-- The two decoders accept the grammar of their packets and nothing else, and return what it
says; properties do not change that. An error comes without a list. -/
theorem subscribe_parsing_exact :
    (∀ body packetID subs, decodeSubscribeResults v311 body = some ⟨packetID, subs, none⟩ ↔
      ∃ entries :
        List Requested, entries ≠ [] ∧ body = bytes16 packetID ++ entries.flatMap Requested.wire ∧
        subs = entries.map Requested.subscription) ∧
    (∀ body packetID filters, decodeUnsubscribeResults v311 body = some ⟨packetID, filters, none⟩ ↔
      ∃ entries : List Text, body = bytes16 packetID ++ entries.flatMap Text.wire ∧
        filters = entries.map Text.bytes) ∧
    (∀ packetID props rest, props.length ≤ maxRemainingLength →
      (∀ id subs, decodeSubscribeResults v50 (bytes16 packetID ++ propertySection props ++ rest) =
          some ⟨id, subs, none⟩ ↔
        decodeSubscribeResults v311 (bytes16 packetID ++ rest) = some ⟨id, subs, none⟩) ∧
      ∀ id filters, decodeUnsubscribeResults v50
          (bytes16 packetID ++ propertySection props ++ rest) =
          some ⟨id, filters, none⟩ ↔
        decodeUnsubscribeResults v311 (bytes16 packetID ++ rest) = some ⟨id, filters, none⟩) ∧
    ∀ version body,
      (∃ res, decodeSubscribeResults version body = some res ∧
        (res.err ≠ none → res.entries = [])) ∧
      ∃ res, decodeUnsubscribeResults version body = some res ∧
        (res.err ≠ none → res.entries = []) := by
  refine ⟨fun body packetID subs => ?_, fun body packetID filters => ?_,
    fun packetID props rest hsize => ⟨?_, ?_⟩,
    fun version body =>
      ⟨decodeSubscribeResults_returns version body, decodeUnsubscribeResults_returns version body⟩⟩
  · rw [subscribe_accepted_iff, ackHeader_v311_iff (SubscribePayload subs)]
    constructor
    · rintro ⟨_, rfl, entries, hsome, rfl, rfl⟩
      exact ⟨entries, hsome, rfl, rfl⟩
    · rintro ⟨entries, hsome, rfl, rfl⟩
      exact ⟨_, rfl, entries, hsome, rfl, rfl⟩
  · rw [unsubscribe_accepted_iff, ackHeader_v311_iff (UnsubscribePayload filters)]
    constructor
    · rintro ⟨_, rfl, entries, rfl, rfl⟩
      exact ⟨entries, rfl, rfl⟩
    · rintro ⟨entries, rfl, rfl⟩
      exact ⟨_, rfl, entries, rfl, rfl⟩
  · intro id subs
    rw [subscribe_accepted_iff, subscribe_accepted_iff,
      exists_ackHeader_iff (reads_ackHeader_v50 hsize packetID) (SubscribePayload subs),
      exists_ackHeader_iff (reads_ackHeader_v311 packetID) (SubscribePayload subs)]
  · intro id filters
    rw [unsubscribe_accepted_iff, unsubscribe_accepted_iff,
      exists_ackHeader_iff (reads_ackHeader_v50 hsize packetID) (UnsubscribePayload filters),
      exists_ackHeader_iff (reads_ackHeader_v311 packetID) (UnsubscribePayload filters)]

/-- One entry, with a property block before it on v5. -/
theorem subscribe_parsing_exact_sample :
    decodeSubscribeResults v50 (bytes16 7 ++ propertySection [0x0B, 1] ++ [0, 1, 97, 0x2D]) =
      some ⟨7, [⟨str "a", 1⟩], none⟩ := by
  obtain ⟨hsubscribe, -, hprops, -⟩ := subscribe_parsing_exact
  refine ((hprops 7 [0x0B, 1] [0, 1, 97, 0x2D] (by decide)).1 7 _).mpr ?_
  exact (hsubscribe _ 7 _).mpr ⟨[⟨⟨str "a", by decide⟩, 0x2D⟩], List.cons_ne_nil _ _,
    by decide, by decide⟩

end LumaBroker.Protocol
