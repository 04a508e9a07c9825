import LumaBroker.Broker.Subscribe
import LumaBroker.Protocol.Decode
import LumaBroker.Router.Held

/-!
What SUBACK and UNSUBACK tell the client. handleSubscribe and handleUnsubscribe of
internal/broker/client.go go through the entries of the decoded packet in order, each leaves a
code, and the codes are sent together. The code of an entry says what became of it: a QoS is
the one the router stores, an error means that the router was not called.
-/

namespace LumaBroker.Broker

open Protocol Auth

variable {δ : Type}

/-- handleSubscribe with the packet it enqueues; an error of the decoder is returned. -/
def subscribePacket (env : SubscribeEnv δ) (body : List UInt8) (r : Router δ) :
    Option (Option (List UInt8) × Router δ) :=
  match decodeSubscribe env.version body with
  | .ok (packetID, subs) _ =>
      let (codes, r) := handleSubscribe env (entriesOf subs) r
      some (if env.version = v50 then encodeSubackV5 packetID [] codes
        else encodeSuback packetID codes, r)
  | _ => none

/-- handleUnsubscribe with the packet it enqueues. -/
def unsubscribePacket (env : SubscribeEnv δ) (body : List UInt8) (r : Router δ) :
    Option (Option (List UInt8) × Router δ) :=
  match decodeUnsubscribe env.version body with
  | .ok (packetID, filters) _ =>
      if env.version = v50 then
        let (reasons, r) := handleUnsubscribe env filters r
        some (encodeUnsubackV5 packetID [] reasons, r)
      else some (some (encodeUnsuback packetID), unsubscribeV311 env filters r)
  | _ => none

section Wire

/-- The bytes of SUBACK and UNSUBACK; a v5 packet has an empty property section. -/
def codesWire (t : PacketType) (props : List UInt8) (packetID : UInt16) (codes : List UInt8) :
    List UInt8 :=
  [t.code <<< 4] ++ Varint.encode (2 + props.length + codes.length) ++ bytes16 packetID ++
    props ++ codes

theorem encodeCodes_eq {props codes : List UInt8} (hlen : 2 + props.length + codes.length < 128 ^ 4)
    (t : PacketType) (packetID : UInt16) :
    encodeCodes t props packetID codes = some (codesWire t props packetID codes) := by
  rw [encodeCodes, encodeVarInt_eq, if_pos ⟨hlen, by decide⟩]
  rfl

end Wire

section Codes
variable {env : SubscribeEnv δ}

theorem grantedQoS_eq_min (env : SubscribeEnv δ) (sub : SubscribeEntry) :
    grantedQoS env sub = min (sub.qos &&& 0x03) (min (UInt8.ofInt env.serverMaximumQoS) 2) := by
  have hmax : srvMaxQoS env = min (UInt8.ofInt env.serverMaximumQoS) 2 := by
    rw [min_comm, min_def_lt]
    rfl
  rw [min_comm, min_def_lt, ← hmax]
  rfl

/-- The conversion to a byte keeps what the configuration admits, and more. -/
theorem toNat_min_two_ofInt {n : Int} (h0 : 0 ≤ n) (h255 : n ≤ 255) :
    (min (UInt8.ofInt n) 2).toNat = min n 2 := by
  obtain ⟨k, rfl⟩ := Int.eq_ofNat_of_zero_le h0
  have hk : (UInt8.ofInt k).toNat = k := by
    rw [UInt8.ofInt, UInt8.toNat_ofNat']
    omega
  rw [min_def]
  split_ifs with hle
  · have hk2 : (UInt8.ofInt k).toNat ≤ 2 := UInt8.le_iff_toNat_le.mp hle
    omega
  · have hk2 : ¬ (UInt8.ofInt k).toNat ≤ 2 := fun h => hle (UInt8.le_iff_toNat_le.mpr h)
    rw [min_eq_right (by omega)]
    rfl

theorem subackReasonByte_ok (version : UInt8) {qos : UInt8} (h : qos ≤ 2) :
    subackReasonByte version qos .ok = qos := by
  have hle : qos.toNat ≤ 2 := UInt8.le_iff_toNat_le.mp h
  have hqos : qos.toNat = 0 ∨ qos.toNat = 1 ∨ qos.toNat = 2 := by omega
  rcases hqos with h0 | h1 | h2
  · obtain rfl : qos = 0 := UInt8.toNat_inj.mp h0
    rfl
  · obtain rfl : qos = 1 := UInt8.toNat_inj.mp h1
    rfl
  · obtain rfl : qos = 2 := UInt8.toNat_inj.mp h2
    rfl

theorem le_subackReasonByte (version qos : UInt8) {deny : SubackDenyReason} (h : deny ≠ .ok) :
    0x80 ≤ subackReasonByte version qos deny := by
  cases deny with
  | ok => exact absurd rfl h
  | deniedInvalidTopicFilter | deniedNotAuthorized | deniedPlugin =>
      simp only [subackReasonByte]
      split_ifs <;> decide

def subscribeCode (env : SubscribeEnv δ) (sub : SubscribeEntry) : UInt8 :=
  subackReasonByte env.version (grantedQoS env sub) (subscribeOutcome env sub)

theorem subscribeCode_of_ok {sub : SubscribeEntry} (h : subscribeOutcome env sub = .ok) :
    subscribeCode env sub = grantedQoS env sub := by
  rw [subscribeCode, h]
  refine subackReasonByte_ok _ ?_
  rw [grantedQoS_eq_min]
  exact (min_le_right _ _).trans (min_le_right _ _)

theorem subscribeCode_lt_iff {sub : SubscribeEntry} :
    subscribeCode env sub < 0x80 ↔ subscribeOutcome env sub = .ok := by
  constructor
  · intro hlt
    by_contra hne
    exact absurd hlt (not_lt.mpr (le_subackReasonByte _ _ hne))
  · intro hok
    rw [subscribeCode_of_ok hok, grantedQoS_eq_min]
    exact lt_of_le_of_lt ((min_le_right _ _).trans (min_le_right _ _)) (by decide)

theorem subscribeOutcome_ok_iff {sub : SubscribeEntry} :
    subscribeOutcome env sub = .ok ↔ validTopicFilter sub.filter = true ∧
      canSubscribe env.aclRules env.clientID (aclFilter sub.filter) = true ∧
      env.onSubscribe env.clientID sub.filter (grantedQoS env sub) = true := by
  simp only [subscribeOutcome]
  split_ifs with hvalid hacl hplugin <;> simp_all

theorem unsubscribeOutcome_ok_iff {filter : GoString} :
    unsubscribeOutcome env filter = .ok ↔ validTopicFilter filter = true ∧
      canSubscribe env.aclRules env.clientID (aclFilter filter) = true := by
  simp only [unsubscribeOutcome]
  split_ifs with hvalid hacl <;> simp_all

theorem unsubackReasonByte_eq_zero_iff {deny : UnsubackDenyReason} :
    unsubackReasonByte deny = 0x00 ↔ deny = .ok := by
  cases deny <;> decide

end Codes

section Loops
variable {env : SubscribeEnv δ}

/-- One turn of the loop on the router. -/
def subscribeTurn (env : SubscribeEnv δ) (r : Router δ) (sub : SubscribeEntry) : Router δ :=
  if subscribeOutcome env sub = .ok then
    r.subscribe sub.filter (subscriberOf env (grantedQoS env sub))
  else r

theorem handleSubscribe_eq (env : SubscribeEnv δ) (subs : List SubscribeEntry) (r : Router δ) :
    handleSubscribe env subs r = (subs.map (subscribeCode env),
      subs.foldl (subscribeTurn env) r) := by
  induction subs generalizing r with
  | nil => rfl
  | cons sub subs ih =>
      rw [handleSubscribe, ih]
      rfl

/-- One turn of the v5 loop on the router. -/
def unsubscribeTurn (env : SubscribeEnv δ) (r : Router δ) (filter : GoString) : Router δ :=
  if unsubscribeOutcome env filter = .ok then r.unsubscribe filter env.clientID else r

theorem handleUnsubscribe_eq (env : SubscribeEnv δ) (filters : List GoString) (r : Router δ) :
    handleUnsubscribe env filters r =
      (filters.map fun f => unsubackReasonByte (unsubscribeOutcome env f),
        filters.foldl (unsubscribeTurn env) r) := by
  induction filters generalizing r with
  | nil => rfl
  | cons filter filters ih =>
      rw [handleUnsubscribe, ih]
      rfl

theorem unsubscribeV311_eq (env : SubscribeEnv δ) (filters : List GoString) (r : Router δ) :
    unsubscribeV311 env filters r = filters.foldl (unsubscribeTurn env) r := by
  induction filters generalizing r with
  | nil => rfl
  | cons filter filters ih =>
      rw [unsubscribeV311, ih, ih, List.foldl_cons, unsubscribeTurn]
      have hiff :
          (!validTopicFilter filter || !canSubscribe env.aclRules env.clientID (aclFilter filter)) =
              true ↔
            ¬ unsubscribeOutcome env filter = .ok := by
        rw [unsubscribeOutcome_ok_iff, not_and_or]
        simp
      by_cases hok : unsubscribeOutcome env filter = .ok
      · rw [if_pos hok, if_neg (fun h => hiff.mp h hok)]
      · rw [if_neg hok, if_pos (hiff.mpr hok)]

/-- The two branches of handleUnsubscribe differ in the answer only. -/
theorem unsubscribeFilters_router (env : SubscribeEnv δ) (filters : List GoString) (r : Router δ) :
    (unsubscribeFilters env filters r).2 = filters.foldl (unsubscribeTurn env) r := by
  rw [unsubscribeFilters]
  split
  · rw [handleUnsubscribe_eq]
  · exact unsubscribeV311_eq env filters r

theorem held_foldl_subscribeTurn {subs : List SubscribeEntry} {filter : GoString}
    (h : ∀ sub ∈ subs, sub.filter ≠ filter) (r : Router δ) (c : GoString) :
    Router.held (subs.foldl (subscribeTurn env) r) c filter = Router.held r c filter := by
  induction subs generalizing r with
  | nil => rfl
  | cons sub subs ih =>
      rw [List.foldl_cons, ih fun s hs => h s (List.mem_cons_of_mem sub hs), subscribeTurn]
      split_ifs
      · rw [Router.held_subscribe, if_neg]
        exact fun heq => h sub List.mem_cons_self heq.2.symm
      · rfl

end Loops

/-- The codes of a SUBACK for these entries, from one router to the next. -/
structure SubackTells (env : SubscribeEnv δ) (subs : List SubscribeEntry) (r : Router δ)
    (codes : List UInt8) (r' : Router δ) : Prop where
  length : codes.length = subs.length
  /-- A code below 0x80 is for an entry that passed all checks, and for no other. -/
  granted : ∀ before sub after, subs = before ++ sub :: after →
    ∃ code, codes[before.length]? = some code ∧
      (code < 0x80 ↔ validTopicFilter sub.filter = true ∧
        canSubscribe env.aclRules env.clientID (aclFilter sub.filter) = true ∧
        env.onSubscribe env.clientID sub.filter (grantedQoS env sub) = true) ∧
      (code < 0x80 → code = min (sub.qos &&& 0x03) (min (UInt8.ofInt env.serverMaximumQoS) 2) ∧
        ((∀ sub' ∈ after, sub'.filter ≠ sub.filter) →
          Router.held r' env.clientID sub.filter = some ⟨env.clientID, code, some env.deliver⟩))
  /-- The router is called for the entries with such a code, and stores the code as the QoS. -/
  router : r' = ((subs.zip codes).filter fun e => e.2 < 0x80).foldl
    (fun r e => r.subscribe e.1.filter ⟨env.clientID, e.2, some env.deliver⟩) r

/-- The reason codes of a v5 UNSUBACK for these filters. -/
structure UnsubackTells (env : SubscribeEnv δ) (filters : List GoString) (r : Router δ)
    (codes : List UInt8) (r' : Router δ) : Prop where
  length : codes.length = filters.length
  passed : ∀ before filter after, filters = before ++ filter :: after →
    ∃ code, codes[before.length]? = some code ∧
      (code = 0x00 ↔ validTopicFilter filter = true ∧
        canSubscribe env.aclRules env.clientID (aclFilter filter) = true)
  /-- The filters with code zero are the ones the router is called for. -/
  router : r' = ((filters.zip codes).filter fun e => e.2 = 0x00).foldl
    (fun r e => r.unsubscribe e.1 env.clientID) r

theorem subackTells_handleSubscribe (env : SubscribeEnv δ) (subs : List SubscribeEntry)
    (r : Router δ) :
    SubackTells env subs r (handleSubscribe env subs r).1 (handleSubscribe env subs r).2 := by
  rw [handleSubscribe_eq]
  refine ⟨List.length_map _, ?_, ?_⟩
  · rintro before sub after rfl
    refine ⟨subscribeCode env sub, ?_, ?_, fun hlt => ?_⟩
    · simp
    · rw [subscribeCode_lt_iff, subscribeOutcome_ok_iff]
    · have hok := subscribeCode_lt_iff.mp hlt
      rw [subscribeCode_of_ok hok]
      refine ⟨grantedQoS_eq_min env sub, fun hafter => ?_⟩
      rw [List.foldl_append, List.foldl_cons, held_foldl_subscribeTurn hafter,
        subscribeTurn, if_pos hok, Router.held_subscribe, if_pos ⟨rfl, rfl⟩]
      rfl
  · induction subs generalizing r with
    | nil => rfl
    | cons sub subs ih =>
        rw [List.map_cons, List.zip_cons_cons, List.foldl_cons, ih, subscribeTurn]
        by_cases hok : subscribeOutcome env sub = .ok
        · rw [List.filter_cons_of_pos (by simpa using subscribeCode_lt_iff.mpr hok),
            List.foldl_cons, if_pos hok, subscribeCode_of_ok hok]
          rfl
        · rw [List.filter_cons_of_neg (by simpa using fun h => hok (subscribeCode_lt_iff.mp h)),
            if_neg hok]

theorem unsubackTells_handleUnsubscribe (env : SubscribeEnv δ) (filters : List GoString)
    (r : Router δ) :
    UnsubackTells env filters r (handleUnsubscribe env filters r).1
      (handleUnsubscribe env filters r).2 := by
  rw [handleUnsubscribe_eq]
  refine ⟨List.length_map _, ?_, ?_⟩
  · rintro before filter after rfl
    refine ⟨unsubackReasonByte (unsubscribeOutcome env filter), ?_, ?_⟩
    · simp
    · rw [unsubackReasonByte_eq_zero_iff, unsubscribeOutcome_ok_iff]
  · induction filters generalizing r with
    | nil => rfl
    | cons filter filters ih =>
        rw [List.map_cons, List.zip_cons_cons, List.foldl_cons, ih, unsubscribeTurn]
        by_cases hok : unsubscribeOutcome env filter = .ok
        · rw [List.filter_cons_of_pos (by simpa using unsubackReasonByte_eq_zero_iff.mpr hok),
            List.foldl_cons, if_pos hok]
        · rw [List.filter_cons_of_neg
            (by simpa using fun h => hok (unsubackReasonByte_eq_zero_iff.mp h)), if_neg hok]

/-- The property section of a v5 acknowledgement is empty, and a v3.1.1 one has none. -/
def ackProps (version : UInt8) : List UInt8 := if version = v50 then [0] else []

/-- SUBACK and UNSUBACK tell the truth: one code an entry, in order, and each says what became
of its entry in the router. The two branches of handleUnsubscribe do the same. -/
theorem acks_tell_the_truth (env : SubscribeEnv δ) (r : Router δ) :
    (∀ subs, SubackTells env subs r (handleSubscribe env subs r).1 (handleSubscribe env subs r).2) ∧
    (∀ body packetID subs t, body.length < 128 ^ 4 →
      decodeSubscribe env.version body = .ok (packetID, subs) t →
        subscribePacket env body r = some (some (codesWire .suback (ackProps env.version) packetID
          (handleSubscribe env (entriesOf subs) r).1),
            (handleSubscribe env (entriesOf subs) r).2)) ∧
    (0 ≤ env.serverMaximumQoS → env.serverMaximumQoS ≤ 255 →
      (min (UInt8.ofInt env.serverMaximumQoS) 2).toNat = min env.serverMaximumQoS 2) ∧
    (∀ filters, (handleUnsubscribe env filters r).2 = unsubscribeV311 env filters r ∧
      UnsubackTells env filters r (handleUnsubscribe env filters r).1
        (handleUnsubscribe env filters r).2) ∧
    ∀ body packetID filters t, body.length < 128 ^ 4 →
      decodeUnsubscribe env.version body = .ok (packetID, filters) t →
        unsubscribePacket env body r = some (some (if env.version = v50 then
            codesWire .unsuback [0] packetID (handleUnsubscribe env filters r).1
          else encodeUnsuback packetID), (handleUnsubscribe env filters r).2) := by
  have hbranches (filters : List GoString) :
      (handleUnsubscribe env filters r).2 = unsubscribeV311 env filters r := by
    rw [handleUnsubscribe_eq, unsubscribeV311_eq]
  have hprops : encodeVarInt 4 ([] : List UInt8).length = some [0] := by decide
  refine ⟨fun subs => subackTells_handleSubscribe env subs r, ?_, toNat_min_two_ofInt,
    fun filters => ⟨hbranches filters, unsubackTells_handleUnsubscribe env filters r⟩, ?_⟩
  · intro body packetID subs t hbody hdecode
    have hlen : (handleSubscribe env (entriesOf subs) r).1.length = subs.length :=
      (subackTells_handleSubscribe env (entriesOf subs) r).length.trans (List.length_map _)
    have hsubs := length_decodeSubscribe hdecode
    simp only [subscribePacket, hdecode, ackProps, Option.some.injEq, Prod.mk.injEq, and_true]
    split_ifs with hversion
    · rw [encodeSubackV5, hprops, Option.bind_some, encodeCodes_eq]
      · rfl
      · simp only [List.append_nil, List.length_singleton]
        omega
    · rw [encodeSuback, encodeCodes_eq]
      simp only [List.length_nil]
      omega
  · intro body packetID filters t hbody hdecode
    have hlen := (unsubackTells_handleUnsubscribe env filters r).length
    have hfilters := length_decodeUnsubscribe hdecode
    simp only [unsubscribePacket, hdecode]
    split_ifs with hversion
    · rw [encodeUnsubackV5, hprops, Option.bind_some, encodeCodes_eq]
      · rfl
      · simp only [List.append_nil, List.length_singleton]
        omega
    · rw [hbranches]

/-- The filter a with QoS 2, an invalid filter, and a again with QoS 1. -/
def repeatedFilter : List UInt8 := [0, 7, 0, 0, 1, 97, 2, 0, 2, 35, 97, 0, 0, 1, 97, 1]

theorem acks_tell_the_truth_repeated :
    ∃ codes r', subscribePacket (envWith []) repeatedFilter Router.new =
    some (some (codesWire .suback [0] 7 codes), r') ∧ codes.length = 3 ∧ codes[2]? = some 1 ∧
      Router.held r' (str "c1") (str "a") = some ⟨str "c1", 1, some ()⟩ := by
  have hdecode : decodeSubscribe v50 repeatedFilter =
      .ok (7, [⟨str "a", 2⟩, ⟨str "#a", 0⟩, ⟨str "a", 1⟩]) ⟨repeatedFilter, 16⟩ := by decide +kernel
  obtain ⟨htells, hpacket, -⟩ := acks_tell_the_truth (envWith []) Router.new
  obtain ⟨hlength, hgranted, -⟩ := htells [⟨str "a", 2⟩, ⟨str "#a", 0⟩, ⟨str "a", 1⟩]
  obtain ⟨code, hcode, hlt, hqos⟩ := hgranted [⟨str "a", 2⟩, ⟨str "#a", 0⟩] ⟨str "a", 1⟩ [] rfl
  obtain ⟨rfl, hheld⟩ := hqos (hlt.mpr (by decide))
  exact ⟨_, _, hpacket repeatedFilter 7 _ _ (by decide) hdecode, hlength, hcode,
    hheld fun _ h => absurd h List.not_mem_nil⟩

end LumaBroker.Broker
