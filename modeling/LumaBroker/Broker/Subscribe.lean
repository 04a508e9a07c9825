import LumaBroker.Auth.Acl
import LumaBroker.Protocol.Decode
import LumaBroker.Router.Router

/-!
The SUBSCRIBE and UNSUBSCRIBE handlers of internal/broker/client.go. Each entry of a
SUBSCRIBE is validated, looked up in the access rules and offered to the plugins before
it reaches the router. No later step of a delivery consults the rules again, so what a
grant says about the topics of the filter is all the protection they give.
-/

namespace LumaBroker.Broker

open Protocol Auth

variable {δ : Type}

/-- One entry of a decoded SUBSCRIBE. -/
structure SubscribeEntry where
  filter : GoString
  qos : UInt8

def entriesOf (subs : List Subscription) : List SubscribeEntry :=
  subs.map fun s => ⟨s.filter, s.qos⟩

/-- What the handler reads of its connection and of the broker. OnSubscribe stands
for the plugin chain and answers whether it raised no error. -/
structure SubscribeEnv (δ : Type) where
  clientID : GoString
  version : UInt8
  serverMaximumQoS : Int
  aclRules : List ACLRule
  onSubscribe : GoString → GoString → UInt8 → Bool
  deliver : δ

def srvMaxQoS (env : SubscribeEnv δ) : UInt8 :=
  let max := UInt8.ofInt env.serverMaximumQoS
  if max > 2 then 2 else max

def grantedQoS (env : SubscribeEnv δ) (sub : SubscribeEntry) : UInt8 :=
  let qos := sub.qos &&& 0x03
  if qos > srvMaxQoS env then srvMaxQoS env else qos

/-- The filter the access rules are asked about: the inner one of a shared filter. -/
def aclFilter (filter : GoString) : GoString :=
  match parseSharedTopicFilter filter with
  | some (_, inner) => inner
  | none => filter

def subscribeOutcome (env : SubscribeEnv δ) (sub : SubscribeEntry) : SubackDenyReason :=
  if !validTopicFilter sub.filter then .deniedInvalidTopicFilter
  else if !canSubscribe env.aclRules env.clientID (aclFilter sub.filter) then .deniedNotAuthorized
  else if !env.onSubscribe env.clientID sub.filter (grantedQoS env sub) then .deniedPlugin
  else .ok

/-- The entries that pass every check of handleSubscribe. -/
def grantedEntries (env : SubscribeEnv δ) (subs : List SubscribeEntry) : List SubscribeEntry :=
  subs.filter fun sub => subscribeOutcome env sub = .ok

/-- The subscription of an entry that was granted this QoS. -/
def subscriberOf (env : SubscribeEnv δ) (qos : UInt8) : Router.Subscriber δ :=
  ⟨env.clientID, qos, some env.deliver⟩

/-- The loop of handleSubscribe: one SUBACK byte an entry, and the router after the
granted ones. Storing the subscription and sending retained messages run in
goroutines of their own. -/
def handleSubscribe (env : SubscribeEnv δ) : List SubscribeEntry → Router δ → List UInt8 × Router δ
  | [], r => ([], r)
  | sub :: subs, r =>
      let deny := subscribeOutcome env sub
      let r' :=
        if deny = .ok then
          Router.subscribe sub.filter (subscriberOf env (grantedQoS env sub)) r
        else r
      let rest := handleSubscribe env subs r'
      (subackReasonByte env.version (grantedQoS env sub) deny :: rest.1, rest.2)

def unsubscribeOutcome (env : SubscribeEnv δ) (filter : GoString) : UnsubackDenyReason :=
  if !validTopicFilter filter then .deniedInvalidTopicFilter
  else if !canSubscribe env.aclRules env.clientID (aclFilter filter) then .deniedNotAuthorized
  else .ok

/-- The loop of handleUnsubscribe for v5: one reason byte a filter, and the router. -/
def handleUnsubscribe (env : SubscribeEnv δ) : List GoString → Router δ → List UInt8 × Router δ
  | [], r => ([], r)
  | filter :: filters, r =>
      let deny := unsubscribeOutcome env filter
      let r' := if deny = .ok then Router.unsubscribe filter env.clientID r else r
      let rest := handleUnsubscribe env filters r'
      (unsubackReasonByte deny :: rest.1, rest.2)

/-- The loop of handleUnsubscribe for v3.1.1, which has no reasons to tell. -/
def unsubscribeV311 (env : SubscribeEnv δ) : List GoString → Router δ → Router δ
  | [], r => r
  | filter :: filters, r =>
      if !validTopicFilter filter || !canSubscribe env.aclRules env.clientID (aclFilter filter) then
        unsubscribeV311 env filters r
      else unsubscribeV311 env filters (Router.unsubscribe filter env.clientID r)

/-- handleUnsubscribe on a decoded packet. -/
def unsubscribeFilters (env : SubscribeEnv δ) (filters : List GoString) (r : Router δ) :
    List UInt8 × Router δ :=
  if env.version = v50 then handleUnsubscribe env filters r
  else ([], unsubscribeV311 env filters r)

/-- The router after a SUBSCRIBE has the granted entries, in their order. -/
theorem handleSubscribe_router (env : SubscribeEnv δ) (subs : List SubscribeEntry) (r : Router δ) :
    (handleSubscribe env subs r).2 = (grantedEntries env subs).foldl
      (fun r sub => r.subscribe sub.filter (subscriberOf env (grantedQoS env sub))) r := by
  induction subs generalizing r with
  | nil => rfl
  | cons sub subs ih =>
      rw [handleSubscribe]
      dsimp only
      rw [ih, grantedEntries, grantedEntries, List.filter_cons]
      split_ifs <;> simp_all

theorem canSubscribe_of_granted {env : SubscribeEnv δ} {sub : SubscribeEntry}
    (h : subscribeOutcome env sub = .ok) :
    canSubscribe env.aclRules env.clientID (aclFilter sub.filter) = true := by
  simp only [subscribeOutcome] at h
  split_ifs at h with hvalid hacl
  simpa using hacl

/-- A rule for the client that decides the filter and does not reach one of the
filter's topics matched the filter's '#' with its '+'. -/
theorem plusAtHash_of_matches {r : ACLRule} {clientID filter topic : GoString}
    (hfilter : r.matches clientID filter = true)
    (htopic : Router.topicMatchesFilter topic filter = true)
    (hnot : r.matches clientID topic = false) : r.plusAtHash filter = true := by
  simp only [ACLRule.matches, Bool.and_eq_true] at hfilter
  simp only [ACLRule.matches, hfilter.1, Bool.true_and] at hnot
  by_contra hplus
  have hreach := matchSegs_trans _ _ _ hfilter.2
    (by simpa only [Router.topicMatchesFilter, Router.splitFilter_eq_split] using htopic)
    (by simpa only [ACLRule.plusAtHash, Bool.not_eq_true] using hplus)
  simp only [topicFilterMatches, hreach, Bool.true_eq_false] at hnot

theorem checkACL_topic_of_filter (rules : List ACLRule) {clientID filter topic : GoString}
    (perm : Perm) (hgrant : checkACL rules clientID filter perm = true)
    (htopic : Router.topicMatchesFilter topic filter = true) :
    checkACL rules clientID topic perm = true ∨
      (∃ r, decidingRule rules clientID topic = some r ∧ r.perm &&& perm = 0 ∧
        r.matches clientID filter = false) ∨
      ∃ r, decidingRule rules clientID filter = some r ∧ r.plusAtHash filter = true := by
  induction rules with
  | nil => exact .inl rfl
  | cons r rules ih =>
      cases hrt : r.matches clientID topic with
      | true =>
          -- this rule decides the topic
          by_cases hperm : r.perm &&& perm = 0
          · cases hrf : r.matches clientID filter with
            | true => simp [checkACL, hrf, hperm] at hgrant
            | false =>
                refine .inr (.inl ⟨r, ?_, hperm, hrf⟩)
                simp [decidingRule, hrt]
          · refine .inl ?_
            simp [checkACL, hrt, hperm]
      | false =>
          cases hrf : r.matches clientID filter with
          | true =>
              refine .inr (.inr ⟨r, ?_, plusAtHash_of_matches hrf htopic hrt⟩)
              simp [decidingRule, hrf]
          | false =>
              -- the rule decides neither, so the rest of the list decides both
              have hrest := ih (by simpa [checkACL, hrf] using hgrant)
              simpa [checkACL, decidingRule, hrt, hrf] using hrest

/-- A granted filter reaches only topics its client may read, but for two kinds: those
a narrower denying rule decides, and those of a filter that was itself granted by a
rule whose '+' stands at the filter's '#'. -/
theorem granted_filter_topics_readable (env : SubscribeEnv δ) (sub : SubscribeEntry)
    (topic : GoString) (hgrant : subscribeOutcome env sub = .ok)
    (htopic : Router.topicMatchesFilter topic (aclFilter sub.filter) = true) :
    checkACL env.aclRules env.clientID topic permSubscribe = true ∨
      (∃ r, decidingRule env.aclRules env.clientID topic = some r ∧
        r.perm &&& permSubscribe = 0 ∧ r.matches env.clientID (aclFilter sub.filter) = false) ∨
      ∃ r, decidingRule env.aclRules env.clientID (aclFilter sub.filter) = some r ∧
        r.plusAtHash (aclFilter sub.filter) = true :=
  checkACL_topic_of_filter env.aclRules permSubscribe (canSubscribe_of_granted hgrant) htopic

/-- A client of a broker to which these rules were added, the first of them last. -/
def envWith (rules : List ACLRule) : SubscribeEnv Unit :=
  { clientID := str "c1", version := v50, serverMaximumQoS := 2,
    aclRules := rules.foldr addACLRule loadDefaultACL,
    onSubscribe := fun _ _ _ => true, deliver := () }

def readRooms : ACLRule := ⟨str "*", str "rooms/+", permSubscribe⟩

def hideSecret : ACLRule := ⟨str "*", str "secret/#", permNone⟩

def hideAll : ACLRule := ⟨str "*", str "#", permNone⟩

theorem granted_filter_topics_readable_rooms :
    checkACL (envWith [readRooms]).aclRules (str "c1") (str "rooms/a") permSubscribe = true ∨
      (∃ r, decidingRule (envWith [readRooms]).aclRules (str "c1") (str "rooms/a") = some r ∧
        r.perm &&& permSubscribe = 0 ∧
        r.matches (str "c1") (aclFilter (str "rooms/+")) = false) ∨
      ∃ r, decidingRule (envWith [readRooms]).aclRules (str "c1") (aclFilter (str "rooms/+")) =
          some r ∧ r.plusAtHash (aclFilter (str "rooms/+")) = true :=
  granted_filter_topics_readable (envWith [readRooms]) ⟨str "rooms/+", 1⟩ (str "rooms/a")
    (by decide) (by decide)

/-- '#' is granted although secret/x is denied, the denying rule being narrower than '#';
and rooms/# is granted by rooms/+, which leaves rooms/a/b to the rule that denies all. -/
theorem granted_filter_reads_denied_topic :
    (subscribeOutcome (envWith [hideSecret]) ⟨str "#", 1⟩ = .ok ∧
      validTopicName (str "secret/x") = true ∧
      Router.topicMatchesFilter (str "secret/x") (str "#") = true ∧
      canSubscribe (envWith [hideSecret]).aclRules (str "c1") (str "#") = true ∧
      checkACL (envWith [hideSecret]).aclRules (str "c1") (str "secret/x") permSubscribe =
        false) ∧
    subscribeOutcome (envWith [readRooms, hideAll]) ⟨str "rooms/#", 1⟩ = .ok ∧
      validTopicName (str "rooms/a/b") = true ∧
      Router.topicMatchesFilter (str "rooms/a/b") (str "rooms/#") = true ∧
      canSubscribe (envWith [readRooms, hideAll]).aclRules (str "c1") (str "rooms/#") = true ∧
      checkACL (envWith [readRooms, hideAll]).aclRules (str "c1") (str "rooms/a/b")
        permSubscribe = false := by
  decide

end LumaBroker.Broker
