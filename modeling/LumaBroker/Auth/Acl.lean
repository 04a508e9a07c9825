import LumaBroker.Router.Match

/-!
The access rules of internal/auth/auth.go: a priority list in which the first
matching rule decides, with wildcards on the rule side. A subscription filter is
looked up in it as if it were a plain topic, so the last theorems say how the
wildcards of a rule and those of a filter relate on the topics of that filter.
-/

namespace LumaBroker.Auth

/-- Perm, a set of flags in a byte. -/
abbrev Perm := UInt8

def permNone : Perm := 0

def permSubscribe : Perm := 1

def permPublish : Perm := 2

structure ACLRule where
  clientGlob : GoString
  topicFilter : GoString
  perm : Perm
  deriving DecidableEq

def globMatch (pattern s : GoString) : Bool :=
  pattern = str "*" ∨ pattern = s

/-- matchSegs of the auth package, from the current positions on. -/
def matchSegs : List GoString → List GoString → Bool
  | [], t => t.isEmpty
  | seg :: f, t =>
      if seg = hash then true
      else
        match t with
        | [] => false
        | s :: t => if seg ≠ plus ∧ seg ≠ s then false else matchSegs f t

def topicFilterMatches (filter topic : GoString) : Bool :=
  matchSegs (split filter slash) (split topic slash)

namespace ACLRule

def «matches» (r : ACLRule) (clientID topic : GoString) : Bool :=
  globMatch r.clientGlob clientID && topicFilterMatches r.topicFilter topic

end ACLRule

/-- Read-only access to $SYS for everyone. -/
def loadDefaultACL : List ACLRule :=
  [{ clientGlob := str "*", topicFilter := str "$SYS/#", perm := permSubscribe }]

/-- AddACLRule prepends, for higher priority. -/
def addACLRule (rule : ACLRule) (aclRules : List ACLRule) : List ACLRule :=
  rule :: aclRules

def checkACL (aclRules : List ACLRule) (clientID topic : GoString) (perm : Perm) : Bool :=
  match aclRules with
  | [] => true
  | r :: rules =>
      if r.matches clientID topic then r.perm &&& perm ≠ 0
      else checkACL rules clientID topic perm

def canPublish (aclRules : List ACLRule) (clientID topic : GoString) : Bool :=
  if hasPrefix topic (str "$SYS/") then false
  else checkACL aclRules clientID topic permPublish

def canSubscribe (aclRules : List ACLRule) (clientID filter : GoString) : Bool :=
  checkACL aclRules clientID filter permSubscribe

/-- The rule that decides about a topic, if any does. -/
def decidingRule (aclRules : List ACLRule) (clientID topic : GoString) : Option ACLRule :=
  aclRules.find? fun r => r.matches clientID topic

theorem checkACL_append (aclRules rest : List ACLRule) (clientID topic : GoString) (perm : Perm) :
    checkACL (aclRules ++ rest) clientID topic perm =
      (decidingRule aclRules clientID topic).elim (checkACL rest clientID topic perm)
        fun r => decide (r.perm &&& perm ≠ 0) := by
  induction aclRules with
  | nil => rfl
  | cons r rules ih =>
      by_cases h : r.matches clientID topic = true
      · simp [checkACL, decidingRule, h]
      · simpa [checkACL, decidingRule, h] using ih

/-- The two packages match segments alike, with the arguments exchanged. -/
theorem matchSegs_eq_router (f t : List GoString) : matchSegs f t = Router.matchSegs t f := by
  induction f generalizing t with
  | nil => simp [matchSegs, Router.matchSegs]
  | cons seg f ih =>
      cases t with
      | nil => simp [matchSegs, Router.matchSegs]
      | cons s t => simp [matchSegs, Router.matchSegs, ih]

theorem topicFilterMatches_eq_router (filter topic : GoString) :
    topicFilterMatches filter topic = Router.topicMatchesFilter topic filter := by
  simp only [topicFilterMatches, Router.topicMatchesFilter, Router.splitFilter_eq_split,
    matchSegs_eq_router]

/-- Access control and routing read a filter alike. -/
theorem matchers_agree (filter topic : GoString) :
    topicFilterMatches filter topic = Router.topicMatchesFilter topic filter ∧
      (Router.topicMatchesFilter topic filter = true ↔
        ∃ first rest, split topic slash = first ++ rest ∧
          List.Forall₂ (fun seg level => seg = level ∨ seg = plus)
            ((split filter slash).takeWhile fun seg => seg ≠ hash) first ∧
          (hash ∉ split filter slash → rest = [])) ∧
      ∀ s, Protocol.splitFilter s = split s slash ∧ Router.splitFilter s = split s slash := by
  refine ⟨topicFilterMatches_eq_router filter topic, ?_, fun s =>
    ⟨Protocol.splitFilter_eq_split s, Router.splitFilter_eq_split s⟩⟩
  rw [Router.topicMatchesFilter, Router.matchSegs_iff, Router.splitFilter_eq_split,
    Router.splitFilter_eq_split]

/-- A rule has '+' in the position of the filter's '#': read as a topic the filter
has one level there, while its topics may have none or many. -/
def plusAtHashSegs : List GoString → List GoString → Bool
  | r :: rule, f :: filter =>
      if r = hash then false
      else if r = plus ∧ f = hash then true
      else plusAtHashSegs rule filter
  | _, _ => false

def ACLRule.plusAtHash (r : ACLRule) (filter : GoString) : Bool :=
  plusAtHashSegs (split r.topicFilter slash) (split filter slash)

/-- A rule that matches a filter read as a topic matches every topic of the filter,
unless its '+' met the '#' of the filter. -/
theorem matchSegs_trans (rule filter topic : List GoString)
    (hrule : matchSegs rule filter = true) (htopic : Router.matchSegs topic filter = true)
    (hplus : plusAtHashSegs rule filter = false) : matchSegs rule topic = true := by
  rw [matchSegs_eq_router] at hrule ⊢
  induction rule generalizing filter topic with
  | nil =>
      cases filter with
      | nil => exact htopic
      | cons f filter => cases hrule
  | cons r rule ih =>
      by_cases hr : r = hash
      · rw [hr]
        exact Router.matchSegs_hash topic rule
      · cases filter with
        | nil => simp [Router.matchSegs, hr] at hrule
        | cons f filter =>
            have hseg := (Router.matchSegs_cons_cons f r filter rule).mp hrule
            obtain ⟨hrf, hrest⟩ := hseg.resolve_left hr
            simp only [plusAtHashSegs, hr, if_false] at hplus
            -- the filter has a level here: '#' would have met '+' or be the rule's own '#'
            have hf : f ≠ hash := by
              intro hf
              cases hrf with
              | inl h => simp [h, hf] at hplus
              | inr h => exact hr (h.trans hf)
            cases topic with
            | nil => exact absurd ((Router.matchSegs_nil_cons f filter).mp htopic) hf
            | cons s topic =>
                have hlevel := (Router.matchSegs_cons_cons s f topic filter).mp htopic
                obtain ⟨hfs, htail⟩ := hlevel.resolve_left hf
                apply (Router.matchSegs_cons_cons s r topic rule).mpr
                refine .inr ⟨?_, ih filter topic hrest htail ?_⟩
                · grind
                · grind

end LumaBroker.Auth
