import LumaBroker.Api.Server
import LumaBroker.Broker.Handshake
import LumaBroker.Lib.Transition

/-!
The process that cmd/broker/main.go assembles. The Authenticator that main builds goes to
the HTTP interface; broker.New builds another one from the same configuration for the MQTT
side. Bans and access rules are written to the first and to Postgres.
-/

namespace LumaBroker.Api

open Auth Broker

/-- The part of the configuration that the Authenticators are built from. -/
structure AuthConfig where
  jwtSecret : GoString
  jwtIssuer : GoString
  jwtDuration : Nat
  bcryptCost : Nat
  defaultPassword : GoString
  revokedCerts : List GoString

/-- The default admin is left out, with a warning, when its password cannot be hashed. -/
def addDefaultAdmin (bcrypt : Bcrypt) (salt : Nat) (cfg : AuthConfig) (a : Authenticator) :
    Authenticator :=
  match a.addUser bcrypt salt (str "admin") cfg.defaultPassword [str "admin"] with
  | .ok a => a
  | .error _ => a

def newAuthenticator (cfg : AuthConfig) : Authenticator :=
  Authenticator.new cfg.jwtSecret cfg.jwtIssuer cfg.jwtDuration cfg.bcryptCost

/-- The Authenticator of broker.New. -/
def brokerAuthenticator (bcrypt : Bcrypt) (salt : Nat) (cfg : AuthConfig) : Authenticator :=
  addDefaultAdmin bcrypt salt cfg ((newAuthenticator cfg).setRevokedSerials cfg.revokedCerts)

/-- The interface and the broker, with what has been decided over the interface so far: the
banned names, and the added rules with the newest first. -/
structure Process where
  api : Server
  broker : BrokerState
  banned : List GoString
  added : List ACLRule

/-- What happens in the process: an HTTP request, a CONNECT of a client, a decision about a
topic or a filter for an MQTT client, or anything else on the MQTT side. -/
inductive ProcessEvent where
  | http (env : RequestEnv) (req : Request)
  | connect (env : HandshakeEnv) (i : Nat) (body : List UInt8)
  | canPublish (clientID topic : GoString)
  | canSubscribe (clientID filter : GoString)
  | activity (broker : BrokerState)

/-- The name that a finished handleBan has banned. -/
def Answer.bannedName : Answer → Option GoString
  | .banned username => some username
  | _ => none

/-- The rule that a finished handleACLAdd has added. -/
def addedRule (route : Route) (answer : Answer) : Option ACLRule :=
  match route, answer with
  | .admin (.aclAdd (.ok r)), .added =>
      (Server.permMap r.permission).map fun perm => ⟨r.clientGlob, r.topicFilter, perm⟩
  | _, _ => none

namespace Process
variable (jwt : Jwt) (bcrypt : Bcrypt)

/-- The process that main has assembled, over any users table and any state of the rest of
the broker. -/
def start (salt saltBroker : Nat) (cfg : AuthConfig) (users : FinMap GoString UserRecord)
    (broker : BrokerState) : Process where
  api := ⟨addDefaultAdmin bcrypt salt cfg (newAuthenticator cfg), cfg.bcryptCost, users⟩
  broker := { broker with authn := brokerAuthenticator bcrypt saltBroker cfg }
  banned := []
  added := []

def serveHttp (env : RequestEnv) (req : Request) (p : Process) : Process :=
  let r := p.api.serve jwt bcrypt env req
  { p with
    api := r.server
    banned := r.answer.bannedName.toList ++ p.banned
    added := (addedRule req.route r.answer).toList ++ p.added }

/-- Outside of handleConnect the broker only reads its Authenticator; a panic there ends the
process. -/
def step (p : Process) : ProcessEvent → Option Process
  | .http env req => some (p.serveHttp jwt bcrypt env req)
  | .connect env i body =>
      (BrokerState.after
        (p.broker.handleConnect { env with jwt := jwt, bcrypt := bcrypt } i body)).map fun b =>
        { p with broker := b }
  | .canPublish _ _ | .canSubscribe _ _ => some p
  | .activity b => if b.authn = p.broker.authn then some { p with broker := b } else none

/-- The token for which a request makes the interface call AuthJWT. -/
def presented (env : RequestEnv) (req : Request) : Option GoString :=
  match req.route with
  | .plain _ => none
  | .authed _ | .admin _ =>
      if env.allowed ∧ Server.bearer req ≠ [] then some (Server.bearer req) else none

/-- The token for which a CONNECT makes the broker call AuthJWT. -/
def presentedPassword (pkt : Protocol.ConnectPacket) (c : Client) (a : Authenticator) :
    Option GoString :=
  match certIdentity c.cert c.username a with
  | .error _ => none
  | .ok username =>
      if username = [] ∧ pkt.hasUsername then none
      else if pkt.password.length > 0 then some pkt.password
      else none

/-- AuthJWT accepts no token of a banned subject. -/
def RejectsBanned (now place : Nat) (tok : Option GoString) (a : Authenticator)
    (p : Process) : Prop :=
  ∀ t ∈ tok, ∀ c, (a.authJWT jwt now place t).1 = .ok c → c.username ∉ p.banned

/-- The event goes the way the bans and the rules of the interface say. -/
def Respected (p : Process) : ProcessEvent → Prop
  | .http env req => p.RejectsBanned jwt env.now env.place (presented env req) p.api.authn
  | .connect env i body =>
      ∀ pkt ∈ decodedConnect body,
        (pkt.hasUsername = true → pkt.username ∈ p.banned →
          ∃ err connack b, p.broker.handleConnect { env with jwt := jwt, bcrypt := bcrypt } i body =
            .refused err connack b) ∧
        p.RejectsBanned jwt (env.now / 1000000000) env.place
          (presentedPassword pkt (p.broker.conns i) p.broker.authn) p.broker.authn
  | .canPublish clientID topic =>
      Auth.canPublish p.broker.authn.aclRules clientID topic =
        Auth.canPublish (p.added ++ loadDefaultACL) clientID topic
  | .canSubscribe clientID filter =>
      Auth.canSubscribe p.broker.authn.aclRules clientID filter =
        Auth.canSubscribe (p.added ++ loadDefaultACL) clientID filter
  | .activity _ => True

/-- No token of a banned subject is presented before it expires. -/
def Expired (now : Nat) (tok : Option GoString) (a : Authenticator) (p : Process) : Prop :=
  ∀ t ∈ tok, ∀ c ∈ jwt.claims a.secret a.issuer t, c.username ∈ p.banned → c.expiresAt ≤ now

instance decidableExpired (now : Nat) (tok : Option GoString) (a : Authenticator) (p : Process) :
    Decidable (p.Expired jwt now tok a) :=
  inferInstanceAs (Decidable (∀ _ ∈ tok, ∀ _ ∈ _, _ → _))

/-- The CONNECT comes without a certificate, on a connection that has no name yet, and not
with the password of the default admin, so that its name and password are checked in vain. -/
def OnlyPassword (pkt : Protocol.ConnectPacket) (c : Client) (a : Authenticator) : Prop :=
  c.cert = none ∧ c.username = [] ∧
    (pkt.username = str "admin" → ∀ u ∈ a.users.get pkt.username,
      bcrypt.compareHashAndPassword u.passwordHash pkt.password = false)

instance decidableOnlyPassword (pkt : Protocol.ConnectPacket) (c : Client) (a : Authenticator) :
    Decidable (OnlyPassword bcrypt pkt c a) :=
  inferInstanceAs (Decidable (_ ∧ _ ∧ (_ → ∀ _ ∈ _, _)))

/-- The added rule that matches first, if any does, decides as the default rules do. -/
def AddedAgree (clientID topic : GoString) (perm : Perm) (p : Process) : Prop :=
  ∀ r ∈ decidingRule p.added clientID topic,
    decide (r.perm &&& perm ≠ 0) = checkACL loadDefaultACL clientID topic perm

/-- The events on which it makes no difference that there are two Authenticators and that
AuthJWT does not look at bans. -/
def Undivided (p : Process) : ProcessEvent → Prop
  | .http env req => p.Expired jwt env.now (presented env req) p.api.authn
  | .connect env i body =>
      ∀ pkt ∈ decodedConnect body,
        (pkt.hasUsername = true → pkt.username ∈ p.banned →
          OnlyPassword bcrypt pkt (p.broker.conns i) p.broker.authn) ∧
        p.Expired jwt (env.now / 1000000000)
          (presentedPassword pkt (p.broker.conns i) p.broker.authn) p.broker.authn
  | .canPublish clientID topic =>
      hasPrefix topic (str "$SYS/") = true ∨ p.AddedAgree clientID topic permPublish
  | .canSubscribe clientID filter => p.AddedAgree clientID filter permSubscribe
  | .activity _ => True

instance decidableUndivided (p : Process) : ∀ e, Decidable (p.Undivided jwt bcrypt e)
  | .http _ _ => inferInstanceAs (Decidable (Expired _ _ _ _ _))
  | .connect _ _ _ =>
      inferInstanceAs (Decidable (∀ _ ∈ _, (_ → _ → OnlyPassword _ _ _ _) ∧ Expired _ _ _ _ _))
  | .canPublish _ _ => inferInstanceAs (Decidable (_ ∨ ∀ _ ∈ _, _))
  | .canSubscribe _ _ => inferInstanceAs (Decidable (∀ _ ∈ _, _))
  | .activity _ => isTrue trivial

/-- The broker's Authenticator stays as it was built, but for its cache. -/
structure Inv (p : Process) : Prop where
  apiSound : Authenticator.CacheSound jwt p.api.authn
  brokerSound : Authenticator.CacheSound jwt p.broker.authn
  users : ∀ name u, p.broker.authn.users.get name = some u → name = str "admin"
  rules : p.broker.authn.aclRules = loadDefaultACL

variable {jwt bcrypt} {p : Process}

theorem addDefaultAdmin_cases (bcrypt : Bcrypt) (salt : Nat) (cfg : AuthConfig)
    (a : Authenticator) :
    addDefaultAdmin bcrypt salt cfg a = a ∨
      ∃ u, addDefaultAdmin bcrypt salt cfg a = { a with users := a.users.set (str "admin") u } := by
  rw [addDefaultAdmin, Authenticator.addUser]
  cases bcrypt.generateFromPassword salt a.cost cfg.defaultPassword with
  | error err => exact .inl rfl
  | ok hash => exact .inr ⟨_, rfl⟩

theorem cacheSound_addDefaultAdmin {salt : Nat} {cfg : AuthConfig} {a : Authenticator}
    (h : a.tokenCache = FinMap.empty) :
    Authenticator.CacheSound jwt (addDefaultAdmin bcrypt salt cfg a) := by
  have hempty : (addDefaultAdmin bcrypt salt cfg a).tokenCache = FinMap.empty := by
    rcases addDefaultAdmin_cases bcrypt salt cfg a with hsame | ⟨u, hset⟩
    · rw [hsame, h]
    · rw [hset, h]
  intro tok entry hentry
  rw [hempty] at hentry
  cases hentry

theorem inv_start (jwt : Jwt) (bcrypt : Bcrypt) (salt saltBroker : Nat) (cfg : AuthConfig)
    (users : FinMap GoString UserRecord) (broker : BrokerState) :
    Inv jwt (start bcrypt salt saltBroker cfg users broker) where
  apiSound := cacheSound_addDefaultAdmin rfl
  brokerSound := cacheSound_addDefaultAdmin rfl
  users name u hu := by
    by_contra hne
    rcases addDefaultAdmin_cases bcrypt saltBroker cfg
      ((newAuthenticator cfg).setRevokedSerials cfg.revokedCerts) with hsame | ⟨admin, hset⟩
    · rw [start, brokerAuthenticator, hsame] at hu
      cases hu
    · rw [start, brokerAuthenticator, hset, FinMap.get_set_ne _ _ hne] at hu
      cases hu
  rules := by
    rcases addDefaultAdmin_cases bcrypt saltBroker cfg
      ((newAuthenticator cfg).setRevokedSerials cfg.revokedCerts) with hsame | ⟨admin, hset⟩
    · rw [start, brokerAuthenticator, hsame]
      rfl
    · rw [start, brokerAuthenticator, hset]
      rfl

/-- A broker whose Authenticator differs in its cache at most. -/
theorem Inv.broker (h : Inv jwt p) {b : BrokerState}
    (hb : b.authn = p.broker.authn ∨
      ∃ now place tok, b.authn = (p.broker.authn.authJWT jwt now place tok).2) :
    Inv jwt { p with broker := b } := by
  rcases hb with hsame | ⟨now, place, tok, hjwt⟩
  · exact ⟨h.apiSound, hsame ▸ h.brokerSound, hsame ▸ h.users, hsame ▸ h.rules⟩
  · obtain ⟨cache, hcache⟩ := p.broker.authn.authJWT_frame jwt now place tok
    have hsound := Authenticator.cacheSound_authJWT h.brokerSound now place tok
    refine ⟨h.apiSound, hjwt ▸ hsound, ?_, ?_⟩
    · rw [hjwt, hcache]
      exact h.users
    · rw [hjwt, hcache]
      exact h.rules

theorem inv_step {p q : Process} {e : ProcessEvent} (h : Inv jwt p)
    (hstep : step jwt bcrypt p e = some q) : Inv jwt q := by
  cases e with
  | http env req =>
      cases hstep
      have hext := (p.api.serve_effect jwt bcrypt env req).extends
      exact ⟨hext.sound h.apiSound, h.brokerSound, h.users, h.rules⟩
  | connect env i body =>
      obtain ⟨b, hafter, rfl⟩ := Option.map_eq_some_iff.mp hstep
      exact h.broker (BrokerState.authn_handleConnect hafter)
  | canPublish | canSubscribe =>
      cases hstep
      exact h
  | activity b =>
      rw [step] at hstep
      split at hstep
      · next hsame =>
          cases hstep
          exact h.broker (.inl hsame)
      · cases hstep

theorem rejectsBanned_of_expired {now place : Nat} {tok : Option GoString} {a : Authenticator}
    (hsound : Authenticator.CacheSound jwt a) (h : p.Expired jwt now tok a) :
    p.RejectsBanned jwt now place tok a := by
  intro t ht c hauth hbanned
  obtain ⟨hclaims, hlive⟩ := Authenticator.authJWT_ok hsound hauth
  have hexpired := h t ht c hclaims hbanned
  omega

theorem checkACL_added {clientID topic : GoString} {perm : Perm}
    (h : p.AddedAgree clientID topic perm) :
    checkACL (p.added ++ loadDefaultACL) clientID topic perm =
      checkACL loadDefaultACL clientID topic perm := by
  rw [checkACL_append]
  cases hrule : decidingRule p.added clientID topic with
  | none => rfl
  | some r => exact h r hrule

/-- No row but the default admin's can accept a password. -/
theorem Inv.authPassword_error (h : Inv jwt p) {username password : GoString}
    (hadmin : username = str "admin" → ∀ u ∈ p.broker.authn.users.get username,
      bcrypt.compareHashAndPassword u.passwordHash password = false) :
    ∃ err, p.broker.authn.authPassword bcrypt username password = .error err := by
  rw [Authenticator.authPassword]
  split
  · exact ⟨_, rfl⟩
  · next u hu =>
      have hreject := hadmin (h.users username u hu) u hu
      rw [hreject]
      split
      · exact ⟨_, rfl⟩
      · exact ⟨_, rfl⟩

theorem respected_of_undivided (h : Inv jwt p) {e : ProcessEvent}
    (hcond : p.Undivided jwt bcrypt e) : p.Respected jwt bcrypt e := by
  cases e with
  | http env req => exact rejectsBanned_of_expired h.apiSound hcond
  | connect env i body =>
      intro pkt hpkt
      obtain ⟨hname, hexpired⟩ := hcond pkt hpkt
      refine ⟨?_, rejectsBanned_of_expired h.brokerSound hexpired⟩
      intro hhas hbanned
      obtain ⟨hcert, hfresh, hadmin⟩ := hname hhas hbanned
      obtain ⟨err, herr⟩ := h.authPassword_error hadmin
      obtain ⟨t, hdecode⟩ := decodedConnect_eq_some.mp hpkt
      refine ⟨.auth err, BrokerState.handleConnect_of_auth_error hdecode ?_⟩
      rw [hcert, hfresh]
      exact BrokerState.authenticate_password hhas herr
  | canPublish clientID topic =>
      rw [Respected, h.rules, Auth.canPublish, Auth.canPublish]
      rcases hcond with hsys | hagree
      · rw [if_pos hsys, if_pos hsys]
      · rw [checkACL_added hagree]
  | canSubscribe clientID filter =>
      rw [Respected, h.rules, Auth.canSubscribe, Auth.canSubscribe, checkACL_added hcond]
  | activity => trivial

/-- In every run of events on which the two Authenticators agree, bans and rules reach the
broker. -/
theorem decisions_reach_broker (jwt : Jwt) (bcrypt : Bcrypt) (salt saltBroker : Nat)
    (cfg : AuthConfig) (users : FinMap GoString UserRecord) (broker : BrokerState)
    (es : List ProcessEvent) (hmeets : Transition.Meets (step jwt bcrypt) (Undivided jwt bcrypt) es
      (start bcrypt salt saltBroker cfg users broker)) :
    Transition.Meets (step jwt bcrypt) (Respected jwt bcrypt) es
      (start bcrypt salt saltBroker cfg users broker) :=
  Transition.meets_of_invariant (fun _ _ _ h _ hstep => inv_step h hstep)
    (fun _ _ h hcond => respected_of_undivided h hcond)
    (inv_start jwt bcrypt salt saltBroker cfg users broker) hmeets

/-- The administrator root in the users table, and a broker with a client that has not
connected yet. -/
def sampleStart : Process :=
  start Bcrypt.clear 0 0 ⟨str "k", str "luma", 3, 4, str "p", []⟩
    (FinMap.empty.set (str "root") ⟨str "root", str "rootpass", [Server.adminRole], false⟩)
    BrokerState.sampleBroker

def rootToken : GoString :=
  sampleStart.api.authn.issueToken Jwt.clear 0 (str "root") [] [Server.adminRole]

/-- A request of root. -/
def asRoot (h : AdminHandler) : ProcessEvent :=
  .http ⟨0, 0, 0, 0, true, true, true⟩ ⟨str "Bearer " ++ rootToken, .admin h⟩

def rootLogin : ProcessEvent :=
  .http ⟨0, 0, 0, 0, true, true, true⟩ ⟨[], .plain (.login (.ok ⟨str "root", str "rootpass"⟩))⟩

def denyAll (filter : GoString) : AdminHandler := .aclAdd (.ok ⟨str "*", filter, str "none"⟩)

/-- A CONNECT with a name and the password p. -/
def connectAs (name : GoString) : ProcessEvent :=
  .connect BrokerState.sampleEnv 1
    (BrokerState.connectBytes 0xC0 ([0, UInt8.ofNat name.length] ++ name ++ [0, 1, 112]))

def sampleRun : List ProcessEvent :=
  [rootLogin, asRoot (.ban (.ok ⟨str "bob"⟩)), asRoot (denyAll (str "x/#")), connectAs (str "bob"),
    .canPublish (str "c2") (str "a/b"), .canSubscribe (str "c2") (str "$SYS/#")]

theorem decisions_reach_broker_sample :
    ∃ p, Transition.run (step Jwt.clear Bcrypt.clear) sampleRun sampleStart = some p ∧
      p.banned = [str "bob"] ∧ p.added = [⟨str "*", str "x/#", permNone⟩] ∧
      Transition.Meets (step Jwt.clear Bcrypt.clear) (Respected Jwt.clear Bcrypt.clear) sampleRun
        sampleStart := by
  obtain ⟨p, hrun, hbanned, hadded⟩ :=
    Transition.reaches_of_any (step Jwt.clear Bcrypt.clear) sampleRun
    sampleStart (fun p => p.banned = [str "bob"] ∧ p.added = [⟨str "*", str "x/#", permNone⟩])
      (by decide +kernel)
  exact ⟨p, hrun, hbanned, hadded,
    decisions_reach_broker _ _ _ _ _ _ _ sampleRun (by decide +kernel)⟩

/-- handleConnect let the CONNECT in. -/
def isAccepted : ConnectResult → Bool
  | .accepted _ _ => true
  | _ => false

def rootClaims : Claims := ⟨[], str "root", [Server.adminRole], str "luma", 0, 3, none⟩

/-- After bans of admin and root and a rule that denies everything, admin connects with its
password, the token of root passes on both sides, and any client may publish. -/
theorem decisions_lost :
    ∃ p, Transition.run (step Jwt.clear Bcrypt.clear)
        [rootLogin, asRoot (.ban (.ok ⟨str "admin"⟩)), asRoot (.ban (.ok ⟨str "root"⟩)),
          asRoot (denyAll (str "#"))] sampleStart = some p ∧
      (p.banned = [str "root", str "admin"] ∧ p.added = [⟨str "*", str "#", permNone⟩]) ∧
      isAccepted
        (p.broker.handleConnect { BrokerState.sampleEnv with onClientConnect := fun _ _ => none } 1
          (BrokerState.connectBytes 0xC0 ([0, 5] ++ str "admin" ++ [0, 1, 112]))) = true ∧
      (p.api.authn.authJWT Jwt.clear 0 0 rootToken).1 = .ok rootClaims ∧
      (p.broker.authn.authJWT Jwt.clear 0 0 rootToken).1 = .ok rootClaims ∧
      Auth.canPublish p.broker.authn.aclRules (str "c2") (str "a/b") = true ∧
      Auth.canPublish (p.added ++ loadDefaultACL) (str "c2") (str "a/b") = false :=
  Transition.reaches_of_any _ _ _ _ (by decide +kernel)

end Process
end LumaBroker.Api
