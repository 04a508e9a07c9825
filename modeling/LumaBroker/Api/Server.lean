import LumaBroker.Auth.Authenticator
import LumaBroker.Protocol.Topic

/-!
The HTTP interface of internal/api/server.go as far as users, tokens, bans and access rules
go. A request names its route by the handler that the mux selects, under the wrapper it is
registered with; the body is what the JSON decoder makes of it. Handlers that touch neither
the Authenticator nor the users table answer without a model of their own; what the handlers
of /mqtt/publish, /mqtt/retained and /ws send to the brokers stands beside the routes.
-/

namespace LumaBroker.Api

open Auth

/-- A row of the users table, without its id and creation time. -/
structure UserRecord where
  username : GoString
  passwordHash : GoString
  roles : List GoString
  banned : Bool
  deriving DecidableEq

structure RegisterReq where
  username : GoString
  password : GoString
  roles : List GoString
  deriving DecidableEq

structure LoginReq where
  username : GoString
  password : GoString
  deriving DecidableEq

structure ACLReq where
  clientGlob : GoString
  topicFilter : GoString
  permission : GoString
  deriving DecidableEq

structure BanReq where
  username : GoString
  deriving DecidableEq

/-- The result of decodeJSON. -/
abbrev Body (α : Type) := Except String α

inductive PlainHandler where
  | root
  | health
  | ready
  | register (body : Body RegisterReq)
  | login (body : Body LoginReq)
  | webSocket
  | metrics

inductive AuthedHandler where
  | me
  | refresh
  | deviceCreate
  | deviceList
  | deviceGet
  | deviceDelete
  | publish
  | subscribe
  | messages
  | retained
  | retainedDelete
  | stats
  | clients
  | timeseries

inductive AdminHandler where
  | slo
  | readiness
  | logs
  | aclAdd (body : Body ACLReq)
  | disconnect (id : GoString)
  | ban (body : Body BanReq)
  deriving DecidableEq

/-- The table of the method register. -/
inductive Route where
  | plain (h : PlainHandler)
  | authed (h : AuthedHandler)
  | admin (h : AdminHandler)

structure Request where
  authorization : GoString
  route : Route

inductive Answer where
  | error (status : Nat) (code message : String)
  | created (user : UserRecord)
  | token (accessToken : GoString)
  | added
  | banned (username : GoString)
  | other
  deriving DecidableEq

/-- What a request meets besides its own text: the clock, the salts of the two hashes of a
registration, the place of the cache entry that is trimmed, whether the rate limiter lets it
through, whether the query of the handler reaches Postgres, and whether Postgres carries out
the INSERT of a registration if the name is free: it need not, not for a text with a zero byte
for example. -/
structure RequestEnv where
  now : Nat
  salt : Nat
  saltMem : Nat
  place : Nat
  allowed : Bool
  pgUp : Bool
  inserts : Bool

/-- APIPublishMsg of internal/storage/storage.go. -/
structure APIPublishMsg where
  topic : GoString
  payload : GoString
  qos : UInt8
  retain : Bool
  publisher : GoString
  deriving DecidableEq

/-- The function protocol_ValidTopic, which has no bound on the length. -/
def protocolValidTopic (topic : GoString) : Bool :=
  if topic.length = 0 then false else topic.all fun c => !Protocol.wildcardByte c

/-- The request of POST /mqtt/publish. -/
structure PublishReq where
  topic : GoString
  payload : GoString
  qos : UInt8
  retain : Bool

/-- The message handlePublish sends to the brokers, none for the validation error. -/
def handlePublish (req : PublishReq) (username : GoString) : Option APIPublishMsg :=
  if req.topic = [] ∨ !protocolValidTopic req.topic then none
  else some ⟨req.topic, req.payload, req.qos, req.retain, username⟩

/-- The message of DELETE /mqtt/retained/topic. -/
def handleRetainedDelete (topic : GoString) : APIPublishMsg := ⟨topic, [], 0, true, []⟩

/-- The message of the command publish of handleWSCommand. -/
def handleWSPublish (topic payload : GoString) (qos : UInt8) : Option APIPublishMsg :=
  if topic ≠ [] then some ⟨topic, payload, qos, false, []⟩ else none

structure Server where
  authn : Authenticator
  bcryptCost : Nat
  users : FinMap GoString UserRecord
  deriving DecidableEq

/-- An answered request, and whether a handler was executed for it. -/
structure Served where
  answer : Answer
  server : Server
  ran : Bool

namespace Server

/-- CreateUser: the insertion fails for a name that is taken, and may fail for others. -/
def createUser (inserts : Bool) (username passwordHash : GoString) (roles : List GoString)
    (s : Server) : Option (UserRecord × Server) :=
  if !inserts then none
  else
    match s.users.get username with
    | some _ => none
    | none =>
        let user := ⟨username, passwordHash, roles, false⟩
        some (user, { s with users := s.users.set username user })

/-- GetUser, with none for an error as well as for no row. -/
def getUser (pgUp : Bool) (username : GoString) (s : Server) : Option UserRecord :=
  if pgUp then s.users.get username else none

def setUserBanned (pgUp : Bool) (username : GoString) (banned : Bool) (s : Server) : Server :=
  if !pgUp then s
  else
    match s.users.get username with
    | some user => { s with users := s.users.set username { user with banned := banned } }
    | none => s

/-- The answer of decodeJSON to a body that it cannot read. -/
def invalidJSON (err : String) : Answer := .error 400 "bad_request" ("invalid JSON: " ++ err)

def handleRegister (bcrypt : Bcrypt) (env : RequestEnv) (body : Body RegisterReq) (s : Server) :
    Answer × Server :=
  match body with
  | .error err => (invalidJSON err, s)
  | .ok req =>
      if req.username.length < 3 ∨ req.password.length < 8 then
        (.error 400 "validation" "username≥3, password≥8 chars", s)
      else
        match bcrypt.generateFromPassword env.salt s.bcryptCost req.password with
        | .error err => (.error 500 "server_error" err, s)
        | .ok hash =>
            match s.authn.addUser bcrypt env.saltMem req.username req.password req.roles with
            | .error err => (.error 500 "server_error" err, s)
            | .ok authn =>
                let s := { s with authn := authn }
                match s.createUser env.inserts req.username hash req.roles with
                | none => (.error 409 "conflict" "username already exists", s)
                | some (user, s) => (.created user, s)

def handleLogin (jwt : Jwt) (bcrypt : Bcrypt) (env : RequestEnv) (body : Body LoginReq)
    (s : Server) : Answer × Server :=
  match body with
  | .error err => (invalidJSON err, s)
  | .ok req =>
      match s.getUser env.pgUp req.username with
      | none => (.error 401 "unauthorized" "invalid credentials", s)
      | some user =>
          if user.banned then (.error 403 "forbidden" "account banned", s)
          else if !bcrypt.compareHashAndPassword user.passwordHash req.password then
            (.error 401 "unauthorized" "invalid credentials", s)
          else (.token (s.authn.issueToken jwt env.now user.username [] user.roles), s)

def handleRefresh (jwt : Jwt) (env : RequestEnv) (claims : Claims) (s : Server) : Answer × Server :=
  (.token (s.authn.issueToken jwt env.now claims.username claims.clientID claims.roles), s)

/-- The local permMap. -/
def permMap (permission : GoString) : Option Perm :=
  if permission = str "subscribe" then some permSubscribe
  else if permission = str "publish" then some permPublish
  else if permission = str "both" then some (permSubscribe ||| permPublish)
  else if permission = str "none" then some permNone
  else none

def handleACLAdd (body : Body ACLReq) (s : Server) : Answer × Server :=
  match body with
  | .error err => (invalidJSON err, s)
  | .ok req =>
      match permMap req.permission with
      | none => (.error 400 "validation" "invalid permission", s)
      | some perm =>
          (.added, { s with authn := s.authn.addRule ⟨req.clientGlob, req.topicFilter, perm⟩ })

/-- The error of SetUserBanned is dropped. -/
def handleBan (env : RequestEnv) (body : Body BanReq) (s : Server) : Answer × Server :=
  match body with
  | .error err => (invalidJSON err, s)
  | .ok req =>
      let s := { s with authn := s.authn.setBanned req.username true }
      (.banned req.username, s.setUserBanned env.pgUp req.username true)

def runPlain (jwt : Jwt) (bcrypt : Bcrypt) (env : RequestEnv) (h : PlainHandler) (s : Server) :
    Answer × Server :=
  match h with
  | .register body => s.handleRegister bcrypt env body
  | .login body => s.handleLogin jwt bcrypt env body
  | .root | .health | .ready | .webSocket | .metrics => (.other, s)

def runAuthed (jwt : Jwt) (env : RequestEnv) (h : AuthedHandler) (claims : Claims) (s : Server) :
    Answer × Server :=
  match h with
  | .refresh => s.handleRefresh jwt env claims
  | _ => (.other, s)

def runAdmin (env : RequestEnv) (h : AdminHandler) (s : Server) : Answer × Server :=
  match h with
  | .aclAdd body => s.handleACLAdd body
  | .ban body => s.handleBan env body
  | .slo | .readiness | .logs | .disconnect _ => (.other, s)

/-- A handler that was executed. -/
def executed (r : Answer × Server) : Served := ⟨r.1, r.2, true⟩

/-- The token of the header: the text itself when it does not begin with the scheme. -/
def bearer (req : Request) : GoString := trimPrefix req.authorization (str "Bearer ")

def authed (jwt : Jwt) (env : RequestEnv) (tok : GoString) (h : Claims → Server → Served)
    (s : Server) : Served :=
  if tok = [] then ⟨.error 401 "unauthorized" "Bearer token required", s, false⟩
  else
    match s.authn.authJWT jwt env.now env.place tok with
    | (.error err, authn) => ⟨.error 401 "unauthorized" err.error, { s with authn := authn }, false⟩
    | (.ok claims, authn) => h claims { s with authn := authn }

def adminRole : GoString := str "admin"

def admin (jwt : Jwt) (env : RequestEnv) (tok : GoString) (h : Server → Served)
    (s : Server) : Served :=
  s.authed jwt env tok fun claims s =>
    if claims.roles.any (· = adminRole) then h s
    else ⟨.error 403 "forbidden" "Admin role required", s, false⟩

/-- One request through the middleware chain and the mux. -/
def serve (jwt : Jwt) (bcrypt : Bcrypt) (env : RequestEnv) (req : Request) (s : Server) : Served :=
  if !env.allowed then ⟨.error 429 "rate_limit_exceeded" "Too many requests", s, false⟩
  else
    match req.route with
    | .plain h => executed (s.runPlain jwt bcrypt env h)
    | .authed h =>
        s.authed jwt env (bearer req) fun claims s => executed (s.runAuthed jwt env h claims)
    | .admin h => s.admin jwt env (bearer req) fun s => executed (s.runAdmin env h)

/-- The claims that a token carries for this server. -/
def claims (jwt : Jwt) (s : Server) (tok : GoString) : Option Claims :=
  jwt.claims s.authn.secret s.authn.issuer tok

/-- What no request takes back: tokens keep their meaning, the cache stays sound, and the
rows of the users table keep their roles. -/
structure Extends (jwt : Jwt) (s t : Server) : Prop where
  secret : t.authn.secret = s.authn.secret
  issuer : t.authn.issuer = s.authn.issuer
  sound : Authenticator.CacheSound jwt s.authn → Authenticator.CacheSound jwt t.authn
  roles : ∀ name user, s.users.get name = some user →
    ∃ user', t.users.get name = some user' ∧ user'.roles = user.roles

namespace Extends
variable {jwt : Jwt} {s t u : Server}

theorem refl (s : Server) : Extends jwt s s := ⟨rfl, rfl, id, fun _ user h => ⟨user, h, rfl⟩⟩

theorem trans (hst : Extends jwt s t) (htu : Extends jwt t u) : Extends jwt s u where
  secret := htu.secret.trans hst.secret
  issuer := htu.issuer.trans hst.issuer
  sound := htu.sound ∘ hst.sound
  roles name user h := by
    obtain ⟨user', h', hroles⟩ := hst.roles name user h
    obtain ⟨user'', h'', hroles'⟩ := htu.roles name user' h'
    exact ⟨user'', h'', hroles'.trans hroles⟩

theorem claims_eq (h : Extends jwt s t) (tok : GoString) : t.claims jwt tok = s.claims jwt tok := by
  rw [claims, claims, h.secret, h.issuer]

theorem of_authn {authn : Authenticator} (hsecret : authn.secret = s.authn.secret)
    (hissuer : authn.issuer = s.authn.issuer) (hcache : authn.tokenCache = s.authn.tokenCache) :
    Extends jwt s { s with authn := authn } where
  secret := hsecret
  issuer := hissuer
  sound h tok entry hentry := by
    rw [hsecret, hissuer]
    exact h tok entry (hcache ▸ hentry)
  roles _ user h := ⟨user, h, rfl⟩

theorem of_authJWT (now place : Nat) (tok : GoString) :
    Extends jwt s { s with authn := (s.authn.authJWT jwt now place tok).2 } where
  secret := by
    obtain ⟨cache, h⟩ := s.authn.authJWT_frame jwt now place tok
    rw [h]
  issuer := by
    obtain ⟨cache, h⟩ := s.authn.authJWT_frame jwt now place tok
    rw [h]
  sound h := Authenticator.cacheSound_authJWT h now place tok
  roles _ user h := ⟨user, h, rfl⟩

theorem of_users {name : GoString} {user : UserRecord}
    (h : ∀ old, s.users.get name = some old → user.roles = old.roles) :
    Extends jwt s { s with users := s.users.set name user } where
  secret := rfl
  issuer := rfl
  sound := id
  roles n old hold := by
    by_cases hn : n = name
    · subst hn
      exact ⟨user, FinMap.get_set_self .., h old hold⟩
    · exact ⟨old, by rw [FinMap.get_set_ne _ _ hn, hold], rfl⟩

end Extends

section Effects
variable {jwt : Jwt} {bcrypt : Bcrypt} {env : RequestEnv} {s : Server}

theorem addUser_extends {salt : Nat} {username password : GoString} {roles : List GoString}
    {authn : Authenticator} (h : s.authn.addUser bcrypt salt username password roles = .ok authn) :
    Extends jwt s { s with authn := authn } := by
  rw [Authenticator.addUser] at h
  split at h
  · cases h
  · cases h
    exact Extends.of_authn rfl rfl rfl

theorem createUser_eq_some {inserts : Bool} {username hash : GoString} {roles : List GoString}
    {user : UserRecord} {t : Server}
    (h : s.createUser inserts username hash roles = some (user, t)) :
    s.users.get username = none ∧ user = ⟨username, hash, roles, false⟩ ∧
      t = { s with users := s.users.set username user } := by
  rw [createUser] at h
  split at h
  · cases h
  · split at h
    · cases h
    · next hnone =>
        cases h
        exact ⟨hnone, rfl, rfl⟩

theorem handleRegister_cases (s : Server) (jwt : Jwt) (bcrypt : Bcrypt) (env : RequestEnv)
    (body : Body RegisterReq) :
    Extends jwt s (s.handleRegister bcrypt env body).2 ∧
      ((∃ status code message, (s.handleRegister bcrypt env body).1 = .error status code message) ∨
        ∃ req user, body = .ok req ∧ (s.handleRegister bcrypt env body).1 = .created user ∧
          user.username = req.username ∧ user.roles = req.roles ∧
          (s.handleRegister bcrypt env body).2.users.get req.username = some user) := by
  cases body with
  | error err => exact ⟨Extends.refl s, .inl ⟨_, _, _, rfl⟩⟩
  | ok req =>
      rw [handleRegister]
      split
      · exact ⟨Extends.refl s, .inl ⟨_, _, _, rfl⟩⟩
      · split
        · exact ⟨Extends.refl s, .inl ⟨_, _, _, rfl⟩⟩
        · split
          · exact ⟨Extends.refl s, .inl ⟨_, _, _, rfl⟩⟩
          · next authn hauthn =>
              have hadd : Extends jwt s { s with authn := authn } := addUser_extends hauthn
              dsimp only
              split
              · exact ⟨hadd, .inl ⟨_, _, _, rfl⟩⟩
              · next user t hcreate =>
                  obtain ⟨hnone, rfl, rfl⟩ := createUser_eq_some hcreate
                  refine ⟨hadd.trans (Extends.of_users fun old hold => ?_), .inr ?_⟩
                  · rw [hnone] at hold
                    cases hold
                  · exact ⟨req, _, rfl, rfl, rfl, rfl, FinMap.get_set_self ..⟩

theorem handleLogin_cases (s : Server) (jwt : Jwt) (bcrypt : Bcrypt) (env : RequestEnv)
    (body : Body LoginReq) :
    (s.handleLogin jwt bcrypt env body).2 = s ∧
      ((∃ status code message, (s.handleLogin jwt bcrypt env body).1 = .error status code message) ∨
        ∃ req user, body = .ok req ∧ s.users.get req.username = some user ∧ user.banned = false ∧
          bcrypt.compareHashAndPassword user.passwordHash req.password = true ∧
          (s.handleLogin jwt bcrypt env body).1 =
            .token (s.authn.issueToken jwt env.now user.username [] user.roles)) := by
  cases body with
  | error err => exact ⟨rfl, .inl ⟨_, _, _, rfl⟩⟩
  | ok req =>
      rw [handleLogin]
      split
      · exact ⟨rfl, .inl ⟨_, _, _, rfl⟩⟩
      · next user huser =>
          rw [getUser] at huser
          split at huser
          · split
            · exact ⟨rfl, .inl ⟨_, _, _, rfl⟩⟩
            · next hbanned =>
                split
                · exact ⟨rfl, .inl ⟨_, _, _, rfl⟩⟩
                · next hcompare =>
                    refine ⟨rfl, .inr ⟨req, user, rfl, huser, ?_, ?_, rfl⟩⟩
                    · exact Bool.eq_false_iff.mpr hbanned
                    · simpa using hcompare
          · cases huser

theorem setUserBanned_extends (pgUp : Bool) (username : GoString) (banned : Bool) :
    Extends jwt s (s.setUserBanned pgUp username banned) := by
  rw [setUserBanned]
  split
  · exact Extends.refl s
  · split
    · next user huser =>
        apply Extends.of_users
        intro old hold
        rw [huser] at hold
        cases hold
        rfl
    · exact Extends.refl s

theorem setBanned_extends (username : GoString) (banned : Bool) :
    Extends jwt s { s with authn := s.authn.setBanned username banned } := by
  rw [Authenticator.setBanned]
  split
  · exact Extends.of_authn rfl rfl rfl
  · exact Extends.refl s

/-- No handler behind the wrapper admin answers with a token. -/
theorem runAdmin_extends (h : AdminHandler) :
    Extends jwt s (s.runAdmin env h).2 ∧ ∀ tok, (s.runAdmin env h).1 ≠ .token tok := by
  cases h with
  | slo | readiness | logs | disconnect _ => exact ⟨Extends.refl s, fun _ => Answer.noConfusion⟩
  | aclAdd body =>
      cases body with
      | error err => exact ⟨Extends.refl s, fun _ => Answer.noConfusion⟩
      | ok req =>
          rw [runAdmin, handleACLAdd]
          split
          · exact ⟨Extends.refl s, fun _ => Answer.noConfusion⟩
          · exact ⟨Extends.of_authn rfl rfl rfl, fun _ => Answer.noConfusion⟩
  | ban body =>
      cases body with
      | error err => exact ⟨Extends.refl s, fun _ => Answer.noConfusion⟩
      | ok req =>
          exact ⟨(setBanned_extends req.username true).trans (setUserBanned_extends ..),
            fun _ => Answer.noConfusion⟩

/-- The server behind AuthJWT: only the cache can differ. -/
def checked (jwt : Jwt) (env : RequestEnv) (tok : GoString) (s : Server) : Server :=
  { s with authn := (s.authn.authJWT jwt env.now env.place tok).2 }

theorem authed_cases (tok : GoString) (h : Claims → Server → Served) :
    (∃ status code message t, s.authed jwt env tok h = ⟨.error status code message, t, false⟩ ∧
        (t = s ∨ t = s.checked jwt env tok)) ∨
      ∃ c, (s.authn.authJWT jwt env.now env.place tok).1 = .ok c ∧
        s.authed jwt env tok h = h c (s.checked jwt env tok) := by
  rw [authed]
  split
  · exact .inl ⟨_, _, _, s, rfl, .inl rfl⟩
  · split
    · next err authn hauth => exact .inl ⟨_, _, _, _, rfl, .inr (by rw [checked, hauth])⟩
    · next c authn hauth => exact .inr ⟨c, by rw [hauth], by rw [checked, hauth]⟩

theorem admin_cases (tok : GoString) (h : Server → Served) :
    (∃ status code message t, s.admin jwt env tok h = ⟨.error status code message, t, false⟩ ∧
        (t = s ∨ t = s.checked jwt env tok)) ∨
      ∃ c, (s.authn.authJWT jwt env.now env.place tok).1 = .ok c ∧ adminRole ∈ c.roles ∧
        s.admin jwt env tok h = h (s.checked jwt env tok) := by
  rw [admin]
  rcases authed_cases tok _ with hrefused | ⟨c, hauth, hrun⟩
  · exact .inl hrefused
  · rw [hrun]
    by_cases hrole : c.roles.any (· = adminRole) = true
    · rw [if_pos hrole]
      exact .inr ⟨c, hauth, by simpa using hrole, rfl⟩
    · rw [if_neg hrole]
      exact .inl ⟨_, _, _, _, rfl, .inr rfl⟩

/-- What one request can do, with the reason for which it may. -/
inductive Effect (jwt : Jwt) (bcrypt : Bcrypt) (env : RequestEnv) (req : Request) (s : Server) :
    Served → Prop where
  | refused {status code message t} (ht : t = s ∨ t = s.checked jwt env (bearer req)) :
      Effect jwt bcrypt env req s ⟨.error status code message, t, false⟩
  | failed {h status code message t} (hroute : req.route = .plain h) (ht : Extends jwt s t) :
      Effect jwt bcrypt env req s ⟨.error status code message, t, true⟩
  | registered {r user t} (hroute : req.route = .plain (.register (.ok r))) (ht : Extends jwt s t)
      (hname : user.username = r.username) (hroles : user.roles = r.roles)
      (hget : t.users.get r.username = some user) :
      Effect jwt bcrypt env req s ⟨.created user, t, true⟩
  | loggedIn {r user} (hroute : req.route = .plain (.login (.ok r)))
      (huser : s.users.get r.username = some user) (hbanned : user.banned = false)
      (hcompare : bcrypt.compareHashAndPassword user.passwordHash r.password = true) :
      Effect jwt bcrypt env req s
        ⟨.token (s.authn.issueToken jwt env.now user.username [] user.roles), s, true⟩
  | answered {h} (hroute : req.route = .plain h) : Effect jwt bcrypt env req s ⟨.other, s, true⟩
  | refreshed {c} (hroute : req.route = .authed .refresh)
      (hauth : (s.authn.authJWT jwt env.now env.place (bearer req)).1 = .ok c) :
      Effect jwt bcrypt env req s
        (executed ((s.checked jwt env (bearer req)).handleRefresh jwt env c))
  | authed {h c} (hroute : req.route = .authed h)
      (hauth : (s.authn.authJWT jwt env.now env.place (bearer req)).1 = .ok c) :
      Effect jwt bcrypt env req s ⟨.other, s.checked jwt env (bearer req), true⟩
  | admin {h c} (hroute : req.route = .admin h)
      (hauth : (s.authn.authJWT jwt env.now env.place (bearer req)).1 = .ok c)
      (hrole : adminRole ∈ c.roles) :
      Effect jwt bcrypt env req s (executed ((s.checked jwt env (bearer req)).runAdmin env h))

theorem runPlain_effect {req : Request} {h : PlainHandler} (hroute : req.route = .plain h) :
    Effect jwt bcrypt env req s (executed (s.runPlain jwt bcrypt env h)) := by
  cases h with
  | register body =>
      obtain ⟨ht, hcases⟩ := s.handleRegister_cases jwt bcrypt env body
      rcases hcases with ⟨_, _, _, herror⟩ | ⟨r, user, rfl, hcreated, hname, hroles, hget⟩
      · rw [executed, runPlain, herror]
        exact .failed hroute ht
      · rw [executed, runPlain, hcreated]
        exact .registered hroute ht hname hroles hget
  | login body =>
      obtain ⟨ht, hcases⟩ := s.handleLogin_cases jwt bcrypt env body
      rcases hcases with ⟨_, _, _, herror⟩ | ⟨r, user, rfl, huser, hbanned, hcompare, htoken⟩
      · rw [executed, runPlain, herror, ht]
        exact .failed hroute (Extends.refl s)
      · rw [executed, runPlain, htoken, ht]
        exact .loggedIn hroute huser hbanned hcompare
  | root | health | ready | webSocket | metrics => exact .answered hroute

theorem authed_effect {req : Request} {h : AuthedHandler} (hroute : req.route = .authed h) :
    Effect jwt bcrypt env req s
      (s.authed jwt env (bearer req) fun claims s => executed (s.runAuthed jwt env h claims)) := by
  rcases authed_cases (bearer req) fun claims s => executed (s.runAuthed jwt env h claims) with
    ⟨_, _, _, t, hrefused, ht⟩ | ⟨c, hauth, hrun⟩
  · rw [hrefused]
    exact .refused ht
  · rw [hrun]
    cases h with
    | refresh => exact .refreshed hroute hauth
    | _ => exact .authed hroute hauth

theorem admin_effect {req : Request} {h : AdminHandler} (hroute : req.route = .admin h) :
    Effect jwt bcrypt env req s
      (s.admin jwt env (bearer req) fun s => executed (s.runAdmin env h)) := by
  rcases admin_cases (bearer req) fun s => executed (s.runAdmin env h) with
    ⟨_, _, _, t, hrefused, ht⟩ | ⟨c, hauth, hrole, hrun⟩
  · rw [hrefused]
    exact .refused ht
  · rw [hrun]
    exact .admin hroute hauth hrole

theorem serve_effect (s : Server) (jwt : Jwt) (bcrypt : Bcrypt) (env : RequestEnv) (req : Request) :
    Effect jwt bcrypt env req s (s.serve jwt bcrypt env req) := by
  rw [serve]
  split
  · exact .refused (.inl rfl)
  · cases hroute : req.route with
    | plain h => exact runPlain_effect hroute
    | authed h => exact authed_effect hroute
    | admin h => exact admin_effect hroute

theorem Effect.extends {req : Request} {r : Served} (h : Effect jwt bcrypt env req s r) :
    Extends jwt s r.server := by
  have hchecked : Extends jwt s (s.checked jwt env (bearer req)) := Extends.of_authJWT ..
  cases h with
  | refused ht =>
      rcases ht with rfl | rfl
      · exact Extends.refl _
      · exact hchecked
  | failed _ ht | registered _ ht => exact ht
  | loggedIn | answered => exact Extends.refl s
  | refreshed | authed => exact hchecked
  | admin => exact hchecked.trans (runAdmin_extends _).1

end Effects
end Server
end LumaBroker.Api
