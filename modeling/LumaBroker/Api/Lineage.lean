import LumaBroker.Api.Escalation

/-!
Where the tokens of the HTTP interface come from. handleLogin issues them after a look at the
row of the user, handleRefresh for whoever still has a valid one, without another look. So
behind every request that gets past the wrapper authed is a login, and a chain of refreshes in
which no link is longer than the lifetime of a token; neither a ban nor a change of the row
breaks it.
-/

namespace LumaBroker.Api.Lineage

open Auth Transition

/-- A login that was answered with a token, and the row it found. -/
structure Login where
  time : Nat
  user : UserRecord
  password : GoString
  token : GoString

/-- A refresh, with the token it presented and the one it was answered with. -/
structure Refresh where
  time : Nat
  presented : GoString
  token : GoString

structure World where
  server : Server
  clock : Nat
  issued : List GoString
  logins : List Login
  refreshes : List Refresh

structure Event where
  env : RequestEnv
  req : Request

section Model
variable (jwt : Jwt) (bcrypt : Bcrypt)

def loginsOf (e : Event) (s : Server) : List Login :=
  match e.req.route.loginReq, (s.serve jwt bcrypt e.env e.req).answer.accessToken with
  | some l, some tok =>
      (s.users.get l.username).toList.map fun user => ⟨e.env.now, user, l.password, tok⟩
  | _, _ => []

def refreshesOf (e : Event) (s : Server) : List Refresh :=
  match e.req.route, (s.serve jwt bcrypt e.env e.req).answer.accessToken with
  | .authed .refresh, some tok => [⟨e.env.now, Server.bearer e.req, tok⟩]
  | _, _ => []

/-- Requests come at times that do not decrease. -/
def step (w : World) (e : Event) : Option World :=
  if e.env.now < w.clock then none
  else
    let r := w.server.serve jwt bcrypt e.env e.req
    some
      { server := r.server
        clock := e.env.now
        issued := r.answer.accessToken.toList ++ w.issued
        logins := loginsOf jwt bcrypt e w.server ++ w.logins
        refreshes := refreshesOf jwt bcrypt e w.server ++ w.refreshes }

def start (server : Server) : World := ⟨server, 0, [], [], []⟩

/-- A token with a good signature is one that the server has issued. -/
def Unforged (w : World) (e : Event) : Prop :=
  w.server.claims jwt (Server.bearer e.req) ≠ none → Server.bearer e.req ∈ w.issued

instance decidableUnforged (w : World) (e : Event) : Decidable (Unforged jwt w e) :=
  inferInstanceAs (Decidable (_ → _))

end Model

/-- The second time is not before the first, and a token issued at the first is still valid. -/
def Within (duration : Nat) (later earlier : Nat) : Prop :=
  earlier ≤ later ∧ later < earlier + duration

/-- The token was issued at that time, at the login or at a refresh that presented a token of
the login within its lifetime. -/
inductive Descends (duration : Nat) (refreshes : List Refresh) (l : Login) :
    GoString → Nat → Prop where
  | login : Descends duration refreshes l l.token l.time
  | refresh (r : Refresh) (hr : r ∈ refreshes) (issuedAt : Nat)
      (hparent : Descends duration refreshes l r.presented issuedAt)
      (hvalid : Within duration r.time issuedAt) : Descends duration refreshes l r.token r.time

theorem Descends.mono {duration : Nat} {refreshes refreshes' : List Refresh} {l : Login}
    {tok : GoString} {time : Nat} (h : Descends duration refreshes l tok time)
    (hsub : refreshes ⊆ refreshes') : Descends duration refreshes' l tok time := by
  induction h with
  | login => exact .login
  | refresh r hr issuedAt _ hvalid ih => exact .refresh r (hsub hr) issuedAt ih hvalid

/-- The claims of a token are those of the login it descends from. -/
structure Traced (duration : Nat) (w : World) (tok : GoString) (c : Claims) (l : Login) : Prop where
  recorded : l ∈ w.logins
  descends : Descends duration w.refreshes l tok c.issuedAt
  username : c.username = l.user.username
  roles : c.roles = l.user.roles
  expiresAt : c.expiresAt = c.issuedAt + duration

theorem Traced.mono {duration : Nat} {w t : World} {tok : GoString} {c : Claims} {l : Login}
    (h : Traced duration w tok c l) (hlogins : w.logins ⊆ t.logins)
    (hrefreshes : w.refreshes ⊆ t.refreshes) : Traced duration t tok c l :=
  { h with recorded := hlogins h.recorded, descends := h.descends.mono hrefreshes }

section Duration
variable (jwt : Jwt) (bcrypt : Bcrypt) (env : RequestEnv) (s : Server)

theorem authn_setUserBanned (pgUp : Bool) (username : GoString) (banned : Bool) :
    (s.setUserBanned pgUp username banned).authn = s.authn := by
  rw [Server.setUserBanned]
  split
  · rfl
  · split <;> rfl

theorem duration_runAdmin (h : AdminHandler) :
    (s.runAdmin env h).2.authn.duration = s.authn.duration := by
  cases h with
  | aclAdd body =>
      cases body with
      | error err => rfl
      | ok req =>
          rw [Server.runAdmin, Server.handleACLAdd]
          split <;> rfl
  | ban body =>
      cases body with
      | error err => rfl
      | ok req =>
          rw [Server.runAdmin, Server.handleBan, authn_setUserBanned, Authenticator.setBanned]
          split <;> rfl
  | slo | readiness | logs | disconnect id => rfl

theorem duration_addUser {salt : Nat} {username password : GoString} {roles : List GoString}
    {a a' : Authenticator} (h : a.addUser bcrypt salt username password roles = .ok a') :
    a'.duration = a.duration := by
  rw [Authenticator.addUser] at h
  split at h
  · cases h
  · cases h
    rfl

theorem duration_handleRegister (body : Body RegisterReq) :
    (s.handleRegister bcrypt env body).2.authn.duration = s.authn.duration := by
  cases body with
  | error err => rfl
  | ok req =>
      rw [Server.handleRegister]
      split
      · rfl
      · split
        · rfl
        · split
          · rfl
          · next authn hadd =>
              have hduration := duration_addUser bcrypt hadd
              dsimp only [Server.createUser]
              split
              · exact hduration
              · next hcreate =>
                  split at hcreate
                  · cases hcreate
                  · split at hcreate
                    · cases hcreate
                    · cases hcreate
                      exact hduration

theorem duration_checked (tok : GoString) :
    (s.checked jwt env tok).authn.duration = s.authn.duration := by
  obtain ⟨cache, hcache⟩ := s.authn.authJWT_frame jwt env.now env.place tok
  rw [Server.checked, hcache]

/-- No request changes the lifetime of the tokens. -/
theorem duration_serve (req : Request) :
    (s.serve jwt bcrypt env req).server.authn.duration = s.authn.duration := by
  have hauthed (h : Claims → Server → Served)
      (hh : ∀ c s, (h c s).server.authn.duration = s.authn.duration) :
      (s.authed jwt env (Server.bearer req) h).server.authn.duration = s.authn.duration := by
    cases Server.authed_cases (Server.bearer req) h with
    | inl hrefused =>
        obtain ⟨status, code, message, t, hrefused, ht⟩ := hrefused
        rw [hrefused]
        cases ht with
        | inl hsame => rw [hsame]
        | inr hcheck => rw [hcheck, duration_checked]
    | inr hok =>
        obtain ⟨c, -, hrun⟩ := hok
        rw [hrun, hh, duration_checked]
  rw [Server.serve]
  split
  · rfl
  · split
    · next h hroute =>
        cases h with
        | register body => exact duration_handleRegister bcrypt env s body
        | login body =>
            obtain ⟨hsame, -⟩ := s.handleLogin_cases jwt bcrypt env body
            exact congrArg (fun s => s.authn.duration) hsame
        | root | health | ready | webSocket | metrics => rfl
    · next h hroute =>
        refine hauthed _ fun c s => ?_
        cases h <;> rfl
    · next h hroute =>
        refine hauthed _ fun c s => ?_
        dsimp only
        split
        · exact duration_runAdmin env s h
        · rfl

end Duration

section Tokens
variable {jwt : Jwt} {bcrypt : Bcrypt} {e : Event} {s : Server}

/-- A login with the row it found. -/
def LoggedIn (bcrypt : Bcrypt) (e : Event) (s : Server) (r : LoginReq) (user : UserRecord) : Prop :=
  e.req.route = .plain (.login (.ok r)) ∧ s.users.get r.username = some user ∧ user.banned = false ∧
    bcrypt.compareHashAndPassword user.passwordHash r.password = true

/-- The two handlers that answer with a token. -/
theorem token_cases {tok : GoString}
    (h : (s.serve jwt bcrypt e.env e.req).answer.accessToken = some tok) :
    (∃ r user, LoggedIn bcrypt e s r user ∧
      tok = s.authn.issueToken jwt e.env.now user.username [] user.roles) ∨
      ∃ c, e.req.route = .authed .refresh ∧
        (s.authn.authJWT jwt e.env.now e.env.place (Server.bearer e.req)).1 = .ok c ∧
        tok = (s.checked jwt e.env (Server.bearer e.req)).authn.issueToken jwt e.env.now c.username
          c.clientID c.roles := by
  have heffect := s.serve_effect jwt bcrypt e.env e.req
  cases hr : s.serve jwt bcrypt e.env e.req with
  | mk answer t ran =>
      rw [hr] at heffect h
      cases heffect with
      | refused | failed | registered | answered | authed => cases h
      | @loggedIn r user hroute huser hbanned hcompare =>
          cases h
          exact .inl ⟨r, user, ⟨hroute, huser, hbanned, hcompare⟩, rfl⟩
      | @refreshed c hroute hauth =>
          cases h
          exact .inr ⟨c, hroute, hauth, rfl⟩
      | @admin handler c hroute hauth hrole =>
          let u := s.checked jwt e.env (Server.bearer e.req)
          have hsilent : Server.Extends jwt u _ ∧
              ∀ tok, (u.runAdmin e.env handler).1 ≠ .token tok :=
            Server.runAdmin_extends handler
          have hanswer (a : Answer) (ha : a.accessToken = some tok) : a = .token tok := by
            cases a with
            | token tok' =>
                cases ha
                rfl
            | _ => cases ha
          exact absurd (hanswer _ h) (hsilent.2 tok)

theorem mem_loginsOf {l : Login} (h : l ∈ loginsOf jwt bcrypt e s) :
    l.user.banned = false ∧ bcrypt.compareHashAndPassword l.user.passwordHash
      l.password = true := by
  rw [loginsOf] at h
  split at h
  · next r tok hlogin htok =>
      obtain ⟨user, huser, rfl⟩ := List.mem_map.mp h
      have hrow := Option.mem_toList.mp huser
      cases token_cases htok with
      | inl hlogged =>
          obtain ⟨r', user', ⟨hroute, huser', hbanned, hcompare⟩, -⟩ := hlogged
          rw [hroute] at hlogin
          cases hlogin
          cases huser'.symm.trans hrow
          exact ⟨hbanned, hcompare⟩
      | inr hrefresh =>
          obtain ⟨c, hroute, -⟩ := hrefresh
          rw [hroute] at hlogin
          cases hlogin
  · cases h

theorem loginsOf_loggedIn {r : LoginReq} {user : UserRecord} {tok : GoString}
    (h : LoggedIn bcrypt e s r user)
    (htok : (s.serve jwt bcrypt e.env e.req).answer.accessToken = some tok) :
    ⟨e.env.now, user, r.password, tok⟩ ∈ loginsOf jwt bcrypt e s := by
  obtain ⟨hroute, huser, -⟩ := h
  have hlogin : e.req.route.loginReq = some r := by
    rw [hroute]
    rfl
  rw [loginsOf, hlogin, htok]
  dsimp only
  rw [huser]
  exact List.mem_singleton_self _

theorem refreshesOf_refresh {tok : GoString} (hroute : e.req.route = .authed .refresh)
    (htok : (s.serve jwt bcrypt e.env e.req).answer.accessToken = some tok) :
    ⟨e.env.now, Server.bearer e.req, tok⟩ ∈ refreshesOf jwt bcrypt e s := by
  rw [refreshesOf, hroute, htok]
  exact List.mem_singleton_self _

end Tokens

/-- Every token in circulation comes from a login. -/
structure Inv (jwt : Jwt) (bcrypt : Bcrypt) (duration : Nat) (w : World) : Prop where
  sound : Authenticator.CacheSound jwt w.server.authn
  lifetime : w.server.authn.duration = duration
  issued : ∀ tok ∈ w.issued, ∀ c, w.server.claims jwt tok = some c →
    c.issuedAt ≤ w.clock ∧ ∃ l, Traced duration w tok c l
  logins : ∀ l ∈ w.logins, l.user.banned = false ∧
    bcrypt.compareHashAndPassword l.user.passwordHash l.password = true

section Run
variable {jwt : Jwt} {bcrypt : Bcrypt} {duration : Nat} {w t : World} {e : Event}

theorem inv_start {server : Server} (hsound : Authenticator.CacheSound jwt server.authn) :
    Inv jwt bcrypt server.authn.duration (start server) where
  sound := hsound
  lifetime := rfl
  issued _ h := absurd h List.not_mem_nil
  logins _ h := absurd h List.not_mem_nil

/-- Claims that the wrapper accepts. -/
theorem Inv.accepted (h : Inv jwt bcrypt duration w) (hunforged : Unforged jwt w e)
    (hclock : w.clock ≤ e.env.now) {c : Claims}
    (hauth : (w.server.authn.authJWT jwt e.env.now e.env.place (Server.bearer e.req)).1 = .ok c) :
    w.server.claims jwt (Server.bearer e.req) = some c ∧ Within duration e.env.now c.issuedAt ∧
      ∃ l, Traced duration w (Server.bearer e.req) c l := by
  obtain ⟨hclaims, hexpires⟩ := Authenticator.authJWT_ok h.sound hauth
  have hsigned : w.server.claims jwt (Server.bearer e.req) = some c := hclaims
  have hissued := hunforged fun hnone => Option.some_ne_none c (hsigned.symm.trans hnone)
  obtain ⟨hbefore, l, htraced⟩ := h.issued _ hissued c hsigned
  rw [htraced.expiresAt] at hexpires
  exact ⟨hsigned, ⟨hbefore.trans hclock, hexpires⟩, l, htraced⟩

/-- The token of an answer goes back to this very login, or to that of the token presented. -/
theorem Inv.answered (h : Inv jwt bcrypt duration w) (hunforged : Unforged jwt w e)
    (hclock : w.clock ≤ e.env.now) {tok : GoString} {c : Claims}
    (hanswer : (w.server.serve jwt bcrypt e.env e.req).answer.accessToken = some tok)
    (hclaims : w.server.claims jwt tok = some c)
    (hlogins : t.logins = loginsOf jwt bcrypt e w.server ++ w.logins)
    (hrefreshes : t.refreshes = refreshesOf jwt bcrypt e w.server ++ w.refreshes) :
    c.issuedAt = e.env.now ∧ ∃ l, Traced duration t tok c l := by
  cases token_cases hanswer with
  | inl hlogin =>
      obtain ⟨r, user, hlogin, rfl⟩ := hlogin
      cases hclaims.symm.trans (Authenticator.claims_issueToken ..)
      refine ⟨rfl, ⟨e.env.now, user, r.password, _⟩, ?_, .login, rfl, rfl, ?_⟩
      · rw [hlogins]
        exact List.mem_append_left _ (loginsOf_loggedIn hlogin hanswer)
      · rw [← h.lifetime]
  | inr hrefresh =>
      obtain ⟨parent, hroute, hauth, rfl⟩ := hrefresh
      obtain ⟨-, hwithin, l, htraced⟩ := h.accepted hunforged hclock hauth
      have hchecked : Server.Extends jwt w.server
          (w.server.checked jwt e.env (Server.bearer e.req)) :=
        Server.Extends.of_authJWT ..
      cases hclaims.symm.trans
        ((hchecked.claims_eq _).symm.trans (Authenticator.claims_issueToken ..))
      have hrecorded := List.mem_append_left w.refreshes (refreshesOf_refresh hroute hanswer)
      refine ⟨rfl, l, ?_, ?_, htraced.username, htraced.roles, ?_⟩
      · rw [hlogins]
        exact List.mem_append_right _ htraced.recorded
      · rw [hrefreshes]
        refine .refresh _ hrecorded parent.issuedAt ?_ hwithin
        exact htraced.descends.mono (List.subset_append_right ..)
      · rw [duration_checked, h.lifetime]

theorem inv_step (h : Inv jwt bcrypt duration w) (hunforged : Unforged jwt w e)
    (hstep : step jwt bcrypt w e = some t) : Inv jwt bcrypt duration t := by
  rw [step] at hstep
  split at hstep
  · cases hstep
  · next hlate =>
      have hclock : w.clock ≤ e.env.now := Nat.le_of_not_lt hlate
      cases hstep
      have hext := (w.server.serve_effect jwt bcrypt e.env e.req).extends
      refine ⟨hext.sound h.sound, ?_, ?_, ?_⟩
      · exact (duration_serve jwt bcrypt e.env w.server e.req).trans h.lifetime
      · intro tok htok c hc
        have hclaims : w.server.claims jwt tok = some c := (hext.claims_eq tok).symm.trans hc
        cases List.mem_append.mp htok with
        | inl hnew =>
            have hanswer := Option.mem_toList.mp hnew
            exact And.imp_left Nat.le_of_eq
              (h.answered hunforged hclock hanswer hclaims rfl rfl)
        | inr hold =>
            obtain ⟨hbefore, l, htraced⟩ := h.issued tok hold c hclaims
            refine ⟨hbefore.trans hclock, l, htraced.mono ?_ ?_⟩
            · exact List.subset_append_right ..
            · exact List.subset_append_right ..
      · intro l hl
        exact (List.mem_append.mp hl).elim mem_loginsOf (h.logins l)

end Run

/-- However the requests of all clients come, as long as no signature is forged: a handler behind
one of the wrappers is run only for a token that goes back, by refreshes each made within the
lifetime of the token before, to a login with the password of a row that was not banned. The
token bears the name and the roles of that row; behind the wrapper admin the row had the role. -/
theorem requests_descend_from_login (jwt : Jwt) (bcrypt : Bcrypt) (server : Server)
    (es : List Event) (w : World) (hsound : Authenticator.CacheSound jwt server.authn)
    (hmeets : Meets (step jwt bcrypt) (Unforged jwt) es (start server))
    (hrun : run (step jwt bcrypt) es (start server) = some w) (e : Event)
    (hunforged : Unforged jwt w e) (hclock : w.clock ≤ e.env.now)
    (hran : (w.server.serve jwt bcrypt e.env e.req).ran = true)
    (hroute : ∀ h, e.req.route ≠ .plain h) :
    ∃ c l, w.server.claims jwt (Server.bearer e.req) = some c ∧
      Traced server.authn.duration w (Server.bearer e.req) c l ∧
      Within server.authn.duration e.env.now c.issuedAt ∧ l.user.banned = false ∧
      bcrypt.compareHashAndPassword l.user.passwordHash l.password = true ∧
      ∀ h, e.req.route = .admin h → Server.adminRole ∈ l.user.roles := by
  have hinv := invariant_run (I := Inv jwt bcrypt server.authn.duration)
    (fun _ _ _ h hok hstep => inv_step h hok hstep) (inv_start hsound) hmeets hrun
  have htrace {c : Claims}
      (hauth : (w.server.authn.authJWT jwt e.env.now e.env.place (Server.bearer e.req)).1 = .ok c)
      (hrole : ∀ h, e.req.route = .admin h → Server.adminRole ∈ c.roles) :
      ∃ c l, w.server.claims jwt (Server.bearer e.req) = some c ∧
        Traced server.authn.duration w (Server.bearer e.req) c l ∧
        Within server.authn.duration e.env.now c.issuedAt ∧ l.user.banned = false ∧
        bcrypt.compareHashAndPassword l.user.passwordHash l.password = true ∧
        ∀ h, e.req.route = .admin h → Server.adminRole ∈ l.user.roles := by
    obtain ⟨hclaims, hwithin, l, htraced⟩ := hinv.accepted hunforged hclock hauth
    obtain ⟨hbanned, hcompare⟩ := hinv.logins l htraced.recorded
    refine ⟨c, l, hclaims, htraced, hwithin, hbanned, hcompare, ?_⟩
    rw [← htraced.roles]
    exact hrole
  have heffect := w.server.serve_effect jwt bcrypt e.env e.req
  cases hr : w.server.serve jwt bcrypt e.env e.req with
  | mk answer t ran =>
      rw [hr] at heffect hran
      cases heffect with
      | refused => cases hran
      | failed hplain | registered hplain | loggedIn hplain | answered hplain =>
          exact absurd hplain (hroute _)
      | refreshed hauthed hauth | authed hauthed hauth =>
          refine htrace hauth fun h hadmin => ?_
          rw [hauthed] at hadmin
          cases hadmin
      | admin hadmin hauth hrole => exact htrace hauth fun _ _ => hrole

/-- The lifetime of a token is 3. -/
def sampleServer : Server :=
  { World.sampleServer with
    users := FinMap.empty.set (str "eve") ⟨str "eve", str "evespass", [Server.adminRole], false⟩ }

def eveToken (now : Nat) : GoString :=
  sampleServer.authn.issueToken Jwt.clear now (str "eve") [] [Server.adminRole]

def asEve (now issuedAt : Nat) (route : Route) : Event :=
  ⟨{ World.sampleEnv with now := now }, ⟨str "Bearer " ++ eveToken issuedAt, route⟩⟩

/-- Eve logs in, is banned, and goes on to refresh. -/
def bannedAndOn : List Event :=
  [⟨World.sampleEnv, ⟨[], .plain (.login (.ok ⟨str "eve", str "evespass"⟩))⟩⟩,
    asEve 1 0 (.admin (.ban (.ok ⟨str "eve"⟩))), asEve 2 0 (.authed .refresh),
      asEve 4 2 (.authed .refresh)]

def lateRequest : Event := asEve 6 4 (.admin .logs)

theorem requests_descend_from_login_banned :
    ∃ w, run (step Jwt.clear Bcrypt.clear) bannedAndOn (start sampleServer) = some w ∧
      (w.server.users.get (str "eve")).map UserRecord.banned = some true ∧
      (w.server.serve Jwt.clear Bcrypt.clear lateRequest.env lateRequest.req).ran = true ∧
      ∃ c l, w.server.claims Jwt.clear (eveToken 4) = some c ∧ Traced 3 w (eveToken 4) c l ∧
        l.user.banned = false := by
  obtain ⟨w, hrun, hbanned, hran, hunforged, hclock⟩ := reaches_of_any
    (step Jwt.clear Bcrypt.clear) bannedAndOn (start sampleServer)
    (fun w => (w.server.users.get (str "eve")).map UserRecord.banned = some true ∧
      (w.server.serve Jwt.clear Bcrypt.clear lateRequest.env lateRequest.req).ran = true ∧
      Unforged Jwt.clear w lateRequest ∧ w.clock ≤ 6) (by decide +kernel)
  obtain ⟨c, l, hclaims, htraced, -, hlive, -⟩ := requests_descend_from_login Jwt.clear
    Bcrypt.clear sampleServer bannedAndOn w nofun (by decide +kernel) hrun lateRequest hunforged
    hclock hran nofun
  exact ⟨w, hrun, hbanned, hran, c, l, hclaims, htraced, hlive⟩

end LumaBroker.Api.Lineage
