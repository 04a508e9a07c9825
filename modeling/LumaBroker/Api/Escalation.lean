import LumaBroker.Api.Server
import LumaBroker.Lib.Transition

/-!
A party without the admin role against the HTTP interface. It knows the tokens it was
answered with and the users it registered; the requests of everybody else come between its
own, without restriction. The role of a registration is the one the request asks for.
-/

namespace LumaBroker.Api

open Auth

namespace Route

def loginReq : Route → Option LoginReq
  | .plain (.login (.ok r)) => some r
  | _ => none

def registerReq : Route → Option RegisterReq
  | .plain (.register (.ok r)) => some r
  | _ => none

def adminHandler : Route → Option AdminHandler
  | .admin h => some h
  | _ => none

end Route

namespace Answer

def accessToken : Answer → Option GoString
  | .token tok => some tok
  | _ => none

def createdUser : Answer → Option UserRecord
  | .created user => some user
  | _ => none

end Answer

/-- One request, by the party or by somebody else. -/
structure HttpEvent where
  byParty : Bool
  env : RequestEnv
  req : Request

/-- The server, the tokens and the users of the party, and the handlers behind the wrapper
admin that were executed for it. -/
structure World where
  server : Server
  obtained : List GoString
  registered : List GoString
  ran : List AdminHandler

namespace World
variable (jwt : Jwt) (bcrypt : Bcrypt)

/-- The party before its first request. -/
def start (server : Server) : World := ⟨server, [], [], []⟩

/-- The party reads the answers to its own requests. -/
def observe (r : Served) (route : Route) (w : World) : World where
  server := r.server
  obtained := r.answer.accessToken.toList ++ w.obtained
  registered := (r.answer.createdUser.map UserRecord.username).toList ++ w.registered
  ran := (if r.ran then route.adminHandler else none).toList ++ w.ran

def step (w : World) (e : HttpEvent) : Option World :=
  let r := w.server.serve jwt bcrypt e.env e.req
  some (if e.byParty then w.observe r e.req.route else { w with server := r.server })

/-- The party forges no token, and presents no password of a user with the admin role that
it has not registered itself. -/
def Allowed (w : World) (e : HttpEvent) : Prop :=
  e.byParty = true →
    (w.server.claims jwt (Server.bearer e.req) ≠ none → Server.bearer e.req ∈ w.obtained) ∧
      ∀ r ∈ e.req.route.loginReq, ∀ user ∈ w.server.users.get r.username,
        bcrypt.compareHashAndPassword user.passwordHash r.password = true →
          Server.adminRole ∈ user.roles → r.username ∈ w.registered

instance decidableAllowed (w : World) (e : HttpEvent) : Decidable (w.Allowed jwt bcrypt e) :=
  inferInstanceAs (Decidable (_ = _ → _ ∧ _))

/-- The party registers nobody with the admin role. -/
def AsksNoAdmin (e : HttpEvent) : Prop :=
  e.byParty = true → ∀ r ∈ e.req.route.registerReq, Server.adminRole ∉ r.roles

instance decidableAsksNoAdmin (e : HttpEvent) : Decidable (AsksNoAdmin e) :=
  inferInstanceAs (Decidable (_ = _ → _))

/-- No token of the party carries the admin role, and no user it has registered has it. -/
structure Unprivileged (w : World) : Prop where
  sound : Authenticator.CacheSound jwt w.server.authn
  obtained : ∀ tok ∈ w.obtained, ∀ c, w.server.claims jwt tok = some c → Server.adminRole ∉ c.roles
  registered : ∀ name ∈ w.registered, ∃ user, w.server.users.get name = some user ∧
    Server.adminRole ∉ user.roles
  ran : w.ran = []

variable {jwt bcrypt} {w : World}

theorem unprivileged_start {server : Server} (h : Authenticator.CacheSound jwt server.authn) :
    Unprivileged jwt (start server) :=
  ⟨h, fun _ => nofun, fun _ => nofun, rfl⟩

theorem Unprivileged.extends (h : Unprivileged jwt w) {t : Server}
    (ht : Server.Extends jwt w.server t) : Unprivileged jwt { w with server := t } where
  sound := ht.sound h.sound
  obtained tok htok c hc := h.obtained tok htok c (ht.claims_eq tok ▸ hc)
  registered name hname := by
    obtain ⟨user, huser, hroles⟩ := h.registered name hname
    obtain ⟨user', huser', heq⟩ := ht.roles name user huser
    exact ⟨user', huser', heq ▸ hroles⟩
  ran := h.ran

theorem Unprivileged.presented (h : Unprivileged jwt w) {e : HttpEvent} (hparty : e.byParty = true)
    (hallowed : w.Allowed jwt bcrypt e) {c : Claims} {now place : Nat}
    (hauth : (w.server.authn.authJWT jwt now place (Server.bearer e.req)).1 = .ok c) :
    Server.adminRole ∉ c.roles := by
  have hc := (Authenticator.authJWT_ok h.sound hauth).1
  apply h.obtained _ ((hallowed hparty).1 _) c hc
  intro hnone
  exact Option.some_ne_none c (hc.symm.trans hnone)

theorem Unprivileged.observe (h : Unprivileged jwt w) {r : Served} {route : Route}
    (ht : Server.Extends jwt w.server r.server)
    (htoken : ∀ tok ∈ r.answer.accessToken, ∀ c, w.server.claims jwt tok = some c →
      Server.adminRole ∉ c.roles)
    (huser : ∀ user ∈ r.answer.createdUser, r.server.users.get user.username = some user ∧
      Server.adminRole ∉ user.roles)
    (hran : r.ran = true → route.adminHandler = none) : Unprivileged jwt (w.observe r route) where
  sound := ht.sound h.sound
  obtained tok htok c hc := by
    have hclaims : w.server.claims jwt tok = some c := (ht.claims_eq tok).symm.trans hc
    rcases List.mem_append.mp htok with hnew | hold
    · exact htoken tok (Option.mem_toList.mp hnew) c hclaims
    · exact h.obtained tok hold c hclaims
  registered name hname := by
    rcases List.mem_append.mp hname with hnew | hold
    · obtain ⟨user, hmem, rfl⟩ := Option.map_eq_some_iff.mp (Option.mem_toList.mp hnew)
      exact ⟨user, huser user hmem⟩
    · exact (h.extends ht).registered name hold
  ran := by
    by_cases hr : r.ran = true
    · simp [World.observe, hr, hran hr, h.ran]
    · simp [World.observe, hr, h.ran]

/-- An answer without a token and without a user teaches the party nothing. -/
theorem Unprivileged.observe_silent (h : Unprivileged jwt w) {r : Served} {route : Route}
    (ht : Server.Extends jwt w.server r.server) (htoken : r.answer.accessToken = none)
    (huser : r.answer.createdUser = none) (hran : r.ran = true → route.adminHandler = none) :
    Unprivileged jwt (w.observe r route) := by
  apply h.observe ht _ _ hran
  · intro tok htok
    rw [htoken] at htok
    cases htok
  · intro user hmem
    rw [huser] at hmem
    cases hmem

/-- One case for each thing a request can do. -/
theorem Unprivileged.answered (h : Unprivileged jwt w) {e : HttpEvent} {r : Served}
    (hparty : e.byParty = true) (hallowed : w.Allowed jwt bcrypt e) (hasks : AsksNoAdmin e)
    (heffect : Server.Effect jwt bcrypt e.env e.req w.server r) :
    Unprivileged jwt (w.observe r e.req.route) := by
  have ht := heffect.extends
  cases heffect with
  | refused => exact h.observe_silent ht rfl rfl (fun hran => absurd hran Bool.false_ne_true)
  | failed hroute | answered hroute | authed hroute =>
      rw [hroute]
      exact h.observe_silent ht rfl rfl (fun _ => rfl)
  | @registered r user t hroute _ hname hroles hget =>
      have hrole := hasks hparty r (by rw [hroute]; rfl)
      rw [hroute]
      apply h.observe ht (fun tok htok => absurd htok (Option.not_mem_none tok)) _ (fun _ => rfl)
      intro user' hmem
      cases hmem
      exact ⟨hname ▸ hget, hroles ▸ hrole⟩
  | @loggedIn r user hroute huser _ hcompare =>
      have hlogin := (hallowed hparty).2 r (by rw [hroute]; rfl) user huser hcompare
      rw [hroute]
      apply h.observe ht _ (fun user hmem => absurd hmem (Option.not_mem_none user)) (fun _ => rfl)
      intro tok htok c hc hadmin
      cases htok
      cases hc.symm.trans (Authenticator.claims_issueToken ..)
      -- the row has the role, so the party has registered it, and then it has not
      obtain ⟨user', huser', hroles⟩ := h.registered r.username (hlogin hadmin)
      cases huser.symm.trans huser'
      exact hroles hadmin
  | @refreshed c hroute hauth =>
      have hroles := h.presented hparty hallowed hauth
      rw [hroute]
      apply h.observe ht _ (fun user hmem => absurd hmem (Option.not_mem_none user)) (fun _ => rfl)
      intro tok htok c' hc'
      cases htok
      have hissued :=
        hc'.symm.trans ((ht.claims_eq _).symm.trans (Authenticator.claims_issueToken ..))
      cases hissued
      exact hroles
  | admin _ hauth hrole => exact absurd hrole (h.presented hparty hallowed hauth)

theorem unprivileged_step {w t : World} {e : HttpEvent} (h : Unprivileged jwt w)
    (hok : w.Allowed jwt bcrypt e ∧ AsksNoAdmin e) (hstep : step jwt bcrypt w e = some t) :
    Unprivileged jwt t := by
  have heffect := w.server.serve_effect jwt bcrypt e.env e.req
  cases hstep
  split
  · next hparty => exact h.answered hparty hok.1 hok.2 heffect
  · exact h.extends heffect.extends

/-- A party that asks for the admin role in no registration never gets behind the wrapper
admin, whatever the others do in between. -/
theorem no_escalation_of_asksNoAdmin (jwt : Jwt) (bcrypt : Bcrypt) (server : Server)
    (es : List HttpEvent) (w : World) (hsound : Authenticator.CacheSound jwt server.authn)
    (hmeets : Transition.Meets (step jwt bcrypt) (fun w e => w.Allowed jwt bcrypt e ∧ AsksNoAdmin e)
      es (start server))
    (hrun : Transition.run (step jwt bcrypt) es (start server) = some w) : w.ran = [] :=
  (Transition.invariant_run (fun _ _ _ h hok hstep => unprivileged_step h hok hstep)
    (unprivileged_start hsound) hmeets hrun).ran

/-- A server with one user of its own, on which the default secret is in force. -/
def sampleServer : Server where
  authn := Authenticator.new (str "k") (str "luma") 3 4
  bcryptCost := 4
  users := FinMap.empty.set (str "bob") ⟨str "bob", str "bobspass", [], false⟩

def sampleEnv : RequestEnv := ⟨0, 0, 0, 0, true, true, true⟩

/-- A request of the party with a token. -/
def asParty (tok : GoString) (route : Route) : HttpEvent :=
  ⟨true, sampleEnv, ⟨str "Bearer " ++ tok, route⟩⟩

/-- The token that the sample server issues for a user. -/
def sampleToken (name : GoString) (roles : List GoString) : GoString :=
  sampleServer.authn.issueToken Jwt.clear 0 name [] roles

def registration (roles : List GoString) : HttpEvent :=
  asParty [] (.plain (.register (.ok ⟨str "eve", str "evespass", roles⟩)))

def login (name password : GoString) : HttpEvent :=
  asParty [] (.plain (.login (.ok ⟨name, password⟩)))

theorem cacheSound_sampleServer : Authenticator.CacheSound Jwt.clear sampleServer.authn := nofun

/-- Registration, logins, a refresh and a request that the wrapper admin refuses. -/
def sampleRun : List HttpEvent :=
  [registration [str "user"], login (str "eve") (str "evespass"),
    login (str "bob") (str "bobspass"),
    asParty (sampleToken (str "eve") [str "user"]) (.authed .refresh),
    asParty (sampleToken (str "eve") [str "user"]) (.admin .logs)]

theorem no_escalation_sample :
    ∃ w, Transition.run (step Jwt.clear Bcrypt.clear) sampleRun (start sampleServer) = some w ∧
      w.obtained.length = 3 ∧ w.ran = [] := by
  obtain ⟨w, hrun, hobtained⟩ := Transition.reaches_of_any (step Jwt.clear Bcrypt.clear) sampleRun
    (start sampleServer) (fun w => w.obtained.length = 3) (by decide +kernel)
  exact ⟨w, hrun, hobtained, no_escalation_of_asksNoAdmin Jwt.clear Bcrypt.clear sampleServer _ w
    cacheSound_sampleServer (by decide +kernel) hrun⟩

/-- The party registers a user with the admin role, logs in and reads the logs. -/
theorem registration_escalates :
    ∃ es w, Transition.Meets (step Jwt.clear Bcrypt.clear) (Allowed Jwt.clear Bcrypt.clear) es
        (start sampleServer) ∧
      Transition.run (step Jwt.clear Bcrypt.clear) es (start sampleServer) = some w ∧
        w.ran = [.logs] := by
  let es := [registration [Server.adminRole], login (str "eve") (str "evespass"),
    asParty (sampleToken (str "eve") [Server.adminRole]) (.admin .logs)]
  obtain ⟨w, hrun, hran⟩ :=
    Transition.reaches_of_any (step Jwt.clear Bcrypt.clear) es (start sampleServer)
    (fun w => w.ran = [.logs]) (by decide +kernel)
  exact ⟨es, w, by decide +kernel, hrun, hran⟩

end World
end LumaBroker.Api
