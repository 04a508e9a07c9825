import LumaBroker.Api.Server

/-!
A registration that fails. handleRegister of internal/api/server.go writes the user to the
table of the Authenticator before it asks Postgres whether the name is free, and does not take
the entry back when the insertion fails. The entry replaces the one of a user of that name,
and with it the password, the roles and the ban.
-/

namespace LumaBroker.Api

open Auth

namespace Server

/-- The request fails a check before AddUser writes: no JSON, a short name or password, or a
password that bcrypt refuses in one of the two calls. -/
def Refused (bcrypt : Bcrypt) (env : RequestEnv) (body : Body RegisterReq) (s : Server) : Prop :=
  ∀ req, body = .ok req → req.username.length < 3 ∨ req.password.length < 8 ∨
    (∃ err, bcrypt.generateFromPassword env.salt s.bcryptCost req.password = .error err) ∨
    ∃ err, bcrypt.generateFromPassword env.saltMem s.authn.cost req.password = .error err

/-- Postgres inserts the row, which it never does for a name that has one. -/
def Inserts (env : RequestEnv) (body : Body RegisterReq) (s : Server) : Prop :=
  ∃ req, body = .ok req ∧ env.inserts = true ∧ s.users.get req.username = none

/-- Every hash of bcrypt has a salt of its own, so that the table does not have the one that
this request makes for the name. -/
def FreshHash (bcrypt : Bcrypt) (env : RequestEnv) (body : Body RegisterReq) (s : Server) : Prop :=
  ∀ req u, body = .ok req → s.authn.users.get req.username = some u →
    bcrypt.generateFromPassword env.saltMem s.authn.cost req.password ≠ .ok u.passwordHash

/-- An answer with an error leaves the user table of the Authenticator as it was. -/
def Atomic (bcrypt : Bcrypt) (env : RequestEnv) (body : Body RegisterReq) (s : Server) : Prop :=
  ∀ status code message, (s.handleRegister bcrypt env body).1 = .error status code message →
    (s.handleRegister bcrypt env body).2.authn.users = s.authn.users

section Outcome
variable {bcrypt : Bcrypt} {env : RequestEnv} {body : Body RegisterReq} {s : Server}

theorem handleRegister_of_refused (h : s.Refused bcrypt env body) :
    (s.handleRegister bcrypt env body).2 = s := by
  cases body with
  | error err => rfl
  | ok req =>
      rw [handleRegister]
      split_ifs with hshort
      · rfl
      · have hhash := (h req rfl).resolve_left fun hname => hshort (.inl hname)
        rcases hhash.resolve_left fun hpassword => hshort (.inr hpassword)
          with ⟨err, herr⟩ | ⟨err, herr⟩
        · rw [herr]
        · rw [Authenticator.addUser, herr]
          cases bcrypt.generateFromPassword env.salt s.bcryptCost req.password <;> rfl

/-- A request that is not refused writes its entry, whatever the answer; the answer is an
error exactly if Postgres does not insert the row. -/
theorem handleRegister_of_not_refused (h : ¬ s.Refused bcrypt env body) :
    ∃ req hash, body = .ok req ∧
      bcrypt.generateFromPassword env.saltMem s.authn.cost req.password = .ok hash ∧
      (s.handleRegister bcrypt env body).2.authn.users =
        s.authn.users.set req.username ⟨req.username, hash, req.roles, false⟩ ∧
      ((∃ status code message,
          (s.handleRegister bcrypt env body).1 = .error status code message) ↔
        ¬ s.Inserts env body) := by
  simp only [Refused, not_forall, not_or, not_exists] at h
  obtain ⟨req, rfl, hname, hpassword, hsalt, hmem⟩ := h
  cases hhash : bcrypt.generateFromPassword env.salt s.bcryptCost req.password with
  | error err => exact absurd hhash (hsalt err)
  | ok hash =>
      cases hhashMem : bcrypt.generateFromPassword env.saltMem s.authn.cost req.password with
      | error err => exact absurd hhashMem (hmem err)
      | ok hashMem =>
          refine ⟨req, hashMem, rfl, hhashMem, ?_⟩
          simp only [handleRegister, Authenticator.addUser, hname, hpassword, or_self, if_false,
            hhash, hhashMem, Inserts, createUser]
          cases hinserts : env.inserts with
          | false => simp
          | true => cases hrow : s.users.get req.username <;> simp [hrow]

/-- Whatever the answer, the name authenticates with the password of the request from then on. -/
theorem authPassword_of_not_refused {req : RegisterReq} (h : ¬ s.Refused bcrypt env (.ok req)) :
    (s.handleRegister bcrypt env (.ok req)).2.authn.authPassword bcrypt req.username
      req.password = .ok () := by
  obtain ⟨_, hash, hbody, hhash, husers, -⟩ := handleRegister_of_not_refused h
  cases hbody
  rw [Authenticator.authPassword, husers, FinMap.get_set_self]
  simp [bcrypt.compare_generate _ _ _ _ hhash]

theorem atomic_of_refused (h : s.Refused bcrypt env body) : s.Atomic bcrypt env body := by
  intro _ _ _ _
  rw [handleRegister_of_refused h]

end Outcome

/-- A registration leaves the table of the Authenticator alone when it fails, if it is refused
before AddUser or Postgres inserts the row, so that it does not fail; and, as no hash is made
twice, only then. -/
theorem failed_register_atomic_iff (bcrypt : Bcrypt) (env : RequestEnv) (body : Body RegisterReq)
    (s : Server) :
    (s.Refused bcrypt env body ∨ s.Inserts env body → s.Atomic bcrypt env body) ∧
      (s.FreshHash bcrypt env body → s.Atomic bcrypt env body →
        s.Refused bcrypt env body ∨ s.Inserts env body) := by
  by_cases hrefused : s.Refused bcrypt env body
  · exact ⟨fun _ => atomic_of_refused hrefused, fun _ _ => .inl hrefused⟩
  · obtain ⟨req, hash, hbody, hhash, husers, herror⟩ := handleRegister_of_not_refused hrefused
    constructor
    · intro hcond status code message hanswer
      exact absurd (hcond.resolve_left hrefused) (herror.mp ⟨status, code, message, hanswer⟩)
    · intro hfresh hatomic
      by_contra hcond
      obtain ⟨status, code, message, hanswer⟩ := herror.mpr fun hin => hcond (.inr hin)
      have hsame := hatomic status code message hanswer
      rw [husers, FinMap.set_eq_self_iff] at hsame
      exact hfresh req _ hbody hsame hhash

/-- A user that is banned, in both stores. -/
def bannedUser : Server where
  authn := { (Authenticator.new (str "secret") (str "luma") 3600 10) with
    users := FinMap.empty.set (str "alice") ⟨str "alice", str "password1", [], true⟩ }
  bcryptCost := 10
  users := FinMap.empty.set (str "alice") ⟨str "alice", str "password1", [], true⟩

/-- A request for the name of that user, with another password and with a role. -/
def takeoverReq : RegisterReq := ⟨str "alice", str "password2", [str "admin"]⟩

def registerEnv : RequestEnv := ⟨0, 1, 2, 0, true, true, true⟩

/-- A short password is refused and changes nothing; the other request is neither refused nor
inserted, so that it is not atomic. -/
theorem failed_register_atomic_short :
    bannedUser.Atomic Bcrypt.clear registerEnv (.ok ⟨str "alice", str "short", []⟩) ∧
      ¬ bannedUser.Atomic Bcrypt.clear registerEnv (.ok takeoverReq) := by
  constructor
  · refine (failed_register_atomic_iff _ _ _ _).1 (.inl fun req hreq => ?_)
    cases hreq
    exact .inr (.inl (by decide))
  · intro hatomic
    have hfresh : bannedUser.FreshHash Bcrypt.clear registerEnv (.ok takeoverReq) := by
      intro req u hreq hu
      cases hreq
      cases hu
      decide
    rcases (failed_register_atomic_iff _ _ _ _).2 hfresh hatomic with
      hrefused | ⟨req, hreq, -, hrow⟩
    · rcases hrefused _ rfl with hname | hpassword | ⟨err, herr⟩ | ⟨err, herr⟩
      · exact absurd hname (by decide)
      · exact absurd hpassword (by decide)
      · cases herr
      · cases herr
    · cases hreq
      cases hrow

/-- The answer is 409, and the entry has the new password and role and no ban. -/
theorem conflict_overwrites_user :
    (bannedUser.handleRegister Bcrypt.clear registerEnv (.ok takeoverReq)).1 =
        .error 409 "conflict" "username already exists" ∧
      bannedUser.authn.users.get (str "alice") =
        some ⟨str "alice", str "password1", [], true⟩ ∧
      (bannedUser.handleRegister Bcrypt.clear registerEnv (.ok takeoverReq)).2.authn.users.get
        (str "alice") = some ⟨str "alice", str "password2", [str "admin"], false⟩ := by
  decide +kernel

end Server

end LumaBroker.Api
