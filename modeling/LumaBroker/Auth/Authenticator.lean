import LumaBroker.Auth.Acl
import LumaBroker.Lib.SortedMap

/-!
The Authenticator of internal/auth/auth.go. The jwt and bcrypt libraries are parameters
with the behaviour they document: a token is accepted when it was signed with the key for
the issuer and has not expired, and a hash accepts the password it was made from. Times
are in seconds, as in the claims.
-/

namespace LumaBroker.Auth

inductive AuthError where
  | badCredentials
  | tokenExpired
  | tokenInvalid
  | banned
  deriving DecidableEq

namespace AuthError

/-- The text of the error value. -/
def error : AuthError → String
  | badCredentials => "bad credentials"
  | tokenExpired => "token expired"
  | tokenInvalid => "token invalid"
  | banned => "client banned"

end AuthError

structure Claims where
  clientID : GoString
  username : GoString
  roles : List GoString
  issuer : GoString
  issuedAt : Nat
  expiresAt : Nat
  notBefore : Option Nat
  deriving DecidableEq

namespace Claims

/-- The time checks of the jwt library. -/
def ValidAt (now : Nat) (c : Claims) : Prop :=
  now < c.expiresAt ∧ ∀ nbf ∈ c.notBefore, nbf ≤ now

end Claims

/-- Why ParseWithClaims failed, as far as AuthJWT asks. -/
inductive JwtError where
  | expired
  | other
  deriving DecidableEq

/-- The jwt library. Claims gives the claims of a token that carries an HMAC signature with
this key, this issuer and an expiry; parse is ParseWithClaims at a time, which differs
from it in the time checks only. -/
structure Jwt where
  signedString : GoString → Claims → GoString
  claims : GoString → GoString → GoString → Option Claims
  parse : GoString → GoString → Nat → GoString → Except JwtError Claims
  claims_signedString : ∀ secret c, claims secret c.issuer (signedString secret c) = some c
  parse_eq_ok : ∀ secret issuer now tok c, parse secret issuer now tok = .ok c ↔
    claims secret issuer tok = some c ∧ c.ValidAt now

/-- The bcrypt library. A hash is made with a salt and a cost and accepts its password;
long passwords are refused. -/
structure Bcrypt where
  generateFromPassword : Nat → Nat → GoString → Except String GoString
  compareHashAndPassword : GoString → GoString → Bool
  compare_generate : ∀ salt cost password hash,
    generateFromPassword salt cost password = .ok hash → compareHashAndPassword hash password = true

structure User where
  username : GoString
  passwordHash : GoString
  roles : List GoString
  banned : Bool
  deriving DecidableEq

structure CachedClaims where
  claims : Claims
  expiresAt : Nat
  deriving DecidableEq

structure Authenticator where
  secret : GoString
  issuer : GoString
  duration : Nat
  cost : Nat
  users : FinMap GoString User
  aclRules : List ACLRule
  tokenCache : FinMap GoString CachedClaims
  revokedCertSerials : List GoString
  deriving DecidableEq

/-- What AuthX509 reads of a certificate: the serial number in lower-case hexadecimal, and
the subject. -/
structure Certificate where
  serial : GoString
  commonName : GoString
  subject : GoString
  deriving DecidableEq

namespace Authenticator

def new (secret issuer : GoString) (duration bcryptCost : Nat) : Authenticator where
  secret := secret
  issuer := issuer
  duration := duration
  cost := bcryptCost
  users := FinMap.empty
  aclRules := loadDefaultACL
  tokenCache := FinMap.empty
  revokedCertSerials := []

/-- The serials come trimmed and in lower case; empty ones are left out. -/
def setRevokedSerials (serials : List GoString) (a : Authenticator) : Authenticator :=
  { a with revokedCertSerials := serials.filter (· ≠ []) }

def authX509 (cert : Certificate) (a : Authenticator) : Except AuthError GoString :=
  if cert.serial ∈ a.revokedCertSerials then .error .banned
  else .ok (if cert.commonName = [] then cert.subject else cert.commonName)

def addUser (bcrypt : Bcrypt) (salt : Nat) (username plainPassword : GoString)
    (roles : List GoString) (a : Authenticator) : Except String Authenticator :=
  match bcrypt.generateFromPassword salt a.cost plainPassword with
  | .error err => .error err
  | .ok hash => .ok { a with users := a.users.set username ⟨username, hash, roles, false⟩ }

def setBanned (username : GoString) (banned : Bool) (a : Authenticator) : Authenticator :=
  match a.users.get username with
  | some u => { a with users := a.users.set username { u with banned := banned } }
  | none => a

def addRule (rule : ACLRule) (a : Authenticator) : Authenticator :=
  { a with aclRules := addACLRule rule a.aclRules }

def authPassword (bcrypt : Bcrypt) (username password : GoString) (a : Authenticator) :
    Except AuthError Unit :=
  match a.users.get username with
  | none => .error .badCredentials
  | some u =>
      if u.banned then .error .banned
      else if !bcrypt.compareHashAndPassword u.passwordHash password then .error .badCredentials
      else .ok ()

/-- The claims of a cache entry that has not expired. -/
def cached (now : Nat) (tokenStr : GoString) (a : Authenticator) : Option Claims :=
  match a.tokenCache.get tokenStr with
  | some entry => if now < entry.expiresAt then some entry.claims else none
  | none => none

/-- A cache of more than 10000 entries loses the first one of a map iteration, whose place
among the keys is any number. -/
def trimCache (place : Nat) (cache : FinMap GoString CachedClaims) : FinMap GoString CachedClaims :=
  if cache.keys.length > 10000 then
    match cache.keys[place % cache.keys.length]? with
    | some k => cache.erase k
    | none => cache
  else cache

def authJWT (jwt : Jwt) (now place : Nat) (tokenStr : GoString) (a : Authenticator) :
    Except AuthError Claims × Authenticator :=
  match a.cached now tokenStr with
  | some claims => (.ok claims, a)
  | none =>
      match jwt.parse a.secret a.issuer now tokenStr with
      | .error .expired => (.error .tokenExpired, a)
      | .error .other => (.error .tokenInvalid, a)
      | .ok claims =>
          let cache := a.tokenCache.set tokenStr ⟨claims, claims.expiresAt⟩
          (.ok claims, { a with tokenCache := trimCache place cache })

def issueToken (jwt : Jwt) (now : Nat) (username clientID : GoString) (roles : List GoString)
    (a : Authenticator) : GoString :=
  jwt.signedString a.secret ⟨clientID, username, roles, a.issuer, now, now + a.duration, none⟩

/-- Every cache entry holds the claims of its token, up to their expiry. -/
def CacheSound (jwt : Jwt) (a : Authenticator) : Prop :=
  ∀ tok entry, a.tokenCache.get tok = some entry →
    jwt.claims a.secret a.issuer tok = some entry.claims ∧ entry.expiresAt = entry.claims.expiresAt

theorem get_trimCache {place : Nat} {cache : FinMap GoString CachedClaims} {k : GoString}
    {entry : CachedClaims} (h : (trimCache place cache).get k = some entry) :
    cache.get k = some entry := by
  rw [trimCache] at h
  split at h
  · split at h
    · next j _ =>
        rw [FinMap.get_erase] at h
        split at h
        · cases h
        · exact h
    · exact h
  · exact h

section AuthJWT
variable {jwt : Jwt} {a : Authenticator}

/-- With or without the cache, an accepted token was signed for the issuer and has not
expired. -/
theorem authJWT_ok (hsound : CacheSound jwt a) {now place : Nat} {tok : GoString} {c : Claims}
    (h : (a.authJWT jwt now place tok).1 = .ok c) :
    jwt.claims a.secret a.issuer tok = some c ∧ now < c.expiresAt := by
  rw [authJWT] at h
  split at h
  · next claims hcached =>
      cases h
      rw [cached] at hcached
      split at hcached
      · next entry hentry =>
          obtain ⟨hclaims, hexp⟩ := hsound tok entry hentry
          split at hcached
          · next hlive =>
              cases hcached
              exact ⟨hclaims, hexp ▸ hlive⟩
          · cases hcached
      · cases hcached
  · split at h
    · cases h
    · cases h
    · next claims hparse =>
        cases h
        have hvalid := (jwt.parse_eq_ok ..).mp hparse
        exact ⟨hvalid.1, hvalid.2.1⟩

/-- A call leaves the authenticator alone, or has the library accept the token and stores
the claims. -/
theorem authJWT_cases (a : Authenticator) (jwt : Jwt) (now place : Nat) (tok : GoString) :
    (a.authJWT jwt now place tok).2 = a ∨
      ∃ claims, jwt.parse a.secret a.issuer now tok = .ok claims ∧ (a.authJWT jwt now place tok).2 =
        { a with tokenCache := trimCache place (a.tokenCache.set tok
          ⟨claims, claims.expiresAt⟩) } := by
  rw [authJWT]
  split
  · exact .inl rfl
  · split
    · exact .inl rfl
    · exact .inl rfl
    · next claims hparse => exact .inr ⟨claims, hparse, rfl⟩

/-- Authentication by token touches the cache only. -/
theorem authJWT_frame (a : Authenticator) (jwt : Jwt) (now place : Nat) (tok : GoString) :
    ∃ cache, (a.authJWT jwt now place tok).2 = { a with tokenCache := cache } := by
  cases a.authJWT_cases jwt now place tok with
  | inl hsame => exact ⟨a.tokenCache, hsame⟩
  | inr hstored =>
      obtain ⟨claims, -, hcache⟩ := hstored
      exact ⟨_, hcache⟩

theorem cacheSound_authJWT (hsound : CacheSound jwt a) (now place : Nat) (tok : GoString) :
    CacheSound jwt (a.authJWT jwt now place tok).2 := by
  cases a.authJWT_cases jwt now place tok with
  | inl hsame =>
      rw [hsame]
      exact hsound
  | inr hstored =>
      obtain ⟨claims, hparse, hcache⟩ := hstored
      rw [hcache]
      intro k entry hentry
      have hget := get_trimCache hentry
      rw [FinMap.get_set] at hget
      split at hget
      · next hk =>
          cases hget
          rw [hk]
          exact ⟨((jwt.parse_eq_ok ..).mp hparse).1, rfl⟩
      · exact hsound k entry hget

end AuthJWT

theorem claims_issueToken (jwt : Jwt) (a : Authenticator) (now : Nat) (username clientID : GoString)
    (roles : List GoString) :
    jwt.claims a.secret a.issuer (a.issueToken jwt now username clientID roles) =
      some ⟨clientID, username, roles, a.issuer, now, now + a.duration, none⟩ :=
  jwt.claims_signedString a.secret ⟨clientID, username, roles, a.issuer, now,
    now + a.duration, none⟩

end Authenticator

/-!
Libraries that keep the laws: tokens and hashes in the clear. They are what the concrete
runs are evaluated with.
-/

/-- The strings one after another, each byte behind a 1 and each string before a 0. -/
def packStrings (l : List GoString) : GoString :=
  l.flatMap fun s => s.flatMap (fun b => [1, b]) ++ [0]

def unpackStrings (current : GoString) : GoString → List GoString
  | 1 :: b :: rest => unpackStrings (current ++ [b]) rest
  | 0 :: rest => current :: unpackStrings [] rest
  | _ => []

theorem unpackStrings_string (s current rest : GoString) :
    unpackStrings current (s.flatMap (fun b => [1, b]) ++ 0 :: rest) =
      (current ++ s) :: unpackStrings [] rest := by
  induction s generalizing current with
  | nil => simp [unpackStrings]
  | cons b s ih => simpa [unpackStrings] using ih (current ++ [b])

theorem unpackStrings_packStrings (l : List GoString) : unpackStrings [] (packStrings l) = l := by
  induction l with
  | nil => rfl
  | cons s l ih => 
      have h := unpackStrings_string s [] (packStrings l)
      rw [ih] at h
      simpa [packStrings] using h

/-- A number as a string of that length. -/
def unary (n : Nat) : GoString := List.replicate n 0

def clearClaims (secret issuer tok : GoString) : Option Claims :=
  match unpackStrings [] tok with
  | key :: clientID :: username :: iss :: iat :: exp :: nbf :: roles =>
      if key = secret ∧ iss = issuer then
        some ⟨clientID, username, roles, iss, iat.length, exp.length, nbf.tail?.map List.length⟩
      else none
  | _ => none

instance decidableValidAt (now : Nat) (c : Claims) : Decidable (c.ValidAt now) :=
  inferInstanceAs (Decidable (now < c.expiresAt ∧ ∀ nbf ∈ c.notBefore, nbf ≤ now))

def Jwt.clear : Jwt where
  signedString secret c :=
    packStrings (secret :: c.clientID :: c.username :: c.issuer :: unary c.issuedAt ::
      unary c.expiresAt :: c.notBefore.elim [] (fun n => unary (n + 1)) :: c.roles)
  claims := clearClaims
  parse secret issuer now tok :=
    match clearClaims secret issuer tok with
    | some c =>
        if c.ValidAt now then .ok c
        else .error (if now < c.expiresAt then .other else .expired)
    | none => .error .other
  claims_signedString secret c := by
    cases c with
    | mk clientID username roles issuer issuedAt expiresAt notBefore =>
        cases notBefore <;>
          simp [clearClaims, unpackStrings_packStrings, unary, List.replicate_succ]
  parse_eq_ok secret issuer now tok c := by
    cases clearClaims secret issuer tok with
    | none => simp
    | some c' =>
        by_cases hvalid : c'.ValidAt now
        · simp only [if_pos hvalid, Except.ok.injEq, Option.some.injEq, iff_self_and]
          rintro rfl
          exact hvalid
        · simp only [if_neg hvalid, reduceCtorEq, Option.some.injEq, false_iff, not_and]
          rintro rfl
          exact hvalid

def Bcrypt.clear : Bcrypt where
  generateFromPassword _ _ password :=
    if password.length > 72 then .error "bcrypt: password length exceeds 72 bytes" else .ok password
  compareHashAndPassword hash password := hash = password
  compare_generate salt cost password hash h := by
    split at h
    · cases h
    · cases h
      exact decide_eq_true rfl

end LumaBroker.Auth
