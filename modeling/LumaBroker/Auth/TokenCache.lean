import LumaBroker.Auth.Authenticator

/-!
The token cache of AuthJWT in internal/auth/auth.go. An entry skips the signature, the issuer
and the time checks on the strength of an earlier success, at a time that is now past: the
answer is still the one that the jwt library would give.
-/

namespace LumaBroker.Auth.Authenticator

/-- A call of AuthJWT. The place decides which entry a full cache loses. -/
structure TokenCall where
  now : Nat
  place : Nat
  tokenStr : GoString

def authJWTs (jwt : Jwt) :
    List TokenCall → Authenticator → List (Except AuthError Claims × Authenticator)
  | [], _ => []
  | call :: calls, a =>
      let r := a.authJWT jwt call.now call.place call.tokenStr
      r :: authJWTs jwt calls r.2

def emptied (a : Authenticator) : Authenticator := { a with tokenCache := FinMap.empty }

/-- The entries are sound, their tokens were in force at some time up to now, and they are
no more than the cache may hold. -/
structure CacheGood (jwt : Jwt) (now : Nat) (a : Authenticator) : Prop where
  sound : CacheSound jwt a
  begun : ∀ tok entry, a.tokenCache.get tok = some entry → ∀ nbf ∈ entry.claims.notBefore, nbf ≤ now
  bounded : a.tokenCache.size ≤ 10000

section Calls
variable {jwt : Jwt} {a : Authenticator} {now : Nat}

theorem CacheGood.mono {now' : Nat} (h : CacheGood jwt now a) (hle : now ≤ now') :
    CacheGood jwt now' a :=
  ⟨h.sound, fun tok entry hentry nbf hnbf => (h.begun tok entry hentry nbf hnbf).trans hle,
    h.bounded⟩

theorem cacheGood_emptied (jwt : Jwt) (a : Authenticator) (now : Nat) :
    CacheGood jwt now a.emptied where
  sound _ _ h := by cases h
  begun _ _ h := by cases h
  bounded := Nat.zero_le _

theorem authJWT_emptied (a : Authenticator) (now place : Nat) (tok : GoString) :
    (a.emptied.authJWT jwt now place tok).1 =
      match jwt.parse a.secret a.issuer now tok with
      | .error .expired => .error .tokenExpired
      | .error .other => .error .tokenInvalid
      | .ok claims => .ok claims := by
  have hmiss : a.emptied.cached now tok = none := rfl
  have hparse : jwt.parse a.emptied.secret a.emptied.issuer now tok =
      jwt.parse a.secret a.issuer now tok := rfl
  rw [authJWT, hmiss, hparse]
  cases jwt.parse a.secret a.issuer now tok with
  | error err => cases err <;> rfl
  | ok claims => rfl

/-- An entry that has not expired holds what the library would answer. -/
theorem CacheGood.parse_of_cached (h : CacheGood jwt now a) {tok : GoString} {claims : Claims}
    (hcached : a.cached now tok = some claims) :
    jwt.parse a.secret a.issuer now tok = .ok claims := by
  rw [cached] at hcached
  split at hcached
  · next entry hentry =>
      obtain ⟨hclaims, hexp⟩ := h.sound tok entry hentry
      split at hcached
      · next hlive =>
          cases hcached
          refine (jwt.parse_eq_ok ..).mpr ⟨hclaims, hexp ▸ hlive, ?_⟩
          exact h.begun tok entry hentry
      · cases hcached
  · cases hcached

theorem CacheGood.authJWT_eq (h : CacheGood jwt now a) (place : Nat) (tok : GoString) :
    (a.authJWT jwt now place tok).1 = (a.emptied.authJWT jwt now place tok).1 := by
  rw [authJWT_emptied, authJWT]
  cases hcached : a.cached now tok with
  | some claims => rw [h.parse_of_cached hcached]
  | none =>
      cases jwt.parse a.secret a.issuer now tok with
      | error err => cases err <;> rfl
      | ok claims => rfl

theorem size_trimCache {cache : FinMap GoString CachedClaims} (place : Nat)
    (h : cache.size ≤ 10001) : (trimCache place cache).size ≤ 10000 := by
  rw [trimCache, FinMap.length_keys]
  split
  · next hfull =>
      have hlt : place % cache.size < cache.keys.length := by
        rw [FinMap.length_keys]
        exact Nat.mod_lt _ (by omega)
      rw [List.getElem?_eq_getElem hlt]
      obtain ⟨v, hv⟩ := (cache.mem_keys _).mp (List.getElem_mem hlt)
      have hsize := FinMap.size_erase hv
      change (cache.erase _).size ≤ 10000
      omega
  · next hfits => exact Nat.le_of_not_lt hfits

theorem CacheGood.authJWT (h : CacheGood jwt now a) (place : Nat) (tok : GoString) :
    CacheGood jwt now (a.authJWT jwt now place tok).2 := by
  have hsound := cacheSound_authJWT h.sound now place tok
  cases a.authJWT_cases jwt now place tok with
  | inl hsame =>
      rw [hsame]
      exact h
  | inr hstored =>
      obtain ⟨claims, hparse, hcache⟩ := hstored
      rw [hcache] at hsound ⊢
      refine ⟨hsound, fun k entry hentry => ?_, ?_⟩
      · have hget := get_trimCache hentry
        rw [FinMap.get_set] at hget
        split at hget
        · cases hget
          exact ((jwt.parse_eq_ok ..).mp hparse).2.2
        · exact h.begun k entry hget
      · have hset := a.tokenCache.size_set tok ⟨claims, claims.expiresAt⟩
        have hle := a.tokenCache.size_erase_le tok
        have hbounded := h.bounded
        exact size_trimCache place (by omega)

/-- Nothing but the cache changes, so the answers without one stay the same. -/
theorem emptied_authJWT (a : Authenticator) (now place : Nat) (tok : GoString) :
    (a.authJWT jwt now place tok).2.emptied = a.emptied := by
  obtain ⟨cache, hcache⟩ := a.authJWT_frame jwt now place tok
  rw [hcache]
  rfl

theorem CacheGood.authJWTs {calls : List TokenCall} (h : CacheGood jwt now a)
    (hsorted : (now :: calls.map TokenCall.now).Pairwise (· ≤ ·)) :
    (a.authJWTs jwt calls).map Prod.fst =
      calls.map (fun c => (a.emptied.authJWT jwt c.now c.place c.tokenStr).1) ∧
      ∀ r ∈ a.authJWTs jwt calls, r.2.tokenCache.size ≤ 10000 := by
  induction calls generalizing a now with
  | nil => exact ⟨rfl, fun _ hr => (by cases hr)⟩
  | cons call calls ih =>
      obtain ⟨hnow, hrest⟩ := List.pairwise_cons.mp hsorted
      have hcall := h.mono (hnow call.now List.mem_cons_self)
      have hafter := hcall.authJWT call.place call.tokenStr
      obtain ⟨hanswers, hsizes⟩ := ih hafter hrest
      rw [emptied_authJWT] at hanswers
      refine ⟨?_, fun r hr => ?_⟩
      · rw [Authenticator.authJWTs, List.map_cons, List.map_cons, hcall.authJWT_eq, hanswers]
      · cases List.mem_cons.mp hr with
        | inl hhead => exact hhead ▸ hafter.bounded
        | inr htail => exact hsizes r htail

end Calls

/-- From an empty cache on, and with whatever entries evicted, every call answers as with an
empty cache, and leaves 10000 entries at most. -/
theorem authJWT_cache_transparent (jwt : Jwt) (a : Authenticator) (calls : List TokenCall)
    (hsorted : (calls.map TokenCall.now).Pairwise (· ≤ ·)) :
    (a.emptied.authJWTs jwt calls).map Prod.fst =
      calls.map (fun c => (a.emptied.authJWT jwt c.now c.place c.tokenStr).1) ∧
      ∀ r ∈ a.emptied.authJWTs jwt calls, r.2.tokenCache.keys.length ≤ 10000 := by
  have hgood := cacheGood_emptied jwt a 0
  have hstart : (0 :: calls.map TokenCall.now).Pairwise (· ≤ ·) :=
    List.pairwise_cons.mpr ⟨fun t _ => Nat.zero_le t, hsorted⟩
  obtain ⟨hanswers, hsizes⟩ := hgood.authJWTs hstart
  refine ⟨hanswers, fun r hr => ?_⟩
  rw [FinMap.length_keys]
  exact hsizes r hr

/-- A token that is in force from 2 to 5, before, in and after that time. -/
def sampleCalls : List TokenCall :=
  let tok := Jwt.clear.signedString (str "k") ⟨str "c1", str "ann", [], str "luma", 0, 5, some 2⟩
  [⟨1, 0, tok⟩, ⟨2, 0, tok⟩, ⟨4, 0, tok⟩, ⟨5, 0, tok⟩]

theorem authJWT_cache_transparent_sample :
    (((new (str "k") (str "luma") 3 4).emptied.authJWTs Jwt.clear sampleCalls).map
      (fun r => r.1.isOk) = [false, true, true, false]) ∧
    ((new (str "k") (str "luma") 3 4).emptied.authJWTs Jwt.clear sampleCalls).map Prod.fst =
      sampleCalls.map fun c =>
        ((new (str "k") (str "luma") 3 4).emptied.authJWT Jwt.clear c.now c.place c.tokenStr).1 :=
  ⟨by decide +kernel,
    (authJWT_cache_transparent Jwt.clear (new (str "k") (str "luma") 3 4) sampleCalls
      (by decide +kernel)).1⟩

end LumaBroker.Auth.Authenticator
