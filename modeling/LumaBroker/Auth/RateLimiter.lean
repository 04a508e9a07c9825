import LumaBroker.Go.Strings
import LumaBroker.Lib.SortedMap
import LumaBroker.Lib.TokenBucket
import Mathlib.Algebra.Field.Rat
import Mathlib.Algebra.Order.Field.Rat

/-!
The RateLimiter of internal/auth/auth.go, a token bucket for each client, with rational
numbers for the floats and times in seconds. Each call is one critical section. The map of
buckets behaves as if every client had a bucket of its own from the start: one that is
missing, and one that Cleanup has dropped, is as good as a full one.
-/

namespace LumaBroker.Auth

open TokenBucket

structure RateLimiter where
  limits : Limits ℚ
  buckets : FinMap GoString (Bucket ℚ)

namespace RateLimiter

def new (limits : Limits ℚ) : RateLimiter := ⟨limits, FinMap.empty⟩

/-- The bucket of a client, created at its first call. -/
def bucket (now : ℚ) (clientID : GoString) (r : RateLimiter) : Bucket ℚ :=
  match r.buckets.get clientID with
  | some b => b
  | none => ⟨r.limits.burst, now⟩

/-- The tokens of a bucket after the refill, clamped at the burst. -/
def refilled (now : ℚ) (b : Bucket ℚ) (r : RateLimiter) : ℚ :=
  let elapsed := now - b.last
  let tokens := b.tokens + elapsed * r.limits.rate
  if tokens > r.limits.burst then r.limits.burst else tokens

def allow (now : ℚ) (clientID : GoString) (r : RateLimiter) : RateLimiter × Bool :=
  let tokens := r.refilled now (r.bucket now clientID)
  if tokens < 1 then ({ r with buckets := r.buckets.set clientID ⟨tokens, now⟩ }, false)
  else ({ r with buckets := r.buckets.set clientID ⟨tokens - 1, now⟩ }, true)

def cleanup (now maxAge : ℚ) (r : RateLimiter) : RateLimiter :=
  let cutoff := now - maxAge
  { r with buckets := r.buckets.filter fun b => !decide (b.last < cutoff) }

inductive Call where
  | allow (clientID : GoString) (now : ℚ)
  | cleanup (maxAge now : ℚ)
  deriving DecidableEq

def Call.now : Call → ℚ
  | .allow _ now => now
  | .cleanup _ now => now

def Call.allows (clientID : GoString) : Call → Bool
  | .allow id _ => id = clientID
  | .cleanup _ _ => false

structure Answer where
  clientID : GoString
  now : ℚ
  allowed : Bool
  deriving DecidableEq

def answers : List Call → RateLimiter → List Answer
  | [], _ => []
  | .allow clientID now :: calls, r =>
      ⟨clientID, now, (r.allow now clientID).2⟩ :: answers calls (r.allow now clientID).1
  | .cleanup maxAge now :: calls, r => answers calls (r.cleanup now maxAge)

def answersTo (clientID : GoString) (calls : List Call) (r : RateLimiter) : List Answer :=
  (r.answers calls).filter fun a => a.clientID = clientID

def timesOf (clientID : GoString) (calls : List Call) : List ℚ :=
  (calls.filter (Call.allows clientID)).map Call.now

/-- A bucket is dropped only when it would have filled up in the meantime. -/
def KeepsIdle (limits : Limits ℚ) : Call → Prop
  | .allow _ _ => True
  | .cleanup maxAge _ => limits.burst ≤ limits.rate * maxAge

instance (limits : Limits ℚ) (call : Call) : Decidable (KeepsIdle limits call) :=
  match call with
  | .allow _ _ => isTrue trivial
  | .cleanup _ _ => inferInstanceAs (Decidable (_ ≤ _))

/-- For all that follows the limiter treats the client as its own bucket b would. -/
structure Tracks (clientID : GoString) (now : ℚ) (r : RateLimiter) (b : Bucket ℚ) : Prop where
  level : ∀ t, now ≤ t → (r.bucket t clientID).level r.limits t = b.level r.limits t
  valid : b.Valid now
  stored : ∀ b', r.buckets.get clientID = some b' → b'.Valid now

section Calls
variable {r : RateLimiter} {b : Bucket ℚ} {clientID : GoString} {now : ℚ}

theorem refilled_eq_level (now : ℚ) (b : Bucket ℚ) (r : RateLimiter) :
    r.refilled now b = b.level r.limits now := by
  rw [refilled, Bucket.level]
  split
  · next h => exact (min_eq_left (le_of_lt h)).symm
  · next h => exact (min_eq_right (not_lt.mp h)).symm

/-- Allow is a call of the client's bucket. -/
theorem allow_eq (now : ℚ) (clientID : GoString) (r : RateLimiter) :
    r.allow now clientID =
      let taken := (r.bucket now clientID).take r.limits now
      ({ r with buckets := r.buckets.set clientID taken.1 }, taken.2) := by
  simp only [allow, refilled_eq_level, Bucket.take]
  split <;> rfl

theorem limits_allow (now : ℚ) (clientID : GoString) (r : RateLimiter) :
    (r.allow now clientID).1.limits = r.limits := by
  rw [allow_eq]

theorem bucket_of_get {b' : Bucket ℚ} (h : r.buckets.get clientID = some b') :
    r.bucket now clientID = b' := by
  rw [bucket, h]

theorem bucket_of_none (h : r.buckets.get clientID = none) :
    r.bucket now clientID = full r.limits now := by
  rw [bucket, h]
  rfl

theorem Tracks.mono {now' : ℚ} (h : Tracks clientID now r b) (hle : now ≤ now') :
    Tracks clientID now' r b where
  level t ht := h.level t (hle.trans ht)
  valid := h.valid.mono hle
  stored b' hb' := (h.stored b' hb').mono hle

theorem tracks_new (limits : Limits ℚ) (clientID : GoString) (now : ℚ) :
    Tracks clientID now (new limits) (full limits now) where
  level t ht := (Bucket.level_full (le_refl t)).trans (Bucket.level_full ht).symm
  valid := Bucket.valid_full now
  stored _ h := by cases h

theorem Tracks.take_eq (h : Tracks clientID now r b) :
    (r.bucket now clientID).take r.limits now = b.take r.limits now :=
  Bucket.take_congr _ (h.level now (le_refl now))

theorem Tracks.allow (h : Tracks clientID now r b) :
    Tracks clientID now (r.allow now clientID).1 (b.take r.limits now).1 := by
  have hget : (r.allow now clientID).1.buckets.get clientID = some (b.take r.limits now).1 := by
    rw [allow_eq, ← h.take_eq]
    exact FinMap.get_set_self ..
  refine ⟨fun t _ => ?_, h.valid.take, fun b' hb' => ?_⟩
  · rw [bucket_of_get hget]
  · cases hget.symm.trans hb'
    exact h.valid.take

theorem Tracks.allow_other {other : GoString} (h : Tracks clientID now r b)
    (hne : clientID ≠ other) : Tracks clientID now (r.allow now other).1 b := by
  have hget : (r.allow now other).1.buckets.get clientID = r.buckets.get clientID := by
    rw [allow_eq]
    exact FinMap.get_set_ne _ _ hne
  have hbucket (t : ℚ) : (r.allow now other).1.bucket t clientID = r.bucket t clientID := by
    rw [bucket, hget, limits_allow, bucket]
  refine ⟨fun t ht => ?_, h.valid, fun b' hb' => h.stored b' (hget ▸ hb')⟩
  rw [hbucket, limits_allow]
  exact h.level t ht

/-- A bucket that Cleanup drops would be full whenever the client comes back. -/
theorem Tracks.cleanup {maxAge : ℚ} (h : Tracks clientID now r b)
    (hage : r.limits.burst ≤ r.limits.rate * maxAge) :
    Tracks clientID now (r.cleanup now maxAge) b := by
  have hget : (r.cleanup now maxAge).buckets.get clientID =
      (r.buckets.get clientID).filter fun b => !decide (b.last < now - maxAge) :=
    FinMap.get_filter ..
  refine ⟨fun t ht => ?_, h.valid, fun b' hb' => ?_⟩
  · change ((r.cleanup now maxAge).bucket t clientID).level r.limits t = b.level r.limits t
    rw [← h.level t ht]
    cases hstored : r.buckets.get clientID with
    | none =>
        rw [hstored, Option.filter_none] at hget
        rw [bucket_of_none hget, bucket_of_none hstored]
        rfl
    | some b' =>
        by_cases hold : b'.last < now - maxAge
        · rw [hstored, Option.filter_some_neg (by simpa using hold)] at hget
          rw [bucket_of_none hget, bucket_of_get hstored]
          have hfull : (full r.limits t).level r.limits t = r.limits.burst :=
            Bucket.level_full (le_refl t)
          refine hfull.trans (Bucket.level_of_idle (h.stored b' hstored).tokens_nonneg ?_ hage).symm
          linarith
        · rw [hstored, Option.filter_some_pos (by simpa using hold)] at hget
          rw [bucket_of_get hget, bucket_of_get hstored]
  · rw [hget] at hb'
    exact h.stored b' (Option.filter_eq_some_iff.mp hb').1

/-- The answers to a client are those of a bucket of its own, asked at the client's times. -/
theorem answersTo_eq {calls : List Call} (h : Tracks clientID now r b)
    (hsorted : (now :: calls.map Call.now).Pairwise (· ≤ ·))
    (hidle : ∀ call ∈ calls, KeepsIdle r.limits call) :
    r.answersTo clientID calls =
      (b.outcomes r.limits (timesOf clientID calls)).map fun o => ⟨clientID, o.1, o.2⟩ := by
  induction calls generalizing now r b with
  | nil => rfl
  | cons call calls ih =>
      obtain ⟨hnow, hrest⟩ := List.pairwise_cons.mp hsorted
      have hlater := h.mono (hnow call.now List.mem_cons_self)
      have hidle' (c : Call) (hc : c ∈ calls) : KeepsIdle r.limits c :=
        hidle c (List.mem_cons_of_mem call hc)
      cases call with
      | allow other t =>
          have hlimits : (r.allow t other).1.limits = r.limits := limits_allow t other r
          change Tracks clientID t r b at hlater
          by_cases hid : other = clientID
          · subst hid
            have hans := ih hlater.allow hrest (hlimits ▸ hidle')
            have htaken : (r.allow t other).2 = (b.take r.limits t).2 := by
              rw [allow_eq, ← hlater.take_eq]
            rw [hlimits] at hans
            simpa [answersTo, answers, timesOf, Call.allows, Bucket.outcomes, Call.now, htaken]
              using hans
          · have hans := ih (hlater.allow_other (Ne.symm hid)) hrest (hlimits ▸ hidle')
            rw [hlimits] at hans
            simpa [answersTo, answers, timesOf, Call.allows, hid] using hans
      | cleanup maxAge t =>
          exact ih (hlater.cleanup (hidle _ List.mem_cons_self)) hrest hidle'

end Calls

theorem exists_start {ts : List ℚ} (h : ts.Pairwise (· ≤ ·)) :
    ∃ now, (now :: ts).Pairwise (· ≤ ·) := by
  cases ts with
  | nil => exact ⟨0, List.pairwise_singleton _ _⟩
  | cons t ts =>
      refine ⟨t, List.pairwise_cons.mpr ⟨fun u hu => ?_, h⟩⟩
      cases List.mem_cons.mp hu with
      | inl hhead => exact hhead.ge
      | inr htail => exact (List.pairwise_cons.mp h).1 u htail

theorem answersTo_new {limits : Limits ℚ} {calls : List Call} {now : ℚ}
    (hsorted : (now :: calls.map Call.now).Pairwise (· ≤ ·))
    (hidle : ∀ call ∈ calls, KeepsIdle limits call) (clientID : GoString) :
    (new limits).answersTo clientID calls =
      ((full limits now).outcomes limits (timesOf clientID calls)).map fun o =>
        ⟨clientID, o.1, o.2⟩ :=
  answersTo_eq (tracks_new limits clientID now) hsorted hidle

/-- In every window of time the calls of a client that are allowed are at most the burst and
what the window adds, and the answers to the client are those it would get if no other call
was made. -/
theorem allowed_in_window (limits : Limits ℚ) (calls : List Call)
    (hsorted : (calls.map Call.now).Pairwise (· ≤ ·))
    (hidle : ∀ call ∈ calls, KeepsIdle limits call) (clientID : GoString) :
    (∀ s e, s ≤ e → (((new limits).answersTo clientID calls).countP
        (fun a => a.allowed ∧ s ≤ a.now ∧ a.now ≤ e) : ℚ) ≤ limits.burst + limits.rate * (e - s)) ∧
      (new limits).answersTo clientID calls =
        (new limits).answersTo clientID (calls.filter (Call.allows clientID)) := by
  obtain ⟨now, hstart⟩ := exists_start hsorted
  have hans := answersTo_new hstart hidle clientID
  -- the client's own calls are a part of the history
  have hown : (now :: timesOf clientID calls).Pairwise (· ≤ ·) :=
    hstart.sublist ((List.filter_sublist.map Call.now).cons_cons now)
  refine ⟨fun s e hse => ?_, ?_⟩
  · rw [hans, List.countP_map]
    exact Bucket.takenIn_le_burst (Bucket.valid_full now) hown hse
  · have halone : (new limits).answersTo clientID (calls.filter (Call.allows clientID)) = _ :=
      answersTo_new hown (fun call hcall => hidle call (List.mem_of_mem_filter hcall)) clientID
    have htimes : timesOf clientID (calls.filter (Call.allows clientID)) =
        timesOf clientID calls := by
      simp [timesOf, List.filter_filter]
    rw [hans, halone, htimes]

/-- The limits the broker starts with. -/
def defaultLimits : Limits ℚ := ⟨1000, 2000, by norm_num, by norm_num⟩

/-- Two calls of one client around a Cleanup(5 * time.Minute) and a call of another. -/
def sampleCalls : List Call :=
  [.allow (str "c1") 0, .allow (str "c2") 10, .cleanup 300 320, .allow (str "c1") 321]

theorem allowed_in_window_sample :
    ((new defaultLimits).answersTo (str "c1") sampleCalls).map Answer.allowed = [true, true] ∧
      (new defaultLimits).answersTo (str "c1") sampleCalls =
        (new defaultLimits).answersTo (str "c1") [.allow (str "c1") 0, .allow (str "c1") 321] :=
  ⟨by decide +kernel,
    (allowed_in_window defaultLimits sampleCalls (by decide +kernel) (by decide +kernel)
      (str "c1")).2⟩

end RateLimiter
end LumaBroker.Auth
