import Mathlib.Algebra.Order.Field.Basic
import Mathlib.Tactic.Linarith
import Mathlib.Tactic.Ring

/-!
Token buckets over an ordered field. A bucket fills at a rate up to its burst, and a call
takes one token when a whole one is there. In every window of time the calls that take a
token are at most the burst and what the window adds.
-/

namespace TokenBucket

structure Limits (K : Type) [Field K] [LinearOrder K] where
  rate : K
  burst : K
  rate_nonneg : 0 ≤ rate
  burst_nonneg : 0 ≤ burst

structure Bucket (K : Type) where
  tokens : K
  last : K
  deriving DecidableEq

/-- The calls of a list of outcomes that took a token between two times. -/
def takenIn {K : Type} [LinearOrder K] (s e : K) (os : List (K × Bool)) : Nat :=
  os.countP fun o => o.2 ∧ s ≤ o.1 ∧ o.1 ≤ e

theorem takenIn_cons {K : Type} [LinearOrder K] (s e : K) (o : K × Bool) (os : List (K × Bool)) :
    takenIn s e (o :: os) = takenIn s e os + if o.2 ∧ s ≤ o.1 ∧ o.1 ≤ e then 1 else 0 := by
  simp only [takenIn, List.countP_cons, decide_eq_true_eq]

variable {K : Type} [Field K] [LinearOrder K] (l : Limits K)

/-- A bucket that has never been asked for a token. -/
def full (now : K) : Bucket K := ⟨l.burst, now⟩

namespace Bucket

/-- The tokens that a bucket has at a time. -/
def level (now : K) (b : Bucket K) : K := min l.burst (b.tokens + (now - b.last) * l.rate)

def take (now : K) (b : Bucket K) : Bucket K × Bool :=
  if b.level l now < 1 then (⟨b.level l now, now⟩, false) else (⟨b.level l now - 1, now⟩, true)

/-- What calls at these times answer. -/
def outcomes : List K → Bucket K → List (K × Bool)
  | [], _ => []
  | t :: ts, b => (t, (b.take l t).2) :: outcomes ts (b.take l t).1

/-- The tokens are not overdrawn, and the clock has not gone back. -/
structure Valid (now : K) (b : Bucket K) : Prop where
  tokens_nonneg : 0 ≤ b.tokens
  last_le : b.last ≤ now

theorem take_congr {now : K} {b b' : Bucket K} (h : b.level l now = b'.level l now) :
    b.take l now = b'.take l now := by
  rw [take, take, h]

theorem last_take (now : K) (b : Bucket K) : (b.take l now).1.last = now := by
  rw [take]
  split <;> rfl

theorem tokens_take (now : K) (b : Bucket K) :
    (b.take l now).1.tokens + (if (b.take l now).2 then 1 else 0) = b.level l now := by
  rw [take]
  split
  · simp
  · simp

variable {l}

theorem Valid.mono {now now' : K} {b : Bucket K} (h : b.Valid now) (hle : now ≤ now') :
    b.Valid now' :=
  ⟨h.tokens_nonneg, h.last_le.trans hle⟩

theorem valid_full (now : K) : (full l now).Valid now := ⟨l.burst_nonneg, le_refl now⟩

theorem mem_times_of_mem_outcomes {ts : List K} {b : Bucket K} {o : K × Bool}
    (h : o ∈ b.outcomes l ts) : o.1 ∈ ts := by
  induction ts generalizing b with
  | nil => cases h
  | cons t ts ih =>
      cases List.mem_cons.mp h with
      | inl hhead =>
          rw [hhead]
          exact List.mem_cons_self
      | inr htail => exact List.mem_cons_of_mem t (ih htail)

theorem takenIn_of_lt {s e t : K} {ts : List K} (b : Bucket K)
    (hsorted : (t :: ts).Pairwise (· ≤ ·)) (hlate : e < t) :
    takenIn s e (b.outcomes l (t :: ts)) = 0 := by
  refine List.countP_eq_zero.mpr fun o ho => ?_
  have hto : t ≤ o.1 := by
    cases List.mem_cons.mp (mem_times_of_mem_outcomes ho) with
    | inl hhead => exact hhead.ge
    | inr htail => exact (List.pairwise_cons.mp hsorted).1 o.1 htail
  simp [not_le.mpr (hlate.trans_le hto)]

variable [IsStrictOrderedRing K]

theorem Valid.refill_nonneg {now : K} {b : Bucket K} (h : b.Valid now) :
    0 ≤ (now - b.last) * l.rate :=
  mul_nonneg (sub_nonneg.mpr h.last_le) l.rate_nonneg

theorem Valid.level_nonneg {now : K} {b : Bucket K} (h : b.Valid now) : 0 ≤ b.level l now :=
  le_min l.burst_nonneg (add_nonneg h.tokens_nonneg h.refill_nonneg)

theorem Valid.take {now : K} {b : Bucket K} (h : b.Valid now) : (b.take l now).1.Valid now := by
  refine ⟨?_, (last_take l now b).le⟩
  rw [Bucket.take]
  split
  · exact h.level_nonneg
  · next hlevel => exact sub_nonneg.mpr (not_lt.mp hlevel)

theorem level_full {now t : K} (h : now ≤ t) : (full l now).level l t = l.burst :=
  min_eq_left (le_add_of_nonneg_right (valid_full now |>.mono h |>.refill_nonneg))

theorem level_of_idle {now age : K} {b : Bucket K} (htokens : 0 ≤ b.tokens)
    (hidle : age ≤ now - b.last) (hage : l.burst ≤ l.rate * age) : b.level l now = l.burst := by
  have hrefill : l.rate * age ≤ (now - b.last) * l.rate := by
    rw [mul_comm]
    exact mul_le_mul_of_nonneg_right hidle l.rate_nonneg
  exact min_eq_left (by linarith)

/-- The potential: the tokens of a bucket and what is added up to the end of the window
bound the calls that are granted until then. -/
theorem takenIn_le_potential {now s e : K} {ts : List K} {b : Bucket K} (hb : b.Valid now)
    (hts : (now :: ts).Pairwise (· ≤ ·)) (he : now ≤ e) :
    (takenIn s e (b.outcomes l ts) : K) ≤ b.tokens + (e - b.last) * l.rate := by
  have hnonneg : 0 ≤ b.tokens + (e - b.last) * l.rate :=
    add_nonneg hb.tokens_nonneg (hb.mono he).refill_nonneg
  induction ts generalizing now b with
  | nil => simpa [takenIn, outcomes] using hnonneg
  | cons t ts ih =>
      obtain ⟨hnow, hrest⟩ := List.pairwise_cons.mp hts
      by_cases hte : t ≤ e
      · have hvalid : (b.take l t).1.Valid t := (hb.mono (hnow t List.mem_cons_self)).take
        have hlater := ih hvalid hrest hte
          (add_nonneg hvalid.tokens_nonneg (hvalid.mono hte).refill_nonneg)
        have hspent := tokens_take l t b
        have hlevel : b.level l t ≤ b.tokens + (t - b.last) * l.rate := min_le_right ..
        have hcounted : ((if (b.take l t).2 ∧ s ≤ t ∧ t ≤ e then 1 else 0 : Nat) : K) ≤
            if (b.take l t).2 then 1 else 0 := by
          cases (b.take l t).2 with
          | false => simp
          | true =>
              simp only [true_and, if_true]
              split <;> simp
        have hsplit : (e - b.last) * l.rate = (t - b.last) * l.rate + (e - t) * l.rate := by ring
        rw [last_take] at hlater
        rw [outcomes, takenIn_cons, Nat.cast_add, hsplit]
        linarith
      · rw [takenIn_of_lt b hrest (not_le.mp hte), Nat.cast_zero]
        exact hnonneg

/-- In a window no more calls are granted than the burst and what the window adds. -/
theorem takenIn_le_burst {now s e : K} {ts : List K} {b : Bucket K} (hb : b.Valid now)
    (hts : (now :: ts).Pairwise (· ≤ ·)) (hse : s ≤ e) :
    (takenIn s e (b.outcomes l ts) : K) ≤ l.burst + l.rate * (e - s) := by
  have hnonneg : 0 ≤ l.burst + l.rate * (e - s) :=
    add_nonneg l.burst_nonneg (mul_nonneg l.rate_nonneg (sub_nonneg.mpr hse))
  induction ts generalizing now b with
  | nil => simpa [takenIn, outcomes] using hnonneg
  | cons t ts ih =>
      obtain ⟨hnow, hrest⟩ := List.pairwise_cons.mp hts
      have hvalid : (b.take l t).1.Valid t := (hb.mono (hnow t List.mem_cons_self)).take
      by_cases hst : s ≤ t
      · by_cases hte : t ≤ e
        · -- before the first call of the window the bucket holds the burst at most
          have hlater := takenIn_le_potential (l := l) (s := s) hvalid hrest hte
          have hspent := tokens_take l t b
          have hlevel : b.level l t ≤ l.burst := min_le_left ..
          have hshort : (e - t) * l.rate ≤ l.rate * (e - s) := by
            rw [mul_comm]
            exact mul_le_mul_of_nonneg_left (by linarith) l.rate_nonneg
          rw [last_take] at hlater
          rw [outcomes, takenIn_cons, Nat.cast_add]
          simp only [hst, hte, and_true, Nat.cast_ite, Nat.cast_one, Nat.cast_zero]
          linarith
        · rw [takenIn_of_lt b hrest (not_le.mp hte), Nat.cast_zero]
          exact hnonneg
      · rw [outcomes, takenIn_cons]
        simp only [hst, false_and, and_false, if_false, Nat.add_zero]
        exact ih hvalid hrest

end Bucket
end TokenBucket
