import Mathlib.Algebra.Order.Field.Basic
import Mathlib.Tactic.Linarith
import Mathlib.Tactic.Ring

/-!
# Token buckets

A token bucket over an ordered field: it gains `rate` tokens a second up to `burst`, and who finds a
whole token in it may take one. However the attempts come, the takes within a window of time are
bounded by the burst and what the window gains.

## Main definitions

* `TokenBucket`, with `refill`, `tryTake` and `secondsUntilToken`
* `TokenBucket.Sound` — between empty and full
* `takesIn` — the number of takes within a window
* `TokenBucket.Metered` — a bucket after some takes

## Main results

* `TokenBucket.Metered.refill`, `TokenBucket.Metered.take`
* `TokenBucket.one_le_of_waited` — who waits long enough finds a token
-/

/-- `last` is the clock reading at which `tokens` was true. -/
structure TokenBucket (K : Type*) where
  tokens : K
  rate : K
  burst : K
  last : K
  deriving DecidableEq

namespace TokenBucket

variable {K : Type*} [LinearOrder K]

/-! ### Windows -/

/-- How many of the takes are within a window. -/
def takesIn (s e : K) (taken : List K) : ℕ := taken.countP fun t => s ≤ t ∧ t ≤ e

theorem takesIn_snoc (s e t : K) (taken : List K) :
    takesIn s e (taken ++ [t]) = takesIn s e taken + if s ≤ t ∧ t ≤ e then 1 else 0 := by
  rw [takesIn, List.countP_append, List.countP_singleton]
  simp only [decide_eq_true_eq]
  rfl

theorem takesIn_of_lt {taken : List K} {last : K} (hpast : ∀ t ∈ taken, t ≤ last)
    {s e : K} (h : last < s) :
    takesIn s e taken = 0 := by
  rw [takesIn, List.countP_eq_zero]
  intro t ht hin
  exact absurd (of_decide_eq_true hin).1 (not_le.mpr ((hpast t ht).trans_lt h))

/-- A window that ends later holds no more. -/
theorem takesIn_of_le {taken : List K} {last : K} (hpast : ∀ t ∈ taken, t ≤ last) (s : K)
    {e : K} (h : last ≤ e) :
    takesIn s e taken = takesIn s last taken := by
  refine List.countP_congr fun t ht => ?_
  rw [decide_eq_true_eq, decide_eq_true_eq]
  exact ⟨fun hin => ⟨hin.1, hpast t ht⟩, fun hin => ⟨hin.1, hin.2.trans h⟩⟩

/-! ### The bucket -/

variable [Field K]

/-- What the bucket has gained by `now`. -/
def refill (b : TokenBucket K) (now : K) : TokenBucket K :=
  { b with last := now, tokens := min b.burst (b.tokens + (now - b.last) * b.rate) }

/-- One token less. -/
def take (b : TokenBucket K) : TokenBucket K := { b with tokens := b.tokens - 1 }

/-- Take a token if there is one. -/
def tryTake (b : TokenBucket K) (now : K) : Bool × TokenBucket K :=
  if 1 ≤ (b.refill now).tokens then (true, (b.refill now).take) else (false, b.refill now)

/-- How long it is until there is a token. -/
def secondsUntilToken (b : TokenBucket K) (now : K) : K × TokenBucket K :=
  if 1 ≤ (b.refill now).tokens then (0, b.refill now)
  else ((1 - (b.refill now).tokens) / (b.refill now).rate, b.refill now)

theorem secondsUntilToken_snd (b : TokenBucket K) (now : K) :
    (b.secondsUntilToken now).2 = b.refill now := by
  rw [secondsUntilToken]
  split <;> rfl

/-- Between empty and full, with room for a token, and filling. -/
structure Sound (b : TokenBucket K) : Prop where
  nonneg : 0 ≤ b.tokens
  le : b.tokens ≤ b.burst
  rate : 0 < b.rate
  burst : 1 ≤ b.burst

/-- The takes of a bucket, up to its last reading. -/
structure Metered (b : TokenBucket K) (taken : List K) : Prop extends b.Sound where
  past : ∀ t ∈ taken, t ≤ b.last
  /-- The tokens that are left have not been taken since `s`. -/
  since : ∀ s ≤ b.last, b.tokens + takesIn s b.last taken ≤ b.burst + b.rate * (b.last - s)
  window : ∀ s e, s ≤ e → (takesIn s e taken : K) ≤ b.burst + b.rate * (e - s)

variable {b : TokenBucket K} {now : K} {taken : List K}

variable [IsStrictOrderedRing K]

theorem Sound.refill (h : b.Sound) (hnow : b.last ≤ now) : (b.refill now).Sound where
  nonneg := by
    have hgain : 0 ≤ (now - b.last) * b.rate := mul_nonneg (sub_nonneg.mpr hnow) h.rate.le
    exact le_min (zero_le_one.trans h.burst) (add_nonneg h.nonneg hgain)
  le := min_le_left _ _
  rate := h.rate
  burst := h.burst

theorem Sound.take (h : b.Sound) (hone : 1 ≤ b.tokens) : b.take.Sound where
  nonneg := sub_nonneg.mpr hone
  le := (sub_le_self _ zero_le_one).trans h.le
  rate := h.rate
  burst := h.burst

theorem Metered.full (h : b.Sound) (hfull : b.tokens = b.burst) : b.Metered [] where
  toSound := h
  past _ ht := absurd ht List.not_mem_nil
  since s hs := by
    have hgain : 0 ≤ b.rate * (b.last - s) := mul_nonneg h.rate.le (sub_nonneg.mpr hs)
    rw [hfull]
    change b.burst + ((0 : ℕ) : K) ≤ _
    rw [Nat.cast_zero, add_zero]
    exact le_add_of_nonneg_right hgain
  window s e hse := by
    have hgain : 0 ≤ b.rate * (e - s) := mul_nonneg h.rate.le (sub_nonneg.mpr hse)
    change ((0 : ℕ) : K) ≤ _
    rw [Nat.cast_zero]
    exact add_nonneg (zero_le_one.trans h.burst) hgain

/-- **A refill** keeps the account. -/
theorem Metered.refill (h : b.Metered taken) (hnow : b.last ≤ now) :
    (b.refill now).Metered taken where
  toSound := h.toSound.refill hnow
  past t ht := (h.past t ht).trans hnow
  since s hs := by
    change min b.burst (b.tokens + (now - b.last) * b.rate) + (takesIn s now taken : K) ≤
      b.burst + b.rate * (now - s)
    rcases le_or_gt s b.last with hle | hlt
    · have hcount : takesIn s now taken = takesIn s b.last taken := takesIn_of_le h.past s hnow
      have hsince := h.since s hle
      have hmin := min_le_right b.burst (b.tokens + (now - b.last) * b.rate)
      rw [hcount]
      calc min b.burst (b.tokens + (now - b.last) * b.rate) + (takesIn s b.last taken : K)
          ≤ b.tokens + takesIn s b.last taken + b.rate * (now - b.last) := by linarith
        _ ≤ b.burst + b.rate * (b.last - s) + b.rate * (now - b.last) := by linarith
        _ = b.burst + b.rate * (now - s) := by ring
    · -- nothing has been taken since `s`
      have hcount : takesIn s now taken = 0 := takesIn_of_lt h.past hlt
      have hgain : 0 ≤ b.rate * (now - s) := mul_nonneg h.rate.le (sub_nonneg.mpr hs)
      have hmin := min_le_left b.burst (b.tokens + (now - b.last) * b.rate)
      rw [hcount, Nat.cast_zero]
      linarith
  window := h.window

/-- **A take** is paid for, in every window. -/
theorem Metered.take (h : b.Metered taken) (hone : 1 ≤ b.tokens) :
    b.take.Metered (taken ++ [b.last]) where
  toSound := h.toSound.take hone
  past t ht := by
    rcases List.mem_append.mp ht with ht | ht
    · exact h.past t ht
    · exact (List.mem_singleton.mp ht).le
  since s hs := by
    have hsince := h.since s hs
    change b.tokens - 1 + (takesIn s b.last (taken ++ [b.last]) : K) ≤
      b.burst + b.rate * (b.last - s)
    rw [takesIn_snoc, if_pos ⟨hs, le_rfl⟩, Nat.cast_add, Nat.cast_one]
    linarith
  window s e hse := by
    change (takesIn s e (taken ++ [b.last]) : K) ≤ b.burst + b.rate * (e - s)
    rw [takesIn_snoc]
    by_cases hin : s ≤ b.last ∧ b.last ≤ e
    · -- the window ends after the last reading, so it holds what was taken since `s`
      have hsince := h.since s hin.1
      have hcount : takesIn s e taken = takesIn s b.last taken := takesIn_of_le h.past s hin.2
      have hgain : b.rate * (b.last - s) ≤ b.rate * (e - s) :=
        mul_le_mul_of_nonneg_left (sub_le_sub_right hin.2 s) h.rate.le
      rw [if_pos hin, hcount, Nat.cast_add, Nat.cast_one]
      linarith
    · rw [if_neg hin, Nat.add_zero]
      exact h.window s e hse

/-- An attempt keeps the account. -/
theorem Metered.tryTake (h : b.Metered taken) (hnow : b.last ≤ now) :
    (b.tryTake now).2.Metered (if (b.tryTake now).1 then taken ++ [now] else taken) := by
  have hrefill := h.refill hnow
  rw [TokenBucket.tryTake]
  by_cases hone : 1 ≤ (b.refill now).tokens
  · rw [if_pos hone]
    exact hrefill.take hone
  · rw [if_neg hone]
    exact hrefill

/-- **Who waits as long as asked finds a token.** -/
theorem one_le_of_waited (h : b.Sound) {later : K}
    (hlater : now + (b.secondsUntilToken now).1 ≤ later) (hnow : b.last ≤ now) :
    1 ≤ ((b.secondsUntilToken now).2.refill later).tokens := by
  have hsound := h.refill hnow
  rw [secondsUntilToken] at hlater ⊢
  by_cases hone : 1 ≤ (b.refill now).tokens
  · rw [if_pos hone, add_zero] at hlater
    rw [if_pos hone]
    have hgain : 0 ≤ (later - now) * b.rate := mul_nonneg (sub_nonneg.mpr hlater) h.rate.le
    exact le_min h.burst (hone.trans (le_add_of_nonneg_right hgain))
  · rw [if_neg hone] at hlater ⊢
    have hwait : (1 - (b.refill now).tokens) / (b.refill now).rate ≤ later - now := by
      linarith
    have hgain : 1 - (b.refill now).tokens ≤ (later - now) * (b.refill now).rate :=
      (div_le_iff₀ hsound.rate).mp hwait
    refine le_min h.burst ?_
    change 1 ≤ (b.refill now).tokens + (later - now) * (b.refill now).rate
    linarith

/-- The time to wait is not negative. -/
theorem secondsUntilToken_nonneg (h : b.Sound) (hnow : b.last ≤ now) :
    0 ≤ (b.secondsUntilToken now).1 := by
  have hsound := h.refill hnow
  rw [secondsUntilToken]
  by_cases hone : 1 ≤ (b.refill now).tokens
  · rw [if_pos hone]
  · rw [if_neg hone]
    exact div_nonneg (sub_nonneg.mpr (le_of_not_ge hone)) hsound.rate.le

end TokenBucket
