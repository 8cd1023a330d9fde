/-
# Token buckets

A bucket fills at a constant rate up to its size and every admission costs one token.
The fill is computed when a request arrives, from the time of the last one. How many
requests are admitted in an interval of time is bounded by a potential: an admission
pays for itself out of the tokens, and the tokens grow with the time passed.
-/

import Mathlib.Algebra.Order.Field.Basic
import Mathlib.Tactic.Linarith
import Mathlib.Tactic.Ring

namespace Fastwire.Lib

universe u

/-- The tokens a bucket held when it was last used. -/
structure Bucket (K : Type u) where
  tokens : K
  last : K
  deriving DecidableEq

namespace Bucket

variable {K : Type u} [Field K] [LinearOrder K]

def full (burst now : K) : Bucket K := ⟨burst, now⟩

/-- The tokens that have come in since the last use, as far as there is room. -/
def refill (rate burst now : K) (b : Bucket K) : Bucket K :=
  if now - b.last > 0 then ⟨min burst (b.tokens + (now - b.last) * rate), now⟩ else b

/-- A token for an admission, if there is one. -/
def take (b : Bucket K) : Bucket K × Bool :=
  if b.tokens < 1 then (b, false) else ({ b with tokens := b.tokens - 1 }, true)

/-- A request: the bucket is refilled and asked for a token. -/
def request (rate burst now : K) (b : Bucket K) : Bucket K × Bool := (b.refill rate burst now).take

/-- The tokens are in range. -/
def Within (burst : K) (b : Bucket K) : Prop := 0 ≤ b.tokens ∧ b.tokens ≤ burst

variable {rate burst now : K} {b : Bucket K}

/-! ## One request -/

theorem take_last (b : Bucket K) : b.take.1.last = b.last := by
  unfold take
  split <;> rfl

/-- The tokens after a request, together with the one that was handed out. -/
theorem take_tokens (b : Bucket K) :
    b.take.1.tokens + (if b.take.2 then 1 else 0) = b.tokens := by
  unfold take
  split <;> simp

theorem full_within (hburst : 0 ≤ burst) : (full burst now).Within burst := ⟨hburst, le_refl _⟩

variable [IsStrictOrderedRing K]

theorem refill_last (hnow : b.last ≤ now) : (b.refill rate burst now).last = now := by
  unfold refill
  split
  · rfl
  · linarith

theorem request_last (hnow : b.last ≤ now) : (b.request rate burst now).1.last = now := by
  rw [request, take_last, refill_last hnow]

theorem Within.refill (h : b.Within burst) (hrate : 0 ≤ rate) (hburst : 0 ≤ burst) :
    (b.refill rate burst now).Within burst := by
  unfold Bucket.refill
  split
  · rename_i hlater
    have hgain : 0 ≤ (now - b.last) * rate := mul_nonneg (le_of_lt hlater) hrate
    exact ⟨le_min hburst (add_nonneg h.1 hgain), min_le_left _ _⟩
  · exact h

theorem Within.take (h : b.Within burst) : b.take.1.Within burst := by
  unfold Bucket.take
  split
  · exact h
  · rename_i hone
    exact ⟨by simp only; linarith, by simp only; linarith [h.2]⟩

theorem Within.request (h : b.Within burst) (hrate : 0 ≤ rate) (hburst : 0 ≤ burst) :
    (b.request rate burst now).1.Within burst :=
  (h.refill hrate hburst).take

/-- Nobody who asks leaves a full bucket behind: either a token is gone or there was
none to take. -/
theorem Within.take_tokens_lt (h : b.Within burst) (hburst : 1 ≤ burst) :
    b.take.1.tokens < burst := by
  have hmax := h.2
  unfold Bucket.take
  split
  · linarith
  · simp only
    linarith

/-- A refill adds no more than the time passed is worth. -/
theorem refill_tokens_le (hrate : 0 ≤ rate) (hnow : b.last ≤ now) :
    (b.refill rate burst now).tokens ≤ b.tokens + rate * (now - b.last) := by
  unfold refill
  split
  · exact (min_le_right _ _).trans_eq (by ring)
  · have hgain : 0 ≤ rate * (now - b.last) := mul_nonneg hrate (sub_nonneg.mpr hnow)
    linarith

/-! ## Admissions in an interval -/

/-- The account of an interval `[t, t + d]`: `n` admissions so far. As long as the
interval lasts, they and the tokens left are covered by one full bucket and the time
since `t`. -/
structure Covered (rate burst t d : K) (b : Bucket K) (n : ℕ) : Prop where
  within : b.Within burst
  early : b.last < t → n = 0
  paid : t ≤ b.last → b.last ≤ t + d → n + b.tokens ≤ burst + rate * (b.last - t)
  bound : (n : K) ≤ burst + rate * d

/-- Does an admission at this time count? -/
def counts (t d now : K) (admitted : Bool) : ℕ :=
  if admitted = true ∧ t ≤ now ∧ now ≤ t + d then 1 else 0

variable {t d : K} {n : ℕ}

/-- Before anything is admitted, every bucket in range is covered. -/
theorem Within.covered (h : b.Within burst) (hrate : 0 ≤ rate) (hburst : 0 ≤ burst)
    (hd : 0 ≤ d) : Covered rate burst t d b 0 where
  within := h
  early _ := rfl
  paid hlow _ := by
    have hgain : 0 ≤ rate * (b.last - t) := mul_nonneg hrate (sub_nonneg.mpr hlow)
    have hmax := h.2
    rw [Nat.cast_zero]
    linarith
  bound := by
    rw [Nat.cast_zero]
    exact add_nonneg hburst (mul_nonneg hrate hd)

/-- A request at a time outside of the interval changes nothing in the account. -/
theorem Covered.request_outside (h : Covered rate burst t d b n) (hrate : 0 ≤ rate)
    (hburst : 0 ≤ burst) (hnow : b.last ≤ now) (hout : now < t ∨ t + d < now) :
    Covered rate burst t d (b.request rate burst now).1 n where
  within := h.within.request hrate hburst
  early hlast := by
    rw [request_last hnow] at hlast
    exact h.early (hnow.trans_lt hlast)
  paid hlow hhigh := by
    rw [request_last hnow] at hlow hhigh
    rcases hout with hout | hout
    · exact absurd hlow (not_le.mpr hout)
    · exact absurd hhigh (not_le.mpr hout)
  bound := h.bound

/-- A request inside of the interval pays for what it admits. -/
theorem Covered.request_inside (h : Covered rate burst t d b n) (hrate : 0 ≤ rate)
    (hburst : 0 ≤ burst) (hnow : b.last ≤ now) (hlow : t ≤ now) (hhigh : now ≤ t + d) :
    Covered rate burst t d (b.request rate burst now).1
      (n + if (b.request rate burst now).2 then 1 else 0) := by
  have hwithin : (b.request rate burst now).1.Within burst := h.within.request hrate hburst
  -- the tokens after the refill
  have hfilled : n + (b.refill rate burst now).tokens ≤ burst + rate * (now - t) := by
    by_cases hlast : b.last < t
    · have hfull : (b.refill rate burst now).Within burst := h.within.refill hrate hburst
      have hmax := hfull.2
      have hgain : 0 ≤ rate * (now - t) := mul_nonneg hrate (sub_nonneg.mpr hlow)
      rw [h.early hlast, Nat.cast_zero]
      linarith
    · have hpaid := h.paid (not_lt.mp hlast) (hnow.trans hhigh)
      have hrefill : (b.refill rate burst now).tokens ≤ b.tokens + rate * (now - b.last) :=
        refill_tokens_le hrate hnow
      calc n + (b.refill rate burst now).tokens
          ≤ n + (b.tokens + rate * (now - b.last)) := by linarith
        _ ≤ burst + rate * (b.last - t) + rate * (now - b.last) := by linarith
        _ = burst + rate * (now - t) := by ring
  have htaken := take_tokens (b.refill rate burst now)
  have hpaid : ((n + if (b.request rate burst now).2 then 1 else 0 : ℕ) : K) +
      (b.request rate burst now).1.tokens ≤ burst + rate * (now - t) := by
    unfold request
    rw [Nat.cast_add, Nat.cast_ite, Nat.cast_one, Nat.cast_zero]
    linarith
  have hworth : rate * (now - t) ≤ rate * d :=
    mul_le_mul_of_nonneg_left (by linarith) hrate
  exact
    { within := hwithin
      early := fun hlast => by
        rw [request_last hnow] at hlast
        exact absurd hlow (not_le.mpr hlast)
      paid := fun _ _ => by rw [request_last hnow]; exact hpaid
      bound := by
        have hnonneg := hwithin.1
        linarith }

/-- **The step of the account**: every request keeps it, counting what it admits. -/
theorem Covered.request (h : Covered rate burst t d b n) (hrate : 0 ≤ rate) (hburst : 0 ≤ burst)
    (hnow : b.last ≤ now) :
    Covered rate burst t d (b.request rate burst now).1
      (n + counts t d now (b.request rate burst now).2) := by
  by_cases hin : t ≤ now ∧ now ≤ t + d
  · have hcounts : counts t d now (b.request rate burst now).2 =
        if (b.request rate burst now).2 then 1 else 0 := by
      simp [counts, hin]
    rw [hcounts]
    exact h.request_inside hrate hburst hnow hin.1 hin.2
  · have hcounts : counts t d now (b.request rate burst now).2 = 0 := by
      rw [counts, if_neg (fun hall => hin hall.2)]
    rw [hcounts, Nat.add_zero]
    apply h.request_outside hrate hburst hnow
    rcases not_and_or.mp hin with hlow | hhigh
    · exact .inl (not_le.mp hlow)
    · exact .inr (not_le.mp hhigh)

end Bucket

end Fastwire.Lib
