import Mathlib.Algebra.BigOperators.Intervals
import Mathlib.Algebra.Order.Field.Basic
import Mathlib.Algebra.Order.SuccPred.PartialSups
import Mathlib.Data.Rat.Floor
import Mathlib.Tactic.Linarith

/-!
# The shared token bucket

Every server takes tokens from one bucket by a script that runs atomically.  The script
trusts the clock of its caller, which may stall or be behind that of another server: the
bucket refills when a reading passes the latest one.  An expired key starts full, and
a key lives for a period after the last request, not after the latest reading
(`granted_above_rate`).

The tokens that are left are the potential of the rate bound: what a request takes and
leaves is at most what was left before it and what has been refilled since.
-/

namespace Flow.Ports.TokenBucket

open Finset

structure Limit where
  capacity : ℚ
  period : ℚ
  capacity_nonneg : 0 ≤ capacity
  period_pos : 0 < period

structure Bucket where
  tokens : ℚ
  updated : ℚ

/-- The reply, and what the script stores. -/
structure Reply where
  allowed : Bool
  thousandths : ℤ
  bucket : Bucket

variable {limit : Limit}

def tokenBucketScript (limit : Limit) (cost now : ℚ) (state : Option Bucket) : Reply :=
  let bucket := state.getD ⟨limit.capacity, now⟩
  let bucket : Bucket :=
    if now > bucket.updated then
      ⟨min limit.capacity
        (bucket.tokens + (now - bucket.updated) * limit.capacity / limit.period), now⟩
    else bucket
  let allowed := decide (bucket.tokens ≥ cost)
  let tokens := if allowed then bucket.tokens - cost else bucket.tokens
  ⟨allowed, ⌊tokens * 1000⌋, tokens, bucket.updated⟩

/-- A sequence of requests.  The key can have expired when a full period has passed since
the last request. -/
structure Requests (limit : Limit) where
  cost : ℕ → ℚ
  now : ℕ → ℚ
  expired : ℕ → Bool
  cost_nonneg : ∀ n, 0 ≤ cost n
  expired_after : ∀ n, expired (n + 1) → now n + limit.period ≤ now (n + 1)

namespace Requests

variable (requests : Requests limit)

def serve : ℕ → Reply
  | 0 => tokenBucketScript limit (requests.cost 0) (requests.now 0) none
  | n + 1 => tokenBucketScript limit (requests.cost (n + 1)) (requests.now (n + 1))
      (if requests.expired (n + 1) then none else some (serve n).bucket)

def bucket (n : ℕ) : Bucket := (requests.serve n).bucket

def granted (n : ℕ) : ℚ := if (requests.serve n).allowed then requests.cost n else 0

end Requests

/-- **One request**: what it takes and leaves was there, or has been refilled. -/
theorem script_spec {bucket : Bucket} {state : Option Bucket} (cost now : ℚ)
    (hbucket : state.getD ⟨limit.capacity, now⟩ = bucket)
    (h : 0 ≤ bucket.tokens ∧ bucket.tokens ≤ limit.capacity) :
    let reply := tokenBucketScript limit cost now state
    let taken := (if reply.allowed then cost else 0) + reply.bucket.tokens
    reply.bucket.updated = max bucket.updated now ∧ 0 ≤ reply.bucket.tokens ∧
      taken ≤ limit.capacity ∧ taken ≤ bucket.tokens +
        limit.capacity / limit.period * (reply.bucket.updated - bucket.updated) := by
  obtain ⟨full, hfull, hupdated, hnonneg, hcapacity, hrefill⟩ : ∃ full : Bucket,
      full = (if now > bucket.updated then ⟨min limit.capacity
        (bucket.tokens + (now - bucket.updated) * limit.capacity / limit.period), now⟩
      else bucket) ∧ full.updated = max bucket.updated now ∧ 0 ≤ full.tokens ∧
      full.tokens ≤ limit.capacity ∧ full.tokens ≤
        bucket.tokens + limit.capacity / limit.period * (full.updated - bucket.updated) := by
    refine ⟨_, rfl, ?_⟩
    by_cases hnow : now > bucket.updated
    · have hrefill : 0 ≤ (now - bucket.updated) * limit.capacity / limit.period :=
        div_nonneg (mul_nonneg (sub_nonneg.mpr hnow.le) limit.capacity_nonneg)
          limit.period_pos.le
      rw [if_pos hnow]
      refine ⟨(max_eq_right hnow.le).symm, le_min limit.capacity_nonneg (by linarith [h.1]),
        min_le_left _ _, (min_le_right _ _).trans (le_of_eq ?_)⟩
      show bucket.tokens + _ = bucket.tokens + _ * (now - bucket.updated)
      ring
    · rw [if_neg hnow, max_eq_left (not_lt.mp hnow), sub_self, mul_zero, add_zero]
      exact ⟨rfl, h.1, h.2, le_rfl⟩
  unfold tokenBucketScript
  dsimp only
  rw [hbucket, ← hfull]
  by_cases hcost : full.tokens ≥ cost
  · simpa [hcost] using ⟨hupdated, hcapacity, hrefill⟩
  · simpa [hcost] using ⟨hupdated, hnonneg, hcapacity, hrefill⟩

namespace Requests

variable (requests : Requests limit) (n : ℕ)

structure Level : Prop where
  nonneg : 0 ≤ (requests.bucket n).tokens
  le_capacity : requests.granted n + (requests.bucket n).tokens ≤ limit.capacity

variable {requests n}

theorem Level.tokens_le (h : requests.Level n) : (requests.bucket n).tokens ≤ limit.capacity := by
  have hgranted : 0 ≤ requests.granted n := by
    unfold granted
    split
    · exact requests.cost_nonneg n
    · exact le_rfl
  linarith [h.le_capacity]

theorem level (requests : Requests limit) (n : ℕ) : requests.Level n := by
  induction n with
  | zero =>
    have hspec := @script_spec limit _ none (requests.cost 0) (requests.now 0) rfl
      ⟨limit.capacity_nonneg, le_rfl⟩
    exact ⟨hspec.2.1, hspec.2.2.1⟩
  | succ n ih =>
    have hspec := @script_spec limit _
      (if requests.expired (n + 1) then none else some (requests.bucket n))
      (requests.cost (n + 1)) (requests.now (n + 1)) rfl (by
        split
        · exact ⟨limit.capacity_nonneg, le_rfl⟩
        · exact ⟨ih.nonneg, ih.tokens_le⟩)
    exact ⟨hspec.2.1, hspec.2.2.1⟩

/-- What a request adds to the bound, while the bucket is as old as the latest reading. -/
theorem refill (hupdated : (requests.bucket n).updated = partialSups requests.now n)
    (hafter : requests.expired (n + 1) →
      partialSups requests.now n + limit.period ≤ requests.now (n + 1)) :
    (requests.bucket (n + 1)).updated = partialSups requests.now (n + 1) ∧
      requests.granted (n + 1) + (requests.bucket (n + 1)).tokens ≤
        (requests.bucket n).tokens + limit.capacity / limit.period *
          (partialSups requests.now (n + 1) - partialSups requests.now n) := by
  have hlevel := requests.level n
  have hsups : partialSups requests.now (n + 1) =
      max (partialSups requests.now n) (requests.now (n + 1)) := partialSups_add_one _ _
  have hspec {bucket : Bucket} := @script_spec limit bucket
    (if requests.expired (n + 1) then none else some (requests.bucket n))
    (requests.cost (n + 1)) (requests.now (n + 1))
  by_cases hexpired : requests.expired (n + 1)
  · -- a full period would have filled the bucket
    have hspec := hspec (by rw [if_pos hexpired, Option.getD_none]) ⟨limit.capacity_nonneg, le_rfl⟩
    have hperiod := mul_le_mul_of_nonneg_left (le_sub_iff_add_le'.mpr (hafter hexpired))
      (div_nonneg limit.capacity_nonneg limit.period_pos.le)
    rw [div_mul_cancel₀ _ limit.period_pos.ne'] at hperiod
    rw [max_eq_right (by linarith [limit.period_pos, hafter hexpired])] at hsups
    refine ⟨hsups ▸ hspec.1.trans (max_self _), ?_⟩
    rw [hsups]
    exact hspec.2.2.1.trans (by linarith [hlevel.nonneg])
  · have hspec := hspec (by rw [if_neg hexpired, Option.getD_some])
      ⟨hlevel.nonneg, hlevel.tokens_le⟩
    rw [hupdated, ← hsups] at hspec
    exact ⟨hspec.1, hspec.1 ▸ hspec.2.2.2⟩

/-- **The bucket enforces its rate**, from any request up to any later one, when a key that has
expired is a full period older than every reading. -/
theorem granted_le_rate (requests : Requests limit) (i n : ℕ) :
    (0 ≤ (requests.bucket n).tokens ∧ (requests.bucket n).tokens ≤ limit.capacity) ∧
    ((∀ k, requests.expired (k + 1) →
        partialSups requests.now k + limit.period ≤ requests.now (k + 1)) →
      ∑ k ∈ Icc i (i + n), requests.granted k ≤ limit.capacity + limit.capacity / limit.period *
        (partialSups requests.now (i + n) - partialSups requests.now i)) := by
  refine ⟨⟨(requests.level n).nonneg, (requests.level n).tokens_le⟩, fun hafter => ?_⟩
  have hupdated (k : ℕ) : (requests.bucket k).updated = partialSups requests.now k := by
    induction k with
    | zero =>
      exact (@script_spec limit _ none (requests.cost 0) (requests.now 0) rfl
        ⟨limit.capacity_nonneg, le_rfl⟩).1.trans (max_self _)
    | succ k ih => exact (refill ih (hafter k)).1
  -- what is left after the last request is part of the bound
  suffices hsum : ∑ k ∈ Icc i (i + n), requests.granted k + (requests.bucket (i + n)).tokens ≤
      limit.capacity + limit.capacity / limit.period *
        (partialSups requests.now (i + n) - partialSups requests.now i) by
    linarith [(requests.level (i + n)).nonneg]
  induction n with
  | zero => simpa using (requests.level i).le_capacity
  | succ n ih =>
    rw [← add_assoc, sum_Icc_succ_top (by omega)]
    have hstep := (refill (hupdated (i + n)) (hafter (i + n))).2
    linarith

end Requests

/-- One token a second. -/
def onePerSecond : Limit := ⟨1, 1, by decide, by decide⟩

/-- A token at the readings 0, 0, 4, 4, 8, 8 and so on: the second of each pair finds the bucket
empty, the first of the next one finds the key expired. -/
def inPairs : Requests onePerSecond where
  cost _ := 1
  now n := (4 * (n / 2) : ℕ)
  expired n := n % 2 == 0
  cost_nonneg _ := zero_le_one
  expired_after n hexpired := by
    have hnow : 4 * (n / 2) + 1 ≤ 4 * ((n + 1) / 2) := by
      have := eq_of_beq hexpired
      omega
    show ((4 * (n / 2) : ℕ) : ℚ) + 1 ≤ (4 * ((n + 1) / 2) : ℕ)
    exact_mod_cast hnow

theorem inPairs_le_rate :
    ∑ k ∈ Icc 0 (0 + 3), inPairs.granted k = 2 ∧
      ∑ k ∈ Icc 0 (0 + 3), inPairs.granted k ≤
        1 + 1 / 1 * (partialSups inPairs.now (0 + 3) - partialSups inPairs.now 0) := by
  refine ⟨by decide +kernel, (inPairs.granted_le_rate 0 3).2 fun k hexpired => ?_⟩
  have hmono : Monotone inPairs.now := fun a b hab =>
    Nat.cast_le.mpr (Nat.mul_le_mul_left 4 (Nat.div_le_div_right hab))
  rw [hmono.partialSups_eq]
  exact inPairs.expired_after k hexpired

/-- A token taken at 100, and at 51 from a server whose clock is behind and that has looked at
the level at 50. -/
def clockBehind : Requests onePerSecond where
  cost n := if n = 1 then 0 else 1
  now n := if n = 0 then 100 else if n = 1 then 50 else 51
  expired n := n == 2
  cost_nonneg n := by split <;> decide
  expired_after n hexpired := by
    obtain rfl : n = 1 := by simpa using hexpired
    decide +kernel

/-- The key has expired a second after the last request, and the bucket starts full. -/
theorem granted_above_rate :
    ∑ k ∈ Icc 0 2, clockBehind.granted k = 2 ∧
      partialSups clockBehind.now 2 = partialSups clockBehind.now 0 := by
  decide +kernel

end Flow.Ports.TokenBucket
