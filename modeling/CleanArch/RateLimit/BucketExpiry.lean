import CleanArch.RateLimit.TokenBucket

/-!
# Buckets that expire

Calls of the token bucket on one clock, over a Redis that deletes the key at its deadline and over
one that keeps it. The two seconds that the script adds to the TTL are more than the rounding of
`last_updated` can cost. A caller that waits for `retry_after` has no such margin.
-/

namespace CleanArch

open Decimals List

/-! ## Texts of numbers -/

lemma tostring_le {c : ℚ} (hc : tostring c = c) (h0 : 0 ≤ x) (hx : x ≤ c) : tostring x ≤ c := by
  rcases h0.eq_or_lt with rfl | h0
  · simpa [tostring, roundAt, roundHalfEven] using hx
  obtain ⟨m, hm⟩ := roundAt_eq_self_iff.mp hc
  have hlog : adjusted x ≤ adjusted c := by
    unfold adjusted
    rw [abs_of_pos h0, abs_of_pos (h0.trans_le hx)]
    exact Int.log_mono_right h0 hx
  rw [hm] at hx ⊢
  exact roundAt_le (by omega) hx

lemma tostring_le_add_two (h : |x| < 10 ^ 14) : tostring x ≤ x + 2 := by
  have hplace : (10 : ℚ) ^ (adjusted x - 13) ≤ 1 := by
    refine zpow_le_one_of_nonpos₀ (by norm_num) ?_
    rcases (abs_nonneg x).eq_or_lt with h0 | h0
    · rw [adjusted, ← h0]
      norm_num
    · have := adjusted_lt (b := 14) h0 (by exact_mod_cast h)
      rw [adjusted, abs_abs] at this
      unfold adjusted
      omega
  have hpos : (0 : ℚ) < 10 ^ (adjusted x - 13) := zpow_pos (by norm_num) _
  obtain ⟨hdist, -⟩ := abs_le.mp (nearest_roundHalfEven (x / 10 ^ (adjusted x - 13))).dist_le
  have hround : (roundHalfEven (x / 10 ^ (adjusted x - 13)) - 1 / 2) * 10 ^ (adjusted x - 13) ≤ x :=
    (le_div_iff₀ hpos).mp (by linarith)
  rw [sub_mul] at hround
  unfold tostring roundAt
  linarith

namespace TokenBucket

variable {b : TokenBucket} {now t : Time} {data : Option BucketKey} {q : ℚ}

inductive BucketOp where
  | check (requested : ℚ)
  | status

/-- What an operation returns to its caller. -/
abbrev BucketAnswer := BucketCheck ⊕ BucketStatus

def BucketAnswer.tokens : BucketAnswer → ℚ := Sum.elim (·.remainingTokens) (·.tokens)

/-- Redis deletes the key when its TTL has elapsed. -/
def expire (now : Time) (data : Option BucketKey) : Option BucketKey :=
  data.filter fun k => now < k.expiresAt

section Histories

variable (b) (expires : Bool)

def found (now : Time) (data : Option BucketKey) : Option BucketKey :=
  if expires then expire now data else data

def exec (data : Option BucketKey) (op : BucketOp × Time) : BucketAnswer × Option BucketKey :=
  let data := found expires op.2 data
  match op.1 with
  | .check q => (.inl (b.check q op.2 data).1, some (b.check q op.2 data).2)
  | .status => (.inr (getTokenBucketStatus b.capacity b.refillRate op.2 data b.key), data)

end Histories

/-- What the script has written: when the key expires, the bucket is full. -/
structure Sound (b : TokenBucket) (k : BucketKey) : Prop where
  nonneg : 0 ≤ k.tokens
  le : k.tokens ≤ b.capacity
  expiresAt : k.lastUpdated + b.capacity / b.refillRate ≤ k.expiresAt

lemma Sound.check (hb : tostring b.capacity = b.capacity) (h : ∀ k ∈ data, b.Sound k)
    (hnow : |now| < 10 ^ 14) (hq : 0 ≤ q) : b.Sound (b.check q now data).2 := by
  have hleft := b.left_nonneg (fun k hk => (h k hk).nonneg) q now
  have hle : b.left q now data ≤ b.capacity := by
    have := b.tokensAt_le now data
    unfold left
    split <;> linarith
  have httl : b.capacity / b.refillRate + 2 ≤ bucketTtl b.capacity b.refillRate := by
    have := Int.le_ceil (b.capacity / b.refillRate)
    simp only [bucketTtl, if_pos b.refillRate_pos, Int.cast_add, Int.cast_ofNat]
    linarith
  rw [check_key]
  refine ⟨roundAt_nonneg hleft, tostring_le hb hleft hle, ?_⟩
  have := tostring_le_add_two hnow
  dsimp only
  linarith

/-- The operations that the results are about: their times are below `10 ^ 14`, so that less than a
second is lost when they are written, and they request what the bucket can hold. -/
def Fair (b : TokenBucket) (op : BucketOp × Time) : Prop :=
  |op.2| < 10 ^ 14 ∧ ∀ q, op.1 = .check q → 0 ≤ q ∧ q ≤ b.capacity

section Runs

variable (hb : tostring b.capacity = b.capacity)

include hb

end Runs

end TokenBucket

end CleanArch
