import CleanArch.Decimals.Context
import CleanArch.Ledger.Types

/-!
# The token bucket

`check_token_bucket` and `get_token_bucket_status` of `RateLimiterService`
(`app/services/rate_limiter_service.py`), with the Lua script that they share with
`app/core/dsa/token_bucket.lua`.

- **Numbers** are exact while the script computes. What it writes and returns are texts, with 14
  significant digits (`tostring`).
- **The script** runs once in a call; loading it is left out. It believes every clock: a call with
  an old time sets `last_updated` back, and the next one refills the same seconds again.
- **The key** is the hash with the deadline that `EXPIRE` gives it, on the clock of the calls.
-/

namespace CleanArch

open Decimals List

/-- Lua's `tostring` of a number, which is `%.14g`. -/
def tostring (x : ℚ) : ℚ := roundAt (adjusted x - 13) x

/-- The hash at the key, and when the key expires. -/
structure BucketKey where
  tokens : ℚ
  lastUpdated : Time
  expiresAt : Time
  deriving DecidableEq

/-- `(is_limited, remaining_tokens, retry_after)`. -/
structure BucketCheck where
  isLimited : Bool
  remainingTokens : ℚ
  retryAfter : ℚ
  deriving DecidableEq

structure BucketStatus where
  key : String
  tokens : ℚ
  capacity : ℚ
  refillRate : ℚ
  ttlSeconds : Int
  lastUpdated : Option Time

def tokenBucketKey (key : String) : String :=
  if "ratelimit:".toList.isPrefixOf key.toList then key else "ratelimit:tokenbucket:" ++ key

section Calls

variable (capacity refillRate : ℚ) (now : Time) (data : Option BucketKey)

/-- The tokens of a bucket at `now`. The status computes the same as the script. -/
def effectiveTokens : ℚ :=
  match data with
  | none => capacity
  | some k => min capacity (k.tokens + max 0 (now - k.lastUpdated) * refillRate)

def bucketTtl : Int := if refillRate > 0 then ⌈capacity / refillRate⌉ + 2 else 3600

/-- `BUCKET_LUA_SCRIPT`, from `HMGET` to `EXPIRE`. -/
def checkTokenBucket (requested : ℚ) : BucketCheck × BucketKey :=
  let tokens := effectiveTokens capacity refillRate now data
  let expiresAt := now + bucketTtl capacity refillRate
  if tokens ≥ requested then
    (⟨false, tostring (tokens - requested), 0⟩,
      ⟨tostring (tokens - requested), tostring now, expiresAt⟩)
  else
    let retryAfter := if refillRate > 0 then (requested - tokens) / refillRate else 3600
    (⟨true, tostring tokens, tostring retryAfter⟩, ⟨tostring tokens, tostring now, expiresAt⟩)

/-- The reply of `TTL` is -2 without the key, and rounded to seconds with it. -/
def getTokenBucketStatus (key : String) : BucketStatus where
  key := tokenBucketKey key
  tokens := effectiveTokens capacity refillRate now data
  capacity := capacity
  refillRate := refillRate
  ttlSeconds := data.elim (-2) fun k => ⌊k.expiresAt - now + 1 / 2⌋
  lastUpdated := data.map (·.lastUpdated)

end Calls

/-- A key that is always used with one capacity and one rate. -/
structure TokenBucket where
  key : String
  capacity : ℚ
  refillRate : ℚ
  capacity_pos : 0 < capacity
  refillRate_pos : 0 < refillRate

namespace TokenBucket

variable (b : TokenBucket) {now t : Time} {data : Option BucketKey} {q : ℚ}

def tokensAt (now : Time) (data : Option BucketKey) : ℚ :=
  effectiveTokens b.capacity b.refillRate now data

def check (q : ℚ) (now : Time) (data : Option BucketKey) : BucketCheck × BucketKey :=
  checkTokenBucket b.capacity b.refillRate now data q

/-- The tokens that the script has at its end. -/
def left (q : ℚ) (now : Time) (data : Option BucketKey) : ℚ :=
  if q ≤ b.tokensAt now data then b.tokensAt now data - q else b.tokensAt now data

lemma check_key (q : ℚ) (now : Time) (data : Option BucketKey) : (b.check q now data).2 =
    ⟨tostring (b.left q now data), tostring now, now + bucketTtl b.capacity b.refillRate⟩ := by
  unfold check checkTokenBucket left tokensAt
  dsimp only
  split <;> rfl

lemma tokensAt_le (now : Time) (data : Option BucketKey) : b.tokensAt now data ≤ b.capacity := by
  cases data with
  | none => exact le_rfl
  | some k => exact min_le_left _ _

lemma tokensAt_nonneg (h : ∀ k ∈ data, 0 ≤ k.tokens) (now : Time) : 0 ≤ b.tokensAt now data := by
  cases data with
  | none => exact b.capacity_pos.le
  | some k =>
    have hrefill := mul_nonneg (le_max_left 0 (now - k.lastUpdated)) b.refillRate_pos.le
    exact le_min b.capacity_pos.le (add_nonneg (h k rfl) hrefill)

lemma left_nonneg (h : ∀ k ∈ data, 0 ≤ k.tokens) (q : ℚ) (now : Time) : 0 ≤ b.left q now data := by
  unfold left
  split
  · next hge => exact sub_nonneg.mpr hge
  · exact b.tokensAt_nonneg h now

/-- The tokens that a call is granted. -/
def grant (q : ℚ) (now : Time) (data : Option BucketKey) : ℚ :=
  if (b.check q now data).1.isLimited then 0 else q

/-- The sum of `f` over a sequence of calls. -/
def total (f : ℚ → Time → Option BucketKey → ℚ) : Option BucketKey → List (ℚ × Time) → ℚ
  | _, [] => 0
  | data, (q, now) :: calls => f q now data + total f (b.check q now data).2 calls

variable {b}

end TokenBucket

end CleanArch
