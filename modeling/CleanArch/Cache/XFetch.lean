import Mathlib.Algebra.Order.Ring.Rat
import Mathlib.Tactic.Linarith
import Mathlib.Tactic.Positivity

/-!
# Early recomputation of cached values

`app/core/dsa/xfetch.py`. Times and random numbers are those of any ordered field, and `log` is any
function: the source's are floating-point numbers.
-/

namespace CleanArch

structure XFetchEnvelope (K V : Type) where
  val : V
  delta : K
  expiry : K
  deriving DecidableEq

/-- `should_recompute`; `fresh` is the random number that it draws when none is given. -/
def shouldRecompute {K : Type} [Field K] [LinearOrder K] (log : K → K)
    (delta expiry now beta : K) (randVal : Option K) (fresh : K) : Bool :=
  if now ≥ expiry then true
  else
    let effectiveDelta := max delta (1 / 1000)
    let effectiveBeta := max beta (1 / 1000)
    let r := match randVal with
      | none => fresh
      | some r => max (min r 1) (1 / 1000000000)
    let probabilisticThreshold := -effectiveBeta * effectiveDelta * log r
    probabilisticThreshold > expiry - now

variable {K : Type} [Field K] [LinearOrder K]

lemma shouldRecompute_iff (log : K → K) : shouldRecompute log delta expiry now beta (some r) fresh ↔
    expiry ≤ now ∨ expiry - now < max beta (1 / 1000) * max delta (1 / 1000) *
      -log (max (min r 1) (1 / 1000000000)) := by
  unfold shouldRecompute
  split
  · exact iff_of_true rfl (.inl ‹_›)
  · rw [decide_eq_true_iff, or_iff_right ‹_›, gt_iff_lt, mul_neg, neg_mul, neg_mul]

/-- **Early refreshes are monotone**, for any logarithm: a later time, an earlier expiry, a larger
`delta` or `beta` and a smaller random number only add to them. An expired value is refreshed, and
at 1 no other one is. -/
theorem should_recompute_mono [IsStrictOrderedRing K] (log : K → K)
    (hlog : StrictMonoOn log (Set.Ioi 0)) (hone : log 1 = 0) :
    (∀ delta delta' expiry expiry' now now' beta beta' r r' fresh fresh', delta ≤ delta' →
      expiry' ≤ expiry → now ≤ now' → beta ≤ beta' → r' ≤ r →
      shouldRecompute log delta expiry now beta (some r) fresh →
      shouldRecompute log delta' expiry' now' beta' (some r') fresh') ∧
    (∀ delta expiry now beta randVal fresh, expiry ≤ now →
      shouldRecompute log delta expiry now beta randVal fresh) ∧
    ∀ delta expiry now beta r fresh, 1 ≤ r → now < expiry →
      shouldRecompute log delta expiry now beta (some r) fresh = false := by
  refine ⟨?_, fun delta expiry now beta randVal fresh h => if_pos h, ?_⟩
  · intro delta delta' expiry expiry' now now' beta beta' r r' fresh fresh' hd he hn hb hr h
    rw [shouldRecompute_iff] at h ⊢
    refine h.imp (fun hle => he.trans (hle.trans hn)) fun hlt => ?_
    have hclamp : ∀ x : K, 0 < max (min x 1) (1 / 1000000000) := fun x =>
      lt_max_of_lt_right (by norm_num)
    have hlog' : log (max (min r' 1) (1 / 1000000000)) ≤ log (max (min r 1) (1 / 1000000000)) :=
      hlog.monotoneOn (hclamp r') (hclamp r) (max_le_max_right _ (min_le_min_right _ hr))
    have hneg : log (max (min r 1) (1 / 1000000000)) ≤ 0 := hone ▸
      hlog.monotoneOn (hclamp r) one_pos (max_le (min_le_right _ _) (by norm_num))
    have hb' := max_le_max_right (1 / 1000) hb
    have hd' := max_le_max_right (1 / 1000) hd
    have hpos : ∀ x : K, 0 ≤ max x (1 / 1000) := fun x => le_max_of_le_right (by norm_num)
    calc expiry' - now' ≤ expiry - now := by linarith
      _ < _ := hlt
      _ ≤ _ := mul_le_mul (mul_le_mul hb' hd' (hpos _) (hpos _)) (by linarith) (by linarith)
        (mul_nonneg (hpos _) (hpos _))
  · intro delta expiry now beta r fresh hr hlt
    have hclamp : max (1 : K) (1 / 1000000000) = 1 := max_eq_left (by norm_num)
    rw [← Bool.not_eq_true, shouldRecompute_iff, min_eq_right hr, hclamp, hone]
    simpa using ⟨hlt, hlt.le⟩

/-- With `x - 1` for the logarithm. -/
theorem should_recompute_mono_affine :
    shouldRecompute (fun x : ℚ => x - 1) 2 9 8.75 1 (some 0.5) 0 :=
  (should_recompute_mono (fun x : ℚ => x - 1) (fun x _ y _ h => by simpa using h) (by norm_num)).1
    1 2 9 9 8.75 8.75 1 1 0.5 0.5 0 0 (by norm_num) le_rfl le_rfl le_rfl le_rfl
    (by decide +kernel)

end CleanArch
