import Mathlib.Algebra.Order.Floor.Ring
import Mathlib.Data.Int.Log
import Mathlib.Data.Rat.Floor
import Mathlib.Tactic.FieldSimp
import Mathlib.Tactic.Linarith
import Mathlib.Tactic.Positivity
import Mathlib.Tactic.Ring

/-!
# Decimal contexts

Decimal floating-point arithmetic with a precision, as in the General Decimal Arithmetic
specification, on exact rationals: an operation computes the exact result and rounds it to the
digits that the context keeps (`Context.round`), and `quantize` brings a value to a given place
unless this needs more digits than the precision (`Context.quantize`).
-/

namespace CleanArch
namespace Decimals

open Int

/-!
## Rounding half to even

Banker's rounding of exact rationals: to an integer (`roundHalfEven`), and to a decimal place
(`roundAt e`, a multiple of `10 ^ e`). A value that is rounded twice, at a fine place and then at a
coarse one, is off exactly if the first rounding moves it onto a midpoint, and it lies on the other
side of the midpoint than its even neighbour (`DoubleRounds`).
-/

def roundHalfEven (x : ℚ) : Int :=
  if x - ⌊x⌋ < 1 / 2 then ⌊x⌋
  else if 1 / 2 < x - ⌊x⌋ then ⌊x⌋ + 1
  else if ⌊x⌋ % 2 = 0 then ⌊x⌋
  else ⌊x⌋ + 1

/-! ## The nearest integer -/

/-- `n` is the nearest integer, the even one of two. -/
def Nearest (x : ℚ) (n : ℤ) : Prop := |x - n| < 1 / 2 ∨ |x - n| = 1 / 2 ∧ Even n

variable {x : ℚ}

lemma Nearest.dist_le (h : Nearest x n) : |x - n| ≤ 1 / 2 := by
  rcases h with h | ⟨h, -⟩
  all_goals exact h.le

lemma nearest_roundHalfEven (x : ℚ) : Nearest x (roundHalfEven x) := by
  have hlo : 0 ≤ x - ⌊x⌋ := sub_nonneg.mpr (floor_le x)
  have hhi : x - ⌊x⌋ < 1 := by linarith [lt_floor_add_one x]
  unfold roundHalfEven
  split_ifs with h1 h2 h3
  · left
    rwa [abs_of_nonneg hlo]
  · left
    rw [abs_lt]
    push_cast
    constructor <;> linarith
  · right
    rw [abs_of_nonneg hlo]
    exact ⟨by linarith, even_iff.mpr h3⟩
  · right
    have habs : |x - ((⌊x⌋ + 1 : ℤ) : ℚ)| = 1 / 2 := by
      push_cast
      rw [abs_of_nonpos (by linarith)]
      linarith
    refine ⟨habs, ?_⟩
    rw [even_iff]
    omega

lemma Nearest.unique {n m : ℤ} (hn : Nearest x n) (hm : Nearest x m) : n = m := by
  by_contra hne
  -- two nearest integers are neighbours, and both at a tie
  have hdist : ∀ {a b : ℤ}, Nearest x a → Nearest x b → ¬ a < b := by
    intro a b ha hb hab
    have hone : (a : ℚ) + 1 ≤ b := by exact_mod_cast hab
    have ha' := abs_le.mp ha.dist_le
    have hb' := abs_le.mp hb.dist_le
    have hxa : x - a = 1 / 2 := by linarith
    have hxb : x - b = -(1 / 2) := by linarith
    have hba : b = a + 1 := by
      have : (b : ℚ) = a + 1 := by linarith
      exact_mod_cast this
    have heven : ∀ {c : ℤ}, Nearest x c → |x - c| = 1 / 2 → Even c := by
      rintro c (hlt | ⟨-, hc⟩) heq
      · exact absurd heq hlt.ne
      · exact hc
    have hae := heven ha (by rw [hxa]; norm_num)
    have hbe := heven hb (by rw [hxb]; norm_num)
    rw [hba, even_add_one] at hbe
    exact hbe hae
  rcases lt_or_gt_of_ne hne with h | h
  · exact hdist hn hm h
  · exact hdist hm hn h

lemma roundHalfEven_eq_iff : roundHalfEven x = n ↔ Nearest x n := by
  constructor
  · rintro rfl
    exact nearest_roundHalfEven x
  · exact (nearest_roundHalfEven x).unique

lemma roundHalfEven_intCast (n : Int) : roundHalfEven n = n :=
  roundHalfEven_eq_iff.mpr (.inl (by simp))

lemma roundHalfEven_le {m : ℤ} (h : x ≤ m) : roundHalfEven x ≤ m := by
  by_contra hlt
  have hone : (m : ℚ) + 1 ≤ roundHalfEven x := by exact_mod_cast not_le.mp hlt
  have := (abs_le.mp (nearest_roundHalfEven x).dist_le).1
  linarith

lemma le_roundHalfEven {m : ℤ} (h : m ≤ x) : m ≤ roundHalfEven x := by
  by_contra hlt
  have hone : (roundHalfEven x : ℚ) + 1 ≤ m := by exact_mod_cast not_le.mp hlt
  have := (abs_le.mp (nearest_roundHalfEven x).dist_le).2
  linarith

lemma lt_roundHalfEven_iff {m : ℤ} (hm : Even m) : m < roundHalfEven x ↔ m + 1 / 2 < x := by
  constructor
  · intro h
    by_contra hle
    have hge : (m : ℚ) + 1 ≤ roundHalfEven x := by exact_mod_cast h
    rcases nearest_roundHalfEven x with hlt | ⟨heq, heven⟩
    · have := (abs_lt.mp hlt).1
      linarith
    · -- at the midpoint the result is even, so it is not `m + 1`
      have hlow := (abs_le.mp heq.le).1
      have hone : (roundHalfEven x : ℚ) = m + 1 := by linarith
      have hone' : roundHalfEven x = m + 1 := by exact_mod_cast hone
      rw [hone', even_add_one] at heven
      exact heven hm
  · intro h
    have := (abs_le.mp (nearest_roundHalfEven x).dist_le).2
    have hlt : (m : ℚ) < roundHalfEven x := by linarith
    exact_mod_cast hlt

/-! ## Rounding twice -/

section Twice

variable {M : ℤ} (hM : 0 < M) {x : ℚ} {k : ℤ}

include hM

lemma nearest_div_iff :
    Nearest (x / (2 * M)) n ↔ |x - n * (2 * M)| < M ∨ |x - n * (2 * M)| = M ∧ Even n := by
  have hM' : (0 : ℚ) < M := by exact_mod_cast hM
  have habs : |x / (2 * M) - n| = |x - n * (2 * M)| / (2 * M) := by
    rw [← abs_of_pos (show (0 : ℚ) < 2 * M by linarith), ← abs_div,
      abs_of_pos (show (0 : ℚ) < 2 * M by linarith)]
    congr 1
    field_simp
  unfold Nearest
  rw [habs, div_lt_iff₀ (by linarith), div_eq_iff (by linarith),
    show (1 : ℚ) / 2 * (2 * M) = M by ring]

lemma roundHalfEven_below (hlt : x < k * (2 * M) + M) (hclose : k * (2 * M) - M < x) :
    roundHalfEven (x / (2 * M)) = k := by
  refine roundHalfEven_eq_iff.mpr ((nearest_div_iff hM).mpr (.inl ?_))
  rw [abs_lt]
  constructor <;> linarith

lemma roundHalfEven_midpoint :
    roundHalfEven ((k * (2 * M) + M : ℤ) / (2 * M)) = if Even k then k else k + 1 := by
  have hM' : (0 : ℚ) < M := by exact_mod_cast hM
  refine roundHalfEven_eq_iff.mpr ((nearest_div_iff hM).mpr (.inr ?_))
  split_ifs with hk
  · refine ⟨?_, hk⟩
    push_cast
    rw [show ((k : ℚ) * (2 * M) + M - k * (2 * M)) = M by ring, abs_of_pos hM']
  · refine ⟨?_, by rw [even_add_one]; exact hk⟩
    push_cast
    rw [show ((k : ℚ) * (2 * M) + M - (k + 1) * (2 * M)) = -M by ring, abs_neg, abs_of_pos hM']

/-- **Rounding to an integer first** changes the rounding to a multiple of `2 M` exactly if the
integer is a midpoint and the value is on the other side of it than the even neighbour. -/
theorem roundHalfEven_div_iff :
    roundHalfEven (roundHalfEven x / (2 * M)) = roundHalfEven (x / (2 * M)) ↔
      ¬ ∃ k : ℤ, x ≠ (k * (2 * M) + M : ℤ) ∧ roundHalfEven x = k * (2 * M) + M ∧
        (x < (k * (2 * M) + M : ℤ) ↔ Odd k) := by
  have hM' : (1 : ℚ) ≤ M := by exact_mod_cast hM
  constructor
  · rintro heq ⟨k, hne, hmid, hside⟩
    rw [hmid, roundHalfEven_midpoint hM] at heq
    have hnear := abs_le.mp (nearest_roundHalfEven x).dist_le
    rw [hmid] at hnear
    push_cast at hnear hne hside
    rcases lt_or_gt_of_ne hne with hlt | hgt
    · -- below: rounds to `k`, which is odd
      have hodd := hside.mp hlt
      rw [roundHalfEven_below hM hlt (by linarith), if_neg (not_even_iff_odd.mpr hodd)] at heq
      omega
    · have hk : ¬ Odd k := fun h => absurd (hside.mpr h) (not_lt.mpr hgt.le)
      have hup : roundHalfEven (x / (2 * M)) = k + 1 :=
        roundHalfEven_below hM (by push_cast; linarith) (by push_cast; linarith)
      rw [hup, if_pos (not_odd_iff_even.mp hk)] at heq
      omega
  · intro hno
    by_cases hint : (roundHalfEven x : ℚ) = x
    · rw [hint]
    set n := roundHalfEven (x / (2 * M)) with hn
    have hnear := (nearest_div_iff hM).mp (nearest_roundHalfEven (x / (2 * M)))
    have hle : |x - n * (2 * M)| ≤ M := by
      rcases hnear with h | ⟨h, -⟩
      all_goals exact h.le
    obtain ⟨hlo, hhi⟩ := abs_le.mp hle
    -- the integer is not farther from the multiple than the midpoints
    have hr_hi : roundHalfEven x ≤ n * (2 * M) + M :=
      roundHalfEven_le (by push_cast; linarith)
    have hr_lo : (n - 1) * (2 * M) + M ≤ roundHalfEven x :=
      le_roundHalfEven (by push_cast; linarith)
    rcases hr_hi.lt_or_eq with hlt | heq
    · rcases hr_lo.lt_or_eq with hgt | heq'
      · refine roundHalfEven_below hM ?_ ?_
        · exact_mod_cast hlt
        · have : n * (2 * M) - M < roundHalfEven x := by linarith
          exact_mod_cast this
      · -- the lower midpoint
        have hgt : ¬ x < ((n - 1) * (2 * M) + M : ℤ) := by
          push_cast
          linarith
        have hodd : Odd (n - 1) := by
          by_contra hne
          exact hno ⟨n - 1, fun hx => hint (by rw [← heq', hx]), heq'.symm, iff_of_false hgt hne⟩
        rw [← heq', roundHalfEven_midpoint hM, if_neg (not_even_iff_odd.mpr hodd)]
        omega
    · -- the upper midpoint
      have hx : x ≠ (n * (2 * M) + M : ℤ) := fun hx => hint (by rw [heq, hx])
      have hlt : x < (n * (2 * M) + M : ℤ) := by
        refine lt_of_le_of_ne ?_ hx
        push_cast
        linarith
      have heven : ¬ Odd n := fun hodd => hno ⟨n, hx, heq, iff_of_true hlt hodd⟩
      rw [heq, roundHalfEven_midpoint hM, if_pos (not_odd_iff_even.mp heven)]

end Twice

/-! ## Decimal places -/

/-- The nearest multiple of `10 ^ e`, the even one of two. -/
def roundAt (e : ℤ) (x : ℚ) : ℚ := roundHalfEven (x / 10 ^ e) * 10 ^ e

/-- Rounding at `e` moves `x` onto a midpoint of the grid of `d`, and `x` is on the other side of it
than its even neighbour: below a midpoint over an odd multiple, or above one over an even
multiple. The first rounding moves `x` onto the midpoint if they are closer than half a unit of
`10 ^ e`. A tie goes there as well, except at the last place before `d`, where midpoints are odd. -/
def DoubleRounds (d e : ℤ) (x : ℚ) : Prop :=
  e < d ∧ ∃ k : ℤ, x ≠ (k + 1 / 2) * 10 ^ d ∧
    (|x - (k + 1 / 2) * 10 ^ d| < 10 ^ e / 2 ∨
      |x - (k + 1 / 2) * 10 ^ d| = 10 ^ e / 2 ∧ e < d - 1) ∧
    (x < (k + 1 / 2) * 10 ^ d ↔ Odd k)

lemma even_midpoint_iff : Even (k * (2 * (5 * 10 ^ n)) + 5 * 10 ^ n : ℤ) ↔ n ≠ 0 := by
  have hleft : Even (k * (2 * (5 * 10 ^ n)) : ℤ) := (even_two_mul _).mul_left k
  rw [even_add, iff_true_left hleft, even_mul, even_pow]
  simp [show ¬ Even (5 : ℤ) by decide, show Even (10 : ℤ) by decide]

lemma roundAt_roundAt_iff (h : e < d) (x : ℚ) :
    roundAt d (roundAt e x) = roundAt d x ↔ ¬ DoubleRounds d e x := by
  obtain ⟨n, rfl⟩ : ∃ n : ℕ, d = e + (n + 1) := ⟨(d - e - 1).toNat, by omega⟩
  have he : (0 : ℚ) < 10 ^ e := zpow_pos (by norm_num) e
  have hM : (0 : ℤ) < 5 * 10 ^ n := by positivity
  have hd : (10 : ℚ) ^ (e + (n + 1) : ℤ) = 10 ^ e * (2 * ((5 * 10 ^ n : ℤ) : ℚ)) := by
    rw [zpow_add₀ (by norm_num), zpow_add₀ (by norm_num), zpow_natCast, zpow_one]
    push_cast
    ring
  have hd0 : (10 : ℚ) ^ (e + (n + 1) : ℤ) ≠ 0 := (zpow_pos (by norm_num) _).ne'
  -- both sides in units of `10 ^ e`
  have hunits : roundAt (e + (n + 1)) (roundAt e x) = roundAt (e + (n + 1)) x ↔
      roundHalfEven (roundHalfEven (x / 10 ^ e) / (2 * ((5 * 10 ^ n : ℤ) : ℚ))) =
        roundHalfEven (x / 10 ^ e / (2 * ((5 * 10 ^ n : ℤ) : ℚ))) := by
    unfold roundAt
    rw [mul_left_inj' hd0, Int.cast_inj]
    have hscale : ∀ z : ℚ, z / 10 ^ (e + (n + 1) : ℤ) =
        z / 10 ^ e / (2 * ((5 * 10 ^ n : ℤ) : ℚ)) := by
      intro z
      rw [hd, div_div]
    rw [hscale, hscale, mul_div_cancel_right₀ _ he.ne']
  rw [hunits, roundHalfEven_div_iff hM, not_iff_not]
  have hmid : ∀ k : ℤ, ((k : ℚ) + 1 / 2) * 10 ^ (e + (n + 1) : ℤ) =
      ((k * (2 * (5 * 10 ^ n)) + 5 * 10 ^ n : ℤ) : ℚ) * 10 ^ e := by
    intro k
    rw [hd]
    push_cast
    ring
  unfold DoubleRounds
  rw [and_iff_right h]
  refine exists_congr fun k => ?_
  have habs : |x / 10 ^ e - ((k * (2 * (5 * 10 ^ n)) + 5 * 10 ^ n : ℤ) : ℚ)| =
      |x - ((k * (2 * (5 * 10 ^ n)) + 5 * 10 ^ n : ℤ) : ℚ) * 10 ^ e| / 10 ^ e := by
    rw [← abs_of_pos he, ← abs_div, abs_of_pos he]
    congr 1
    field_simp
  rw [hmid]
  refine and_congr (not_congr (div_eq_iff he.ne')) (and_congr ?_ ?_)
  · rw [roundHalfEven_eq_iff, Nearest, habs, div_lt_iff₀ he, div_eq_iff he.ne', even_midpoint_iff,
      show (1 : ℚ) / 2 * 10 ^ e = 10 ^ e / 2 by ring]
    exact or_congr_right (and_congr_right fun _ => by omega)
  · rw [div_lt_iff₀ he]

lemma roundAt_int_mul (m : ℤ) : roundAt e (m * 10 ^ e) = m * 10 ^ e := by
  have he : (10 : ℚ) ^ e ≠ 0 := (zpow_pos (by norm_num) e).ne'
  unfold roundAt
  rw [mul_div_cancel_right₀ _ he, roundHalfEven_intCast]

lemma roundAt_roundAt_self (e : ℤ) (x : ℚ) : roundAt e (roundAt e x) = roundAt e x :=
  roundAt_int_mul (roundHalfEven (x / 10 ^ e))

lemma roundAt_eq_self_iff : roundAt e x = x ↔ ∃ m : ℤ, x = m * 10 ^ e := by
  constructor
  · intro h
    exact ⟨roundHalfEven (x / 10 ^ e), h.symm⟩
  · rintro ⟨m, rfl⟩
    exact roundAt_int_mul m

lemma roundAt_of_le (hed : e ≤ d) (h : roundAt d x = x) : roundAt e x = x := by
  obtain ⟨m, rfl⟩ := roundAt_eq_self_iff.mp h
  obtain ⟨n, rfl⟩ : ∃ n : ℕ, d = e + n := ⟨(d - e).toNat, by omega⟩
  refine roundAt_eq_self_iff.mpr ⟨m * 10 ^ n, ?_⟩
  rw [zpow_add₀ (by norm_num), zpow_natCast]
  push_cast
  ring

lemma roundAt_add {x y : ℚ} (hx : roundAt e x = x) (hy : roundAt e y = y) :
    roundAt e (x + y) = x + y := by
  obtain ⟨m, rfl⟩ := roundAt_eq_self_iff.mp hx
  obtain ⟨k, rfl⟩ := roundAt_eq_self_iff.mp hy
  refine roundAt_eq_self_iff.mpr ⟨m + k, ?_⟩
  push_cast
  ring

lemma roundAt_neg (hx : roundAt e x = x) : roundAt e (-x) = -x := by
  obtain ⟨m, rfl⟩ := roundAt_eq_self_iff.mp hx
  refine roundAt_eq_self_iff.mpr ⟨-m, ?_⟩
  push_cast
  ring

/-- The place of the first digit of `x`. -/
def adjusted (x : ℚ) : ℤ := Int.log 10 |x|

structure Context where
  prec : ℕ
  emin : ℤ
  emax : ℤ

namespace Context

variable (c : Context)

/-- The place of the last digit that a result keeps: `prec` digits, or fewer below the smallest
exponent. -/
def lastPlace (x : ℚ) : ℤ := max (adjusted x) c.emin - c.prec + 1

/-- The result of an operation with the exact value `x`; `none` is an overflow. -/
def round (x : ℚ) : Option ℚ :=
  if c.emax < adjusted (roundAt (c.lastPlace x) x) then none else some (roundAt (c.lastPlace x) x)

/-- The value at the place `e`; `none` if it needs more digits than the precision. -/
def quantize (e : ℤ) (x : ℚ) : Option ℚ :=
  if (roundHalfEven (x / 10 ^ e)).natAbs < 10 ^ c.prec then some (roundAt e x) else none

end Context

/-! ## Sizes -/

variable {x : ℚ}

lemma le_abs_roundHalfEven {m : ℤ} (h : m ≤ |x|) : m ≤ |roundHalfEven x| := by
  rcases le_total 0 x with hx | hx
  · rw [abs_of_nonneg hx] at h
    exact (le_roundHalfEven h).trans (le_abs_self _)
  · rw [abs_of_nonpos hx] at h
    have hneg : x ≤ ((-m : ℤ) : ℚ) := by
      push_cast
      linarith
    have := roundHalfEven_le hneg
    exact le_trans (by omega) (neg_le_abs _)

lemma zpow_adjusted_le (hx : x ≠ 0) : (10 : ℚ) ^ adjusted x ≤ |x| :=
  Int.zpow_log_le_self (by norm_num) (abs_pos.mpr hx)

lemma zpow_le_abs_roundAt (hea : e ≤ a) (h : (10 : ℚ) ^ a ≤ |x|) :
    (10 : ℚ) ^ a ≤ |roundAt e x| := by
  obtain ⟨n, rfl⟩ : ∃ n : ℕ, a = e + n := ⟨(a - e).toNat, by omega⟩
  have he : (0 : ℚ) < 10 ^ e := zpow_pos (by norm_num) e
  have hsplit : (10 : ℚ) ^ (e + n : ℤ) = ((10 ^ n : ℤ) : ℚ) * 10 ^ e := by
    rw [zpow_add₀ (by norm_num), zpow_natCast]
    push_cast
    ring
  have hunits : ((10 ^ n : ℤ) : ℚ) ≤ |x / 10 ^ e| := by
    rw [abs_div, abs_of_pos he, le_div_iff₀ he, ← hsplit]
    exact h
  have hround : ((10 ^ n : ℤ) : ℚ) ≤ ((|roundHalfEven (x / 10 ^ e)| : ℤ) : ℚ) :=
    Int.cast_le.mpr (le_abs_roundHalfEven hunits)
  rw [hsplit, roundAt, abs_mul, abs_of_pos he]
  refine mul_le_mul_of_nonneg_right ?_ he.le
  exact_mod_cast hround

lemma roundAt_le (hea : e ≤ a) {m : ℤ} (h : x ≤ m * 10 ^ a) : roundAt e x ≤ m * 10 ^ a := by
  obtain ⟨n, rfl⟩ : ∃ n : ℕ, a = e + n := ⟨(a - e).toNat, by omega⟩
  have he : (0 : ℚ) < 10 ^ e := zpow_pos (by norm_num) e
  have hsplit : (m : ℚ) * 10 ^ (e + n : ℤ) = ((m * 10 ^ n : ℤ) : ℚ) * 10 ^ e := by
    rw [zpow_add₀ (by norm_num), zpow_natCast]
    push_cast
    ring
  rw [hsplit] at h ⊢
  have hunits : x / 10 ^ e ≤ ((m * 10 ^ n : ℤ) : ℚ) := (div_le_iff₀ he).mpr h
  exact mul_le_mul_of_nonneg_right (by exact_mod_cast roundHalfEven_le hunits) he.le

lemma roundAt_nonneg (h : 0 ≤ x) : 0 ≤ roundAt e x := by
  have he : (0 : ℚ) < 10 ^ e := zpow_pos (by norm_num) e
  have h0 : 0 ≤ roundHalfEven (x / 10 ^ e) := le_roundHalfEven (by simpa using div_nonneg h he.le)
  exact mul_nonneg (by exact_mod_cast h0) he.le

lemma adjusted_lt (h0 : 0 < x) (h : x < 10 ^ b) : adjusted x < b := by
  rw [adjusted, abs_of_pos h0]
  exact (Int.lt_zpow_iff_log_lt (by norm_num) h0).mp (by exact_mod_cast h)

lemma le_adjusted (h0 : 0 < x) (h : 10 ^ b ≤ x) : b ≤ adjusted x := by
  rw [adjusted, abs_of_pos h0]
  exact (Int.zpow_le_iff_le_log (by norm_num) h0).mp (by exact_mod_cast h)

section Quantize

variable {c : Context} {x : ℚ}

lemma Context.quantize_eq_some (h : c.quantize d x = some z) :
    z = roundAt d x ∧ (roundHalfEven (x / 10 ^ d)).natAbs < 10 ^ c.prec := by
  unfold Context.quantize at h
  split at h
  · cases h
    exact ⟨rfl, ‹_›⟩
  · cases h

lemma Context.round_eq_some (h : c.round x = some y) : y = roundAt (c.lastPlace x) x := by
  unfold Context.round at h
  split at h
  · cases h
  · cases h
    rfl

lemma Context.lastPlace_le (hd : c.emin - c.prec + 1 ≤ d) (hx : x ≠ 0)
    (hz : c.quantize d (roundAt (c.lastPlace x) x) = some z) (hprec : 0 < c.prec) :
    c.lastPlace x ≤ d := by
  by_contra hlt
  have hadj : d + c.prec ≤ adjusted x ∧ c.lastPlace x = adjusted x - c.prec + 1 := by
    unfold Context.lastPlace at hlt ⊢
    rcases max_choice (adjusted x) c.emin with hm | hm
    · rw [hm] at hlt ⊢
      exact ⟨by omega, rfl⟩
    · omega
  have hlarge : (10 : ℚ) ^ (d + c.prec : ℤ) ≤ |roundAt (c.lastPlace x) x| := by
    have hle : (10 : ℚ) ^ (d + c.prec : ℤ) ≤ 10 ^ adjusted x :=
      zpow_le_zpow_right₀ (by norm_num) hadj.1
    exact hle.trans (zpow_le_abs_roundAt (by omega) (zpow_adjusted_le hx))
  have hd0 : (0 : ℚ) < 10 ^ d := zpow_pos (by norm_num) d
  have hunits : (((10 ^ c.prec : ℕ) : ℤ) : ℚ) ≤ |roundAt (c.lastPlace x) x / 10 ^ d| := by
    rw [abs_div, abs_of_pos hd0, le_div_iff₀ hd0]
    refine le_trans (le_of_eq ?_) hlarge
    rw [zpow_add₀ (by norm_num), zpow_natCast]
    push_cast
    ring
  have hdigits := (Context.quantize_eq_some hz).2
  have hmany := le_abs_roundHalfEven hunits
  rw [Int.abs_eq_natAbs] at hmany
  omega

/-- **The context's rounding and then `quantize`** give the exact value rounded once, unless the
first rounding moves it onto a midpoint (`DoubleRounds`). -/
theorem Context.quantize_round_iff (hprec : 0 < c.prec) (hd : c.emin - c.prec + 1 ≤ d)
    (hy : c.round x = some y) (hz : c.quantize d y = some z) :
    z = roundAt d x ↔ ¬ DoubleRounds d (c.lastPlace x) x := by
  rw [Context.round_eq_some hy] at hz
  rw [(Context.quantize_eq_some hz).1]
  rcases lt_or_ge (c.lastPlace x) d with hlt | hge
  · exact roundAt_roundAt_iff hlt x
  · refine iff_of_true ?_ fun h => absurd h.1 (not_lt.mpr hge)
    by_cases hx : x = 0
    · simp [hx, roundAt, show roundHalfEven 0 = 0 from roundHalfEven_intCast 0]
    · rw [le_antisymm (Context.lastPlace_le hd hx hz hprec) hge, roundAt_roundAt_self]

/-- A multiple of `10 ^ d` is not rounded: the context's rounding and then `quantize` at `d` give it
back, or fail. -/
lemma Context.quantize_round_exact (hprec : 0 < c.prec) (hd : c.emin - c.prec + 1 ≤ d)
    (hx : roundAt d x = x) (hy : c.round x = some y) (hz : c.quantize d y = some z) : z = x := by
  rw [Context.round_eq_some hy] at hz
  by_cases h0 : x = 0
  · subst h0
    rw [(Context.quantize_eq_some hz).1]
    simp [roundAt, show roundHalfEven 0 = 0 from roundHalfEven_intCast 0]
  · rw [(Context.quantize_eq_some hz).1, roundAt_of_le (Context.lastPlace_le hd h0 hz hprec) hx, hx]

end Quantize

end Decimals
end CleanArch
