import CleanArch.Decimals.Context

/-!
# Rounding to binary64

The double nearest to an exact value, ties to even. Values are far from the limits of the exponent:
there are no infinities and no subnormal numbers here.

* `abs_binary64_sub_le`: the error of a value below `2 ^ n` is at most `2 ^ (n - 54)`.
-/

namespace CleanArch
namespace Floats

open Decimals

/-- The exponent of the last of the 53 bits. -/
def lastPlace (x : ℚ) : ℤ := Int.log 2 |x| - 52

def binary64 (x : ℚ) : ℚ := roundHalfEven (x / 2 ^ lastPlace x) * 2 ^ lastPlace x

lemma abs_binary64_sub_le {n : ℤ} (h : |x| < 2 ^ n) : |binary64 x - x| ≤ 2 ^ (n - 54) := by
  by_cases hx : x = 0
  · have hzero : binary64 0 = 0 := by
      rw [binary64, zero_div, ← Int.cast_zero, roundHalfEven_intCast, Int.cast_zero, zero_mul]
    rw [hx, hzero, sub_zero, abs_zero]
    exact (zpow_pos (by norm_num) _).le
  have hpos : (0 : ℚ) < 2 ^ lastPlace x := zpow_pos (by norm_num) _
  have hlog : Int.log 2 |x| < n := (Int.lt_zpow_iff_log_lt (by decide) (abs_pos.mpr hx)).mp h
  have hplace : lastPlace x ≤ n - 53 := by
    unfold lastPlace
    omega
  calc |binary64 x - x|
      = |x / 2 ^ lastPlace x - roundHalfEven (x / 2 ^ lastPlace x)| * 2 ^ lastPlace x := by
        rw [abs_sub_comm, binary64, ← abs_of_pos hpos, ← abs_mul, abs_of_pos hpos, sub_mul,
          div_mul_cancel₀ _ hpos.ne']
    _ ≤ 1 / 2 * 2 ^ lastPlace x := by
        gcongr
        exact (nearest_roundHalfEven _).dist_le
    _ ≤ 1 / 2 * 2 ^ (n - 53) := by
        gcongr
        norm_num
    _ = 2 ^ (n - 54) := by
        rw [show n - 53 = (n - 54) + 1 by ring, zpow_add_one₀ (by norm_num)]
        ring

end Floats
end CleanArch
