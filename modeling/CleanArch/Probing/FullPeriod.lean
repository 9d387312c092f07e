import Mathlib.Data.Fintype.EquivFin
import Mathlib.Data.Int.GCD
import Mathlib.Data.Int.ModEq
import Mathlib.Tactic.LinearCombination
import Mathlib.Tactic.Ring

/-!
# The period of `x ↦ 5 * x + c` modulo a power of two

The slots that the recurrence visits, for any `c`. From `x` the `n`-th one is `x + cycle n * (4 * x
+ c)`, where `cycle` is the recurrence with `c = 1` from zero.
-/

namespace CleanArch
namespace Probing

open Int Nat

/-- The recurrence `x ↦ 5 * x + 1` from zero. -/
def cycle : Nat → Nat
  | 0 => 0
  | n + 1 => 5 * cycle n + 1

lemma four_mul_cycle (n : Nat) : 4 * cycle n + 1 = 5 ^ n := by
  induction n with
  | zero => rfl
  | succ n ih =>
    rw [cycle, pow_succ, ← ih]
    ring

lemma cycle_add : cycle (m + n) = 5 ^ n * cycle m + cycle n := by
  induction n with
  | zero => simp [cycle]
  | succ n ih =>
    rw [← add_assoc, cycle, ih, cycle, pow_succ]
    ring

lemma cycle_two_mul : cycle (2 * n) = cycle n * (5 ^ n + 1) := by
  rw [two_mul, cycle_add]
  ring

lemma cycle_mod_two : cycle n % 2 = n % 2 := by
  induction n with
  | zero => rfl
  | succ =>
    rw [cycle]
    omega

lemma dvd_of_dvd_cycle (h : 2 ^ k ∣ cycle n) : 2 ^ k ∣ n := by
  induction k generalizing n with
  | zero => exact one_dvd n
  | succ k ih =>
    have h2 : 2 ∣ cycle n := (dvd_pow_self 2 (succ_ne_zero k)).trans h
    have heven : n % 2 = 0 := by
      rw [← cycle_mod_two]
      omega
    obtain ⟨m, rfl⟩ : 2 ∣ n := dvd_of_mod_eq_zero heven
    -- `5 ^ m + 1` is twice an odd number, so the other factor has the rest
    have hodd : 5 ^ m + 1 = 2 * (2 * cycle m + 1) := by
      have := four_mul_cycle m
      omega
    have hdvd : 2 * 2 ^ k ∣ 2 * (cycle m * (2 * cycle m + 1)) := by
      rw [cycle_two_mul, hodd, pow_succ] at h
      convert h using 1
      all_goals ring
    have hcop : Nat.Coprime (2 ^ k) (2 * cycle m + 1) := by
      refine Nat.Coprime.pow_left k ?_
      simp
    have hm := ih (hcop.dvd_of_dvd_mul_right (Nat.dvd_of_mul_dvd_mul_left (by decide) hdvd))
    rw [pow_succ, Nat.mul_comm]
    exact mul_dvd_mul_left 2 hm

lemma cycle_inj (hn : n < 2 ^ k) (hm : m ≤ n) (h : cycle m ≡ cycle n [MOD 2 ^ k]) : m = n := by
  obtain ⟨d, rfl⟩ := Nat.exists_eq_add_of_le hm
  rw [Nat.add_comm, cycle_add] at h
  have hdvd : 2 ^ k ∣ 5 ^ m * cycle d := by
    have h0 : 0 ≡ 5 ^ m * cycle d [MOD 2 ^ k] := by
      refine Nat.ModEq.add_right_cancel' (cycle m) ?_
      rwa [zero_add]
    exact (modEq_zero_iff_dvd.mp h0.symm)
  have hcop : Nat.Coprime (2 ^ k) (5 ^ m) := Nat.Coprime.pow k m (by decide)
  have hd := dvd_of_dvd_cycle (hcop.dvd_of_dvd_mul_left hdvd)
  have hlt : d < 2 ^ k := by omega
  have hzero : d = 0 := eq_zero_of_dvd_of_lt hd hlt
  omega

lemma exists_cycle : ∃ n, cycle n ≡ y [MOD 2 ^ k] := by
  have hpos : 0 < 2 ^ k := Nat.two_pow_pos k
  let f : Fin (2 ^ k) → Fin (2 ^ k) := fun n => ⟨cycle n % 2 ^ k, Nat.mod_lt _ hpos⟩
  have hinj : Function.Injective f := by
    intro m n hmn
    have hmod : cycle m ≡ cycle n [MOD 2 ^ k] := congrArg Fin.val hmn
    rcases le_total m n with hle | hle
    · exact Fin.ext (cycle_inj n.isLt hle hmod)
    · exact Fin.ext (cycle_inj m.isLt hle hmod.symm).symm
  obtain ⟨n, hn⟩ := Finite.injective_iff_surjective.mp hinj ⟨y % 2 ^ k, Nat.mod_lt _ hpos⟩
  exact ⟨n, congrArg Fin.val hn⟩

/-! ## The orbit of a slot -/

lemma iterate_modEq (k : Nat) (x c : ℤ) (n : Nat) :
    (fun z : ℤ => (5 * z + c) % 2 ^ k)^[n] x ≡ x + cycle n * (4 * x + c) [ZMOD 2 ^ k] := by
  induction n with
  | zero => simp [cycle]
  | succ n ih =>
    rw [Function.iterate_succ_apply']
    refine (Int.mod_modEq _ _).trans ?_
    refine ((ih.mul_left 5).add_right c).trans ?_
    rw [cycle]
    push_cast
    ring_nf
    rfl

lemma iterate_mem (hx : 0 ≤ x ∧ x < 2 ^ k) (n : Nat) :
    0 ≤ (fun z : ℤ => (5 * z + c) % 2 ^ k)^[n] x ∧
      (fun z : ℤ => (5 * z + c) % 2 ^ k)^[n] x < 2 ^ k := by
  cases n with
  | zero => exact hx
  | succ =>
    rw [Function.iterate_succ_apply']
    have hpos : (0 : ℤ) < 2 ^ k := Int.pow_pos (by decide)
    exact ⟨Int.emod_nonneg _ hpos.ne', Int.emod_lt_of_pos _ hpos⟩

lemma exists_iterate_iff (hx : 0 ≤ x ∧ x < 2 ^ k) (hy : 0 ≤ y ∧ y < 2 ^ k) :
    (∃ n, (fun z : ℤ => (5 * z + c) % 2 ^ k)^[n] x = y) ↔
      y ≡ x [ZMOD Int.gcd (4 * x + c) (2 ^ k)] := by
  constructor
  · rintro ⟨n, rfl⟩
    have hstep := iterate_modEq k x c n
    have hg : ((Int.gcd (4 * x + c) (2 ^ k) : ℕ) : ℤ) ∣ 2 ^ k := Int.gcd_dvd_right _ _
    refine (hstep.of_dvd hg).trans ?_
    have h0 : (cycle n : ℤ) * (4 * x + c) ≡ 0 [ZMOD Int.gcd (4 * x + c) (2 ^ k)] :=
      (Int.modEq_zero_iff_dvd).mpr ((Int.gcd_dvd_left _ _).mul_left _)
    simpa using h0.add_left x
  · intro h
    obtain ⟨t, ht⟩ := h.symm.dvd
    -- by Bézout, `y - x` is a multiple of `4 * x + c` modulo `2 ^ k`
    have hgcd := gcd_eq_gcd_ab (4 * x + c) (2 ^ k)
    generalize gcdA (4 * x + c) (2 ^ k) = u at hgcd
    generalize Int.gcdB (4 * x + c) (2 ^ k) = v at hgcd
    have hpos : (0 : ℤ) < 2 ^ k := Int.pow_pos (by decide)
    obtain ⟨n, hn⟩ := exists_cycle
    have hcyc : (cycle n : ℤ) ≡ u * t [ZMOD 2 ^ k] := by
      have hcast := (natCast_modEq_iff).mpr hn
      rw [toNat_of_nonneg (Int.emod_nonneg _ hpos.ne')] at hcast
      exact hcast.trans (Int.mod_modEq _ _)
    have hmod : (fun z : ℤ => (5 * z + c) % 2 ^ k)^[n] x ≡ y [ZMOD 2 ^ k] := by
      refine (iterate_modEq k x c n).trans ?_
      refine ((hcyc.mul_right (4 * x + c)).add_left x).trans ?_
      have hy' : y = x + u * t * (4 * x + c) + 2 ^ k * (v * t) := by
        rw [hgcd] at ht
        linear_combination ht
      rw [hy']
      exact (modEq_add_fac_self).symm
    refine ⟨n, ?_⟩
    have hmem := iterate_mem (c := c) hx n
    have heq := hmod
    unfold Int.ModEq at heq
    rwa [emod_eq_of_lt hmem.1 hmem.2, emod_eq_of_lt hy.1 hy.2] at heq

end Probing
end CleanArch
