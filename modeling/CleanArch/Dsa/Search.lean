import Mathlib.Algebra.Order.Ring.Rat
import Mathlib.Data.List.TakeDrop
import Mathlib.Tactic.Linarith

/-!
# Searches in sorted sequences

`app/core/dsa/search_algorithms.py`: the bisection of a key range, and the search for a pair with
two pointers. The loops carry that their indices are in bounds.
-/

namespace CleanArch

open List

variable {T K : Type} (items : List T)

variable {items} in
lemma getElem_of_le {R : T → T → Prop} (hrefl : ∀ x, R x x) (h : items.Pairwise R) {i j : Nat}
    (hi : i < items.length) (hj : j < items.length) (hij : i ≤ j) : R items[i] items[j] := by
  rcases hij.eq_or_lt with rfl | hlt
  · exact hrefl _
  · exact pairwise_iff_getElem.mp h i j hi hj hlt

/-! ## Key ranges -/

section Range

variable [LinearOrder K] (minVal maxVal : K) (key : T → K)

/-- The loop of both bisections. `right` is the test that moves `low` past `mid`. -/
def bisect (right : T → Bool) (low high : Nat) (h : high ≤ items.length) : Nat :=
  if hlt : low < high then
    let mid := (low + high) / 2
    have hmid : mid < items.length := by omega
    if right items[mid] then bisect right (mid + 1) high h
    else bisect right low mid hmid.le
  else low
termination_by high - low
decreasing_by all_goals omega

/-- The test holds below the result and not from it on, if that is so outside `low` to `high`. -/
lemma bisect_spec {p : T → Bool} (hmono : items.Pairwise fun x y => p y → p x)
    (hle : low ≤ high) (h : high ≤ items.length)
    (hlow : ∀ i (hi : i < items.length), i < low → p items[i])
    (hhigh : ∀ i (hi : i < items.length), high ≤ i → ¬ p items[i]) :
    bisect items p low high h ≤ items.length ∧
      ∀ i (hi : i < items.length), i < bisect items p low high h ↔ p items[i] := by
  induction low, high, h using bisect.induct items p with
  | case1 low high h hlt mid hmid hright ih =>
    rw [bisect, dif_pos hlt, if_pos hright]
    refine ih (by omega) (fun i hi hil => ?_) hhigh
    exact getElem_of_le (fun _ => id) hmono hi hmid (by omega) hright
  | case2 low high h hlt mid hmid hright ih =>
    rw [bisect, dif_pos hlt, if_neg hright]
    refine ih (by omega) hlow fun i hi hil hi' => hright ?_
    exact getElem_of_le (fun _ => id) hmono hmid hi hil hi'
  | case3 low high h hlt =>
    rw [bisect, dif_neg hlt]
    refine ⟨by omega, fun i hi => ⟨hlow i hi, fun hright => ?_⟩⟩
    by_contra hge
    exact hhigh i hi (by omega) hright

def binarySearchBounds : Nat × Nat :=
  if items.length = 0 ∨ minVal > maxVal then (0, 0)
  else
    let leftIdx := bisect items (fun x => key x < minVal) 0 items.length le_rfl
    if leftIdx = items.length then (items.length, items.length)
    else (leftIdx, bisect items (fun x => key x ≤ maxVal) leftIdx items.length le_rfl)

def binarySearchRange : List T :=
  let b := binarySearchBounds items minVal maxVal key
  if b.1 ≥ b.2 then [] else (items.take b.2).drop b.1

lemma slice_eq_filter {p : T → Bool} (h : ∀ i (hi : i < items.length), p items[i] ↔ a ≤ i ∧ i < b) :
    (items.take b).drop a = items.filter p := by
  conv_rhs => rw [← take_append_drop b items, ← take_append_drop a (items.take b)]
  rw [filter_append, filter_append, filter_eq_nil_iff.mpr, filter_eq_self.mpr,
    filter_eq_nil_iff.mpr, nil_append, append_nil]
  · intro x hx
    obtain ⟨i, hi, rfl⟩ := mem_drop_iff_getElem.mp hx
    rw [h]
    omega
  · intro x hx
    obtain ⟨i, hi, rfl⟩ := mem_drop_iff_getElem.mp hx
    rw [getElem_take, h]
    simp only [length_take] at hi
    omega
  · intro x hx
    obtain ⟨i, hi, rfl⟩ := mem_take_iff_getElem.mp hx
    rw [getElem_take, h]
    omega

variable (hsorted : items.Pairwise fun x y => key x ≤ key y)

include hsorted

lemma binarySearchBounds_spec : let b := binarySearchBounds items minVal maxVal key
    b.1 ≤ items.length ∧ b.2 ≤ items.length ∧ ∀ i (hi : i < items.length),
      minVal ≤ key items[i] ∧ key items[i] ≤ maxVal ↔ b.1 ≤ i ∧ i < b.2 := by
  unfold binarySearchBounds
  by_cases hempty : items.length = 0 ∨ minVal > maxVal
  · rw [if_pos hempty]
    refine ⟨Nat.zero_le _, Nat.zero_le _, fun i hi => iff_of_false (fun h => ?_) (by simp)⟩
    exact hempty.elim (by omega) (h.1.trans h.2).not_gt
  obtain ⟨-, hrange⟩ := not_or.mp hempty
  rw [if_neg hempty]
  obtain ⟨hleft, hbelow⟩ := bisect_spec items (p := fun x => key x < minVal)
    (hsorted.imp fun hxy => by simpa using hxy.trans_lt) (Nat.zero_le _) le_rfl
    (fun i _ hlt => absurd hlt i.not_lt_zero) fun i hi hge => absurd hi (by omega)
  set left := bisect items (fun x => key x < minVal) 0 items.length le_rfl
  simp only [decide_eq_true_eq] at hbelow
  by_cases hall : left = items.length
  · rw [if_pos hall]
    refine ⟨le_rfl, le_rfl, fun i hi => iff_of_false (fun h => ?_) (by simp)⟩
    exact ((hbelow i hi).mp (hall ▸ hi)).not_ge h.1
  rw [if_neg hall]
  obtain ⟨hright, habove⟩ := bisect_spec items (p := fun x => key x ≤ maxVal)
    (hsorted.imp fun hxy => by simpa using hxy.trans) hleft le_rfl
    (fun i hi hlt => by
      have hmin := (hbelow i hi).mp hlt
      simpa using (hmin.trans_le (not_lt.mp hrange)).le)
    fun i hi hge => absurd hi (by omega)
  refine ⟨hleft, hright, fun i hi => ?_⟩
  refine and_congr ?_ (by rw [habove i hi, decide_eq_true_eq])
  rw [← not_lt, ← hbelow i hi, not_lt]

/-- **Range search.** On a sorted sequence the bounds are in it, and the slice between them is what
lies in the range. -/
theorem binary_search_range_eq : (binarySearchBounds items minVal maxVal key).1 ≤ items.length ∧
      (binarySearchBounds items minVal maxVal key).2 ≤ items.length ∧
      binarySearchRange items minVal maxVal key =
        items.filter fun x => minVal ≤ key x ∧ key x ≤ maxVal := by
  obtain ⟨hleft, hright, hmem⟩ := binarySearchBounds_spec items minVal maxVal key hsorted
  refine ⟨hleft, hright, ?_⟩
  rw [← slice_eq_filter items fun i hi => decide_eq_true_iff.trans (hmem i hi)]
  refine ite_eq_right_iff.mpr fun hle => ?_
  rw [drop_eq_nil_of_le]
  exact (length_take_le _ _).trans hle

omit hsorted in
/-- Twice a key at each end of the range. -/
theorem binary_search_range_eq_duplicates :
    binarySearchRange [1, 2, 2, 4, 4, 7] 2 (4 : ℚ) id = [2, 2, 4, 4] := by
  rw [(binary_search_range_eq _ _ _ _ (by decide +kernel)).2.2]
  decide +kernel

end Range

/-! ## Pairs -/

section Pair

variable (target tolerance : ℚ) (key : T → ℚ)

/-- The loop of the two pointers. -/
def pairLoop (left right : Nat) (h : right < items.length) : Option (T × T) :=
  if hlt : left < right then
    let currentSum := key items[left] + key items[right]
    if |currentSum - target| ≤ tolerance then some (items[left], items[right])
    else if currentSum < target then pairLoop (left + 1) right h
    else pairLoop left (right - 1) (by omega)
  else none
termination_by right - left
decreasing_by all_goals omega

def twoPointerPairSearch : Option (T × T) :=
  if h : items.length < 2 then none
  else pairLoop items target tolerance key 0 (items.length - 1) (by omega)

/-- The keys of the two positions sum to the target, up to the tolerance. -/
def Pairs (i j : Nat) : Prop := ∃ (hi : i < items.length) (hj : j < items.length),
  |key items[i] + key items[j] - target| ≤ tolerance

variable (hsorted : items.Pairwise fun x y => key x ≤ key y)

include hsorted

/-- A pointer moves past a position that is in no pair of those left. -/
lemma pairLoop_spec (left right : Nat) (h : right < items.length)
    (hall : ∀ i j, i < j → Pairs items target tolerance key i j → left ≤ i ∧ j ≤ right) :
    (∀ p, pairLoop items target tolerance key left right h = some p → ∃ i j, i < j ∧
      Pairs items target tolerance key i j ∧ items[i]? = some p.1 ∧ items[j]? = some p.2) ∧
    (pairLoop items target tolerance key left right h = none →
      ∀ i j, i < j → ¬ Pairs items target tolerance key i j) := by
  have hle := @getElem_of_le _ items _ (fun x => le_refl (key x)) hsorted
  induction left, right, h using pairLoop.induct items target tolerance key with
  | case1 left right h hlt currentSum hsum =>
    rw [pairLoop, dif_pos hlt, if_pos hsum]
    refine ⟨fun p hp => ?_, fun h => by cases h⟩
    cases hp
    exact ⟨left, right, hlt, ⟨_, h, hsum⟩, getElem?_eq_getElem _, getElem?_eq_getElem h⟩
  | case2 left right h hlt currentSum hsum hless ih =>
    rw [pairLoop, dif_pos hlt, if_neg hsum, if_pos hless]
    refine ih fun i j hij hp => ?_
    obtain ⟨hli, hjr⟩ := hall i j hij hp
    obtain ⟨hi, hj, hp⟩ := hp
    refine ⟨Nat.lt_of_le_of_ne hli fun hlast => hsum ?_, hjr⟩
    subst hlast
    have hkey := hle hj h hjr
    have hnonneg := (abs_nonneg _).trans hp
    exact abs_le.mpr ⟨by linarith [(abs_le.mp hp).1], by linarith⟩
  | case3 left right h hlt currentSum hsum hless ih =>
    rw [pairLoop, dif_pos hlt, if_neg hsum, if_neg hless]
    refine ih fun i j hij hp => ?_
    obtain ⟨hli, hjr⟩ := hall i j hij hp
    obtain ⟨hi, hj, hp⟩ := hp
    refine ⟨hli, Nat.le_sub_one_of_lt (Nat.lt_of_le_of_ne hjr fun hlast => hsum ?_)⟩
    subst hlast
    have hkey := hle (hlt.trans h) hi hli
    have hnonneg := (abs_nonneg _).trans hp
    exact abs_le.mpr ⟨by linarith, by linarith [(abs_le.mp hp).2]⟩
  | case4 left right h hlt =>
    rw [pairLoop, dif_neg hlt]
    refine ⟨fun p h => (by cases h), fun _ i j hij hp => ?_⟩
    have := hall i j hij hp
    omega

/-- **Pair search.** A pair that is returned sums to the target, and `None` is returned only if no
pair does. -/
theorem two_pointer_pair_search_complete :
    (∀ p, twoPointerPairSearch items target tolerance key = some p → ∃ i j, i ≠ j ∧
      Pairs items target tolerance key i j ∧ items[i]? = some p.1 ∧ items[j]? = some p.2) ∧
    (twoPointerPairSearch items target tolerance key = none →
      ∀ i j, i ≠ j → ¬ Pairs items target tolerance key i j) := by
  unfold twoPointerPairSearch
  split
  · refine ⟨fun p h => (by cases h), fun _ i j hij hp => ?_⟩
    obtain ⟨hi, hj, -⟩ := hp
    omega
  · obtain ⟨hsome, hnone⟩ := pairLoop_spec items target tolerance key hsorted 0
      (items.length - 1) (by omega) fun i j _ hp =>
        ⟨Nat.zero_le i, Nat.le_sub_one_of_lt hp.2.1⟩
    refine ⟨fun p hp => ?_, fun h i j hij hp => ?_⟩
    · obtain ⟨i, j, hlt, hpair⟩ := hsome p hp
      exact ⟨i, j, hlt.ne, hpair⟩
    · rcases Nat.lt_or_gt_of_ne hij with hlt | hlt
      · exact hnone h i j hlt hp
      · obtain ⟨hi, hj, hp⟩ := hp
        rw [add_comm (key _)] at hp
        exact hnone h j i hlt ⟨hj, hi, hp⟩

omit hsorted in
/-- 2 and 5 are the pair. -/
theorem two_pointer_pair_search_complete_seven :
    twoPointerPairSearch [1, 2, 5, 9] 7 0 id ≠ none := by
  intro h
  refine (two_pointer_pair_search_complete _ _ _ _ (by decide +kernel)).2 h 1 2 (by decide) ?_
  exact ⟨by decide, by decide, by norm_num⟩

end Pair

end CleanArch
