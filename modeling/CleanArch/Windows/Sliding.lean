import Mathlib.Algebra.Order.Group.Defs
import Mathlib.Algebra.Order.Group.Unbundled.Basic
import Mathlib.Algebra.Order.Monoid.Defs
import Mathlib.Data.List.Basic
import Mathlib.Data.List.Nodup
import Mathlib.Data.List.Perm.Subperm

/-!
# Sliding windows

A window moves with the instant `t` that it ends at. A rate is bounded at every instant as soon as
it is bounded at the instants of the events.
-/

namespace CleanArch

open List

/-- `inside t s`: the instant `s` is in the window that ends at `t`. -/
structure Window (T : Type) [LinearOrder T] where
  inside : T → T → Bool
  le_of_inside : ∀ {t s : T}, inside t s = true → s ≤ t
  inside_of_le : ∀ {t u s : T}, inside t s = true → s ≤ u → u ≤ t → inside u s = true

namespace Window

variable {T : Type} [LinearOrder T]

section Length

variable [AddCommGroup T] [IsOrderedAddMonoid T]

/-- The window `(t - w, t]`. -/
def halfOpen (w : T) : Window T where
  inside t s := decide (t - w < s ∧ s ≤ t)
  le_of_inside h := (of_decide_eq_true h).2
  inside_of_le h hs hu :=
    decide_eq_true ⟨(sub_le_sub_right hu w).trans_lt (of_decide_eq_true h).1, hs⟩

/-- The window `[t - w, t]`. -/
def closed (w : T) : Window T where
  inside t s := decide (t - w ≤ s ∧ s ≤ t)
  le_of_inside h := (of_decide_eq_true h).2
  inside_of_le h hs hu :=
    decide_eq_true ⟨(sub_le_sub_right hu w).trans (of_decide_eq_true h).1, hs⟩

variable {s : T}

lemma halfOpen_inside : (halfOpen w).inside t s = true ↔ t - w < s ∧ s ≤ t := decide_eq_true_iff

lemma closed_inside : (closed w).inside t s = true ↔ t - w ≤ s ∧ s ≤ t := decide_eq_true_iff

end Length

variable (W : Window T)

/-- How many events of a log are in the window that ends at `t`. -/
def count (t : T) (l : List T) : Nat := l.countP (W.inside t)

/-- No window has more than `m` events of the log. -/
def Bounded (m : Nat) (l : List T) : Prop := ∀ t, W.count t l ≤ m

variable {W}

lemma bounded_nil : W.Bounded m [] := fun _ => Nat.zero_le m

lemma count_append_of_outside {t : T} {old : List T} (h : ∀ x ∈ old, ¬ W.inside t x = true) :
    W.count t (old ++ l) = W.count t l := by
  rw [count, countP_append, countP_eq_zero.mpr h, Nat.zero_add]
  rfl

lemma Bounded.snoc (h : W.Bounded m l) (hl : ∀ x ∈ l, x ≤ s) (hs : W.count s (l ++ [s]) ≤ m) :
    W.Bounded m (l ++ [s]) := by
  intro t
  rcases le_or_gt s t with hst | hts
  · refine le_trans (countP_mono_left fun x hx hin => ?_) hs
    have hxs : x ≤ s := by
      rcases mem_append.mp hx with hx | hx
      · exact hl x hx
      · rw [mem_singleton.mp hx]
    exact W.inside_of_le hin hxs hst
  · -- the window of `t` ends before the new event
    have hout : W.inside t s = false :=
      Bool.eq_false_iff.mpr fun hin => (W.le_of_inside hin).not_gt hts
    have hsame : W.count t (l ++ [s]) = W.count t l := by
      rw [count, countP_append, countP_singleton, if_neg (by rw [hout]; decide)]
      rfl
    rw [hsame]
    exact h t

section Map

variable {A B : Type} {g : A → B} {as : List A}

lemma count_map (f : A → T) (as : List A) :
    W.count t (as.map f) = (as.filter fun a => W.inside t (f a)).length := by
  rw [count, countP_map, countP_eq_length_filter]
  rfl

lemma count_map_le {bs : List B} (has : as.Nodup) (hg : Function.Injective g)
    (h : ∀ a ∈ as, W.inside t (f a) = true → g a ∈ bs) : W.count t (as.map f) ≤ bs.length := by
  have hsub : (as.filter fun a => W.inside t (f a)).map g ⊆ bs := by
    intro b hb
    obtain ⟨a, ha, rfl⟩ := mem_map.mp hb
    obtain ⟨hmem, hin⟩ := mem_filter.mp ha
    exact h a hmem hin
  have hnodup := (has.filter fun a => W.inside t (f a)).map hg
  rw [count_map, ← length_map g]
  exact (hnodup.subperm hsub).length_le

lemma le_count_map {bs : List B} (hbs : bs.Nodup)
    (h : ∀ b ∈ bs, ∃ a ∈ as, g a = b ∧ W.inside t (f a) = true) :
    bs.length ≤ W.count t (as.map f) := by
  have hsub : bs ⊆ (as.filter fun a => W.inside t (f a)).map g := by
    intro b hb
    obtain ⟨a, ha, rfl, hin⟩ := h b hb
    exact mem_map_of_mem (mem_filter.mpr ⟨ha, hin⟩)
  rw [count_map, ← length_map g]
  exact (hbs.subperm hsub).length_le

end Map

end Window
end CleanArch
