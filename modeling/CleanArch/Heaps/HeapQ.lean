import Mathlib

/-!
# Heaps in an array

Python's `heapq`: `heappush`, `heappop` and the two sifts under them, as the C implementation runs
them, with exchanges. The list is a binary tree: the parent of position `i` is `(i - 1) / 2`, and
the children of `pos` are `2 * pos + 1` and `2 * pos + 2`.

- `heappush_perm`, `heappop_eq`: what is in the heap afterwards.
- `isHeap_heappush`, `heappop_eq`: it is a heap again.
- `IsHeap.head_le`: the first item of a heap is a least one.
-/

namespace CleanArch

namespace HeapQ

variable {α : Type} [Preorder α] {heap : Array α} {pos child : Nat}

/-! ## Order -/

lemma le_of_not_gt [Std.Total (α := α) (· ≤ ·)] {a b : α} (h : ¬ a < b) : b ≤ a := by
  rcases Std.Total.total (r := (· ≤ ·)) a b with hab | hba
  · by_contra hn
    exact h (lt_of_le_not_ge hab hn)
  · exact hba

/-- No item is less than its parent. -/
def IsHeap (heap : Array α) : Prop :=
  ∀ i (_ : i < heap.size), heap[(i - 1) / 2] ≤ heap[i]

/-- The first item is a least one. -/
lemma IsHeap.head_le (h : IsHeap heap) (i : Nat) (hi : i < heap.size) : heap[0] ≤ heap[i] := by
  induction i using Nat.strongRecOn with
  | _ i ih =>
    by_cases h0 : i = 0
    · subst h0
      exact le_rfl
    · exact (ih ((i - 1) / 2) (by omega) (by omega)).trans (h i hi)

/-- A heap but for the item at `pos`: the pairs without it are in order, and so are its children
with its parent. -/
structure HeapExcept (heap : Array α) (pos : Nat) : Prop where
  apart : ∀ i (_ : i < heap.size), i ≠ pos → (i - 1) / 2 ≠ pos → heap[(i - 1) / 2] ≤ heap[i]
  across : ∀ i (_ : i < heap.size), i ≠ pos → (i - 1) / 2 = pos → 0 < pos →
    heap[((i - 1) / 2 - 1) / 2] ≤ heap[i]

/-- No item but the one at `pos` is less than its parent. -/
def HeapBelow (heap : Array α) (pos : Nat) : Prop :=
  ∀ i (_ : i < heap.size), i ≠ pos → heap[(i - 1) / 2] ≤ heap[i]

/-- One step up: the item and its parent, which is greater, change places. -/
lemma HeapExcept.up (he : HeapExcept heap pos) (hbelow : HeapBelow heap pos) (h : pos < heap.size)
    (hpos : 0 < pos) (hlt : heap[pos] < heap[(pos - 1) / 2]) :
    HeapExcept (heap.swap pos ((pos - 1) / 2)) ((pos - 1) / 2) ∧
      HeapBelow (heap.swap pos ((pos - 1) / 2)) ((pos - 1) / 2) := by
  have hbelow' : HeapBelow (heap.swap pos ((pos - 1) / 2)) ((pos - 1) / 2) := by
    intro i hi hne
    rw [Array.size_swap] at hi
    have hi' := hbelow i hi
    have hacross := he.across i hi
    simp only [Array.getElem_swap]
    split_ifs <;> grind
  refine ⟨⟨fun i hi hne _ => hbelow' i hi hne, fun i hi hne hpar hpos' => ?_⟩, hbelow'⟩
  rw [Array.size_swap] at hi
  have hup := hbelow ((pos - 1) / 2) (by omega) (by omega)
  have hi' := hbelow i hi
  simp only [Array.getElem_swap]
  split_ifs <;> grind

/-- One step down: the item and its lesser child change places. -/
lemma HeapExcept.down (he : HeapExcept heap pos) (h : pos < heap.size)
    (hchild : child = 2 * pos + 1 ∨ child = 2 * pos + 2) (hc : child < heap.size)
    (hleast : ∀ i (_ : i < heap.size), i ≠ pos → (i - 1) / 2 = pos → heap[child] ≤ heap[i]) :
    HeapExcept (heap.swap pos child) child := by
  constructor
  · intro i hi hne hpar
    rw [Array.size_swap] at hi
    have hapart := he.apart i hi
    have hacross := he.across child hc (by omega) (by omega)
    have hi' := hleast i hi
    simp only [Array.getElem_swap]
    split_ifs <;> grind
  · intro i hi hne hpar hpos
    rw [Array.size_swap] at hi
    have hapart := he.apart i hi
    simp only [Array.getElem_swap]
    split_ifs <;> grind

/-! ## Operations -/

variable [DecidableLT α]

/-- `_siftdown(heap, 0, pos)`: the item at `pos` goes up while it is less than its parent. -/
def siftdown (heap : Array α) (pos : Nat) (h : pos < heap.size) : Array α :=
  if hpos : 0 < pos then
    if heap[pos] < heap[(pos - 1) / 2] then
      siftdown (heap.swap pos ((pos - 1) / 2)) ((pos - 1) / 2) (by simp; omega)
    else heap
  else heap
termination_by pos

/-- The lesser child of `pos`, the right one if they are level. -/
def lesserChild (heap : Array α) (pos : Nat) (h : 2 * pos + 1 < heap.size) : Nat :=
  if hr : 2 * pos + 2 < heap.size then
    if heap[2 * pos + 1] < heap[2 * pos + 2] then 2 * pos + 1 else 2 * pos + 2
  else 2 * pos + 1

lemma lesserChild_cases (heap : Array α) (pos : Nat) (h : 2 * pos + 1 < heap.size) :
    (lesserChild heap pos h = 2 * pos + 1 ∨ lesserChild heap pos h = 2 * pos + 2) ∧
      lesserChild heap pos h < heap.size := by
  unfold lesserChild
  split_ifs <;> simp <;> omega

/-- `_siftup(heap, pos)`: the lesser children move up along a path to a leaf, and the item that was
at `pos` goes up again from there. -/
def siftup (heap : Array α) (pos : Nat) (h : pos < heap.size) : Array α :=
  if hc : 2 * pos + 1 < heap.size then
    have hchild := lesserChild_cases heap pos hc
    siftup (heap.swap pos (lesserChild heap pos hc) h hchild.2) (lesserChild heap pos hc)
      (by simpa using hchild.2)
  else siftdown heap pos h
termination_by heap.size - pos
decreasing_by
  have := lesserChild_cases heap pos hc
  simp only [Array.size_swap]
  omega

def heappush (heap : Array α) (item : α) : Array α :=
  siftdown (heap.push item) heap.size (by simp)

/-- `none` stands for the `IndexError` of an empty heap. -/
def heappop (heap : Array α) : Option (α × Array α) :=
  heap.back?.map fun lastelt =>
    if h : 0 < heap.pop.size then
      (heap.pop[0], siftup (heap.pop.set 0 lastelt) 0 (by simpa using h))
    else (lastelt, heap.pop)

/-! ## The sifts -/

lemma siftdown_perm (heap : Array α) (pos : Nat) (h : pos < heap.size) :
    (siftdown heap pos h).Perm heap := by
  fun_induction siftdown with
  | case1 heap pos h hpos hlt ih => exact ih.trans (Array.swap_perm _ _)
  | case2 | case3 => exact .rfl

lemma siftup_perm (heap : Array α) (pos : Nat) (h : pos < heap.size) :
    (siftup heap pos h).Perm heap := by
  fun_induction siftup with
  | case1 heap pos h hc hchild ih => exact ih.trans (Array.swap_perm _ _)
  | case2 heap pos h => exact siftdown_perm heap pos h

lemma heappush_perm (heap : Array α) (item : α) :
    (heappush heap item).toList.Perm (item :: heap.toList) := by
  have h := (siftdown_perm (heap.push item) heap.size (by simp)).toList
  rw [Array.toList_push] at h
  exact h.trans (List.perm_append_singleton item _)

variable [Std.Total (α := α) (· ≤ ·)]

lemma isHeap_siftdown (heap : Array α) (pos : Nat) (h : pos < heap.size)
    (he : HeapExcept heap pos) (hbelow : HeapBelow heap pos) : IsHeap (siftdown heap pos h) := by
  fun_induction siftdown with
  | case1 heap pos h hpos hlt ih =>
    obtain ⟨he', hbelow'⟩ := he.up hbelow h hpos hlt
    exact ih he' hbelow'
  | case2 heap pos h hpos hge =>
    intro i hi
    by_cases hi' : i = pos
    · subst hi'
      exact le_of_not_gt hge
    · exact hbelow i hi hi'
  | case3 heap pos h hpos =>
    intro i hi
    by_cases hi' : i = pos
    · obtain rfl : i = 0 := by omega
      exact le_rfl
    · exact hbelow i hi hi'

lemma lesserChild_le (heap : Array α) (pos : Nat) (h : 2 * pos + 1 < heap.size)
    (hlesser : lesserChild heap pos h < heap.size) (i : Nat) (hi : i < heap.size)
    (hchild : i = 2 * pos + 1 ∨ i = 2 * pos + 2) : heap[lesserChild heap pos h] ≤ heap[i] := by
  revert hlesser
  unfold lesserChild
  split_ifs with hr hlt <;> intro _
  · rcases hchild with rfl | rfl
    · exact le_rfl
    · exact hlt.le
  · rcases hchild with rfl | rfl
    · exact le_of_not_gt hlt
    · exact le_rfl
  · obtain rfl : i = 2 * pos + 1 := by omega
    exact le_rfl

lemma isHeap_siftup (heap : Array α) (pos : Nat) (h : pos < heap.size)
    (he : HeapExcept heap pos) : IsHeap (siftup heap pos h) := by
  fun_induction siftup with
  | case1 heap pos h hc hchild ih =>
    refine ih (he.down h hchild.1 hchild.2 fun i hi hne hpar => ?_)
    exact lesserChild_le heap pos hc hchild.2 i hi (by omega)
  | case2 heap pos h hc =>
    exact isHeap_siftdown heap pos h he fun i hi hne => he.apart i hi hne (by omega)

lemma isHeap_heappush (h : IsHeap heap) (item : α) : IsHeap (heappush heap item) := by
  have hbelow : HeapBelow (heap.push item) heap.size := by
    intro i hi hne
    rw [Array.size_push] at hi
    have hi' : i < heap.size := by omega
    have hpar : (i - 1) / 2 < heap.size := by omega
    simpa [Array.getElem_push, hi', hpar] using h i hi'
  refine isHeap_siftdown _ _ _ ⟨fun i hi hne _ => hbelow i hi hne, fun i hi hne hpar => ?_⟩ hbelow
  rw [Array.size_push] at hi
  omega

/-- The first item of a heap is popped, and the rest is a heap. -/
lemma heappop_eq (h : IsHeap heap) (hpos : 0 < heap.size) :
    ∃ heap', heappop heap = some (heap[0], heap') ∧ IsHeap heap' ∧
      heap.toList.Perm (heap[0] :: heap'.toList) := by
  obtain ⟨front, lastelt, rfl⟩ := Array.eq_push_of_size_ne_zero (Nat.pos_iff_ne_zero.mp hpos)
  by_cases hfront : 0 < front.size
  · refine ⟨siftup (front.set 0 lastelt) 0 (by simpa using hfront), ?_, ?_, ?_⟩
    · simp [heappop, hfront, Array.getElem_push]
    · refine isHeap_siftup _ _ _ ⟨fun i hi hne hpar => ?_, by omega⟩
      rw [Array.size_set] at hi
      have hi' := h i (by simp; omega)
      have hlt : (i - 1) / 2 < front.size := by omega
      simpa [Array.getElem_set, Array.getElem_push, hi, hlt, Ne.symm hne, Ne.symm hpar] using hi'
    · have hperm := (siftup_perm (front.set 0 lastelt) 0 (by simpa using hfront)).toList
      obtain ⟨_ | ⟨first, rest⟩⟩ := front
      · simp at hfront
      · simp at hperm ⊢
        exact (List.perm_append_singleton lastelt rest).trans hperm.symm
  · obtain rfl : front = #[] := by simpa using hfront
    exact ⟨#[], by simp [heappop], fun i hi => by simp at hi, by simp⟩

end HeapQ

end CleanArch
