import Mathlib.Data.List.Basic

/-!
# Wildcards

A pattern is a list of pieces: one element with a property, or any number of elements.

- `Matches` is the relation, and `matchPieces` decides it by trying every suffix.
- `Matches.ones_le`: a list that matches is at least as long as the pattern has single pieces. A
  list of exactly that length matches element by element (`matches_picks_iff`).
- `Matches.insert`: with a piece of any length there is always a longer match.
-/

namespace CleanArch
namespace Wildcards

open List

variable {α β : Type}

inductive Piece (α : Type) where
  | one (p : α → Bool)
  | many

inductive Matches : List (Piece α) → List α → Prop
  | nil : Matches [] []
  | one {p : α → Bool} {ps : List (Piece α)} {x : α} {xs : List α} (hx : p x = true)
      (h : Matches ps xs) : Matches (.one p :: ps) (x :: xs)
  | skip {ps : List (Piece α)} {xs : List α} (h : Matches ps xs) : Matches (.many :: ps) xs
  | take {ps : List (Piece α)} {x : α} {xs : List α} (h : Matches (.many :: ps) xs) :
      Matches (.many :: ps) (x :: xs)

@[simp] lemma matches_nil_iff : Matches [] xs ↔ xs = [] := by
  constructor
  · intro h
    cases h
    rfl
  · rintro rfl
    exact .nil

@[simp] lemma not_matches_one_nil : ¬ Matches (.one p :: ps) [] := nofun

@[simp] lemma matches_one_cons_iff :
    Matches (.one p :: ps) (x :: xs) ↔ p x = true ∧ Matches ps xs := by
  constructor
  · intro h
    cases h with
    | one hx h => exact ⟨hx, h⟩
  · rintro ⟨hx, h⟩
    exact .one hx h

lemma matches_many_iff :
    Matches (.many :: ps) xs ↔ ∃ n, n ≤ xs.length ∧ Matches ps (xs.drop n) := by
  constructor
  · intro h
    induction xs with
    | nil =>
      cases h with
      | skip h => exact ⟨0, Nat.le_refl _, h⟩
    | cons x xs ih =>
      cases h with
      | skip h => exact ⟨0, Nat.zero_le _, h⟩
      | take h =>
        obtain ⟨n, hn, h⟩ := ih h
        exact ⟨n + 1, Nat.succ_le_succ hn, h⟩
  · rintro ⟨n, hn, h⟩
    induction n generalizing xs with
    | zero => exact .skip h
    | succ n ih =>
      cases xs with
      | nil => cases hn
      | cons => exact .take (ih (Nat.le_of_succ_le_succ hn) h)

lemma matches_many : Matches [.many] xs :=
  matches_many_iff.mpr ⟨xs.length, Nat.le_refl _, by simp⟩

/-! ## The decision -/

def matchPieces : List (Piece α) → List α → Bool
  | [], xs => xs.isEmpty
  | .one _ :: _, [] => false
  | .one p :: ps, x :: xs => p x && matchPieces ps xs
  | .many :: ps, xs => (List.range (xs.length + 1)).any fun n => matchPieces ps (xs.drop n)

lemma matchPieces_iff (ps : List (Piece α)) : matchPieces ps xs = true ↔ Matches ps xs := by
  induction ps generalizing xs with
  | nil => simp [matchPieces]
  | cons piece ps ih =>
    cases piece with
    | one =>
      cases xs with
      | nil => simp [matchPieces]
      | cons => simp [matchPieces, ih]
    | many =>
      simp only [matchPieces, any_eq_true, mem_range, Nat.lt_succ_iff, ih, matches_many_iff]

instance (ps : List (Piece α)) (xs : List α) : Decidable (Matches ps xs) :=
  decidable_of_iff _ (matchPieces_iff ps)

/-! ## Literal patterns -/

lemma matches_literal_iff [BEq α] [LawfulBEq α] (w : List α) :
    Matches (w.map fun c => .one (· == c)) xs ↔ xs = w := by
  induction w generalizing xs with
  | nil => simp
  | cons c w ih =>
    cases xs with
    | nil => simp
    | cons => simp [ih]

/-! ## Lengths -/

def ones : List (Piece α) → Nat
  | [] => 0
  | .one _ :: ps => ones ps + 1
  | .many :: ps => ones ps

lemma Matches.ones_le (h : Matches ps xs) : ones ps ≤ xs.length := by
  induction h with
  | nil => exact Nat.le_refl _
  | one hx h ih => exact Nat.succ_le_succ ih
  | skip h ih => exact ih
  | take h ih => exact Nat.le_trans ih (Nat.le_succ _)

lemma Matches.length_eq (h : Matches ps xs) (hmany : ∀ piece ∈ ps, piece ≠ .many) :
    xs.length = ps.length := by
  induction h with
  | nil => rfl
  | one hx h ih =>
    rw [length_cons, length_cons, ih fun q hq => hmany q (mem_cons_of_mem _ hq)]
  | skip | take => exact absurd rfl (hmany _ mem_cons_self)

lemma Matches.exists_mem (h : Matches ps xs) {p : α → Bool} (hp : .one p ∈ ps) :
    ∃ x ∈ xs, p x = true := by
  induction h with
  | nil => cases hp
  | @one p' ps x xs hx h ih =>
    rcases mem_cons.mp hp with heq | hp
    · cases heq
      exact ⟨x, mem_cons_self, hx⟩
    · obtain ⟨y, hy, hpy⟩ := ih hp
      exact ⟨y, mem_cons_of_mem _ hy, hpy⟩
  | skip h ih => exact ih ((mem_cons.mp hp).resolve_left nofun)
  | take h ih =>
    obtain ⟨y, hy, hpy⟩ := ih hp
    exact ⟨y, mem_cons_of_mem _ hy, hpy⟩

lemma Matches.insert (h : Matches ps xs) (hmany : .many ∈ ps) (c : α) :
    ∃ ys, Matches ps ys ∧ ys.length = xs.length + 1 ∧ ∀ y ∈ ys, y ∈ xs ∨ y = c := by
  have hhead : ∀ {ps : List (Piece α)} {xs : List α}, Matches (.many :: ps) xs →
      ∃ ys, Matches (.many :: ps) ys ∧ ys.length = xs.length + 1 ∧ ∀ y ∈ ys, y ∈ xs ∨ y = c :=
    fun h => ⟨_, .take h, rfl, fun y hy => (mem_cons.mp hy).symm⟩
  induction h with
  | nil => cases hmany
  | @one p ps x xs hx h ih =>
    obtain ⟨ys, hys, hlen, hmem⟩ := ih (by simpa using hmany)
    refine ⟨x :: ys, .one hx hys, by rw [length_cons, hlen, length_cons], ?_⟩
    intro y hy
    rcases mem_cons.mp hy with rfl | hy
    · exact .inl mem_cons_self
    · exact (hmem y hy).imp (mem_cons_of_mem _) id
  | skip h => exact hhead (.skip h)
  | take h => exact hhead (.take h)

/-! ## Element by element -/

def Piece.isOne : Piece α → Bool
  | .one _ => true
  | .many => false

def Piece.accepts : Piece α → α → Bool
  | .one p, x => p x
  | .many, _ => true

lemma ones_map (piece : β → Piece α) (ws : List β) :
    ones (ws.map piece) = (ws.filter fun w => (piece w).isOne).length := by
  induction ws with
  | nil => rfl
  | cons w ws ih =>
    rw [map_cons, filter_cons]
    cases hw : piece w with
    | one | many => simp [ones, Piece.isOne, ih]

lemma matches_picks_iff (piece : β → Piece α) (pick : β → α) (ws : List β) :
    Matches (ws.map piece) ((ws.filter fun w => (piece w).isOne).map pick) ↔
      ∀ w ∈ ws, (piece w).accepts (pick w) = true := by
  induction ws with
  | nil => simp
  | cons w ws ih =>
    rw [map_cons, filter_cons, forall_mem_cons, ← ih]
    cases hw : piece w with
    | one => simp [Piece.isOne, Piece.accepts]
    | many =>
      have hnone : ¬ (Piece.many : Piece α).isOne = true := Bool.false_ne_true
      rw [if_neg hnone, Piece.accepts, matches_many_iff]
      simp only [true_and]
      constructor
      · rintro ⟨n, hn, h⟩
        -- the rest needs every element
        have hle := h.ones_le
        rw [ones_map, length_drop, length_map] at hle
        rw [length_map] at hn
        have hzero : n = 0 := by omega
        rwa [hzero, drop_zero] at h
      · exact fun h => ⟨0, Nat.zero_le _, h⟩

end Wildcards
end CleanArch
