import Mathlib.Data.List.DropRight

/-!
# Scanners and runs

Text is read from left to right by a scanner: a state machine that marks each element with a `Bool`,
and that may look at what comes after it (`scan`). The marked elements that satisfy a test form
words: `runs p l` are the longest stretches of `l` whose elements all satisfy `p`.
-/

namespace CleanArch
namespace Lexing

open List

variable {α σ : Type}

/-! ## Scanners -/

/-- The elements with their marks; `step` has the state, the element and what comes after it. -/
def scan (step : σ → α → List α → Bool × σ) : σ → List α → List (α × Bool)
  | _, [] => []
  | s, x :: xs => (x, (step s x xs).1) :: scan step (step s x xs).2 xs

/-! ## Runs -/

/-- The runs, with the run `cur` that is still open. -/
def runsFrom (p : α → Bool) : List α → List α → List (List α)
  | cur, [] => if cur.isEmpty then [] else [cur]
  | cur, x :: xs =>
    if p x then runsFrom p (cur ++ [x]) xs
    else if cur.isEmpty then runsFrom p [] xs
    else cur :: runsFrom p [] xs

/-- The longest stretches whose elements all satisfy `p`. -/
def runs (p : α → Bool) (l : List α) : List (List α) := runsFrom p [] l

/-- `w` is a longest stretch of `a ++ w ++ b`. -/
structure Stands (p : α → Bool) (a w b : List α) : Prop where
  ne : w ≠ []
  all : ∀ x ∈ w, p x = true
  left : ∀ x ∈ a.getLast?, p x = false
  right : ∀ x ∈ b.head?, p x = false

variable {p : α → Bool}

lemma Stands.eq_of_all (h : Stands p a w b) (hall : ∀ x ∈ a ++ w ++ b, p x = true) :
    a = [] ∧ b = [] := by
  constructor
  · rcases a.eq_nil_or_concat with rfl | ⟨a', x, rfl⟩
    · rfl
    · have hx := h.left x (by simp)
      rw [hall x (by simp)] at hx
      cases hx
  · cases b with
    | nil => rfl
    | cons x =>
      have hx := h.right x rfl
      rw [hall x (by simp)] at hx
      cases hx

lemma Stands.split {cur xs a w b : List α} {x : α} (h : Stands p a w b)
    (hcur : ∀ y ∈ cur, p y = true) (hx : p x = false) (heq : cur ++ x :: xs = a ++ w ++ b) :
    w = cur ∨ ∃ a', xs = a' ++ w ++ b ∧ Stands p a' w b := by
  rw [append_assoc] at heq
  rcases append_eq_append_iff.mp heq with ⟨a', rfl, hw⟩ | ⟨c, rfl, hw⟩
  · cases a' with
    | nil =>
      -- the run would start with `x`
      obtain ⟨y, w', rfl⟩ := exists_cons_of_ne_nil h.ne
      cases hw
      exact absurd (h.all x mem_cons_self) (by simp [hx])
    | cons y a'' =>
      cases hw
      refine .inr ⟨a'', by simp, h.ne, h.all, fun z hz => ?_, h.right⟩
      refine h.left z ?_
      rw [getLast?_append, getLast?_cons, Option.mem_def.mp hz]
      rfl
  · rcases append_eq_append_iff.mp hw with ⟨d, rfl, hd⟩ | ⟨d, rfl, hd⟩
    · have hall : ∀ y ∈ a ++ w ++ d, p y = true := by simpa using hcur
      have hs : Stands p a w d := by
        refine ⟨h.ne, h.all, h.left, fun y hy => h.right y ?_⟩
        rw [hd, List.head?_append, Option.mem_def.mp hy]
        rfl
      obtain ⟨rfl, rfl⟩ := hs.eq_of_all hall
      exact .inl (by simp)
    · cases d with
      | nil =>
        have hs : Stands p a c [] := ⟨by simpa using h.ne, by simpa using h.all, h.left, by simp⟩
        obtain ⟨rfl, -⟩ := hs.eq_of_all (by simpa using hcur)
        exact .inl (by simp)
      | cons =>
        cases hd
        exact absurd (h.all x (by simp)) (by simp [hx])

lemma mem_runsFrom {w l : List α} {cur : List α} (hcur : ∀ x ∈ cur, p x = true) :
    w ∈ runsFrom p cur l ↔ ∃ a b, cur ++ l = a ++ w ++ b ∧ Stands p a w b := by
  induction l generalizing cur with
  | nil =>
    simp only [runsFrom, append_nil]
    constructor
    · intro hw
      split at hw
      · cases hw
      · next hne =>
        rw [mem_singleton] at hw
        subst hw
        exact ⟨[], [], by simp, by simpa using hne, hcur, by simp, by simp⟩
    · rintro ⟨a, b, rfl, hs⟩
      obtain ⟨rfl, rfl⟩ := hs.eq_of_all hcur
      simp [hs.ne]
  | cons x xs ih =>
    simp only [runsFrom]
    by_cases hx : p x = true
    · rw [if_pos hx, ih (by simpa [or_imp, forall_and] using ⟨hcur, hx⟩)]
      simp
    · rw [if_neg hx]
      rw [Bool.not_eq_true] at hx
      -- the runs of `xs` stand after `x`, and `cur` stands before it
      have hmem : w ∈ runsFrom p [] xs → ∃ a b, cur ++ x :: xs = a ++ w ++ b ∧ Stands p a w b := by
        rw [ih (by simp)]
        rintro ⟨a, b, rfl, hs⟩
        refine ⟨cur ++ x :: a, b, by simp, hs.ne, hs.all, fun y hy => ?_, hs.right⟩
        rw [getLast?_append, getLast?_cons] at hy
        cases ha : a.getLast? with
        | none =>
          rw [ha] at hy
          cases hy
          exact hx
        | some =>
          rw [ha] at hy
          cases hy
          exact hs.left _ ha
      constructor
      · intro hw
        split at hw
        · exact hmem hw
        · next hne =>
          rcases mem_cons.mp hw with rfl | hw
          · exact ⟨[], x :: xs, by simp, by simpa using hne, hcur, by simp, by simpa using hx⟩
          · exact hmem hw
      · rintro ⟨a, b, heq, hs⟩
        rcases hs.split hcur hx heq with rfl | ⟨a', rfl, hs'⟩
        · simp [hs.ne]
        · have hw : w ∈ runsFrom p [] (a' ++ w ++ b) := (ih (by simp)).mpr ⟨a', b, rfl, hs'⟩
          split
          · exact hw
          · exact mem_cons_of_mem _ hw

lemma mem_runs {w l : List α} : w ∈ runs p l ↔ ∃ a b, l = a ++ w ++ b ∧ Stands p a w b :=
  mem_runsFrom (by simp)

lemma stands_map {β : Type} {q : β → Bool} (f : α → β) :
    Stands q (a.map f) (w.map f) (b.map f) ↔ Stands (fun x => q (f x)) a w b := by
  constructor
  · intro h
    refine ⟨by simpa using h.ne, fun x hx => h.all _ (mem_map_of_mem hx), ?_, ?_⟩
    · exact fun x hx => h.left (f x) (by rw [getLast?_map, Option.mem_def.mp hx]; rfl)
    · exact fun x hx => h.right (f x) (by rw [List.head?_map, Option.mem_def.mp hx]; rfl)
  · intro h
    refine ⟨by simpa using h.ne, by simpa using h.all, ?_, ?_⟩
    · simpa using h.left
    · simpa using h.right

lemma mem_runs_map {β : Type} {q : β → Bool} {f : α → β} {l : List α} {w : List β} :
    w ∈ runs q (l.map f) ↔
      ∃ a u b, l = a ++ u ++ b ∧ Stands (fun x => q (f x)) a u b ∧ u.map f = w := by
  rw [mem_runs]
  constructor
  · rintro ⟨a, b, heq, hs⟩
    obtain ⟨l', b', rfl, hl', rfl⟩ := map_eq_append_iff.mp heq
    obtain ⟨a', u, rfl, rfl, rfl⟩ := map_eq_append_iff.mp hl'
    exact ⟨a', u, b', rfl, (stands_map f).mp hs, rfl⟩
  · rintro ⟨a, u, b, rfl, hs, rfl⟩
    exact ⟨a.map f, b.map f, by simp, (stands_map f).mpr hs⟩

/-! ## Both ends stripped -/

/-- The list without the elements of `p` at its two ends. -/
def trim (p : α → Bool) (l : List α) : List α := (l.dropWhile p).rdropWhile p

lemma trim_of_forall {l : List α} (h : ∀ x ∈ l, p x = false) : trim p l = l := by
  have hdrop : l.dropWhile p = l := by
    cases l with
    | nil => rfl
    | cons x => exact dropWhile_cons_of_neg (by simp [h x mem_cons_self])
  rw [trim, hdrop, rdropWhile_eq_self_iff]
  intro hne
  simp [h _ (getLast_mem hne)]

lemma dropWhile_append_of_head {a l : List α} (hl : ∃ x, l.head? = some x ∧ p x = false) :
    (a ++ l).dropWhile p = a.dropWhile p ++ l := by
  obtain ⟨x, hx, hp⟩ := hl
  obtain ⟨l', rfl⟩ : ∃ l', l = x :: l' := by
    cases l with
    | nil => cases hx
    | cons y l' =>
      cases hx
      exact ⟨l', rfl⟩
  rw [dropWhile_append, dropWhile_cons_of_neg (by simp [hp])]
  split
  · next h => rw [isEmpty_iff.mp h, nil_append]
  · rfl

lemma trim_append (hw : w ≠ []) (hp : ∀ x ∈ w, p x = false) :
    ∃ a' b', trim p (a ++ w ++ b) = a' ++ w ++ b' ∧ a' <:+ a ∧ b' <+: b := by
  refine ⟨a.dropWhile p, b.rdropWhile p, ?_, dropWhile_suffix p, rdropWhile_prefix p b⟩
  obtain ⟨x, w', rfl⟩ := exists_cons_of_ne_nil hw
  obtain ⟨w'', y, hy⟩ := (eq_nil_or_concat (x :: w')).resolve_left hw
  have hhead : ∃ z, (x :: w' ++ b).head? = some z ∧ p z = false := ⟨x, rfl, hp x (by simp)⟩
  have hlast : ∃ z, ((a.dropWhile p ++ x :: w').reverse).head? = some z ∧ p z = false :=
    ⟨y, by simp [hy], hp y (by simp [hy])⟩
  rw [trim, append_assoc, dropWhile_append_of_head hhead, rdropWhile,
    ← append_assoc, reverse_append, dropWhile_append_of_head hlast]
  simp [rdropWhile]

end Lexing
end CleanArch
