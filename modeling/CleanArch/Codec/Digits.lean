import Mathlib.Data.List.Induction
import Mathlib.Data.Nat.ModEq
import Mathlib.Order.Basic

/-!
# Fixed-width positional notation

The `n` lowest digits of a number in base `b`, most significant first, as repeated division writes
them from the right (`digits`), and the number of a list of digits (`value`). Over an alphabet in
increasing order the lexicographic order of two notations is that of the numbers.
-/

namespace CleanArch.Codec

open List Nat

variable {b : Nat}

def digits (b : Nat) : Nat → Nat → List Nat
  | 0, _ => []
  | n + 1, v => digits b n (v / b) ++ [v % b]

def value (b : Nat) (ds : List Nat) : Nat := ds.foldl (fun v d => v * b + d) 0

lemma value_append_singleton : value b (ds ++ [d]) = value b ds * b + d := by
  simp [value]

@[simp] lemma length_digits : (digits b n v).length = n := by
  induction n generalizing v with
  | zero => rfl
  | succ n ih => simp [digits, ih]

lemma lt_of_mem_digits (hb : 0 < b) (hd : d ∈ digits b n v) : d < b := by
  induction n generalizing v with
  | zero => cases hd
  | succ n ih =>
    rcases mem_append.mp hd with hd | hd
    · exact ih hd
    · exact mem_singleton.mp hd ▸ Nat.mod_lt _ hb

lemma value_digits (n v : Nat) : value b (digits b n v) = v % b ^ n := by
  induction n generalizing v with
  | zero => simp [digits, value, mod_one]
  | succ n ih =>
    rw [digits, value_append_singleton, ih, Nat.pow_succ', mod_mul, mul_comm, add_comm]

lemma digits_value (h : ∀ d ∈ ds, d < b) : digits b ds.length (value b ds) = ds := by
  induction ds using reverseRecOn with
  | nil => rfl
  | append_singleton ds d ih =>
    have hd : d < b := h d (by simp)
    have hdiv : (value b ds * b + d) / b = value b ds := by
      rw [mul_comm, mul_add_div (by omega), div_eq_of_lt hd, add_zero]
    have hmod : (value b ds * b + d) % b = d := by
      rw [mul_comm, mul_add_mod, mod_eq_of_lt hd]
    rw [length_append, length_singleton, digits, value_append_singleton, hdiv, hmod,
      ih fun e he => h e (mem_append_left _ he)]

lemma take_digits (n k v : Nat) : (digits b (n + k) v).take n = digits b n (v / b ^ k) := by
  induction k generalizing v with
  | zero => simp [take_of_length_le]
  | succ k ih =>
    rw [← Nat.add_assoc, digits, take_append_of_le_length (by simp), ih,
      Nat.div_div_eq_div_mul, Nat.pow_succ']

lemma digits_succ : digits b (n + 1) v = v / b ^ n % b :: digits b n v := by
  induction n generalizing v with
  | zero => simp [digits]
  | succ n ih =>
    rw [digits, ih, Nat.div_div_eq_div_mul, ← Nat.pow_succ', cons_append]
    rfl

lemma map_digits_lt {α : Type*} [LT α] {f : Nat → α} (hf : ∀ i j, i < j → j < b → f i < f j)
    (hb : 0 < b) (h : v % b ^ n < w % b ^ n) : (digits b n v).map f < (digits b n w).map f := by
  induction n with
  | zero => simp [mod_one] at h
  | succ n ih =>
    rw [mod_pow_succ, mod_pow_succ] at h
    simp only [digits_succ, map_cons]
    -- the leading digits decide, unless they agree
    rcases lt_trichotomy (v / b ^ n % b) (w / b ^ n % b) with hlt | heq | hgt
    · exact List.Lex.rel (hf _ _ hlt (Nat.mod_lt _ hb))
    · rw [heq] at h ⊢
      exact List.Lex.cons (ih (by omega))
    · have hle := Nat.mul_le_mul_left (b ^ n) hgt
      have hw : w % b ^ n < b ^ n := Nat.mod_lt _ (Nat.pow_pos hb)
      rw [Nat.mul_succ] at hle
      exact absurd (h.trans_le (by omega)) (le_add_left _ _).not_gt

end CleanArch.Codec
