import Mathlib.Data.List.DropRight

/-!
# Base64

The URL-safe Base64 of bytes (RFC 4648, section 5): three bytes are four characters of a
64-character alphabet, and the last group is filled up with `=`.
-/

namespace CleanArch
namespace Base64

open List Option

def alphabet : List Char :=
  "ABCDEFGHIJKLMNOPQRSTUVWXYZabcdefghijklmnopqrstuvwxyz0123456789-_".toList

def digit (n : Nat) : Char := alphabet.getD n 'A'

def value? (c : Char) : Option Nat := alphabet.findIdx? (· == c)

abbrev byte (n : Nat) : UInt8 := UInt8.ofNat n

def encode : List UInt8 → List Char
  | [] => []
  | [a] => [digit (a.toNat / 4), digit (a.toNat % 4 * 16), '=', '=']
  | [a, b] =>
    [digit (a.toNat / 4), digit (a.toNat % 4 * 16 + b.toNat / 16), digit (b.toNat % 16 * 4), '=']
  | a :: b :: c :: rest =>
    digit (a.toNat / 4) :: digit (a.toNat % 4 * 16 + b.toNat / 16) ::
      digit (b.toNat % 16 * 4 + c.toNat / 64) :: digit (c.toNat % 64) :: encode rest

/-- `none` for a text whose length is no multiple of four, or with a character outside the
alphabet. -/
def decode : List Char → Option (List UInt8)
  | [] => some []
  | w :: x :: y :: z :: rest => do
    let a ← value? w
    let b ← value? x
    if rest = [] ∧ z = '=' then
      if y = '=' then return [byte (a * 4 + b / 16)]
      else
        let c ← value? y
        return [byte (a * 4 + b / 16), byte (b % 16 * 16 + c / 4)]
    else
      let c ← value? y
      let d ← value? z
      let bytes ← decode rest
      return byte (a * 4 + b / 16) :: byte (b % 16 * 16 + c / 4) :: byte (c % 4 * 64 + d) :: bytes
  | _ => none

/-! ## Round trip -/

lemma value_digit (h : n < 64) : value? (digit n) = some n := by
  have : ∀ n < 64, value? (digit n) = some n := by decide +kernel
  exact this n h

lemma digit_mem : digit n ∈ 'A' :: alphabet := by
  unfold digit
  rw [getD_eq_getElem?_getD]
  cases hn : alphabet[n]? with
  | none => exact mem_cons_self
  | some => exact mem_cons_of_mem _ (mem_of_getElem? hn)

lemma digit_ne_pad : digit n ≠ '=' := by
  have hmem : ('A' :: alphabet).all (fun c => c != '=') = true := by decide +kernel
  exact bne_iff_ne.mp (all_eq_true.mp hmem _ (digit_mem))

lemma byte_eq (h : n = a.toNat) : byte n = a := by
  rw [h]
  exact UInt8.ofNat_toNat

lemma sextets (a b c : UInt8) : a.toNat / 4 < 64 ∧ a.toNat % 4 * 16 + b.toNat / 16 < 64 ∧
      b.toNat % 16 * 4 + c.toNat / 64 < 64 ∧ c.toNat % 64 < 64 := by
  have ha := a.toNat_lt
  have hb := b.toNat_lt
  have hc := c.toNat_lt
  omega

lemma decode_encode (bytes : List UInt8) : decode (encode bytes) = some bytes := by
  induction bytes using encode.induct with
  | case1 => rfl
  | case2 a =>
    have ha := a.toNat_lt
    simp only [encode, decode, and_self, if_true, value_digit (show a.toNat / 4 < 64 by omega),
      value_digit (show a.toNat % 4 * 16 < 64 by omega), bind_eq_bind, bind_some]
    rw [byte_eq (show a.toNat / 4 * 4 + a.toNat % 4 * 16 / 16 = a.toNat by omega)]
    rfl
  | case3 a b =>
    have hb := b.toNat_lt
    obtain ⟨h1, h2, -, -⟩ := sextets a b 0
    have h3 : b.toNat % 16 * 4 < 64 := by omega
    simp only [encode, decode, and_self, if_true, if_neg (digit_ne_pad), value_digit h1,
      value_digit h2, value_digit h3, bind_eq_bind, bind_some]
    rw [byte_eq (show a.toNat / 4 * 4 + (a.toNat % 4 * 16 + b.toNat / 16) / 16 = a.toNat by omega),
      byte_eq (show (a.toNat % 4 * 16 + b.toNat / 16) % 16 * 16 + b.toNat % 16 * 4 / 4 =
        b.toNat by omega)]
    rfl
  | case4 a b c rest ih =>
    have hb := b.toNat_lt
    have hc := c.toNat_lt
    obtain ⟨h1, h2, h3, h4⟩ := sextets a b c
    have hpad : ¬ (encode rest = [] ∧ digit (c.toNat % 64) = '=') :=
      fun h => digit_ne_pad h.2
    simp only [encode, decode, if_neg hpad, value_digit h1, value_digit h2, value_digit h3,
      value_digit h4, ih, bind_eq_bind, bind_some]
    rw [byte_eq (show a.toNat / 4 * 4 + (a.toNat % 4 * 16 + b.toNat / 16) / 16 = a.toNat by omega),
      byte_eq (show (a.toNat % 4 * 16 + b.toNat / 16) % 16 * 16 +
        (b.toNat % 16 * 4 + c.toNat / 64) / 4 = b.toNat by omega),
      byte_eq (show (b.toNat % 16 * 4 + c.toNat / 64) % 4 * 64 + c.toNat % 64 = c.toNat by omega)]
    rfl

lemma encode_ne_nil (h : bytes ≠ []) : encode bytes ≠ [] := by
  cases bytes using encode.induct with
  | case1 => exact absurd rfl h
  | case2 | case3 | case4 => exact cons_ne_nil _ _

/-! ## Padding -/

def padded (body : List Char) : List Char :=
  body ++ List.replicate ((4 - body.length % 4) % 4) '='

lemma encode_eq_padded (bytes : List UInt8) :
    ∃ body, (∀ c ∈ body, ∃ n, c = digit n) ∧ encode bytes = padded body := by
  induction bytes using encode.induct with
  | case1 => exact ⟨[], by simp, rfl⟩
  | case2 a => exact ⟨[digit (a.toNat / 4), digit (a.toNat % 4 * 16)], by simp, rfl⟩
  | case3 a b =>
    exact ⟨[digit (a.toNat / 4), digit (a.toNat % 4 * 16 + b.toNat / 16),
      digit (b.toNat % 16 * 4)], by simp, rfl⟩
  | case4 a b c rest ih =>
    obtain ⟨body, hbody, heq⟩ := ih
    refine ⟨digit (a.toNat / 4) :: digit (a.toNat % 4 * 16 + b.toNat / 16) ::
      digit (b.toNat % 16 * 4 + c.toNat / 64) :: digit (c.toNat % 64) :: body, ?_, ?_⟩
    · simpa using hbody
    · simp only [encode, heq, padded, length_cons, cons_append,
        Nat.add_assoc, Nat.reduceAdd, Nat.add_mod_right]

lemma rdropWhile_padded (h : ∀ c ∈ body, ∃ n, c = digit n) :
    (padded body).rdropWhile (· == '=') = body := by
  have hrep : ∀ n, (body ++ List.replicate n '=').rdropWhile (· == '=') = body := by
    intro n
    induction n with
    | zero =>
      rw [replicate_zero, append_nil, rdropWhile_eq_self_iff]
      intro hne
      obtain ⟨n, hn⟩ := h _ (getLast_mem hne)
      rw [hn, beq_iff_eq]
      exact digit_ne_pad
    | succ n ih =>
      rw [replicate_succ', ← append_assoc, rdropWhile_concat_pos _ _ _ (by simp)]
      exact ih
  exact hrep _

end Base64
end CleanArch
