import Mathlib.Data.Char

/-!
# The characters of Python

What Python knows of single characters (`PyChar`): `str.upper`, `\w` and `str.isspace`. They are
given for ASCII; nothing is assumed of the other characters. A fact about a character of ASCII is
one about 128 characters (`ascii_forall`).
-/

namespace CleanArch

/-- Python's `str.upper`, `\w` and `str.isspace`, of one character. -/
class PyChar where
  upper : Char → List Char
  word : Char → Bool
  space : Char → Bool
  upper_ascii : ∀ c, c.toNat < 128 → upper c = [c.toUpper]
  word_ascii : ∀ c, c.toNat < 128 → word c = (c.isAlphanum || c == '_')
  space_ascii : ∀ c, c.toNat < 128 →
    space c = decide (9 ≤ c.toNat ∧ c.toNat ≤ 13 ∨ 28 ≤ c.toNat ∧ c.toNat ≤ 32)

@[reducible] def asciiChar : PyChar where
  upper c := [c.toUpper]
  word c := c.isAlphanum || c == '_'
  space c := decide (9 ≤ c.toNat ∧ c.toNat ≤ 13 ∨ 28 ≤ c.toNat ∧ c.toNat ≤ 32)
  upper_ascii _ _ := rfl
  word_ascii _ _ := rfl
  space_ascii _ _ := rfl

lemma ascii_forall {P : Char → Prop} (h : ∀ n < 128, P (Char.ofNat n)) (hc : c.toNat < 128) :
    P c := by
  have := h c.toNat hc
  rwa [Char.ofNat_toNat] at this

lemma toNat_lt_of_toUpper {c : Char} (h : c.toUpper.toNat < 128) : c.toNat < 128 := by
  by_contra hc
  have hself : c.toUpper = c := dif_neg fun hl => by
    have hle : c.toNat ≤ 122 := UInt32.le_iff_toNat_le.mp hl.2
    omega
  exact hc (hself ▸ h)

lemma toNat_lt_of_isUpper {c : Char} (h : c.isUpper = true) : c.toNat < 128 := by
  have hle : c.toNat ≤ 90 := UInt32.le_iff_toNat_le.mp (of_decide_eq_true h).2
  omega

lemma toNat_lt_of_isAlpha {c : Char} (h : c.isAlpha = true) : c.toNat < 128 := by
  rcases Bool.or_eq_true_iff.mp h with hu | hl
  · exact toNat_lt_of_isUpper hu
  · have hz := of_decide_eq_true (Bool.and_eq_true_iff.mp hl).2
    have hle : c.toNat ≤ 122 := UInt32.le_iff_toNat_le.mp hz
    omega

end CleanArch
