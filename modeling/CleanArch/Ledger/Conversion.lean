import CleanArch.Ledger.Money

/-!
# How a conversion rounds

`FXConversionService.convert` and `Money.__mul__` round twice: the product to 28 digits, and this to
four decimals (`RoundedTwice`).
-/

namespace CleanArch

open Decimals Money

/-- The product is so close to a midpoint between two numbers of four decimals that its 28 digits
are the midpoint, and it is not on the side that the midpoint rounds to. -/
def RoundedTwice (x : Decimal) : Prop := DoubleRounds (-4) (pyContext.lastPlace x) x

section Results

lemma decimalMul_ok (h : decimalMul x y = .ok z) : pyContext.round (x * y) = some z := by
  unfold decimalMul at h
  split at h
  · cases h
    assumption
  · cases h

lemma decimalQuantize_ok (h : decimalQuantize x = .ok z) : pyContext.quantize (-4) x = some z := by
  unfold decimalQuantize at h
  split at h
  · cases h
    assumption
  · cases h

variable [PyStr]

lemma Money.create_ok (h : create x c = .ok m) : pyContext.quantize (-4) x = some m.amount := by
  unfold create at h
  split at h
  · obtain ⟨q, hq, h⟩ := except_bind_ok h
    cases h
    exact decimalQuantize_ok hq
  · cases h

lemma convert_ok {rate r : Decimal} (hne : m.currency ≠ clean target)
    (h : convert m target rate = .ok (m', r)) :
    ∃ raw, pyContext.round (m.amount * rate) = some raw ∧
      pyContext.quantize (-4) raw = some m'.amount := by
  unfold convert at h
  split_ifs at h with hrate hiso
  obtain ⟨raw, hraw, h⟩ := except_bind_ok h
  obtain ⟨q, hq, h⟩ := except_bind_ok h
  obtain ⟨m'', hm, h⟩ := except_bind_ok h
  cases h
  have hq' := decimalQuantize_ok hq
  have hamount : m'.amount = q := by
    rw [(Context.quantize_eq_some (create_ok hm)).1, (Context.quantize_eq_some hq').1,
      roundAt_roundAt_self]
  exact ⟨raw, decimalMul_ok hraw, hamount ▸ hq'⟩

lemma Money.mul_ok {m m' : Money} (h : m.mul factor = .ok m') :
    ∃ raw, pyContext.round (m.amount * factor) = some raw ∧
      pyContext.quantize (-4) raw = some m'.amount := by
  obtain ⟨raw, hraw, h⟩ := except_bind_ok h
  exact ⟨raw, decimalMul_ok hraw, create_ok h⟩

end Results

lemma rounded_once_iff (hraw : pyContext.round x = some raw)
    (hz : pyContext.quantize (-4) raw = some z) : z = quantize x ↔ ¬ RoundedTwice x := by
  rw [quantize_eq_roundAt]
  exact Context.quantize_round_iff (by decide) (by decide) hraw hz

/-- **A conversion is correctly rounded** exactly if its product is not `RoundedTwice`: for every
amount, rate and other currency, whenever `convert` returns; and so is the multiplication of
money. -/
theorem conversion_rounded_iff [PyStr] (m : Money) (target : String) (rate : Decimal)
    (hne : m.currency ≠ clean target) :
    (∀ m' r, convert m target rate = .ok (m', r) →
        (m'.amount = quantize (m.amount * rate) ↔ ¬ RoundedTwice (m.amount * rate))) ∧
      ∀ m', m.mul rate = .ok m' →
        (m'.amount = quantize (m.amount * rate) ↔ ¬ RoundedTwice (m.amount * rate)) := by
  constructor
  · intro m' r h
    obtain ⟨raw, hraw, hz⟩ := convert_ok hne h
    exact rounded_once_iff hraw hz
  · intro m' h
    obtain ⟨raw, hraw, hz⟩ := mul_ok h
    exact rounded_once_iff hraw hz

/-! ### A rate of 31 digits -/

/-- One and a half of 12.34 USD. -/
theorem conversion_rounded_short : ¬ RoundedTwice (12.34 * 1.5) := by
  refine ((@conversion_rounded_iff asciiStr ⟨12.34, "USD"⟩ "EUR" 1.5 (by decide +kernel)).1
    ⟨18.51, "EUR"⟩ 1.5 ?_).mp ?_
  all_goals decide +kernel

/-- `Decimal("0.00005000000000000000000000000000001")`. -/
def longRate : Decimal := (5 * 10 ^ 30 + 1) / 10 ^ 35

/-- 1 USD at this rate is just over half of the smallest amount. The 28 digits of the product are
0.00005, and this rounds to zero. -/
theorem conversion_rounded_twice :
    @convert asciiStr ⟨1, "USD"⟩ "EUR" longRate = .ok (⟨0, "EUR"⟩, longRate) ∧
      @Money.mul asciiStr ⟨1, "USD"⟩ longRate = .ok ⟨0, "USD"⟩ ∧
      quantize (1 * longRate) = 1 / 10 ^ 4 := by
  decide +kernel

/-! ## Amounts that fit their columns -/

lemma decimalPlaces_quantize (x : Decimal) : decimalPlaces 4 (quantize x) := by
  unfold decimalPlaces quantize
  rw [div_mul_cancel₀ _ (by norm_num)]
  exact Rat.den_intCast _

variable {x : Decimal}

lemma quantize_pos_iff : 0 < quantize x ↔ 1 / 20000 < x := by
  have hpos : 0 < quantize x ↔ 0 < roundHalfEven (x * 10 ^ 4) := by
    unfold quantize
    rw [div_pos_iff_of_pos_right (by norm_num), Int.cast_pos]
  rw [hpos, lt_roundHalfEven_iff Even.zero]
  constructor
  all_goals
    intro h
    linarith

def converted (x : Decimal) : Decimal := quantize (roundAt (pyContext.lastPlace x) x)

lemma lastPlace_eq (x : Decimal) : pyContext.lastPlace x = max (adjusted x) (-999999) - 27 := by
  show max (adjusted x) (-999999) - ((28 : ℕ) : ℤ) + 1 = _
  ring

lemma converted_pos_iff (h0 : 0 < x) : 0 < converted x ↔ 1 / 20000 + 1 / (2 * 10 ^ 32) < x := by
  have hplace := lastPlace_eq x
  unfold converted
  rw [quantize_pos_iff]
  rcases le_or_gt ((10 : ℚ) ^ (-4 : ℤ)) x with hbig | hlt4
  · -- the first digit stays
    have hadj := le_adjusted h0 hbig
    have hkeep := zpow_le_abs_roundAt (e := pyContext.lastPlace x) (a := adjusted x)
      (by rw [hplace]; omega) (zpow_adjusted_le h0.ne')
    rw [abs_of_nonneg (roundAt_nonneg h0.le)] at hkeep
    have hfirst : (10 : ℚ) ^ (-4 : ℤ) ≤ 10 ^ adjusted x :=
      zpow_le_zpow_right₀ (by norm_num) hadj
    norm_num at hbig hfirst
    refine iff_of_true ?_ ?_
    all_goals linarith
  rcases le_or_gt ((10 : ℚ) ^ (-5 : ℤ)) x with hmid | hlt5
  · -- 0.00005 is an even number of units of the 28th digit
    have h5 := le_adjusted h0 hmid
    have h4 := adjusted_lt h0 hlt4
    have hlast : pyContext.lastPlace x = -32 := by
      omega
    have hunits := lt_roundHalfEven_iff (x := x / 10 ^ (-32 : ℤ)) (m := 5 * 10 ^ 27) (by decide)
    have hleft : 1 / 20000 < roundAt (-32) x ↔
        5 * 10 ^ 27 < roundHalfEven (x / 10 ^ (-32 : ℤ)) := by
      have hcast : 5 * 10 ^ 27 < roundHalfEven (x / 10 ^ (-32 : ℤ)) ↔
          (5 * 10 ^ 27 : ℚ) < roundHalfEven (x / 10 ^ (-32 : ℤ)) := by
        exact_mod_cast Iff.rfl
      have hpow : (10 : ℚ) ^ (-32 : ℤ) = 1 / 10 ^ 32 := by norm_num
      rw [hcast, roundAt, hpow, mul_one_div, lt_div_iff₀ (by norm_num)]
      norm_num
    have hright : ((5 * 10 ^ 27 : ℤ) : ℚ) + 1 / 2 < x / 10 ^ (-32 : ℤ) ↔
        1 / 20000 + 1 / (2 * 10 ^ 32) < x := by
      rw [lt_div_iff₀ (by norm_num)]
      norm_num
    rw [hlast, hleft, hunits, hright]
  · have hsmall := roundAt_le (e := pyContext.lastPlace x) (a := -5) (m := 1) (x := x)
      (by rw [hplace]; have := adjusted_lt h0 hlt5; omega) (by push_cast; linarith)
    norm_num at hlt5 hsmall
    refine iff_of_false ?_ ?_
    all_goals linarith

lemma round_le (h0 : 0 < x) (h : x < 10 ^ 14) : roundAt (pyContext.lastPlace x) x ≤ 10 ^ 14 := by
  have hadj : adjusted x < 14 := adjusted_lt h0 (by exact_mod_cast h)
  have := roundAt_le (e := pyContext.lastPlace x) (a := 14) (m := 1) (x := x)
    (by rw [lastPlace_eq]; omega) (by push_cast; linarith)
  norm_num at this ⊢
  exact this

/-- The 28 digits of a product below 10 ** 14. -/
lemma decimalMul_fits (h0 : 0 < x * y) (h : x * y < 10 ^ 14) :
    decimalMul x y = .ok (roundAt (pyContext.lastPlace (x * y)) (x * y)) := by
  set p := x * y with hp
  have hemax : ¬ pyContext.emax < adjusted (roundAt (pyContext.lastPlace p) p) := by
    show ¬ 999999 < adjusted (roundAt (pyContext.lastPlace p) p)
    rcases (roundAt_nonneg (e := pyContext.lastPlace p) h0.le).eq_or_lt with hz | hpos
    · rw [← hz]
      simp [adjusted]
    · have hle := round_le h0 h
      have := adjusted_lt (b := 15) hpos (by norm_num at hle ⊢; linarith)
      omega
  unfold decimalMul
  rw [← hp, Context.round, if_neg hemax]

lemma decimalQuantize_fits (h0 : 0 ≤ x) (h : x ≤ 10 ^ 14) :
    decimalQuantize x = .ok (quantize x) := by
  have hhi : roundHalfEven (x / 10 ^ (-4 : ℤ)) ≤ 10 ^ 18 :=
    roundHalfEven_le (by norm_num at h ⊢; linarith)
  have hlo : 0 ≤ roundHalfEven (x / 10 ^ (-4 : ℤ)) :=
    le_roundHalfEven (by norm_num; linarith)
  have hdigits : (roundHalfEven (x / 10 ^ (-4 : ℤ))).natAbs < 10 ^ pyContext.prec := by
    show _ < 10 ^ 28
    omega
  unfold decimalQuantize
  rw [Context.quantize, if_pos hdigits, quantize_eq_roundAt]

lemma quantize_nonneg (h : 0 ≤ x) : 0 ≤ quantize x := by
  rw [quantize_eq_roundAt]
  exact roundAt_nonneg h

lemma quantize_le (h : x ≤ 10 ^ 14) : quantize x ≤ 10 ^ 14 := by
  rw [quantize_eq_roundAt]
  have := roundAt_le (e := -4) (a := 14) (m := 1) (x := x) (by omega) (by norm_num at h ⊢; exact h)
  norm_num at this ⊢
  exact this

section Fits

variable [PyStr]

lemma Money.create_fits (h0 : 0 ≤ x) (h : x ≤ 10 ^ 14) (c : String) :
    create x c = if isIso4217 (clean c) = false then .error (.valueError c)
      else .ok ⟨quantize x, clean c⟩ := by
  unfold create
  rw [decimalQuantize_fits h0 h]
  cases isIso4217 (clean c) with
  | false | true => rfl

/-- A conversion of a product below 10 ** 14 can only fail at a currency code. -/
lemma convert_fits {rate : Decimal} (hrate : 0 < rate) (h0 : 0 < m.amount)
    (h : m.amount * rate < 10 ^ 14) (target : String) : convert m target rate =
      if isIso4217 (clean target) = false then .error (.valueError target)
      else if m.currency = clean target then .ok (m, 1)
      else if isIso4217 (clean (clean target)) = false then .error (.valueError (clean target))
      else .ok (⟨converted (m.amount * rate), clean (clean target)⟩, rate) := by
  have hp := mul_pos h0 hrate
  have hraw := round_le hp h
  have hconv : decimalQuantize (roundAt (pyContext.lastPlace (m.amount * rate)) (m.amount * rate)) =
      .ok (converted (m.amount * rate)) := decimalQuantize_fits (roundAt_nonneg hp.le) hraw
  have hmoney := create_fits (quantize_nonneg (roundAt_nonneg hp.le)) (quantize_le hraw)
    (clean target)
  rw [quantize_of_decimalPlaces (decimalPlaces_quantize _)] at hmoney
  unfold convert
  rw [if_neg (not_le.mpr hrate), decimalMul_fits hp h]
  by_cases hiso : isIso4217 (clean target) = false
  · rw [if_pos hiso, if_pos hiso]
  by_cases hsame : m.currency = clean target
  · rw [if_neg hiso, if_neg hiso, if_pos hsame, if_pos hsame]
  rw [if_neg hiso, if_neg hiso, if_neg hsame, if_neg hsame]
  show (decimalQuantize _ >>= fun q => create q (clean target) >>= fun money =>
    pure (money, rate)) = _
  rw [hconv]
  show (create (converted (m.amount * rate)) (clean target) >>= fun money =>
    pure (money, rate)) = _
  rw [converted, hmoney]
  split
  all_goals rfl

end Fits

/-!
## How a sum of money rounds

`Money.__add__` and `Money.__sub__` compute with Python's default context, which rounds to 28
digits, and `Money` quantizes the result. An amount of `Money` has four decimals, so an exact sum of
28 digits is not rounded at all; one of more digits raises.
-/

section Addition

variable [PyStr]

def Money.Made (m : Money) : Prop :=
  ∃ amount currency, create amount currency = .ok m

lemma Money.create_currency (h : create x c = .ok m) : m.currency = clean c := by
  unfold create at h
  split at h
  · obtain ⟨q, -, h⟩ := except_bind_ok h
    cases h
    rfl
  · cases h

lemma Money.Made.roundAt_eq {m : Money} (h : m.Made) : roundAt (-4) m.amount = m.amount := by
  obtain ⟨x, c, h⟩ := h
  rw [(Context.quantize_eq_some (create_ok h)).1, roundAt_roundAt_self]

omit [PyStr] in
lemma decimalSum_ok (h : decimalSum x = .ok z) : pyContext.round x = some z := by
  unfold decimalSum at h
  split at h
  · cases h
    assumption
  · cases h

section Combine

variable {a : Money}

lemma Money.combine_ok (h : a.combine verb op b = .ok m) :
    a.currency = b.currency ∧ ∃ raw, decimalSum (op a.amount b.amount) = .ok raw ∧
      create raw a.currency = .ok m := by
  unfold combine at h
  split at h
  · cases h
  · next hcur =>
    exact ⟨not_not.mp hcur, except_bind_ok h⟩

lemma Money.combine_made (h : a.combine verb op b = .ok m) : m.Made := by
  obtain ⟨-, raw, -, hm⟩ := combine_ok h
  exact ⟨raw, a.currency, hm⟩

/-- **A returned result is exact** if the exact one has four decimals. -/
theorem Money.combine_exact (hgrid : roundAt (-4) (op a.amount b.amount) = op a.amount b.amount)
    (h : a.combine verb op b = .ok m) : m.amount = op a.amount b.amount := by
  obtain ⟨-, raw, hraw, hm⟩ := combine_ok h
  exact Context.quantize_round_exact (by decide) (by decide) hgrid (decimalSum_ok hraw)
    (create_ok hm)

lemma Money.combine_currency (h : a.combine verb op b = .ok m) : m.currency = clean a.currency := by
  obtain ⟨-, raw, -, hm⟩ := combine_ok h
  exact create_currency hm

end Combine

section Exact

variable {a : Money}

lemma Money.Made.add_exact (ha : a.Made) (hb : b.Made) (h : a.add b = .ok m) :
    m.amount = a.amount + b.amount :=
  combine_exact (roundAt_add ha.roundAt_eq hb.roundAt_eq) h

lemma Money.Made.sub_exact (ha : a.Made) (hb : b.Made) (h : a.sub b = .ok m) :
    m.amount = a.amount - b.amount := by
  refine combine_exact ?_ h
  rw [sub_eq_add_neg]
  exact roundAt_add ha.roundAt_eq (roundAt_neg hb.roundAt_eq)

lemma Money.add_currency (h : a.add b = .ok m) :
    a.currency = b.currency ∧ m.currency = clean a.currency :=
  ⟨(combine_ok h).1, combine_currency h⟩

lemma Money.sub_currency (h : a.sub b = .ok m) :
    a.currency = b.currency ∧ m.currency = clean a.currency :=
  ⟨(combine_ok h).1, combine_currency h⟩

end Exact

lemma Money.add_assoc_of_ok {a b c ab bc l r : Money} (ha : a.Made) (hb : b.Made) (hc : c.Made)
    (hab : a.add b = .ok ab) (hl : ab.add c = .ok l) (hbc : b.add c = .ok bc)
    (hr : a.add bc = .ok r) : l = r := by
  have hamount : l.amount = r.amount := by
    rw [(combine_made hab).add_exact hc hl, ha.add_exact hb hab,
      ha.add_exact (combine_made hbc) hr, hb.add_exact hc hbc, add_assoc]
  obtain ⟨hcur, hab'⟩ := add_currency hab
  obtain ⟨hcur', hl'⟩ := add_currency hl
  obtain ⟨hbc', -⟩ := add_currency hbc
  obtain ⟨-, hr'⟩ := add_currency hr
  -- the sum of `a` and `b` is added to `c`, so the clean form of the currency is the currency
  have hclean : clean a.currency = a.currency := by
    rw [← hab', hcur', ← hbc', ← hcur]
  have hcurrency : l.currency = r.currency := by
    rw [hl', hr', hab', hclean, hclean]
  cases l
  cases r
  cases hamount
  cases hcurrency
  rfl

lemma Money.add_sub_cancel_of_ok {a b ab m : Money} (ha : a.Made) (hb : b.Made)
    (hab : a.add b = .ok ab) (hm : ab.sub b = .ok m) : m = a := by
  have hamount : m.amount = a.amount := by
    rw [(combine_made hab).sub_exact hb hm, ha.add_exact hb hab, add_sub_cancel_right]
  obtain ⟨hcur, hab'⟩ := add_currency hab
  obtain ⟨hcur', hm'⟩ := sub_currency hm
  have hcurrency : m.currency = a.currency := by
    rw [hm', hcur', ← hcur, ← hab', hcur', hcur]
  cases m
  cases a
  cases hamount
  cases hcurrency
  rfl

/-- **Addition of money is exact or refused**: a returned sum or difference is the exact one, sums
are associative and differences undo them as far as they are returned, and two currencies raise. -/
theorem money_addition_exact (a b c : Money) (ha : a.Made) (hb : b.Made) (hc : c.Made) :
    (∀ m, a.add b = .ok m → m.amount = a.amount + b.amount) ∧
    (∀ m, a.sub b = .ok m → m.amount = a.amount - b.amount) ∧
    (∀ ab bc l r, a.add b = .ok ab → ab.add c = .ok l → b.add c = .ok bc → a.add bc = .ok r →
      l = r) ∧
    (∀ ab m, a.add b = .ok ab → ab.sub b = .ok m → m = a) ∧
    (a.currency ≠ b.currency → (∃ message, a.add b = .error (.currencyMismatch message)) ∧
        ∃ message, a.sub b = .error (.currencyMismatch message)) := by
  refine ⟨fun m => ha.add_exact hb, fun m => ha.sub_exact hb, ?_, ?_, ?_⟩
  · intro ab bc l r hab hl hbc hr
    exact add_assoc_of_ok ha hb hc hab hl hbc hr
  · intro ab m hab hm
    exact add_sub_cancel_of_ok ha hb hab hm
  · intro hne
    exact ⟨⟨_, if_pos hne⟩, ⟨_, if_pos hne⟩⟩

end Addition

/-- The largest amount, to which the smallest one cannot be added; with the opposite one first it
can. -/
theorem largest_amount_addition :
    let := asciiStr
    let most : Money := ⟨(10 ^ 28 - 1) / 10 ^ 4, "USD"⟩
    let least : Money := ⟨1 / 10 ^ 4, "USD"⟩
    let debt : Money := ⟨-1 / 10 ^ 4, "USD"⟩
    most.add least = .error .invalidOperation ∧
      (∀ ab bc l r, most.add debt = .ok ab → ab.add least = .ok l → debt.add least = .ok bc →
        most.add bc = .ok r → l = r) ∧
      ∃ ab l bc r, most.add debt = .ok ab ∧ ab.add least = .ok l ∧ debt.add least = .ok bc ∧
        most.add bc = .ok r := by
  intro _ most least debt
  have hmade : most.Made ∧ debt.Made ∧ least.Made :=
    ⟨⟨most.amount, "USD", by decide +kernel⟩, ⟨debt.amount, "USD", by decide +kernel⟩,
      ⟨least.amount, "USD", by decide +kernel⟩⟩
  refine ⟨by decide +kernel, ?_, ?_⟩
  · exact (money_addition_exact most debt least hmade.1 hmade.2.1 hmade.2.2).2.2.1
  · exact ⟨⟨(10 ^ 28 - 2) / 10 ^ 4, "USD"⟩, most, ⟨0, "USD"⟩, most, by decide +kernel⟩

end CleanArch
