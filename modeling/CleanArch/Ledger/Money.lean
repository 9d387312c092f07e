import CleanArch.Decimals.Context
import CleanArch.Ledger.Types

/-!
# Money and currency conversion

`Money` (`app/core/money.py`) and `FXConversionService.convert`
(`app/services/fx_conversion_service.py`): an amount is quantized to four decimals with banker's
rounding (`ROUND_HALF_EVEN`), and a currency code is three capital letters after `strip` and
`upper`.
-/

namespace CleanArch

open Decimals

def pyContext : Context where
  prec := 28
  emin := -999999
  emax := 999999

def quantize (x : Decimal) : Decimal := roundHalfEven (x * 10 ^ 4) / 10 ^ 4

/-- `x * y`. -/
def decimalMul (x y : Decimal) : Except LedgerError Decimal :=
  match pyContext.round (x * y) with
  | some z => .ok z
  | none => .error .decimalOverflow

/-- `x + y` and `x - y`, from the exact result. -/
def decimalSum (exact : Decimal) : Except LedgerError Decimal :=
  match pyContext.round exact with
  | some z => .ok z
  | none => .error .decimalOverflow

/-- `x.quantize(Decimal("0.0001"), rounding=ROUND_HALF_EVEN)`. -/
def decimalQuantize (x : Decimal) : Except LedgerError Decimal :=
  match pyContext.quantize (-4) x with
  | some z => .ok z
  | none => .error .invalidOperation

/-- `_ISO_4217_REGEX.match(s)`; the regex's `$` also stands before a final newline. -/
def isIso4217 (s : String) : Bool :=
  match s.toList with
  | [a, b, c] => a.isUpper && b.isUpper && c.isUpper
  | [a, b, c, '\n'] => a.isUpper && b.isUpper && c.isUpper
  | _ => false

/-- An amount in a currency, as `__post_init__` leaves it. -/
structure Money where
  amount : Decimal
  currency : String
  deriving DecidableEq

/-- `Money(amount=…, currency=…)`. -/
def Money.create [PyStr] (amount : Decimal) (currency : String) : Except LedgerError Money :=
  if isIso4217 (clean currency) then do
    let quantizedAmount ← decimalQuantize amount
    return ⟨quantizedAmount, clean currency⟩
  else
    .error (.valueError currency)

def Money.combine [PyStr] (verb : String) (op : Decimal → Decimal → Decimal) (money other : Money) :
    Except LedgerError Money :=
  if money.currency ≠ other.currency then
    .error (.currencyMismatch
      (s!"Cannot {verb} Money with different currencies: '{money.currency}' and " ++
        s!"'{other.currency}'. Cross-currency arithmetic requires explicit Foreign Exchange " ++
        "(FX) conversion."))
  else do
    let amount ← decimalSum (op money.amount other.amount)
    Money.create amount money.currency

/-- `Money.__add__`. -/
def Money.add [PyStr] (money other : Money) : Except LedgerError Money :=
  money.combine "add" (· + ·) other

/-- `Money.__sub__`. -/
def Money.sub [PyStr] (money other : Money) : Except LedgerError Money :=
  money.combine "subtract" (· - ·) other

/-- `Money.__mul__` with a `Decimal` factor. -/
def Money.mul [PyStr] (money : Money) (factor : Decimal) : Except LedgerError Money := do
  let amount ← decimalMul money.amount factor
  Money.create amount money.currency

/-- `FXConversionService.convert`: the converted money and the applied rate. -/
def convert [PyStr] (money : Money) (targetCurrency : String) (exchangeRate : Decimal) :
    Except LedgerError (Money × Decimal) :=
  if exchangeRate ≤ 0 then .error .invalidFXRate
  else if isIso4217 (clean targetCurrency) = false then .error (.valueError targetCurrency)
  else if money.currency = clean targetCurrency then .ok (money, 1)
  else do
    let convertedRaw ← decimalMul money.amount exchangeRate
    let convertedAmount ← decimalQuantize convertedRaw
    let convertedMoney ← Money.create convertedAmount (clean targetCurrency)
    return (convertedMoney, exchangeRate)

/-! ## Rounding -/

lemma quantize_eq_roundAt : quantize x = roundAt (-4) x := by
  have h4 : (10 : ℚ) ^ (-4 : ℤ) = 1 / 10 ^ 4 := by norm_num
  rw [quantize, roundAt, h4, div_div_eq_mul_div, div_one, mul_one_div]

lemma quantize_of_decimalPlaces (h : decimalPlaces 4 x) : quantize x = x := by
  have hn : ((x * 10 ^ 4).num : Decimal) = x * 10 ^ 4 := (Rat.den_eq_one_iff _).mp h
  unfold quantize
  rw [← hn, roundHalfEven_intCast, hn]
  simp

/-! ## Exceptions -/

lemma except_bind_error {E α β : Type} {x : Except E α} {f : α → Except E β} {e : E}
    (h : x >>= f = .error e) : x = .error e ∨ ∃ a, f a = .error e := by
  cases x with
  | error => cases h; exact .inl rfl
  | ok a => exact .inr ⟨a, h⟩

lemma except_bind_ok {E α β : Type} {x : Except E α} {f : α → Except E β} {b : β}
    (h : x >>= f = .ok b) : ∃ a, x = .ok a ∧ f a = .ok b := by
  cases x with
  | error => cases h
  | ok a => exact ⟨a, rfl, h⟩

def LedgerError.isArithmetic : LedgerError → Bool
  | .valueError _ | .invalidOperation | .decimalOverflow => true
  | _ => false

lemma decimalMul_error (h : decimalMul x y = .error e) : e = .decimalOverflow := by
  unfold decimalMul at h
  split at h
  · cases h
  · cases h; rfl

lemma decimalQuantize_error (h : decimalQuantize x = .error e) : e = .invalidOperation := by
  unfold decimalQuantize at h
  split at h
  · cases h
  · cases h; rfl

lemma Money.create_error [PyStr] (h : Money.create x c = .error e) : e.isArithmetic = true := by
  unfold Money.create at h
  split at h
  · rcases except_bind_error h with h | ⟨_, h⟩
    · rw [decimalQuantize_error h]; rfl
    · cases h
  · cases h; rfl

lemma convert_error [PyStr] {rate : Decimal} (h : convert m c rate = .error e) :
    e = .invalidFXRate ∨ e.isArithmetic = true := by
  unfold convert at h
  split_ifs at h
  · cases h; exact .inl rfl
  · cases h; exact .inr rfl
  · right
    rcases except_bind_error h with h | ⟨_, h⟩
    · rw [decimalMul_error h]; rfl
    rcases except_bind_error h with h | ⟨_, h⟩
    · rw [decimalQuantize_error h]; rfl
    rcases except_bind_error h with h | ⟨_, h⟩
    · exact Money.create_error h
    · cases h

end CleanArch
