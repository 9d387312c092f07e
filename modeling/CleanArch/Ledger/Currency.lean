import CleanArch.Ledger.Movement

/-!
# Conservation of each currency

A transfer checks one total over all its legs, whatever their currencies are. Seen currency by
currency (`ConservesCurrencies`), the legs balance only if the fee account has the currency of the
source, and each clearing account the one that it clears (`CurrenciesAgree`).
-/

namespace CleanArch

open AccountType Async Books

/-! ## Currencies of a ledger -/

def Ledger.currencyOf (d : Ledger) (id : UUID) : Option String :=
  (d.getAccountById id).map (·.currency)

def ConservesCurrencies (d : Ledger) (e : JournalEntryEntity) : Prop :=
  ∀ c, totalOf .debit (e.postings.filter fun p => d.currencyOf p.accountId = some c) =
    totalOf .credit (e.postings.filter fun p => d.currencyOf p.accountId = some c)

def feeCurrency (a : TransferArgs) (d : Ledger) : Option String := a.feeAccount.bind d.currencyOf

/-- The currency of the clearing account of a currency: that of the account with its number, or
the one that a new account gets. -/
def clearingCurrency [PyStr] (d : Ledger) (currency : String) : String :=
  match d.getAccountByNumber (treasuryNumber currency) with
  | some acc => acc.currency
  | none => PyStr.upper (clean currency)

def FeeInSource (a : TransferArgs) (d : Ledger) (src : LedgerAccountEntity) : Prop :=
  ∀ c, feeCurrency a d = some c → c = src.currency

/-- The clearing account of the destination has the currency of the source, the sides are opposite,
and the converted amount is what the other legs have in the destination's currency. -/
structure Swapped [PyStr] (a : TransferArgs) (d : Ledger) (src dst : LedgerAccountEntity) :
    Prop where
  sides : src.accountType.debitNormal ≠ dst.accountType.debitNormal
  destClearing : clearingCurrency d dst.currency = src.currency
  sourceClearing : clearingCurrency d src.currency = src.currency ∨
    clearingCurrency d src.currency = dst.currency
  fee : ∀ c, feeCurrency a d = some c → c = src.currency ∨ c = dst.currency
  amount : ∃ rate, destinationAmount a src.currency dst.currency =
    .ok (amountIn (some (clearingCurrency d src.currency)) a.amount dst.currency +
      amountIn (feeCurrency a d) a.feeAmount dst.currency, rate)

def CurrenciesAgree [PyStr] (a : TransferArgs) (d : Ledger) : Prop :=
  ∀ src dst, d.getAccountById a.sourceAccountId = some src →
    d.getAccountById a.destinationAccountId = some dst →
    (src.currency = dst.currency → FeeInSource a d src) ∧
    (src.currency ≠ dst.currency →
      (clearingCurrency d src.currency = src.currency ∧
        clearingCurrency d dst.currency = dst.currency ∧ FeeInSource a d src) ∨
      Swapped a d src dst)

/-! ## The entry of a transfer -/

lemma conservesCurrencies_iff : ConservesCurrencies d e ↔
      ∀ c, Books.net (fun id => d.currencyOf id = some c) (e.postings.map (·.signed)) = 0 := by
  refine forall_congr' fun c => ?_
  rw [← totalOf_sub, sub_eq_zero]

lemma Ledger.Grows.currencyOf {d d' : Ledger} {id : UUID} (hg : d.Grows d')
    (h : d.getAccountById id = some acc) : d'.currencyOf id = some acc.currency := by
  rw [Ledger.currencyOf, hg.getAccountById h, Option.map_some]

lemma feeCurrency_some (h : feeCurrency a d = some c) : 0 < a.feeAmount := by
  obtain ⟨id, hid, -⟩ := Option.bind_eq_some_iff.mp h
  exact (TransferArgs.feeAccount_some.mp hid).1

lemma AccountType.sided_eq_zero (t : AccountType) (x : Decimal) : t.sided x = 0 ↔ x = 0 := by
  unfold sided
  split <;> simp

section Entry

variable [PyStr]

lemma Clearing.currencyOf (h : Clearing d rows c fx) (hk : (d ++ rows).Keyed) (hf : d.Free rows) :
    (d ++ rows).currencyOf fx.id = some (clearingCurrency d c) := by
  have hfind : fx ∈ (d ++ rows).accounts → (d ++ rows).currencyOf fx.id = some fx.currency :=
    fun hm => by rw [Ledger.currencyOf, hk.getAccountById hm, Option.map_some]
  rcases h with h | ⟨h, -, hc⟩
  · obtain ⟨hm, -⟩ := Ledger.getAccountByNumber_some h
    rw [hfind (List.mem_append_left _ hm), clearingCurrency, h]
  · obtain ⟨hm, hn⟩ := Ledger.getAccountByNumber_some h
    have hnone : d.getAccountByNumber (treasuryNumber c) = none := by
      refine List.find?_eq_none.mpr fun b hb => ?_
      simpa [hn] using (hf.accounts fx hm b hb).2
    rw [hfind (List.mem_append_right _ hm), clearingCurrency, hnone, hc]

lemma Ready.feeOn (h : Ready a plan rows d) (c : String) :
    feeOn (fun id => (d ++ rows).currencyOf id = some c) a =
      amountIn (feeCurrency a d) a.feeAmount c := by
  unfold CleanArch.feeOn feeCurrency amountIn
  cases hf : a.feeAccount with
  | none => simp
  | some id =>
    obtain ⟨acc, hacc⟩ := h.loaded.fee id hf
    simp only [(Ledger.Grows.append d rows).currencyOf hacc]
    simp [Ledger.currencyOf, hacc]

lemma Ready.feeCurrency_none (h : Ready a plan rows d) (hn : feeCurrency a d = none) :
    a.feeAmount = 0 := by
  cases hf : a.feeAccount with
  | none => exact h.preflight.feeAccount_none hf
  | some id =>
    obtain ⟨acc, hacc⟩ := h.loaded.fee id hf
    simp [feeCurrency, hf, Ledger.currencyOf, hacc] at hn

lemma Ready.currenciesAgree_iff (h : Ready a plan rows d) : CurrenciesAgree a d ↔
      (plan.source.currency = plan.dest.currency → FeeInSource a d plan.source) ∧
      (plan.source.currency ≠ plan.dest.currency →
        (clearingCurrency d plan.source.currency = plan.source.currency ∧
          clearingCurrency d plan.dest.currency = plan.dest.currency ∧
          FeeInSource a d plan.source) ∨ Swapped a d plan.source plan.dest) := by
  refine ⟨fun hc => hc _ _ h.loaded.source h.loaded.dest, fun hc src dst hs hd => ?_⟩
  rw [h.loaded.source] at hs
  rw [h.loaded.dest] at hd
  cases hs
  cases hd
  exact hc

lemma Ready.single_iff (h : Ready a plan rows d) (hc : plan.source.currency = plan.dest.currency) :
    (∀ c, Books.net (fun id => (d ++ rows).currencyOf id = some c)
      ((singleCurrencyLegs a plan.source.accountType).map (·.signed)) = 0) ↔
      FeeInSource a d plan.source := by
  have hg := Ledger.Grows.append d rows
  have hflow := flow_single_iff (s := plan.source.currency) (a := a.amount) h.feeCurrency_none
    fun _ => feeCurrency_some
  rw [FeeInSource, ← hflow]
  refine forall_congr' fun c => ?_
  rw [net_singleCurrencyLegs, sided_eq_zero, h.feeOn c,
    hg.currencyOf h.loaded.source, hg.currencyOf h.loaded.dest, ← hc]
  rfl

lemma Ready.cross_iff (h : Ready a plan rows d) (hk : (d ++ rows).Keyed) (hf : d.Free rows)
    (hc : plan.source.currency ≠ plan.dest.currency)
    (h1 : Clearing d rows plan.source.currency sourceFx)
    (h2 : Clearing d rows plan.dest.currency destFx) (hD : 0 < plan.quote.1) :
    (∀ c, Books.net (fun id => (d ++ rows).currencyOf id = some c)
      ((crossCurrencyLegs a plan.source.accountType plan.dest.accountType sourceFx.id destFx.id
        plan.quote.1).map (·.signed)) = 0) ↔
      (clearingCurrency d plan.source.currency = plan.source.currency ∧
        clearingCurrency d plan.dest.currency = plan.dest.currency ∧
        FeeInSource a d plan.source) ∨ Swapped a d plan.source plan.dest := by
  have hg := Ledger.Grows.append d rows
  have hnet : ∀ c, Books.net (fun id => (d ++ rows).currencyOf id = some c)
      ((crossCurrencyLegs a plan.source.accountType plan.dest.accountType sourceFx.id destFx.id
        plan.quote.1).map (·.signed)) =
      plan.source.accountType.sided
        (-amountIn (some plan.source.currency) (a.amount + a.feeAmount) c +
        amountIn (some (clearingCurrency d plan.source.currency)) a.amount c +
        amountIn (feeCurrency a d) a.feeAmount c) +
      plan.dest.accountType.sided
        (-amountIn (some (clearingCurrency d plan.dest.currency)) plan.quote.1 c +
        amountIn (some plan.dest.currency) plan.quote.1 c) := by
    intro c
    rw [net_crossCurrencyLegs, h.feeOn c, hg.currencyOf h.loaded.source,
      hg.currencyOf h.loaded.dest, h1.currencyOf hk hf, h2.currencyOf hk hf]
    rfl
  have hs := sided_eq_zero plan.source.accountType
  simp only [hnet]
  by_cases hside : plan.source.accountType.debitNormal = plan.dest.accountType.debitNormal
  · -- both sides are posted with the same sign
    have hsum : ∀ x y, plan.source.accountType.sided x + plan.dest.accountType.sided y =
        plan.source.accountType.sided (x + y) := fun x y => by
      rw [sided_add, sided, sided, sided, hside]
    simp only [hsum, hs]
    rw [flow_same_iff hc h.preflight.amount hD h.feeCurrency_none fun _ => feeCurrency_some]
    exact ⟨.inl, fun h => h.resolve_right fun hw => hw.sides hside⟩
  · have hdiff : ∀ x y, plan.source.accountType.sided x + plan.dest.accountType.sided y =
        plan.source.accountType.sided (x - y) := fun x y => by
      unfold sided
      revert hside
      cases plan.source.accountType.debitNormal <;> cases plan.dest.accountType.debitNormal <;>
        intro hside <;> simp at hside ⊢ <;> ring
    simp only [hdiff, hs]
    rw [flow_opposite_iff hc h.preflight.amount hD h.feeCurrency_none fun _ => feeCurrency_some]
    refine or_congr_right ⟨?_, fun hw => ⟨hw.destClearing, hw.sourceClearing, hw.fee, ?_⟩⟩
    · rintro ⟨h2, h1, hfee, hq⟩
      refine ⟨hside, h2, h1, hfee, plan.quote.2, ?_⟩
      rw [h.quote, ← hq]
    · obtain ⟨rate, hrate⟩ := hw.amount
      rw [h.quote] at hrate
      injection hrate with hrate
      rw [hrate]

lemma Ready.conserves_iff (h : Ready a plan rows d) (hk : (d ++ rows).Keyed) (hf : d.Free rows) :
    ConservesCurrencies (d ++ rows) plan.entry ↔ CurrenciesAgree a d := by
  have hsigned : plan.entry.postings.map (·.signed) = plan.legs.map (·.signed) := by
    rw [← h.postings, List.map_map]
    rfl
  have hlegs := h.legs
  have hvalid := h.valid
  rw [conservesCurrencies_iff, hsigned, h.currenciesAgree_iff]
  generalize plan.legs = legs at hlegs hvalid
  cases hlegs with
  | single hc =>
    rw [h.single_iff hc]
    exact ⟨fun hfee => ⟨fun _ => hfee, fun hne => absurd hc hne⟩, fun hagree => hagree.1 hc⟩
  | cross hc sourceFx destFx h1 h2 =>
    have hD : 0 < plan.quote.1 := by
      -- both layouts have a leg of the converted amount on the clearing account
      unfold crossCurrencyLegs at hvalid
      by_cases hd : plan.dest.accountType.debitNormal = true
      · exact (hvalid ⟨destFx.id, plan.quote.1, .credit⟩ (by simp [hd])).1
      · exact (hvalid ⟨destFx.id, plan.quote.1, .debit⟩ (by simp [hd])).1
    rw [h.cross_iff hk hf hc h1 h2 hD]
    exact ⟨fun hx => ⟨fun he => absurd he hc, fun _ => hx⟩, fun hagree => hagree.2 hc⟩

/-- **Each currency is conserved** by the entry that a call commits, exactly when the currencies
agree. -/
theorem transferFunds_conserves_iff (deps : TransferDeps) (token : Token) (tries : Nat)
    (a : TransferArgs) (o : Nat → Answer) (l : Session) (s : World) (e : JournalEntryEntity)
    (hk : s.db.Keyed)
    (he : (ledgerMachine.run 0 (transferFunds deps token tries a) o l s).2.2.db.entries =
      s.db.entries ++ [e]) :
    ConservesCurrencies (ledgerMachine.run 0 (transferFunds deps token tries a) o l s).2.2.db e ↔
      CurrenciesAgree a s.db := by
  rcases transferFunds_committed deps a token tries 0 o l s with hd | ⟨plan, hc⟩
  · rw [hd] at he
    simp at he
  · obtain ⟨rows, hd, hr, hf⟩ := hc.rows
    rw [hd, Ledger.entries_append, hr.entries] at he
    obtain rfl : plan.entry = e := by simpa using he
    rw [hd]
    exact hr.conserves_iff (hk.append hr.keyed hf) hf

end Entry

/-! ### A fee in another currency -/

/-- The fee account of the witnesses, in the currency `c`. -/
def feeAccountIn (c : String) : LedgerAccountEntity := ⟨4, "FEES", "Fees", .asset, c, true, 0⟩

def feeWorld (c : String) : World :=
  { db := { accounts := [cashAccount, bankAccount, walletAccount, feeAccountIn c],
            entries := [openingEntry] } }

def feeTransfer : TransferArgs := { cashTransfer 2 with feeAmount := 1, feeAccountId := some 4 }

lemma feeWorld_keyed : (feeWorld c).db.Keyed := by
  constructor <;> simp [feeWorld, cashAccount, bankAccount, walletAccount, feeAccountIn,
    openingEntry]

def feeEntry : JournalEntryEntity :=
  ⟨17000, "t-1", "Transfer", 0, [⟨17001, 17000, 1, 31, .credit, 0⟩,
    ⟨17002, 17000, 2, 30, .debit, 0⟩, ⟨17003, 17000, 4, 1, .debit, 0⟩], false⟩

/-- A fee in the currency of the source. -/
theorem transferFunds_conserves_iff_usd :
    ConservesCurrencies (ledgerMachine.run 0 (@transferFunds asciiStr {} 0 1 feeTransfer) freshIds
      {} (feeWorld "USD")).2.2.db feeEntry := by
  have hsource : (feeWorld "USD").db.getAccountById 1 = some cashAccount := by decide +kernel
  have hdest : (feeWorld "USD").db.getAccountById 2 = some bankAccount := by decide +kernel
  have hfee : feeCurrency feeTransfer (feeWorld "USD").db = some "USD" := by decide +kernel
  refine (@transferFunds_conserves_iff asciiStr {} 0 1 feeTransfer freshIds {} (feeWorld "USD")
    feeEntry (feeWorld_keyed) (by decide +kernel)).mpr fun src dst hs hd => ?_
  cases hs
  cases hd
  refine ⟨fun _ c hc => ?_, fun hne => absurd rfl hne⟩
  cases hc
  rfl

/-- A fee account in EUR: the call commits an entry that credits 31 USD and debits 30 USD and
1 EUR. -/
theorem transferFunds_conserves_eur_fails : (feeWorld "EUR").db.Keyed ∧
      (ledgerMachine.run 0 (@transferFunds asciiStr {} 0 1 feeTransfer) freshIds {}
        (feeWorld "EUR")).2.2.db.entries = (feeWorld "EUR").db.entries ++ [feeEntry] ∧
      ¬ ConservesCurrencies (ledgerMachine.run 0 (@transferFunds asciiStr {} 0 1 feeTransfer)
        freshIds {} (feeWorld "EUR")).2.2.db feeEntry := by
  refine ⟨feeWorld_keyed, by decide +kernel, fun h => ?_⟩
  exact absurd (h "EUR") (by decide +kernel)

end CleanArch
