import CleanArch.Ledger.TransferSys

/-!
# What a transfer moves

The law of a transfer (`Moves`): the source falls by the amount and the fee, the destination rises
by the reported amount, the fee account rises by the fee, and no other account moves. The code
chooses the direction of every leg of a single-currency transfer by the type of the source, and the
direction of a fee leg too (`SidesAgree`).
-/

namespace CleanArch

open AccountType Async TransferArgs

def LedgerAccountEntity.isTreasury (acc : LedgerAccountEntity) : Bool :=
  "TREASURY-FX-".toList.isPrefixOf acc.accountNumber.toList

def Ledger.normalBalanceOf (d : Ledger) (acc : LedgerAccountEntity) : Decimal :=
  normalBalance acc.accountType (d.getAccountBalanceAggregates acc.id)

def TransferArgs.NonTreasury (a : TransferArgs) (d : Ledger) : Prop :=
  ∀ acc ∈ d.accounts, (acc.id = a.sourceAccountId ∨ acc.id = a.destinationAccountId ∨
    a.feeAccountId = some acc.id) → acc.isTreasury = false

/-- The law of a transfer from the rows `d0` to the rows `d`. -/
structure Moves (a : TransferArgs) (r : FundTransferResponse) (d0 d : Ledger) : Prop where
  source : ∃ acc, d0.getAccountById a.sourceAccountId = some acc ∧
    d.normalBalanceOf acc = d0.normalBalanceOf acc - (a.amount + a.feeAmount)
  dest : ∃ acc, d0.getAccountById a.destinationAccountId = some acc ∧
    d.normalBalanceOf acc = d0.normalBalanceOf acc + r.destinationAmount
  fee : ∀ acc, a.feeAccountId = some acc.id → d0.getAccountById acc.id = some acc →
    d.normalBalanceOf acc = d0.normalBalanceOf acc + a.feeAmount
  other : ∀ acc ∈ d0.accounts, acc.isTreasury = false → acc.id ≠ a.sourceAccountId →
    acc.id ≠ a.destinationAccountId → a.feeAccountId ≠ some acc.id →
    d.normalBalanceOf acc = d0.normalBalanceOf acc

/-- The accounts whose legs follow the type of the source have its normal side: the destination
of a transfer in one currency, and the account of a fee. -/
structure SidesAgree (a : TransferArgs) (d : Ledger) : Prop where
  dest : ∀ src dst, d.getAccountById a.sourceAccountId = some src →
    d.getAccountById a.destinationAccountId = some dst → src.currency = dst.currency →
    dst.accountType.debitNormal = src.accountType.debitNormal
  fee : ∀ src acc, d.getAccountById a.sourceAccountId = some src →
    a.feeAccount = some acc.id → d.getAccountById acc.id = some acc →
    acc.accountType.debitNormal = src.accountType.debitNormal

/-! ## The legs of one account -/

lemma AccountType.sided_zero (type : AccountType) : type.sided 0 = 0 := by
  simp [sided]

lemma AccountType.sided_sided (t u : AccountType) (x : Decimal) :
    t.sided (u.sided x) = if t.debitNormal = u.debitNormal then x else -x := by
  unfold sided
  cases t.debitNormal <;> cases u.debitNormal <;> simp

lemma AccountType.sided_sided_eq_iff (t u : AccountType) (hx : x ≠ 0) :
    t.sided (u.sided x) = x ↔ t.debitNormal = u.debitNormal := by
  rw [sided_sided]
  split
  · simp [*]
  · rename_i h
    simp only [h, iff_false]
    intro he
    exact hx (by linarith)

lemma feeOn_eq (id : UUID) :
    feeOn (· = id) a = if a.feeAccount = some id then a.feeAmount else 0 := by
  unfold feeOn
  cases a.feeAccount with
  | none | some => simp

section Legs

variable [PyStr] {plan : TransferPlan}

lemma Clearing.treasury (h : Clearing d rows c fx) :
    fx ∈ (d ++ rows).accounts ∧ fx.isTreasury = true := by
  have hmem : fx ∈ (d ++ rows).accounts ∧ fx.accountNumber = treasuryNumber c := by
    rcases h with h | ⟨h, -⟩
    · exact ⟨List.mem_append_left _ (Ledger.getAccountByNumber_some h).1,
        (Ledger.getAccountByNumber_some h).2⟩
    · exact ⟨List.mem_append_right _ (Ledger.getAccountByNumber_some h).1,
        (Ledger.getAccountByNumber_some h).2⟩
  refine ⟨hmem.1, ?_⟩
  rw [LedgerAccountEntity.isTreasury, hmem.2, treasuryNumber, String.toList_append]
  simp

lemma Clearing.ne_id (h : Clearing d rows c fx) (hk : (d ++ rows).Keyed) (hm : acc ∈ d.accounts)
    (ht : acc.isTreasury = false) : fx.id ≠ acc.id := by
  intro hid
  obtain ⟨hfx, htr⟩ := h.treasury
  have heq : fx = acc :=
    List.inj_on_of_nodup_map hk.accountIds hfx (List.mem_append_left _ hm) hid
  rw [← heq, htr] at ht
  cases ht

def TransferPlan.destSide (plan : TransferPlan) : AccountType :=
  if plan.source.currency = plan.dest.currency then plan.source.accountType
  else plan.dest.accountType

lemma Ready.balance (h : Ready a plan rows d) (hk : (d ++ rows).Keyed) (hm : acc ∈ d.accounts)
    (ht : acc.isTreasury = false) : Books.balance acc.id rows.book =
      plan.source.accountType.sided (-(if a.sourceAccountId = acc.id then a.totalRequired else 0) +
        (if a.feeAccount = some acc.id then a.feeAmount else 0)) +
      plan.destSide.sided (if a.destinationAccountId = acc.id then plan.quote.1 else 0) := by
  have hlegs := h.legs
  rw [h.book, Books.balance]
  unfold TransferPlan.destSide
  generalize plan.legs = legs at hlegs
  cases hlegs with
  | single hc =>
    rw [h.quote_single hc, net_singleCurrencyLegs, if_pos hc, feeOn_eq, ← sided_add]
    congr 1
    ring
  | cross hc sourceFx destFx h1 h2 =>
    rw [net_crossCurrencyLegs, if_neg hc, feeOn_eq, if_neg (h1.ne_id hk hm ht),
      if_neg (h2.ne_id hk hm ht)]
    simp

lemma Committed.normalBalanceOf (hk : d.Keyed) (h : Committed a plan d d') (hm : acc ∈ d.accounts)
    (ht : acc.isTreasury = false) :
    d'.normalBalanceOf acc = d.normalBalanceOf acc + acc.accountType.sided
      (plan.source.accountType.sided (-(if a.sourceAccountId = acc.id then a.totalRequired else 0) +
        (if a.feeAccount = some acc.id then a.feeAmount else 0)) +
      plan.destSide.sided (if a.destinationAccountId = acc.id then plan.quote.1 else 0)) := by
  obtain ⟨rows, rfl, hr, hf⟩ := h.rows
  rw [Ledger.normalBalanceOf, Ledger.normalBalanceOf, normalBalance_aggregates,
    normalBalance_aggregates, Ledger.book_append, Books.balance, Books.net_append,
    sided_add, ← hr.balance (hk.append hr.keyed hf) hm ht]

end Legs

/-! ## The law -/

section Law

variable [PyStr]

lemma Committed.source_falls (hk : d.Keyed) (ht : plan.source.isTreasury = false)
    (h : Committed a plan d d') :
    d'.normalBalanceOf plan.source = d.normalBalanceOf plan.source - (a.amount + a.feeAmount) := by
  obtain ⟨rows, -, hr, -⟩ := h.rows
  obtain ⟨hm, hid⟩ := Ledger.getAccountById_some hr.loaded.source
  have hne := hr.preflight.distinct
  rw [h.normalBalanceOf hk hm ht, hid, if_pos rfl,
    if_neg hr.preflight.feeAccount_ne_source, if_neg hne.symm, sided_zero, add_zero,
    add_zero, sided_sided, if_pos rfl, totalRequired]
  ring

/-- The destination rises by the reported amount exactly when the direction of its leg followed
its own normal side. -/
lemma Committed.dest_rises_iff (hk : d.Keyed) (hnt : a.NonTreasury d) (h : Committed a plan d d') :
    d'.normalBalanceOf plan.dest = d.normalBalanceOf plan.dest + plan.quote.1 ↔
      (plan.source.currency = plan.dest.currency →
        plan.dest.accountType.debitNormal = plan.source.accountType.debitNormal) := by
  obtain ⟨rows, -, hr, -⟩ := h.rows
  obtain ⟨hm, hid⟩ := Ledger.getAccountById_some hr.loaded.dest
  have hne := hr.preflight.distinct
  rw [h.normalBalanceOf hk hm (hnt _ hm (.inr (.inl hid))), hid, if_neg hne,
    if_neg hr.preflight.feeAccount_ne_destination, if_pos rfl, neg_zero, add_zero,
    sided_zero, zero_add, add_right_inj]
  unfold TransferPlan.destSide
  split
  · rename_i hc
    rw [hr.quote_single hc, sided_sided_eq_iff _ _ hr.preflight.amount.ne']
    exact ⟨fun h _ => h, fun h => h hc⟩
  · rename_i hc
    rw [sided_sided, if_pos rfl]
    exact ⟨fun _ h => absurd h hc, fun _ => rfl⟩

lemma Committed.fee_rises_iff (hk : d.Keyed) (hnt : a.NonTreasury d) (h : Committed a plan d d')
    (hacc : d.getAccountById acc.id = some acc) (hfee : a.feeAccountId = some acc.id) :
    d'.normalBalanceOf acc = d.normalBalanceOf acc + a.feeAmount ↔ (a.feeAccount = some acc.id →
        acc.accountType.debitNormal = plan.source.accountType.debitNormal) := by
  obtain ⟨rows, -, hr, -⟩ := h.rows
  obtain ⟨hm, -⟩ := Ledger.getAccountById_some hacc
  have hs : a.sourceAccountId ≠ acc.id := fun h => hr.preflight.feeNeSource (by rw [hfee, h])
  have hd : a.destinationAccountId ≠ acc.id := fun h =>
    hr.preflight.feeNeDestination (by rw [hfee, h])
  rw [h.normalBalanceOf hk hm (hnt _ hm (.inr (.inr hfee))), if_neg hs, if_neg hd,
    sided_zero, add_zero, neg_zero, zero_add, add_right_inj]
  split
  · rename_i hf
    rw [sided_sided_eq_iff _ _ (feeAccount_some.mp hf).1.ne']
    exact ⟨fun h _ => h, fun h => h hf⟩
  · rename_i hf
    have h0 : a.feeAmount = 0 := by
      by_contra hne
      exact hf (feeAccount_some.mpr
        ⟨lt_of_le_of_ne hr.preflight.fee (Ne.symm hne), hfee⟩)
    rw [sided_zero, sided_zero, h0]
    exact ⟨fun _ h => absurd h hf, fun _ => rfl⟩

lemma Committed.other_same (hk : d.Keyed) (h : Committed a plan d d') (hm : acc ∈ d.accounts)
    (ht : acc.isTreasury = false) (hs : acc.id ≠ a.sourceAccountId)
    (hd : acc.id ≠ a.destinationAccountId) (hf : a.feeAccountId ≠ some acc.id) :
    d'.normalBalanceOf acc = d.normalBalanceOf acc := by
  have hfee : a.feeAccount ≠ some acc.id := fun h => hf (feeAccount_some.mp h).2
  rw [h.normalBalanceOf hk hm ht, if_neg (Ne.symm hs), if_neg (Ne.symm hd), if_neg hfee]
  simp [sided_zero]

lemma Committed.moves_iff (hk : d.Keyed) (hnt : a.NonTreasury d) (h : Committed a plan d d')
    (hr : Answers a plan r) : Moves a r d d' ↔ SidesAgree a d := by
  obtain ⟨rows, -, hready, -⟩ := h.rows
  have hsrc := hready.loaded.source
  have hdst := hready.loaded.dest
  obtain ⟨hmem, hid⟩ := Ledger.getAccountById_some hsrc
  have hamount : r.destinationAmount = plan.quote.1 := by
    obtain ⟨x, y, rfl⟩ := hr
    rfl
  constructor
  · intro hm
    refine ⟨fun src dst hs hd hc => ?_, fun src acc hs hf hacc => ?_⟩
    · obtain ⟨acc, hacc, hrise⟩ := hm.dest
      rw [hsrc] at hs
      rw [hdst] at hd hacc
      cases hs; cases hd; cases hacc
      rw [hamount] at hrise
      exact (h.dest_rises_iff hk hnt).mp hrise hc
    · rw [hsrc] at hs
      cases hs
      have hid := (feeAccount_some.mp hf).2
      exact (h.fee_rises_iff hk hnt hacc hid).mp (hm.fee acc hid hacc) hf
  · intro hs
    refine ⟨⟨plan.source, hsrc, h.source_falls hk (hnt _ hmem (.inl hid))⟩, ⟨plan.dest, hdst, ?_⟩,
      fun acc hid hacc => ?_, fun acc => h.other_same hk⟩
    · rw [hamount]
      exact (h.dest_rises_iff hk hnt).mpr (hs.dest _ _ hsrc hdst)
    · exact (h.fee_rises_iff hk hnt hacc hid).mpr fun hf => hs.fee _ acc hsrc hf hacc

/-- **The law of a transfer**, for a call that returns: it holds exactly when the response is not
a replay and the sides agree. -/
theorem transferFunds_moves_iff (deps : TransferDeps) (token : Token) (tries : Nat)
    (a : TransferArgs) (o : Nat → Answer) (l : Session) (s : World) (r : FundTransferResponse)
    (hk : s.db.Keyed) (hnt : a.NonTreasury s.db)
    (hr : (ledgerMachine.run 0 (transferFunds deps token tries a) o l s).1 = .ok r) :
    Moves a r s.db (ledgerMachine.run 0 (transferFunds deps token tries a) o l s).2.2.db ↔
      ¬ Replays deps a s ∧ SidesAgree a s.db := by
  have hout := transferFunds_alone deps a token tries 0 o l s
  rw [hr] at hout
  rcases hout with ⟨plan, ⟨hc, hnr⟩, ha⟩ | ⟨hd, hp, hredis, hst⟩
  · rw [hc.moves_iff hk hnt ha]
    exact ⟨fun h => ⟨hnr, h⟩, fun h => h.2⟩
  · -- a replay moves nothing
    have hrep : Replays deps a s := ⟨hredis, by rw [hst]; nofun⟩
    refine ⟨fun hm => ?_, fun h => absurd hrep h.1⟩
    obtain ⟨acc, -, hfall⟩ := hm.source
    rw [hd] at hfall
    have hpos := hp.totalRequired_pos
    rw [totalRequired] at hpos
    linarith

end Law

/-! ### On two accounts -/

def cashAccount : LedgerAccountEntity := ⟨1, "CASH", "Cash", .asset, "USD", true, 0⟩

def bankAccount : LedgerAccountEntity := ⟨2, "BANK", "Bank", .asset, "USD", true, 0⟩

def walletAccount : LedgerAccountEntity := ⟨3, "WALLET", "Wallet", .liability, "USD", true, 0⟩

def openingEntry : JournalEntryEntity :=
  ⟨10, "opening", "Opening balance", 0,
    [⟨11, 10, 1, 100, .debit, 0⟩, ⟨12, 10, 3, 100, .credit, 0⟩], false⟩

def cashWorld : World :=
  { db := { accounts := [cashAccount, bankAccount, walletAccount], entries := [openingEntry] } }

def cashTransfer (destination : UUID) : TransferArgs :=
  { sourceAccountId := 1, destinationAccountId := destination, amount := 30, referenceId := "t-1",
    description := "Transfer" }

def freshIds (n : Nat) : Answer := { ids := fun k => 1000 * (n + 1) + k }

lemma cashWorld_keyed : cashWorld.db.Keyed := by
  constructor <;> decide +kernel

/-- The response of the transfer to an account whose new balance is `destBalance`. -/
def cashResponse (destBalance : Decimal) : FundTransferResponse :=
  ⟨15000, "t-1", 30, 0, 70, destBalance, 0, "USD", "USD", none, 30, false⟩

/-- From one asset account to another: the law holds. -/
theorem transferFunds_moves_iff_bank : Moves (cashTransfer 2) (cashResponse 30) cashWorld.db
      (ledgerMachine.run 0 (@transferFunds asciiStr {} 0 1 (cashTransfer 2)) freshIds {}
        cashWorld).2.2.db := by
  have hsource : cashWorld.db.getAccountById 1 = some cashAccount := by decide +kernel
  have hdest : cashWorld.db.getAccountById 2 = some bankAccount := by decide +kernel
  have hfee : (cashTransfer 2).feeAccount = none := by decide +kernel
  refine (@transferFunds_moves_iff asciiStr {} 0 1 (cashTransfer 2) freshIds {} cashWorld
    (cashResponse 30) cashWorld_keyed ?_ (by decide +kernel)).mpr
    ⟨fun h => h.2 rfl, fun src dst hs hd _ => ?_, fun src acc _ hf => ?_⟩
  · unfold TransferArgs.NonTreasury
    decide +kernel
  · cases hs; cases hd
    rfl
  · cases hf

/-- From an asset account to a liability account: the call returns, and the destination falls by
30 instead of rising. -/
theorem transferFunds_moves_wallet_fails :
    cashWorld.db.Keyed ∧ (cashTransfer 3).NonTreasury cashWorld.db ∧
      (ledgerMachine.run 0 (@transferFunds asciiStr {} 0 1 (cashTransfer 3)) freshIds {}
        cashWorld).1 = .ok (cashResponse 70) ∧
      cashWorld.db.normalBalanceOf walletAccount = 100 ∧
      ¬ Moves (cashTransfer 3) (cashResponse 70) cashWorld.db
        (ledgerMachine.run 0 (@transferFunds asciiStr {} 0 1 (cashTransfer 3)) freshIds {}
          cashWorld).2.2.db := by
  refine ⟨cashWorld_keyed, ?_, by decide +kernel, by decide +kernel, fun h => ?_⟩
  · unfold TransferArgs.NonTreasury
    decide +kernel
  · have hdest : cashWorld.db.getAccountById 3 = some walletAccount := by decide +kernel
    obtain ⟨acc, hacc, hrise⟩ := h.dest
    cases hacc
    exact absurd hrise (by decide +kernel)

end CleanArch
