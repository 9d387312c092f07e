import CleanArch.Ledger.Tables
import CleanArch.Ledger.Transfer

/-!
# What a transfer writes

Before its commit, a transfer has decided everything (`TransferPlan`): the accounts it loaded, the
quote, the legs, the entry and the outbox event. `Ready` says how these come from its arguments, the
committed rows and the rows that it has staged.
-/

namespace CleanArch

open Books List

/-!
## Sound ledgers

The keys are unique, each entry is `Balanced` and each posting is on an account of the ledger. Then
both sides of the books are equal (`Sound.equation`).
-/

structure JournalEntryEntity.Balanced (e : JournalEntryEntity) : Prop where
  legs : 2 ≤ e.postings.length
  positive : ∀ p ∈ e.postings, 0 < p.amount
  zeroSum : totalOf .debit e.postings = totalOf .credit e.postings

namespace Ledger

def accountIds (d : Ledger) : List UUID := d.accounts.map (·.id)

@[simp] lemma accountIds_append (d : Ledger) :
    (d ++ rows).accountIds = d.accountIds ++ rows.accountIds := by
  simp [accountIds]

variable {d : Ledger}

lemma mem_accountIds {id : UUID} (h : d.getAccountById id = some a) : id ∈ d.accountIds := by
  obtain ⟨hm, rfl⟩ := getAccountById_some h
  exact mem_map_of_mem hm

def sideTotal (d : Ledger) (debitNormal : Bool) : Decimal :=
  ((d.accounts.filter fun a => a.accountType.debitNormal = debitNormal).map fun a =>
    normalBalance a.accountType (d.getAccountBalanceAggregates a.id)).sum

structure Sound (d : Ledger) : Prop where
  keyed : d.Keyed
  balanced : ∀ e ∈ d.entries, e.Balanced
  posted : ∀ e ∈ d.entries, ∀ p ∈ e.postings, p.accountId ∈ d.accountIds

/-- What holds of the rows of a transaction, over the committed rows `d`. -/
structure SoundRows (d rows : Ledger) : Prop where
  keyed : rows.Keyed
  balanced : ∀ e ∈ rows.entries, e.Balanced
  posted : ∀ e ∈ rows.entries, ∀ p ∈ e.postings, p.accountId ∈ (d ++ rows).accountIds

lemma Sound.empty : Sound Ledger.empty :=
  ⟨.empty, (fun _ h => nomatch h), (fun _ h => nomatch h)⟩

lemma SoundRows.empty (d : Ledger) : SoundRows d Ledger.empty :=
  ⟨.empty, (fun _ h => nomatch h), (fun _ h => nomatch h)⟩

lemma Sound.append (hd : Sound d) (hr : SoundRows d rows) (hf : d.Free rows) :
    Sound (d ++ rows) where
  keyed := hd.keyed.append hr.keyed hf
  balanced e he := (mem_append.mp he).elim (hd.balanced e) (hr.balanced e)
  posted e he p hp := by
    rcases mem_append.mp he with he | he
    · rw [accountIds_append]
      exact mem_append_left _ (hd.posted e he p hp)
    · exact hr.posted e he p hp

lemma SoundRows.append (h : SoundRows d rows) (hm : SoundRows (d ++ rows) more)
    (hf : rows.Free more) : SoundRows d (rows ++ more) where
  keyed := h.keyed.append hm.keyed hf
  balanced e he := (mem_append.mp he).elim (h.balanced e) (hm.balanced e)
  posted e he p hp := by
    rw [← append_assoc]
    rcases mem_append.mp he with he | he
    · rw [accountIds_append]
      exact mem_append_left _ (h.posted e he p hp)
    · exact hm.posted e he p hp

lemma SoundRows.account (d : Ledger) (a : LedgerAccountEntity) :
    SoundRows d { accounts := [a] } where
  keyed := by constructor <;> simp
  balanced _ h := nomatch h
  posted _ h := nomatch h

lemma SoundRows.entry (hb : e.Balanced) (hp : ∀ p ∈ e.postings, p.accountId ∈ d.accountIds) :
    SoundRows d { entries := [e] } where
  keyed := by constructor <;> simp
  balanced _ h := by rw [mem_singleton.mp h]; exact hb
  posted _ h p hp' := by
    rw [mem_singleton.mp h] at hp'
    rw [accountIds_append]
    exact mem_append_left _ (hp p hp')

lemma SoundRows.other (hk : rows.Keyed) (he : rows.entries = []) : SoundRows d rows :=
  ⟨hk, fun _ h => (by rw [he] at h; cases h), fun _ h => (by rw [he] at h; cases h)⟩

lemma Sound.book_total (h : Sound d) : Books.total d.book = 0 := by
  rw [book, postings, map_flatMap]
  exact Books.net_flatMap_eq_zero _ fun e he => (totalOf_eq_iff).mp (h.balanced e he).zeroSum

lemma Sound.book_posted (h : Sound d) (hp : p ∈ d.book) : p.1 ∈ d.accounts.map (·.id) := by
  obtain ⟨q, hq, rfl⟩ := mem_map.mp hp
  obtain ⟨e, he, hqe⟩ := mem_flatMap.mp hq
  exact h.posted e he q hqe

lemma Sound.equation (h : Sound d) : d.sideTotal true = d.sideTotal false := by
  have heq := Books.equation h.keyed.accountIds (fun p hp => h.book_posted hp) h.book_total
    fun a => a.accountType.debitNormal
  have hside : ∀ debit : Bool, d.sideTotal debit =
      ((d.accounts.filter fun a => a.accountType.debitNormal = debit).map fun a =>
        if debit then Books.balance a.id d.book else - Books.balance a.id d.book).sum := by
    intro debit
    refine congrArg List.sum (map_congr_left fun a ha => ?_)
    have hd : a.accountType.debitNormal = debit := by simpa using (mem_filter.mp ha).2
    rw [normalBalance_aggregates, AccountType.sided, hd]
  rw [hside, hside]
  simpa using heq

end Ledger

/-! ## Legs -/

def Leg.signed (g : Leg) : UUID × Decimal := (g.accountId, g.direction.signed g.amount)

def PostingCreateDTO.leg (p : PostingCreateDTO) : Leg := ⟨p.accountId, p.amount, p.direction⟩

def JournalPostingEntity.leg (p : JournalPostingEntity) : Leg :=
  ⟨p.accountId, p.amount, p.direction⟩

lemma JournalPostingEntity.signed_eq (p : JournalPostingEntity) : p.signed = p.leg.signed := rfl

lemma buildPostings_cons (h : buildPostings (g :: gs) = .ok ps) :
    ∃ p qs, posting g.accountId g.amount g.direction = .ok p ∧ buildPostings gs = .ok qs ∧
      ps = p :: qs := by
  unfold buildPostings at h ⊢
  rw [mapM_cons] at h
  cases hp : posting g.accountId g.amount g.direction with
  | error => rw [hp] at h; cases h
  | ok p =>
    cases hq : gs.mapM (fun g => posting g.accountId g.amount g.direction) with
    | error => rw [hp, hq] at h; cases h
    | ok qs =>
      rw [hp, hq] at h
      cases h
      exact ⟨p, qs, rfl, rfl, rfl⟩

lemma buildPostings_legs (h : buildPostings gs = .ok ps) : ps.map (·.leg) = gs := by
  induction gs generalizing ps with
  | nil => cases h; rfl
  | cons g gs ih =>
    obtain ⟨p, qs, hp, hq, rfl⟩ := buildPostings_cons h
    obtain ⟨h1, h2, h3⟩ := posting_ok hp
    have hg : p.leg = g := by simp [PostingCreateDTO.leg, h1, h2, h3]
    rw [map_cons, hg, ih hq]

lemma buildPostings_valid (h : buildPostings gs = .ok ps) (hg : g ∈ gs) :
    0 < g.amount ∧ decimalPlaces 4 g.amount := by
  rw [← buildPostings_legs h] at hg
  obtain ⟨p, -, rfl⟩ := mem_map.mp hg
  exact ⟨p.gt, p.decimal_places⟩

variable {e : LedgerError}

lemma buildPostings_error (h : buildPostings gs = .error e) : e = .validationError "amount" := by
  induction gs with
  | nil => cases h
  | cons g gs ih =>
    unfold buildPostings at h ih
    rw [mapM_cons] at h
    cases hp : posting g.accountId g.amount g.direction with
    | error =>
      rw [hp] at h
      cases h
      unfold posting at hp
      split at hp
      · cases hp
      · cases hp; rfl
    | ok =>
      cases hq : gs.mapM (fun g => posting g.accountId g.amount g.direction) with
      | error => rw [hp, hq] at h; cases h; exact ih hq
      | ok => rw [hp, hq] at h; cases h

lemma postingRows_legs (entryId : UUID) (now : Time) (ids : Nat → UUID) :
    (postingRows entryId now ids ps).map (·.leg) = ps.map (·.leg) := by
  induction ps generalizing ids with
  | nil => rfl
  | cons p ps ih =>
    rw [postingRows, map_cons, map_cons, ih]
    rfl

lemma legTotal_eq : legTotal dir ps = totalOf dir (postingRows entryId now ids ps) := by
  induction ps generalizing ids with
  | nil => rfl
  | cons p ps ih =>
    rw [postingRows, totalOf_cons, ← ih]
    by_cases h : p.direction = dir
    all_goals simp [legTotal, h]

lemma legTotal_eq_iff : legTotal .debit ps = legTotal .credit ps ↔
      total ((ps.map (·.leg)).map (·.signed)) = 0 := by
  rw [legTotal_eq, legTotal_eq, totalOf_eq_iff,
    ← postingRows_legs 0 0 id, map_map]
  rfl

lemma checkZeroSum_ok (h : buildPostings gs = .ok ps) (h0 : total (gs.map (·.signed)) = 0) :
    checkZeroSum ps = .ok () := by
  have heq : legTotal .debit ps = legTotal .credit ps := by
    rw [legTotal_eq_iff, buildPostings_legs h]
    exact h0
  rw [checkZeroSum, if_neg (not_not.mpr heq)]

lemma balanced_of_legs {e : JournalEntryEntity} (h : e.postings.map (·.leg) = gs)
    (hlen : 2 ≤ gs.length) (hpos : ∀ g ∈ gs, 0 < g.amount)
    (h0 : total (gs.map (·.signed)) = 0) : e.Balanced where
  legs := by rwa [← h, length_map] at hlen
  positive p hp := hpos p.leg (by rw [← h]; exact mem_map_of_mem hp)
  zeroSum := by
    rw [totalOf_eq_iff]
    rw [← h, map_map] at h0
    exact h0

variable {a : TransferArgs}

lemma destinationAmount_error [PyStr] (h : destinationAmount a sc dc = .error e) :
    e = .invalidFXRate ∨ e.isArithmetic = true := by
  unfold destinationAmount at h
  split_ifs at h with hc
  split at h
  · cases h; exact .inl rfl
  · rename_i rate hrate
    split_ifs at h with hr
    · cases h; exact .inl rfl
    · rcases except_bind_error h with h | ⟨m, h⟩
      · exact .inr (Money.create_error h)
      · rcases except_bind_error h with h | ⟨_, h⟩
        · exact convert_error h
        · cases h

/-! ### The pre-flight validation -/

structure Preflight (a : TransferArgs) : Prop where
  distinct : a.sourceAccountId ≠ a.destinationAccountId
  amount : 0 < a.amount
  fee : 0 ≤ a.feeAmount
  feeAccount : 0 < a.feeAmount → a.feeAccountId ≠ none
  feeNeSource : a.feeAccountId ≠ some a.sourceAccountId
  feeNeDestination : a.feeAccountId ≠ some a.destinationAccountId

lemma preflight_ok (h : preflight a = .ok ()) : Preflight a := by
  unfold preflight at h
  split_ifs at h with h1 h2 h3 h4 h5
  rw [not_or] at h5
  exact ⟨h1, not_le.mp h2, not_lt.mp h3, fun hf hn => h4 ⟨hf, hn⟩, h5.1, h5.2⟩

lemma Preflight.ok (h : Preflight a) : preflight a = .ok () := by
  unfold preflight
  rw [if_neg h.distinct, if_neg (not_le.mpr h.amount), if_neg (not_lt.mpr h.fee),
    if_neg fun hf => h.feeAccount hf.1 hf.2,
    if_neg fun hf => hf.elim h.feeNeSource h.feeNeDestination]

lemma preflight_error (h : preflight a = .error e) :
    e = .selfTransferNotAllowed ∨ ∃ m, e = .validation m := by
  unfold preflight at h
  split_ifs at h
  · cases h; exact .inl rfl
  all_goals cases h; exact .inr ⟨_, rfl⟩

lemma TransferArgs.feeAccount_some {id : UUID} :
    a.feeAccount = some id ↔ 0 < a.feeAmount ∧ a.feeAccountId = some id := by
  unfold TransferArgs.feeAccount
  by_cases hf : 0 < a.feeAmount
  all_goals simp [hf]

namespace Preflight

lemma feeAccount_none (h : Preflight a) (hn : a.feeAccount = none) : a.feeAmount = 0 := by
  by_contra hne
  have hf : 0 < a.feeAmount := lt_of_le_of_ne h.fee (Ne.symm hne)
  rw [TransferArgs.feeAccount, if_pos hf] at hn
  exact h.feeAccount hf hn

lemma feeAccount_ne_source (h : Preflight a) : a.feeAccount ≠ some a.sourceAccountId :=
  fun hs => h.feeNeSource (a.feeAccount_some.mp hs).2

lemma feeAccount_ne_destination (h : Preflight a) : a.feeAccount ≠ some a.destinationAccountId :=
  fun hs => h.feeNeDestination (a.feeAccount_some.mp hs).2

lemma totalRequired_pos (h : Preflight a) : 0 < a.totalRequired :=
  add_pos_of_pos_of_nonneg h.amount h.fee

end Preflight

/-! ### The signed sum of the legs -/

section Net

variable (on : UUID → Prop) [DecidablePred on] (a : TransferArgs)

/-- The fee, if its account is in `on`. -/
def feeOn : Decimal :=
  match a.feeAccount with
  | some id => if on id then a.feeAmount else 0
  | none => 0

lemma net_feeLeg : net on ((feeLeg a dir).map (·.signed)) = dir.signed (feeOn on a) := by
  unfold feeLeg feeOn
  cases a.feeAccount with
  | none => cases dir <;> simp [PostingDirection.signed]
  | some id =>
    by_cases h : on id
    · simp [Leg.signed, h]
    · cases dir <;> simp [Leg.signed, h, PostingDirection.signed]

lemma net_singleCurrencyLegs : net on ((singleCurrencyLegs a sourceType).map (·.signed)) =
      sourceType.sided (-(if on a.sourceAccountId then a.totalRequired else 0) +
        (if on a.destinationAccountId then a.amount else 0) + feeOn on a) := by
  unfold singleCurrencyLegs AccountType.sided
  by_cases hs : sourceType.debitNormal = true
  all_goals
    simp only [hs, if_true, if_false, Bool.false_eq_true, map_append, net_append, net_feeLeg]
    simp only [map_cons, map_nil, net_cons, net_nil, Leg.signed, PostingDirection.signed]
    split_ifs <;> ring

lemma net_crossCurrencyLegs :
    net on ((crossCurrencyLegs a sourceType destType sourceFx destFx destAmount).map (·.signed)) =
      sourceType.sided (-(if on a.sourceAccountId then a.totalRequired else 0) +
        (if on sourceFx then a.amount else 0) + feeOn on a) +
      destType.sided (-(if on destFx then destAmount else 0) +
        (if on a.destinationAccountId then destAmount else 0)) := by
  unfold crossCurrencyLegs AccountType.sided
  simp only [map_append, net_append, net_feeLeg]
  by_cases hs : sourceType.debitNormal = true <;> by_cases hd : destType.debitNormal = true
  all_goals
    simp only [hs, hd, if_true, if_false, map_cons, map_nil, net_cons,
      net_nil, Leg.signed, PostingDirection.signed, Bool.false_eq_true]
    split_ifs <;> ring

end Net

/-! ## The plan -/

structure TransferPlan where
  source : LedgerAccountEntity
  dest : LedgerAccountEntity
  quote : Decimal × Option Decimal
  legs : List Leg
  entry : JournalEntryEntity
  event : OutboxEventModel

/-- The clearing account of a currency: a committed one, or one that this transfer has staged. -/
def Clearing [PyStr] (db staged : Ledger) (currency : String) (fx : LedgerAccountEntity) : Prop :=
  db.getAccountByNumber (treasuryNumber currency) = some fx ∨
    (staged.getAccountByNumber (treasuryNumber currency) = some fx ∧
      fx.accountType = .liability ∧ fx.currency = PyStr.upper (clean currency))

inductive LegsReady [PyStr] (a : TransferArgs) (source dest : LedgerAccountEntity)
    (destAmount : Decimal) (db staged : Ledger) : List Leg → Prop
  | single (hc : source.currency = dest.currency) (hs : staged.accounts = []) :
      LegsReady a source dest destAmount db staged (singleCurrencyLegs a source.accountType)
  | cross (hc : source.currency ≠ dest.currency) (sourceFx destFx : LedgerAccountEntity)
      (h1 : Clearing db staged source.currency sourceFx)
      (h2 : Clearing db staged dest.currency destFx)
      (hs : ∀ x ∈ staged.accounts, x = sourceFx ∨ x = destFx) :
      LegsReady a source dest destAmount db staged
        (crossCurrencyLegs a source.accountType dest.accountType sourceFx.id destFx.id destAmount)

structure Loaded (a : TransferArgs) (source dest : LedgerAccountEntity) (db : Ledger) : Prop where
  source : db.getAccountById a.sourceAccountId = some source
  dest : db.getAccountById a.destinationAccountId = some dest
  fee : ∀ id, a.feeAccount = some id → ∃ acc, db.getAccountById id = some acc

structure Ready [PyStr] (a : TransferArgs) (plan : TransferPlan) (staged db : Ledger) : Prop where
  preflight : Preflight a
  loaded : Loaded a plan.source plan.dest db
  quote : destinationAmount a plan.source.currency plan.dest.currency = .ok plan.quote
  legs : LegsReady a plan.source plan.dest plan.quote.1 db staged plan.legs
  valid : ∀ g ∈ plan.legs, 0 < g.amount ∧ decimalPlaces 4 g.amount
  postings : plan.entry.postings.map (·.leg) = plan.legs
  reference : plan.entry.referenceId = a.referenceId
  event : ∃ eventId, plan.event.payload =
    transferEvent a eventId plan.source.currency plan.entry.postedAt
  entries : staged.entries = [plan.entry]
  outbox : staged.outbox = [plan.event]
  batches : staged.batches = []
  keyed : staged.Keyed

def Answers (a : TransferArgs) (plan : TransferPlan) (r : FundTransferResponse) : Prop :=
  ∃ newSource newDest,
    r = transferResponse a plan.source plan.dest plan.quote plan.entry newSource newDest

section Mono

variable [PyStr] {e : Ledger}

lemma Clearing.mono (hg : d.Grows e) (h : Clearing d staged currency fx) :
    Clearing e staged currency fx :=
  h.imp_left hg.getAccountByNumber

lemma Clearing.stage (hg : d.Grows e) (h : Clearing staged d currency fx) :
    Clearing staged e currency fx :=
  h.imp_right fun h => ⟨hg.getAccountByNumber h.1, h.2⟩

lemma LegsReady.mono (hg : d.Grows e) (h : LegsReady a source dest destAmount d staged legs) :
    LegsReady a source dest destAmount e staged legs := by
  cases h with
  | single hc hs => exact .single hc hs
  | cross hc sourceFx destFx h1 h2 hs =>
    exact .cross hc sourceFx destFx (h1.mono hg) (h2.mono hg) hs

lemma LegsReady.congr (hs : staged'.accounts = staged.accounts)
    (h : LegsReady a source dest destAmount d staged legs) :
    LegsReady a source dest destAmount d staged' legs := by
  have hn : ∀ number, staged'.getAccountByNumber number = staged.getAccountByNumber number := by
    intro number
    rw [Ledger.getAccountByNumber, Ledger.getAccountByNumber, hs]
  cases h with
  | single hc h0 => exact .single hc (by rw [hs, h0])
  | cross hc sourceFx destFx h1 h2 hx =>
    refine .cross hc sourceFx destFx ?_ ?_ (by rw [hs]; exact hx)
    · simpa only [Clearing, hn] using h1
    · simpa only [Clearing, hn] using h2

omit [PyStr] in
lemma Loaded.mono {source dest : LedgerAccountEntity} (hg : d.Grows e)
    (h : Loaded a source dest d) : Loaded a source dest e where
  source := hg.getAccountById h.source
  dest := hg.getAccountById h.dest
  fee id hid := (h.fee id hid).imp fun _ => hg.getAccountById

lemma Ready.mono (hg : d.Grows e) (h : Ready a plan staged d) : Ready a plan staged e :=
  { h with loaded := h.loaded.mono hg, legs := h.legs.mono hg }

end Mono

/-! ## What the plan gives -/

section Plan

variable [PyStr]

omit [PyStr] in
lemma feeOn_true (h : Preflight a) : feeOn (fun _ => True) a = a.feeAmount := by
  unfold feeOn
  cases hf : a.feeAccount with
  | none => exact (h.feeAccount_none hf).symm
  | some => simp

lemma LegsReady.balanced (hp : Preflight a) (h : LegsReady a source dest destAmount d staged legs) :
    total (legs.map (·.signed)) = 0 := by
  cases h with
  | single =>
    rw [total, net_singleCurrencyLegs, feeOn_true hp]
    simp [AccountType.sided, TransferArgs.totalRequired]
  | cross =>
    rw [total, net_crossCurrencyLegs, feeOn_true hp]
    simp [AccountType.sided, TransferArgs.totalRequired]

lemma LegsReady.two_le_length (h : LegsReady a source dest destAmount d staged legs) :
    2 ≤ legs.length := by
  cases h with
  | single => unfold singleCurrencyLegs; split <;> simp
  | cross => unfold crossCurrencyLegs; split <;> split <;> simp

omit [PyStr] in
lemma mem_feeLeg (h : g ∈ feeLeg a dir) : a.feeAccount = some g.accountId := by
  unfold feeLeg at h
  split at h
  · rename_i id hf
    rw [hf, mem_singleton.mp h]
  · cases h

lemma LegsReady.account (h : LegsReady a source dest destAmount d staged legs) (hg : g ∈ legs) :
    g.accountId = a.sourceAccountId ∨ g.accountId = a.destinationAccountId ∨
      a.feeAccount = some g.accountId ∨ ∃ c fx, Clearing d staged c fx ∧ g.accountId = fx.id := by
  cases h with
  | single =>
    unfold singleCurrencyLegs at hg
    split at hg
    all_goals
      simp only [mem_append, mem_cons, not_mem_nil, or_false] at hg
      rcases hg with (rfl | rfl) | hg
      · exact .inl rfl
      · exact .inr (.inl rfl)
      · exact .inr (.inr (.inl (mem_feeLeg hg)))
  | cross hc sourceFx destFx h1 h2 =>
    unfold crossCurrencyLegs at hg
    rw [mem_append, mem_append] at hg
    rcases hg with (hg | hg) | hg
    · split at hg
      all_goals
        simp only [mem_cons, not_mem_nil, or_false] at hg
        rcases hg with rfl | rfl
        · exact .inl rfl
        · exact .inr (.inr (.inr ⟨_, _, h1, rfl⟩))
    · split at hg
      all_goals
        simp only [mem_cons, not_mem_nil, or_false] at hg
        rcases hg with rfl | rfl
        · exact .inr (.inr (.inr ⟨_, _, h2, rfl⟩))
        · exact .inr (.inl rfl)
    · exact .inr (.inr (.inl (mem_feeLeg hg)))

lemma Ready.book (h : Ready a plan staged d) : staged.book = plan.legs.map (·.signed) := by
  rw [Ledger.book, Ledger.postings, h.entries, ← h.postings]
  simp [JournalPostingEntity.signed_eq]

lemma Ready.quote_single (h : Ready a plan staged d)
    (hc : plan.source.currency = plan.dest.currency) : plan.quote = (a.amount, none) := by
  have hq := h.quote
  rw [destinationAmount, if_pos hc] at hq
  injection hq with hq
  exact hq.symm

end Plan

end CleanArch
