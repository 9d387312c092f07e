import CleanArch.Async.Alone
import CleanArch.Ledger.Conversion
import CleanArch.Ledger.TransferSpec

/-!
# The exceptions of a transfer

Which exceptions `transfer_funds` can end with when Redis and the database do what they are asked.
Those that are not the application's own (`LedgerError.isDomain`) come from two places, both behind
the checks of the accounts:

- the currency of an account is any text of three characters, and the conversion raises a
  `ValueError` if it is not a code;
- a converted amount can round to zero, which is no amount of a leg: pydantic's `ValidationError`.
-/

namespace CleanArch

open Async LedgerCmd List Prog

/-- A subclass of `BaseDomainException`. -/
def LedgerError.isDomain : LedgerError → Bool
  | .valueError _ | .invalidOperation | .decimalOverflow | .validationError _ => false
  | .integrityError | .redisError | .databaseError | .httpException .. | .paymentError => false
  | _ => true

/-! ## Requests -/

/-- What `FundTransferRequestDTO` has checked. -/
structure TransferArgs.Accepted (a : TransferArgs) : Prop where
  amount_gt : 0 < a.amount
  amount_places : decimalPlaces 4 a.amount
  fee_ge : 0 ≤ a.feeAmount
  fee_places : decimalPlaces 4 a.feeAmount
  rate_gt : ∀ rate, a.exchangeRate = some rate → 0 < rate

/-- The legs fit `Numeric(18, 4)`. For the converted amount this is said of the product: rounding
does not move it over 10 ** 14. -/
structure LegsFit (a : TransferArgs) (d : Ledger) : Prop where
  total : a.totalRequired < 10 ^ 14
  product : ∀ src dst rate, d.getAccountById a.sourceAccountId = some src →
    d.getAccountById a.destinationAccountId = some dst → src.currency ≠ dst.currency →
    a.exchangeRate = some rate → a.amount * rate < 10 ^ 14

/-- The request passes every check before its conversion. An amount over the burst volume does not:
the fraud screening gives it 70 points. -/
structure ReachesConversion (a : TransferArgs) (d : Ledger) (src dst : LedgerAccountEntity)
    (rate : Decimal) : Prop where
  preflight : Preflight a
  amount_le : a.amount ≤ burstVolumeThreshold
  fresh : d.getJournalEntryByReference a.referenceId = none
  source : d.getAccountById a.sourceAccountId = some src
  source_active : src.isActive = true
  dest : d.getAccountById a.destinationAccountId = some dst
  dest_active : dst.isActive = true
  fee : ∀ id, a.feeAccount = some id →
    ∃ acc, d.getAccountById id = some acc ∧ acc.isActive = true
  currency : src.currency ≠ dst.currency
  rate : a.exchangeRate = some rate

/-- The conversion gives a leg: both currencies are codes (the second one is checked again after it
was cleaned), and the product is worth something unless the funds are missing. -/
structure Convertible [PyStr] (a : TransferArgs) (d : Ledger) (src dst : LedgerAccountEntity)
    (rate : Decimal) : Prop where
  source : isIso4217 (clean src.currency) = true
  dest : isIso4217 (clean dst.currency) = true
  dest_clean : clean src.currency ≠ clean dst.currency →
    isIso4217 (clean (clean dst.currency)) = true
  product : clean src.currency ≠ clean dst.currency →
    a.totalRequired ≤ normalBalance src.accountType
      (d.getAccountBalanceAggregates a.sourceAccountId) →
    1 / 20000 + 1 / (2 * 10 ^ 32) < a.amount * rate

/-- Every conversion that the request reaches gives a leg. -/
abbrev Converts [PyStr] (a : TransferArgs) (d : Ledger) : Prop :=
  ∀ src dst rate, ReachesConversion a d src dst rate → Convertible a d src dst rate

structure World.VelocityNonneg (w : World) : Prop where
  redis : ∀ id, ∀ e ∈ w.velocity id, 0 ≤ e.amount
  memory : ∀ id, ∀ e ∈ w.memVelocity id, 0 ≤ e.2

/-- **Transfers of the request fail only with domain exceptions**, from every world with these
tables, when no request of the call fails. A unique constraint is an operation of the database that
fails. -/
def FailsInDomain [PyStr] (a : TransferArgs) (d : Ledger) : Prop :=
  ∀ (deps : TransferDeps) (token : Token) (tries : Nat) (answers : Nat → Answer) (w : World),
    w.db = d → w.VelocityNonneg → (∀ n, (answers n).fault = none) →
    ∀ e, (ledgerMachine.run token (transferFunds deps token tries a) answers {} w).1 = .error e →
      e ≠ .integrityError → e.isDomain = true

/-! ## The amounts of the legs -/

theorem decimalPlaces_add (hx : decimalPlaces 4 x) (hy : decimalPlaces 4 y) :
    decimalPlaces 4 (x + y) := by
  unfold decimalPlaces at hx hy ⊢
  rw [add_mul, ← (Rat.den_eq_one_iff _).mp hx, ← (Rat.den_eq_one_iff _).mp hy, ← Int.cast_add]
  exact Rat.den_intCast _

/-- What pydantic checks of the amount of a leg. -/
def LegAmount (x : Decimal) : Prop := 0 < x ∧ decimalPlaces 4 x

def Leg.Valid (g : Leg) : Prop := LegAmount g.amount

lemma buildPostings_ok_iff : (∃ ps, buildPostings gs = .ok ps) ↔ ∀ g ∈ gs, g.Valid := by
  refine ⟨fun ⟨ps, hps⟩ g hg => buildPostings_valid hps hg, fun h => ?_⟩
  cases hps : buildPostings gs with
  | ok ps => exact ⟨ps, rfl⟩
  | error =>
    exfalso
    induction gs with
    | nil => cases hps
    | cons g gs ih =>
      obtain ⟨⟨hpos, hplaces⟩, hgs⟩ := forall_mem_cons.mp h
      unfold buildPostings at hps ih
      rw [mapM_cons, posting, dif_pos ⟨hpos, hplaces⟩] at hps
      cases hq : gs.mapM (fun g => posting g.accountId g.amount g.direction) with
      | ok => rw [hq] at hps; cases hps
      | error => exact ih hgs (by rw [hq] at hps; cases hps; exact hq)

section Legs

variable {a : TransferArgs} (hacc : a.Accepted)

include hacc

lemma TransferArgs.Accepted.total_valid : LegAmount a.totalRequired :=
  ⟨add_pos_of_pos_of_nonneg hacc.amount_gt hacc.fee_ge,
    decimalPlaces_add hacc.amount_places hacc.fee_places⟩

lemma feeLeg_valid (dir : PostingDirection) : ∀ g ∈ feeLeg a dir, g.Valid := by
  intro g hg
  unfold feeLeg at hg
  split at hg
  · rename_i id hid
    obtain rfl := mem_singleton.mp hg
    exact ⟨(TransferArgs.feeAccount_some.mp hid).1, hacc.fee_places⟩
  · cases hg

lemma singleCurrencyLegs_valid (type : AccountType) : ∀ g ∈ singleCurrencyLegs a type, g.Valid := by
  have hamount := And.intro hacc.amount_gt hacc.amount_places
  unfold singleCurrencyLegs
  split
  all_goals
    simp only [forall_mem_append, forall_mem_cons]
    exact ⟨⟨hacc.total_valid, hamount, by simp⟩, feeLeg_valid hacc _⟩

lemma crossCurrencyLegs_valid (type type' : AccountType) (sourceFx destFx : UUID)
    (hx : LegAmount x) :
    ∀ g ∈ crossCurrencyLegs a type type' sourceFx destFx x, g.Valid := by
  have hamount := And.intro hacc.amount_gt hacc.amount_places
  unfold crossCurrencyLegs
  simp only [forall_mem_append]
  refine ⟨⟨?_, ?_⟩, feeLeg_valid hacc _⟩
  · split
    all_goals
      simp only [forall_mem_cons]
      exact ⟨hacc.total_valid, hamount, by simp⟩
  · split
    all_goals
      simp only [forall_mem_cons]
      exact ⟨hx, hx, by simp⟩

lemma destinationAmount_fits [PyStr] {rate : Decimal} (hrate : a.exchangeRate = some rate)
    (htotal : a.totalRequired < 10 ^ 14) (hproduct : a.amount * rate < 10 ^ 14) (hne : c ≠ c') :
    destinationAmount a c c' = if isIso4217 (clean c) = false then .error (.valueError c)
      else if isIso4217 (clean c') = false then .error (.valueError c')
      else if clean c = clean c' then .ok (a.amount, some 1)
      else if isIso4217 (clean (clean c')) = false then .error (.valueError (clean c'))
      else .ok (converted (a.amount * rate), some rate) := by
  have hpos := hacc.rate_gt rate hrate
  have hamount : a.amount ≤ 10 ^ 14 := by
    have := hacc.fee_ge
    unfold TransferArgs.totalRequired at htotal
    linarith
  unfold destinationAmount
  rw [if_neg hne, hrate]
  simp only
  rw [if_neg (not_le.mpr hpos), Money.create_fits hacc.amount_gt.le hamount,
    quantize_of_decimalPlaces hacc.amount_places]
  by_cases hiso : isIso4217 (clean c) = false
  · rw [if_pos hiso, if_pos hiso]
    rfl
  rw [if_neg hiso, if_neg hiso]
  show (convert ⟨a.amount, clean c⟩ c' rate >>= fun x => pure (x.1.amount, some x.2)) = _
  rw [convert_fits (m := ⟨a.amount, clean c⟩) hpos hacc.amount_gt hproduct]
  split_ifs <;> rfl

end Legs

/-! ## Calls without faults -/

def LedgerError.Expected (e : LedgerError) : Prop := e.isDomain = true ∨ e = .integrityError

/-- If no request fails, the program returns, with `R`, or raises an expected exception. -/
def Returns {α : Type} (t : Tid) (p : LedgerProg α) (R : α → Session → World → Prop) (l : Session)
    (s : World) : Prop :=
  ledgerMachine.Ends (fun o => o.fault = none) t p (fun r l s => match r with
    | .ok b => R b l s
    | .error e => e.Expected) l s

/-- It returns, or raises an expected exception. -/
abbrev Expects {α : Type} (t : Tid) (p : LedgerProg α) (l : Session) (s : World) : Prop :=
  Returns t p (fun _ _ _ => True) l s

lemma LedgerCmd.exec_noFault {c : LedgerCmd} (ho : o.fault = none)
    (h : (c.exec o l s).1 = .error e) : e.Expected := by
  cases c with
  | db =>
    simp only [exec, withFault, ho] at h
    exact .inr (DbCmd.exec_error h)
  | redis | processCharge => simp [exec, withFault, ho] at h
  | proc => cases h

section Rules

variable {α β : Type}

lemma Returns.bind {S : β → Session → World → Prop} {p : LedgerProg β} (hp : Returns t p S l s)
    (hk : ∀ b l' s', S b l' s' → Returns t (k b) R l' s') : Returns t (p.bind k) R l s := by
  refine Machine.ends_bind.mpr (hp.mono fun r l' s' hr => ?_)
  cases r with
  | ok b => exact hk b l' s' hr
  | error => exact hr

lemma Returns.of_bind {p : LedgerProg β} (h : Returns t (p.bind k) R l s) : Expects t p l s := by
  refine Machine.Ends.mono (Machine.ends_bind.mp h) fun r _ _ hr => ?_
  cases r with
  | ok => trivial
  | error => exact hr

lemma Returns.within {F : World → Prop} (hstep : ∀ c o l s, okC c → F s → F (c.exec o l s).2.2)
    (hp : p.Within okC LedgerError.Expected) (hs : F s) : Returns t p (fun _ _ s => F s) l s := by
  refine (Machine.ends_within_ok (M := ledgerMachine) (F := fun _ s => F s)
    (fun c o l s hc ho hF => ⟨hstep c o l s hc hF, fun e he => exec_noFault ho he⟩)
    hp hs).mono fun r l' s' hr => ?_
  cases r with
  | ok => exact hr.1
  | error e => exact hr.2 e rfl

lemma returns_db {k : c.Res → LedgerProg α} (hc : ∀ o, c.exec o l s.db = (.ok x, l', s.db)) :
    Returns t ((db c).bind k) R l s ↔ Returns t (k x) R l' s := by
  have hexec : ∀ {o : Answer}, o.fault = none →
      ledgerMachine.exec t (.db c) o l s = (.ok x, l', s) := by
    intro o ho
    simp only [exec, withFault, ho, hc]
  constructor
  · intro h
    have hk := h {} rfl
    rw [hexec (o := {}) rfl] at hk
    exact hk
  · intro hk o ho
    rw [hexec ho]
    exact hk

lemma returns_raiseIf [Decidable q] {k : Unit → LedgerProg α} (he : e.Expected) :
    Returns t ((Prog.raiseIf q e).bind k) R l s ↔ (¬ q → Returns t (k ()) R l s) := by
  unfold Prog.raiseIf
  split
  · exact iff_of_true he fun hq => absurd ‹q› hq
  · exact ⟨fun h _ => h, fun h => h ‹_›⟩

lemma returns_ofExcept {x : Except LedgerError β} : Returns t ((Prog.ofExcept x).bind k) R l s ↔
      (∀ e, x = .error e → e.Expected) ∧ ∀ b, x = .ok b → Returns t (k b) R l s := by
  cases x with
  | ok b => exact ⟨fun h => ⟨nofun, fun _ hb => by cases hb; exact h⟩, fun h => h.2 b rfl⟩
  | error e => exact ⟨fun h => ⟨fun _ he => by cases he; exact h, nofun⟩, fun h => h.1 e rfl⟩

lemma Returns.handle {h : LedgerError → LedgerProg α} (hp : Returns t p R l s)
    (hh : ∀ e l' s', e.Expected → Returns t (h e) R l' s') : Returns t (p.handle h) R l s := by
  refine Machine.ends_handle.mpr (Machine.Ends.mono hp fun r l' s' hr => ?_)
  cases r with
  | ok => exact hr
  | error e => exact hh e l' s' hr

lemma Returns.any (hp : p.Within (fun _ => True) LedgerError.Expected) : Expects t p l s :=
  Returns.within (F := fun _ => True) (fun _ _ _ _ _ _ => trivial) hp trivial

lemma Returns.proc (c : ProcCmd) : Returns t (proc c)
    (fun x l' s' => ∃ o, x = (c.exec o s).1 ∧ l' = l ∧ s' = (c.exec o s).2) l s :=
  fun o _ => ⟨o, rfl, rfl, rfl⟩

end Rules

/-! ## Inside the unit of work -/

section Execute

variable {α : Type}

lemma returns_loadAccount (id : UUID) {k : LedgerAccountEntity → LedgerProg α} :
    Returns t ((loadAccount role id).bind k) R l s ↔
      ∀ acc, (l.view s.db).getAccountById id = some acc → acc.isActive = true →
        Returns t (k acc) R l s := by
  rw [loadAccount, bind_eq, bind_assoc, returns_db fun _ => rfl]
  cases (l.view s.db).getAccountById id with
  | none => exact iff_of_true (.inl rfl) fun _ h => by cases h
  | some acc =>
    cases hactive : acc.isActive with
    | true =>
      simp only [hactive, if_true, Option.some.injEq]
      exact ⟨fun h _ heq _ => heq ▸ h, fun h => h acc rfl hactive⟩
    | false =>
      simp only [hactive]
      refine iff_of_true (.inl rfl) fun acc' heq hactive' => ?_
      cases heq
      cases hactive.symm.trans hactive'

lemma returns_loadFeeAccount {k : Unit → LedgerProg α} :
    Returns t ((loadFeeAccount a).bind k) R l s ↔ ((∀ id, a.feeAccount = some id →
      ∃ acc, (l.view s.db).getAccountById id = some acc ∧ acc.isActive = true) →
        Returns t (k ()) R l s) := by
  unfold loadFeeAccount
  cases a.feeAccount with
  | none => exact ⟨fun h _ => h, fun h => h nofun⟩
  | some id =>
    simp only [bind_eq, bind_assoc]
    rw [returns_loadAccount]
    simp only [Option.some.injEq, forall_eq']
    refine ⟨?_, fun h acc hget hactive => h ⟨acc, hget, hactive⟩⟩
    rintro h ⟨acc, hget, hactive⟩
    exact h acc hget hactive

lemma exists_ids_lt (d : Ledger) : ∃ n, ∀ acc ∈ d.accounts, acc.id < n := by
  refine ⟨(d.accounts.map (·.id)).sum + 1, fun acc hacc => Nat.lt_succ_of_le ?_⟩
  exact le_sum_of_mem (mem_map_of_mem hacc)

variable [PyStr]

lemma getOrCreateAccount_within (number name : String) (type : AccountType) (currency : String) :
    (getOrCreateAccount number name type currency).Within (fun _ => True) LedgerError.Expected := by
  refine within_call_bind trivial fun existing => ?_
  cases existing with
  | some => trivial
  | none => exact within_call trivial

lemma Returns.resolve {k : LedgerAccountEntity → LedgerProg α}
    (h : Returns t ((getOrCreateAccount number name type currency).bind k) R l s) :
    ∃ acc l', Returns t (k acc) R l' s := by
  rw [getOrCreateAccount, bind_eq, bind_assoc, returns_db fun _ => rfl] at h
  cases hfound : (l.view s.db).getAccountByNumber number with
  | some acc =>
    rw [hfound] at h
    exact ⟨acc, l, h⟩
  | none =>
    -- the new account gets an id that no other has
    obtain ⟨n, hn⟩ := exists_ids_lt (l.view s.db)
    let acc : LedgerAccountEntity := ⟨n, number, name, type, PyStr.upper currency, true, 0⟩
    have hfree : (l.view s.db).conflicts { accounts := [acc] } = false := by
      refine Ledger.conflicts_eq_false.mpr ⟨fun new hnew b hb => ?_, ?_, ?_, ?_⟩
      obtain rfl := mem_singleton.mp hnew
      have hnumber := List.find?_eq_none.mp hfound b hb
      simp only [decide_eq_true_eq] at hnumber
      exact ⟨(hn b hb).ne, hnumber⟩
      all_goals
        intro _ h
        cases h
    have hcreate : (DbCmd.createAccount number name type (PyStr.upper currency)).exec
        { ids := fun _ => n } l s.db = (.ok acc, l.stage { accounts := [acc] }, s.db) := by
      show insert _ acc l s.db = _
      rw [insert, if_neg (by simp [hfree, acc])]
    rw [hfound] at h
    have hk := h { ids := fun _ => n } rfl
    simp only [exec, withFault, hcreate] at hk
    exact ⟨acc, _, hk⟩

lemma returns_postTransfer : Expects t (postTransfer a flagged src dst quote legs) l s ↔
      ∀ g ∈ legs, g.Valid := by
  rw [← buildPostings_ok_iff, postTransfer]
  cases hps : buildPostings legs with
  | error =>
    obtain rfl := buildPostings_error hps
    exact iff_of_false (by rintro (h | h) <;> cases h) nofun
  | ok ps =>
    refine iff_of_true (Returns.any ?_) ⟨ps, rfl⟩
    refine within_bind (within_ofExcept nofun) fun ps => ?_
    refine within_bind (within_ofExcept fun e he => ?_) fun _ => ?_
    · -- the zero-sum check raises an exception of the application
      unfold checkZeroSum at he
      split at he
      · cases he
        exact .inl rfl
      · cases he
    refine within_call_bind trivial fun _ => ?_
    refine within_call_bind trivial fun _ => ?_
    refine within_call_bind trivial fun _ => ?_
    refine within_call_bind trivial fun _ => ?_
    refine within_call_bind trivial fun _ => ?_
    exact within_call_bind trivial fun _ => trivial

lemma returns_transferLegs (hacc : a.Accepted) :
    Expects t ((transferLegs a src dst x).bind (postTransfer a flagged src dst quote)) l s ↔
      (src.currency ≠ dst.currency → LegAmount x) := by
  unfold transferLegs
  split
  · rename_i hsame
    exact iff_of_true (returns_postTransfer.mpr (singleCurrencyLegs_valid hacc src.accountType))
      (absurd hsame)
  · rename_i hne
    constructor
    · intro h _
      rw [bind_eq, bind_assoc] at h
      obtain ⟨sourceFx, l', h⟩ := h.resolve
      rw [bind_eq, bind_assoc] at h
      obtain ⟨destFx, l'', h⟩ := h.resolve
      have hvalid := returns_postTransfer.mp h
      unfold crossCurrencyLegs at hvalid
      cases hdebit : dst.accountType.debitNormal with
      | true => exact hvalid ⟨destFx.id, x, .credit⟩ (by simp [hdebit])
      | false => exact hvalid ⟨destFx.id, x, .debit⟩ (by simp [hdebit])
    · intro hx
      have hresolve : ∀ (c : String) (l : Session) (s : World),
          Expects t (getOrCreateTreasuryFxAccount c) l s := fun c l s =>
        Returns.any (getOrCreateAccount_within _ _ _ _)
      rw [bind_eq, bind_assoc]
      refine (hresolve src.currency l s).bind fun sourceFx l' s' _ => ?_
      rw [bind_eq, bind_assoc]
      refine (hresolve dst.currency l' s').bind fun destFx l'' s'' _ => ?_
      exact returns_postTransfer.mpr (crossCurrencyLegs_valid hacc _ _ _ _ (hx hne))

/-- **Convertible requests**: the conversion raises no `ValueError`, and its result is an amount of
a leg. -/
theorem convertible_iff {rate : Decimal} (hreach : ReachesConversion a d src dst rate)
    (hacc : a.Accepted) (hfit : LegsFit a d) : Convertible a d src dst rate ↔
      (∀ e, destinationAmount a src.currency dst.currency = .error e → e.Expected) ∧
        ∀ q, destinationAmount a src.currency dst.currency = .ok q →
          a.totalRequired ≤ normalBalance src.accountType
            (d.getAccountBalanceAggregates a.sourceAccountId) → LegAmount q.1 := by
  have hproduct := hfit.product src dst rate hreach.source hreach.dest hreach.currency hreach.rate
  have hpos := mul_pos hacc.amount_gt (hacc.rate_gt rate hreach.rate)
  have hvalue : ∀ c, ¬ LedgerError.Expected (.valueError c) := by
    simp [LedgerError.Expected, LedgerError.isDomain]
  rw [destinationAmount_fits hacc hreach.rate hfit.total hproduct hreach.currency]
  by_cases hsrc : isIso4217 (clean src.currency) = false
  · rw [if_pos hsrc]
    exact iff_of_false (fun h => by simp [h.source] at hsrc) fun h => hvalue _ (h.1 _ rfl)
  rw [if_neg hsrc]
  by_cases hdst : isIso4217 (clean dst.currency) = false
  · rw [if_pos hdst]
    exact iff_of_false (fun h => by simp [h.dest] at hdst) fun h => hvalue _ (h.1 _ rfl)
  rw [if_neg hdst]
  rw [Bool.not_eq_false] at hsrc hdst
  by_cases hsame : clean src.currency = clean dst.currency
  · rw [if_pos hsame]
    refine iff_of_true ⟨hsrc, hdst, absurd hsame, absurd hsame⟩ ⟨nofun, fun q hq _ => ?_⟩
    cases hq
    exact ⟨hacc.amount_gt, hacc.amount_places⟩
  rw [if_neg hsame]
  by_cases hclean : isIso4217 (clean (clean dst.currency)) = false
  · rw [if_pos hclean]
    exact iff_of_false (fun h => by simp [h.dest_clean hsame] at hclean) fun h =>
      hvalue _ (h.1 _ rfl)
  rw [if_neg hclean]
  rw [Bool.not_eq_false] at hclean
  constructor
  · intro h
    refine ⟨nofun, fun q hq hfunds => ?_⟩
    cases hq
    exact ⟨(converted_pos_iff hpos).mpr (h.product hsame hfunds), decimalPlaces_quantize _⟩
  · intro h
    exact ⟨hsrc, hdst, fun _ => hclean, fun _ hfunds =>
      (converted_pos_iff hpos).mp (h.2 _ rfl hfunds).1⟩

lemma destinationAmount_expected (hacc : a.Accepted) (hfit : LegsFit a d)
    (hreach : src.currency ≠ dst.currency → ∀ rate, a.exchangeRate = some rate →
      ReachesConversion a d src dst rate)
    (hconv : ∀ rate, ReachesConversion a d src dst rate → Convertible a d src dst rate) :
    (∀ e, destinationAmount a src.currency dst.currency = .error e → e.Expected) ∧
      ∀ q, destinationAmount a src.currency dst.currency = .ok q →
        a.totalRequired ≤ normalBalance src.accountType
          (d.getAccountBalanceAggregates a.sourceAccountId) → src.currency ≠ dst.currency →
            LegAmount q.1 := by
  by_cases hcur : src.currency = dst.currency
  · rw [show destinationAmount a src.currency dst.currency = .ok (a.amount, none) from if_pos hcur]
    exact ⟨fun _ h => (by cases h), fun _ _ _ => absurd hcur⟩
  cases hrate : a.exchangeRate with
  | none =>
    rw [destinationAmount, if_neg hcur, hrate]
    exact ⟨fun e he => by cases he; exact .inl rfl, fun _ h => by cases h⟩
  | some rate =>
    have hr := hreach hcur rate hrate
    obtain ⟨herr, hok⟩ := (convertible_iff hr hacc hfit).mp (hconv rate hr)
    exact ⟨herr, fun q hq hfunds _ => hok q hq hfunds⟩

/-- **The body of the unit of work** raises only expected exceptions exactly if the request
converts. -/
theorem returns_executeTransferInUow (hacc : a.Accepted) (hfit : LegsFit a s.db)
    (hpre : Preflight a) (hle : a.amount ≤ burstVolumeThreshold) :
    Expects t (executeTransferInUow a flagged) {} s ↔ Converts a s.db := by
  constructor
  · intro h src dst rate hreach
    replace h := (returns_raiseIf (.inl rfl)).mp ((returns_db fun _ => rfl).mp h)
      (by simp [hreach.fresh])
    replace h := (returns_loadAccount _).mp h src (by simpa using hreach.source)
      hreach.source_active
    replace h := (returns_loadAccount _).mp h dst (by simpa using hreach.dest) hreach.dest_active
    obtain ⟨herr, hok⟩ := returns_ofExcept.mp
      (returns_loadFeeAccount.mp h (by simpa using hreach.fee))
    refine (convertible_iff hreach hacc hfit).mpr ⟨herr, fun q hq hfunds => ?_⟩
    exact (returns_transferLegs hacc).mp ((returns_raiseIf (.inl rfl)).mp
      ((returns_db fun _ => rfl).mp (hok q hq)) (by simpa using hfunds)) hreach.currency
  · intro hconv
    refine (returns_db fun _ => rfl).mpr ((returns_raiseIf (.inl rfl)).mpr fun hfresh => ?_)
    refine (returns_loadAccount _).mpr fun src hsrc hsrcActive => ?_
    refine (returns_loadAccount _).mpr fun dst hdst hdstActive => ?_
    refine returns_loadFeeAccount.mpr fun hfee => ?_
    simp only [Session.view_empty, Option.isSome_iff_ne_none, not_not] at hfresh hsrc hdst hfee
    obtain ⟨herr, hok⟩ := destinationAmount_expected hacc hfit (fun hcur rate hrate =>
        ⟨hpre, hle, hfresh, hsrc, hsrcActive, hdst, hdstActive, hfee, hcur, hrate⟩)
      (hconv src dst)
    refine returns_ofExcept.mpr ⟨herr, fun quote hquote => ?_⟩
    refine (returns_db fun _ => rfl).mpr ((returns_raiseIf (.inl rfl)).mpr fun hfunds => ?_)
    rw [Session.view_empty, not_lt] at hfunds
    exact (returns_transferLegs hacc).mpr (hok quote hquote hfunds)

end Execute

/-! ## The fraud screening -/

lemma isAccountBlacklisted_returns (id : UUID) :
    Returns t (isAccountBlacklisted useRedis id) (fun _ _ s' => s' = s) l s := by
  refine (Returns.proc (.memBlacklisted id)).bind ?_
  rintro blacklisted l' s' ⟨o, -, -, rfl⟩
  cases blacklisted with
  | true => exact rfl
  | false =>
    cases useRedis with
    | false => exact rfl
    | true =>
      intro o ho
      simp only [exec, withFault, ho]
      exact rfl

lemma memoryVelocity_returns (h : s.VelocityNonneg) (id : UUID) :
    Returns t (memoryVelocity id windowStart) (fun x _ s' => s'.db = s.db ∧ 0 ≤ x.2) l s := by
  refine (Returns.proc (.memVelocity id)).bind ?_
  rintro entries l' s' ⟨o, rfl, -, rfl⟩
  refine (Returns.proc (.setMemVelocity id _)).bind ?_
  rintro - l' s' ⟨o, -, -, rfl⟩
  refine ⟨rfl, sum_nonneg fun x hx => ?_⟩
  obtain ⟨e, he, rfl⟩ := mem_map.mp hx
  exact h.memory id e (mem_of_mem_filter he)

lemma getAccountVelocity_returns (h : s.VelocityNonneg) (id : UUID) :
    Returns t (getAccountVelocity useRedis id lookback)
      (fun x _ s' => s'.db = s.db ∧ 0 ≤ x.2) l s := by
  refine (Returns.proc .time).bind ?_
  rintro now l' s' ⟨o, -, -, rfl⟩
  cases useRedis with
  | false => exact memoryVelocity_returns h id
  | true =>
    intro o ho
    simp only [exec, withFault, ho]
    intro o' ho'
    simp only [exec, withFault, ho']
    refine ⟨rfl, sum_nonneg fun x hx => ?_⟩
    obtain ⟨e, he, rfl⟩ := mem_map.mp hx
    simp only [RedisCmd.exec, Function.update_self] at he
    exact h.redis id e (mem_of_mem_filter he)

lemma fraudDecision_burst (hasCountBurst : Bool) :
    fraudDecision ((fraudRules isBlacklisted hasCountBurst true true).map (·.1)).sum =
      .rejected := by
  cases isBlacklisted <;> cases hasCountBurst <;> rfl

lemma evaluateTransfer_returns (h : s.VelocityNonneg) :
    Returns t (evaluateTransfer useRedis src dst amount) (fun x _ s' => s'.db = s.db ∧
      (burstVolumeThreshold < amount → x.decision = .rejected)) l s := by
  refine (isAccountBlacklisted_returns dst).bind ?_
  rintro blacklisted l' s' rfl
  refine (getAccountVelocity_returns h src).bind ?_
  rintro ⟨count, volume⟩ l'' s'' ⟨hdb, hvolume⟩
  refine ⟨hdb, fun hbig => ?_⟩
  have hburst : decide (burstVolumeThreshold < volume + amount) = true :=
    decide_eq_true (lt_add_of_nonneg_of_lt hvolume hbig)
  have hspike : decide (spikeAmountThreshold ≤ amount) = true := by
    refine decide_eq_true ?_
    unfold spikeAmountThreshold burstVolumeThreshold at *
    linarith
  rw [hburst, hspike]
  exact fraudDecision_burst _

/-! ## The call -/

section Call

variable {α : Type}

lemma returns_asyncWithUow {body : LedgerProg α} :
    Expects t (asyncWithUow body) l s ↔ Expects t body {} s := by
  have hclose : (db .closeSession).Within (fun _ => True) LedgerError.Expected :=
    within_call trivial
  refine (returns_db fun _ => rfl).trans ⟨fun h => ?_, fun h => ?_⟩
  · refine Machine.Ends.mono (Machine.ends_handle.mp (Machine.ends_bind.mp h)) fun r _ _ hr => ?_
    cases r with
    | ok => trivial
    | error => exact hr {} rfl {} rfl
  · refine Returns.bind (Returns.handle h fun e l' s' he => Returns.any ?_) fun r l' s' _ => ?_
    · refine within_bind (within_handle (within_call trivial)
        fun e' he' => within_bind hclose fun _ => he') fun _ => ?_
      exact within_bind hclose fun _ => he
    · exact Returns.any (within_bind hclose fun _ => trivial)

lemma Aside.keeps_db (c : LedgerCmd) (o : Answer) (l : Session) (s : World) (hc : Aside token c)
    (hs : s.db = d) : (c.exec o l s).2.2.db = d := by
  rw [exec_db_eq (by rintro rfl; exact hc) o l s]
  exact hs

variable (deps : TransferDeps)

lemma withAccountLocks_returns {body : LedgerProg α} (hs : s.db = d)
    (h : ∀ l' s', s'.db = d → Expects t body l' s') :
    Expects t (withAccountLocks deps token tries a body) l s := by
  have hrelease : ∀ ks, (releaseAll token ks).Within (fun _ => True) LedgerError.Expected :=
    fun ks => (releaseAll_within).mono fun _ _ => trivial
  unfold withAccountLocks
  split
  · refine (Returns.within Aside.keeps_db
      (acquireAll_within (fun _ => .inl rfl)) hs).bind fun acquired l' s' hs' => ?_
    refine Returns.bind (Returns.handle (h l' s' hs') fun e _ _ he => Returns.any ?_)
      fun r _ _ _ => Returns.any ?_
    · exact within_bind (hrelease acquired) fun _ => he
    · exact within_bind (hrelease acquired) fun _ => trivial
  · exact h l s hs

def RedisCmd.OnRecords (c : RedisCmd) : Prop :=
  ∀ w, ∃ idem, (c.exec w).2 = { w with idem := idem }

lemma RedisCmd.onRecords_setNx : (RedisCmd.setNx r doc ex).OnRecords := by
  intro w
  simp only [RedisCmd.exec]
  split
  · exact ⟨w.idem, rfl⟩
  · exact ⟨_, rfl⟩

lemma claimReference_returns (hs : s.db = d) (hv : s.VelocityNonneg) :
    Returns t (claimReference reference) (fun _ _ s' => s'.db = d ∧ s'.VelocityNonneg) l s := by
  have hwithin : (claimReference reference).Within
      (fun c => ∃ q : RedisCmd, q.OnRecords ∧ c = .redis q) LedgerError.Expected := by
    refine within_call_bind ⟨_, fun w => ⟨w.idem, rfl⟩, rfl⟩ fun cached => ?_
    split
    · exact .inl rfl
    · trivial
    · refine within_call_bind ⟨_, RedisCmd.onRecords_setNx, rfl⟩ ?_
      intro won
      exact within_ite (fun _ => trivial) fun _ => .inl rfl
  refine Returns.within (F := fun s => s.db = d ∧ s.VelocityNonneg) ?_ hwithin ⟨hs, hv⟩
  rintro - o l s ⟨q, hq, rfl⟩ ⟨hs, hv⟩
  obtain ⟨idem, hidem⟩ := hq s
  rcases exec_redis_cases q o l s with h | h | h
  · rw [h, hidem]
    exact ⟨hs, hv.redis, hv.memory⟩
  · rw [h]
    exact ⟨hs, hv⟩
  · rw [h, hidem]
    exact ⟨hs, hv.redis, hv.memory⟩

variable [PyStr]

lemma screenedTransfer_returns (hacc : a.Accepted) (hfit : LegsFit a d) (hpre : Preflight a)
    (hconv : Converts a d) (hs : s.db = d) (hv : s.VelocityNonneg) :
    Expects t (screenedTransfer deps token tries a) l s := by
  refine (evaluateTransfer_returns hv).bind ?_
  rintro x l' s' ⟨hdb, hbig⟩
  refine (returns_raiseIf (.inl rfl)).mpr fun hpass => ?_
  have hle : a.amount ≤ burstVolumeThreshold := not_lt.mp fun h => hpass (hbig h)
  subst hs
  refine (withAccountLocks_returns deps hdb fun l'' s'' hs'' => ?_).bind
    fun response _ _ _ => Returns.any ?_
  · rw [← hs''] at hfit hconv
    exact returns_asyncWithUow.mpr ((returns_executeTransferInUow hacc hfit hpre hle).mpr hconv)
  have hrecord : (recordSuccessfulTransfer deps.fraudRedis a.sourceAccountId a.amount).Within
      (Aside token) LedgerError.Expected := recordSuccessfulTransfer_within _
  refine within_bind (hrecord.mono fun _ _ => trivial) fun _ => ?_
  refine within_bind ?_ fun _ => trivial
  exact within_ite (fun _ => within_call trivial) fun _ => trivial

/-- **Every transfer of a convertible request** returns, or raises a domain exception or that of a
unique constraint. -/
theorem transferFunds_returns (token : Token) (tries : Nat) (hacc : a.Accepted) (hfit : LegsFit a d)
    (hconv : Converts a d) (hs : s.db = d) (hv : s.VelocityNonneg) :
    Expects t (transferFunds deps token tries a) l s := by
  refine returns_ofExcept.mpr ⟨fun e he => ?_, fun _ hok => ?_⟩
  · rcases preflight_error he with rfl | ⟨m, rfl⟩
    all_goals exact .inl rfl
  have hpre := preflight_ok hok
  split
  · refine (claimReference_returns hs hv).bind ?_
    rintro stored l' s' ⟨hs', hv'⟩
    cases stored with
    | some => exact trivial
    | none =>
      have hrelease : (releaseReference a.referenceId).Within (OffDb a token)
          LedgerError.Expected := releaseReference_within
      refine Returns.handle (screenedTransfer_returns deps hacc hfit hpre hconv hs' hv')
        fun e _ _ he => Returns.any ?_
      exact within_bind (hrelease.mono fun _ _ => trivial) fun _ => he
  · exact screenedTransfer_returns deps hacc hfit hpre hconv hs hv

end Call

/-!
## Transfers that fail outside the domain

A request that gets to its conversion, and is not `Convertible`, has a run that ends with a
`ValueError` or with pydantic's `ValidationError`, although nothing failed.
-/

open Machine

/-- The answers of a run without faults; the ids are the numbers from `n` on. -/
def calm (n : Nat) : Nat → Answer := fun i => { ids := fun _ => n + i }

def bareDeps : TransferDeps where
  redis := false
  lockManager := false
  fraudRedis := false

variable {amount : Decimal}

lemma fraudDecision_small (hle : amount ≤ burstVolumeThreshold) :
    fraudDecision ((fraudRules false false (burstVolumeThreshold < 0 + amount)
      (spikeAmountThreshold ≤ amount)).map (·.1)).sum ≠ .rejected := by
  rw [zero_add, decide_eq_false (not_lt.mpr hle)]
  cases decide (spikeAmountThreshold ≤ amount) with
  | true | false => decide

lemma Returns.of_evaluateTransfer {α : Type} {k : FraudAssessmentResult → LedgerProg α}
    {R : α → Session → World → Prop} (hle : amount ≤ burstVolumeThreshold)
    (h : Returns t ((evaluateTransfer false src dst amount).bind k) R {} { db := d }) :
    ∃ x l s, x.decision ≠ .rejected ∧ s.db = d ∧ Returns t (k x) R l s := by
  -- the memory of the service is asked for the account, the time, and the window twice
  have hk := h {} rfl {} rfl {} rfl {} rfl
  exact ⟨_, _, _, fraudDecision_small hle, rfl, hk⟩

lemma Returns.of_runs {α : Type} {p : LedgerProg α}
    (h : ∀ o : Nat → Answer, (∀ n, (o n).fault = none) →
      ∀ e, (ledgerMachine.run t p o l s).1 = .error e → e.Expected) : Expects t p l s := by
  refine ends_of_runs ⟨{}, rfl⟩ fun o ho => ?_
  cases hrun : (ledgerMachine.run t p o l s).1 with
  | ok => trivial
  | error e => exact h o ho e hrun

lemma convertible_of_returns [PyStr] (hacc : a.Accepted) (hfit : LegsFit a d)
    (h : Expects t (transferFunds bareDeps k 0 a) {} { db := d })
    {rate : Decimal} (hreach : ReachesConversion a d src dst rate) :
    Convertible a d src dst rate := by
  have hpre : preflight a = .ok () := hreach.preflight.ok
  rw [transferFunds, hpre] at h
  obtain ⟨x, l, s, hpass, rfl, hrest⟩ := Returns.of_evaluateTransfer hreach.amount_le h
  have hbody := (returns_raiseIf (.inl rfl)).mp hrest hpass
  exact (returns_executeTransferInUow hacc hfit hreach.preflight hreach.amount_le).mp
    (returns_asyncWithUow.mp hbody.of_bind) src dst rate hreach

/-- **Transfers fail only with domain exceptions** exactly if every conversion that the request
reaches gives a leg. -/
theorem fails_in_domain_iff [PyStr] (a : TransferArgs) (d : Ledger) (hacc : a.Accepted)
    (hfit : LegsFit a d) :
    FailsInDomain a d ↔
      ∀ src dst rate, ReachesConversion a d src dst rate → Convertible a d src dst rate := by
  constructor
  · intro hdomain src dst rate hreach
    have hvelocity : ({ db := d } : World).VelocityNonneg := ⟨nofun, nofun⟩
    refine convertible_of_returns (t := 0) (k := 0) hacc hfit (.of_runs fun o ho e he => ?_)
      hreach
    exact or_iff_not_imp_right.mpr (hdomain bareDeps 0 0 o { db := d } rfl hvelocity ho e he)
  · intro hconv deps token tries answers w hw hv hfault e he hne
    have hreturns := run_of_ends
      (transferFunds_returns (t := token) (l := {}) deps token tries hacc hfit hconv hw hv) hfault
    rw [he] at hreturns
    exact hreturns.resolve_right hne

/-! ### Half a poisha to the dollar -/

def takaLedger : Ledger where
  accounts := [⟨1, "ACC-1", "Taka", .asset, "BDT", true, 0⟩,
    ⟨2, "ACC-2", "Dollars", .asset, "USD", true, 0⟩]
  entries := [⟨1, "opening", "Opening balance", 0,
    [⟨1, 1, 1, 10, .debit, 0⟩, ⟨2, 1, 3, 10, .credit, 0⟩], false⟩]

def takaTransfer (amount : Decimal) : TransferArgs where
  sourceAccountId := 1
  destinationAccountId := 2
  amount := amount
  referenceId := "ref-1"
  description := "To dollars"
  exchangeRate := some 0.0083

lemma takaTransfer_accepted (h : 0 < amount) (h4 : decimalPlaces 4 amount) :
    (takaTransfer amount).Accepted where
  amount_gt := h
  amount_places := h4
  fee_ge := le_rfl
  fee_places := show decimalPlaces 4 0 by decide +kernel
  rate_gt rate hrate := by cases hrate; norm_num

lemma takaTransfer_fits (h : amount < 10 ^ 14) : LegsFit (takaTransfer amount) takaLedger where
  total := by simpa [TransferArgs.totalRequired, takaTransfer] using h
  product _ _ rate _ _ _ hrate := by
    cases hrate
    show amount * 0.0083 < 10 ^ 14
    linarith

/-- 5 BDT are 0.0415 USD. -/
theorem taka_transfer_in_domain : @FailsInDomain asciiStr (takaTransfer 5) takaLedger := by
  refine (@fails_in_domain_iff asciiStr (takaTransfer 5) takaLedger
    (takaTransfer_accepted (by norm_num) (by decide +kernel))
    (takaTransfer_fits (by norm_num))).mpr ?_
  intro src dst rate hreach
  cases (show some (⟨1, "ACC-1", "Taka", .asset, "BDT", true, 0⟩ : LedgerAccountEntity) = some src
    from hreach.source)
  cases (show some (⟨2, "ACC-2", "Dollars", .asset, "USD", true, 0⟩ : LedgerAccountEntity) =
    some dst from hreach.dest)
  cases hreach.rate
  refine @Convertible.mk asciiStr _ _ _ _ _ (by decide +kernel) (by decide +kernel)
    (fun _ => by decide +kernel) fun _ _ => ?_
  show 1 / 20000 + 1 / (2 * 10 ^ 32) < (5 : ℚ) * 0.0083
  norm_num

/-- 0.005 BDT are 0.0000415 USD, which is quantized to 0.0000; the leg fails pydantic's `gt=0`. -/
theorem taka_transfer_invalid_leg :
    (takaTransfer 0.005).Accepted ∧ LegsFit (takaTransfer 0.005) takaLedger ∧
      (ledgerMachine.run 7 (@transferFunds asciiStr {} 7 0 (takaTransfer 0.005)) (calm 100) {}
        { db := takaLedger }).1 = .error (.validationError "amount") := by
  refine ⟨takaTransfer_accepted (by norm_num) (by decide +kernel),
    takaTransfer_fits (by norm_num), ?_⟩
  decide +kernel

end CleanArch
