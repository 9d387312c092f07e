import CleanArch.Ledger.Fraud
import CleanArch.Ledger.Money
import Mathlib.Data.List.Sort

/-!
# Transfers

`LedgerTransferService` (`app/services/ledger_transfer_service.py`): `transfer_funds` and what it
runs inside the unit of work, await by await.

The posting legs are a list without checks (`singleCurrencyLegs`, `crossCurrencyLegs`), and then
each leg is validated (`posting`).
-/

namespace CleanArch

open Async

/-!
## The distributed lock

`AsyncDistributedLock` (`app/core/distributed_lock.py`) on account locks. The loop of `acquire` ends
at a deadline; the model has the number of tries before it, for any number.
-/

def lockTtlMs : Nat := 10000

/-- `acquire`: `SET NX PX` until it succeeds, at most `tries + 1` times. -/
def acquire (resource : UUID) (token : Token) : Nat → LedgerProg Unit
  | 0 => do
    if ← redis (.lockSetNx resource token lockTtlMs) then
      return ()
    else
      throw (.lockAcquisitionTimeout resource)
  | tries + 1 => do
    if ← redis (.lockSetNx resource token lockTtlMs) then
      return ()
    else
      acquire resource token tries

def release (resource : UUID) (token : Token) : LedgerProg Bool := do
  try redis (.lockRelease resource token) catch _ => pure false

/-- The release of `acquired`, the last lock first. -/
def releaseAll (token : Token) : List UUID → LedgerProg Unit
  | [] => return ()
  | k :: ks => do
    let _ ← release k token
    releaseAll token ks

/-- The loop of `acquire_multiple`; `acquired` has the last lock first. -/
def acquireAll (token : Token) (tries : Nat) : List UUID → List UUID → LedgerProg (List UUID)
  | [], acquired => return acquired
  | k :: ks, acquired => do
    try acquire k token tries
    catch e =>
      releaseAll token acquired
      throw e
    acquireAll token tries ks (k :: acquired)

/-- `async with acquire_multiple(resource_keys): body`. -/
def acquireMultiple {α : Type} (resourceKeys : List UUID) (token : Token) (tries : Nat)
    (body : LedgerProg α) : LedgerProg α := do
  let acquired ← acquireAll token tries (resourceKeys.dedup.insertionSort (· ≤ ·)) []
  let r ← try body
    catch e =>
      releaseAll token acquired
      throw e
  releaseAll token acquired
  return r

/-- The arguments of `transfer_funds`. -/
structure TransferArgs where
  sourceAccountId : UUID
  destinationAccountId : UUID
  amount : Decimal
  referenceId : String
  description : String
  feeAmount : Decimal := 0
  feeAccountId : Option UUID := none
  exchangeRate : Option Decimal := none

/-- What the service was built with: is there a Redis, is there a lock manager of its own, and
has the fraud service a Redis. -/
structure TransferDeps where
  redis : Bool := true
  lockManager : Bool := false
  fraudRedis : Bool := true

namespace TransferArgs

def totalRequired (a : TransferArgs) : Decimal := a.amount + a.feeAmount

/-- The account that a fee goes to: `fee_amount > 0 and fee_account_id is not None`. -/
def feeAccount (a : TransferArgs) : Option UUID := if 0 < a.feeAmount then a.feeAccountId else none

def accountLockKeys (a : TransferArgs) : List UUID :=
  [a.sourceAccountId, a.destinationAccountId] ++ a.feeAccountId.toList

end TransferArgs

def preflight (a : TransferArgs) : Except LedgerError Unit :=
  if a.sourceAccountId = a.destinationAccountId then .error .selfTransferNotAllowed
  else if a.amount ≤ 0 then
    .error (.validation "Transfer amount must be strictly greater than zero.")
  else if a.feeAmount < 0 then
    .error (.validation "Platform fee amount cannot be negative.")
  else if 0 < a.feeAmount ∧ a.feeAccountId = none then
    .error (.validation "Fee account ID must be specified when a platform fee amount is charged.")
  else if a.feeAccountId = some a.sourceAccountId ∨
      a.feeAccountId = some a.destinationAccountId then
    .error (.validation
      "Fee account ID must be distinct from both source and destination accounts.")
  else .ok ()

/-- The in-flight idempotency state machine: the stored response of a completed transfer, or
`none` when this call has claimed the reference. -/
def claimReference (reference : String) : LedgerProg (Option FundTransferResponse) := do
  let cached ← redis (.get reference)
  match cached.bind (·.status), cached.bind (·.data) with
  | some .processing, _ => throw (.concurrentTransferInProgress reference)
  | some .completed, some response => return some response
  -- no record, a record of another scheme, or a COMPLETED record without data (`KeyError`)
  | _, _ =>
    if ← redis (.setNx reference .processing 60) then
      return none
    else
      throw (.concurrentTransferInProgress reference)

/-- The `except` branch of `transfer_funds`: the in-flight record is removed. -/
def releaseReference (reference : String) : LedgerProg Unit := do
  try
    let current ← redis (.get reference)
    if (current.map (·.mentionsProcessing)).getD false then
      redis (.delete reference)
  catch _ => pure ()

/-! ## Inside the unit of work -/

def loadAccount (role : AccountRole) (id : UUID) : LedgerProg LedgerAccountEntity := do
  match ← db (.getAccountById id) with
  | none => throw (.ledgerAccountNotFound role id)
  | some acc => if acc.isActive then return acc else throw (.inactiveLedgerAccount role id)

def treasuryNumber [PyStr] (currency : String) : String := "TREASURY-FX-" ++ clean currency

/-- `_get_or_create_account` of the reconciliation service: the account of a number. The
repository stores the currency in upper case. -/
def getOrCreateAccount [PyStr] (accountNumber name : String) (accountType : AccountType)
    (currency : String) : LedgerProg LedgerAccountEntity := do
  match ← db (.getAccountByNumber accountNumber) with
  | some existing => return existing
  | none => db (.createAccount accountNumber name accountType (PyStr.upper currency))

/-- `_get_or_create_treasury_fx_account`: the same for the clearing account of a currency. -/
def getOrCreateTreasuryFxAccount [PyStr] (currency : String) : LedgerProg LedgerAccountEntity :=
  getOrCreateAccount (treasuryNumber currency)
    ("Treasury FX Clearing (" ++ clean currency ++ ")") .liability (clean currency)

def destinationAmount [PyStr] (a : TransferArgs) (sourceCurrency destCurrency : String) :
    Except LedgerError (Decimal × Option Decimal) :=
  if sourceCurrency = destCurrency then .ok (a.amount, none)
  else
    match a.exchangeRate with
    | none => .error .invalidFXRate
    | some rate =>
      if rate ≤ 0 then .error .invalidFXRate
      else do
        let sourceMoney ← Money.create a.amount sourceCurrency
        let (targetMoney, appliedRate) ← convert sourceMoney destCurrency rate
        return (targetMoney.amount, some appliedRate)

structure Leg where
  accountId : UUID
  amount : Decimal
  direction : PostingDirection
  deriving DecidableEq

def feeLeg (a : TransferArgs) (direction : PostingDirection) : List Leg :=
  match a.feeAccount with
  | some id => [⟨id, a.feeAmount, direction⟩]
  | none => []

def singleCurrencyLegs (a : TransferArgs) (sourceType : AccountType) : List Leg :=
  if sourceType.debitNormal then
    [⟨a.sourceAccountId, a.totalRequired, .credit⟩, ⟨a.destinationAccountId, a.amount, .debit⟩] ++
      feeLeg a .debit
  else
    [⟨a.sourceAccountId, a.totalRequired, .debit⟩, ⟨a.destinationAccountId, a.amount, .credit⟩] ++
      feeLeg a .credit

def crossCurrencyLegs (a : TransferArgs) (sourceType destType : AccountType)
    (sourceFx destFx : UUID) (destAmount : Decimal) : List Leg :=
  (if sourceType.debitNormal then
    [⟨a.sourceAccountId, a.totalRequired, .credit⟩, ⟨sourceFx, a.amount, .debit⟩]
  else
    [⟨a.sourceAccountId, a.totalRequired, .debit⟩, ⟨sourceFx, a.amount, .credit⟩]) ++
  (if destType.debitNormal then
    [⟨destFx, destAmount, .credit⟩, ⟨a.destinationAccountId, destAmount, .debit⟩]
  else
    [⟨destFx, destAmount, .debit⟩, ⟨a.destinationAccountId, destAmount, .credit⟩]) ++
  feeLeg a (if sourceType.debitNormal then .debit else .credit)

/-- The legs of a transfer; a transfer between two currencies first resolves its clearing
accounts. -/
def transferLegs [PyStr] (a : TransferArgs) (sourceAcc destAcc : LedgerAccountEntity)
    (destAmount : Decimal) : LedgerProg (List Leg) := do
  if sourceAcc.currency = destAcc.currency then
    return singleCurrencyLegs a sourceAcc.accountType
  else
    let sourceFx ← getOrCreateTreasuryFxAccount sourceAcc.currency
    let destFx ← getOrCreateTreasuryFxAccount destAcc.currency
    return crossCurrencyLegs a sourceAcc.accountType destAcc.accountType sourceFx.id destFx.id
      destAmount

def legTotal (direction : PostingDirection) (ps : List PostingCreateDTO) : Decimal :=
  ((ps.filter fun p => p.direction = direction).map (·.amount)).sum

def buildPostings (legs : List Leg) : Except LedgerError (List PostingCreateDTO) :=
  legs.mapM fun g => posting g.accountId g.amount g.direction

def checkZeroSum (ps : List PostingCreateDTO) : Except LedgerError Unit :=
  if legTotal .debit ps ≠ legTotal .credit ps then
    .error (.unbalancedJournalEntry (some (legTotal .debit ps)) (some (legTotal .credit ps))
      (some |legTotal .debit ps - legTotal .credit ps|))
  else .ok ()

def transferEvent [PyStr] (a : TransferArgs) (eventId : UUID) (currency : String)
    (postedAt : Time) : LedgerTransferCompletedEvent :=
  ⟨eventId, a.referenceId, a.sourceAccountId, a.destinationAccountId, quantize a.amount,
    PyStr.upper currency, quantize a.feeAmount, postedAt, a.sourceAccountId⟩

def loadFeeAccount (a : TransferArgs) : LedgerProg Unit :=
  match a.feeAccount with
  | some id => do
    let _ ← loadAccount .fee id
    return ()
  | none => return ()

def transferResponse (a : TransferArgs) (sourceAcc destAcc : LedgerAccountEntity)
    (quote : Decimal × Option Decimal) (entry : JournalEntryEntity)
    (newSource newDest : Decimal × Decimal) : FundTransferResponse where
  journalEntryId := entry.id
  referenceId := entry.referenceId
  transferredAmount := a.amount
  feeDeducted := a.feeAmount
  sourceNewBalance := normalBalance sourceAcc.accountType newSource
  destinationNewBalance := normalBalance destAcc.accountType newDest
  postedAt := entry.postedAt
  sourceCurrency := sourceAcc.currency
  destinationCurrency := destAcc.currency
  exchangeRate := quote.2
  destinationAmount := quote.1
  isFlagged := entry.isFlagged

/-- The second half of `_execute_transfer_in_uow`: the legs are validated and written together
with the outbox event, the session commits, and the new balances are read. -/
def postTransfer [PyStr] (a : TransferArgs) (isFlagged : Bool)
    (sourceAcc destAcc : LedgerAccountEntity) (quote : Decimal × Option Decimal)
    (legs : List Leg) : LedgerProg FundTransferResponse := do
  let postings ← Prog.ofExcept (buildPostings legs)
  Prog.ofExcept (checkZeroSum postings)
  let entry ← db (.createJournalEntry a.referenceId a.description postings isFlagged)
  let eventId ← proc .uuid
  db (.createOutboxEvent "ledger.transfers.v1" "ledger.transfer.completed.v1" a.sourceAccountId
    (transferEvent a eventId sourceAcc.currency entry.postedAt) .pending)
  db .commit
  let newSource ← db (.getAccountBalanceAggregates a.sourceAccountId)
  let newDest ← db (.getAccountBalanceAggregates a.destinationAccountId)
  return transferResponse a sourceAcc destAcc quote entry newSource newDest

def executeTransferInUow [PyStr] (a : TransferArgs) (isFlagged : Bool) :
    LedgerProg FundTransferResponse := do
  let existing ← db (.getJournalEntryByReference a.referenceId)
  Prog.raiseIf (existing.isSome = true) (.duplicateReference a.referenceId)
  let sourceAcc ← loadAccount .source a.sourceAccountId
  let destAcc ← loadAccount .destination a.destinationAccountId
  loadFeeAccount a
  let quote ← Prog.ofExcept (destinationAmount a sourceAcc.currency destAcc.currency)
  let aggregates ← db (.getAccountBalanceAggregates a.sourceAccountId)
  let currentBalance := normalBalance sourceAcc.accountType aggregates
  Prog.raiseIf (currentBalance < a.totalRequired)
    (.insufficientFunds a.sourceAccountId currentBalance a.totalRequired)
  let legs ← transferLegs a sourceAcc destAcc quote.1
  postTransfer a isFlagged sourceAcc destAcc quote legs

/-- `async with self.uow: body`. -/
def asyncWithUow {α : Type} (body : LedgerProg α) : LedgerProg α := do
  db .openSession
  let r ← try body
    catch e =>
      try db .rollback
      catch e' =>
        db .closeSession
        throw e'
      db .closeSession
      throw e
  db .closeSession
  return r

/-! ## The call -/

/-- `async with lock_ctx: body`: without a Redis and a lock manager nothing is locked. -/
def withAccountLocks {α : Type} (deps : TransferDeps) (token : Token) (tries : Nat)
    (a : TransferArgs) (body : LedgerProg α) : LedgerProg α :=
  if deps.lockManager || deps.redis then acquireMultiple a.accountLockKeys token tries body
  else body

def recordCompleted (deps : TransferDeps) (a : TransferArgs) (response : FundTransferResponse) :
    LedgerProg Unit :=
  if deps.redis then redis (.set a.referenceId (.completed response) 86400) else return ()

/-- The `try` block of `transfer_funds`. -/
def screenedTransfer [PyStr] (deps : TransferDeps) (token : Token) (tries : Nat)
    (a : TransferArgs) : LedgerProg FundTransferResponse := do
  let assessment ←
    evaluateTransfer deps.fraudRedis a.sourceAccountId a.destinationAccountId a.amount
  Prog.raiseIf (assessment.decision = .rejected)
    (.fraudDetected assessment.riskScore assessment.violatedRules)
  let response ← withAccountLocks deps token tries a
    (asyncWithUow (executeTransferInUow a (assessment.decision = .flaggedForReview)))
  recordSuccessfulTransfer deps.fraudRedis a.sourceAccountId a.amount
  recordCompleted deps a response
  return response

def transferFunds [PyStr] (deps : TransferDeps) (token : Token) (tries : Nat) (a : TransferArgs) :
    LedgerProg FundTransferResponse := do
  Prog.ofExcept (preflight a)
  if deps.redis then
    match ← claimReference a.referenceId with
    | some response => return response
    | none =>
      try screenedTransfer deps token tries a
      catch e =>
        releaseReference a.referenceId
        throw e
  else
    screenedTransfer deps token tries a

end CleanArch
