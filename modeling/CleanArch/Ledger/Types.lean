import Mathlib.Data.List.Infix
import Mathlib.Data.Rat.Floor

/-!
# The data of the ledger

The entities, DTOs and exceptions of the double-entry ledger (`app/schemas/ledger.py`,
`app/repositories/ledger_repository.py`, `app/schemas/ledger_events.py`,
`app/repositories/reconciliation_repository.py`, `app/core/exceptions.py`).

- **Decimals** are exact: `Decimal` is `ℚ`. The precision of Python's decimal context is in
  `Ledger/Money.lean`, where amounts are multiplied and quantized.
- **Identifiers** are numbers, in the order of the texts.
- **Text** (`PyStr`): nothing is assumed about `str.strip` and `str.upper`; a witness uses the ASCII
  ones (`asciiStr`).
-/

namespace CleanArch

abbrev UUID := Nat

/-- Python's `Decimal`, exact. -/
abbrev Decimal := ℚ

abbrev Time := ℚ

/-- Python's `str.strip` and `str.upper`. -/
class PyStr where
  strip : String → String
  upper : String → String

/-- `s.strip().upper()`. -/
def clean [PyStr] (s : String) : String := PyStr.upper (PyStr.strip s)

@[reducible] def asciiStr : PyStr where
  strip s := String.ofList
    ((s.toList.dropWhile Char.isWhitespace).reverse.dropWhile Char.isWhitespace).reverse
  upper s := String.ofList (s.toList.map Char.toUpper)

/-- `needle in s`. -/
def mentions (needle s : String) : Bool := decide (needle.toList <:+: s.toList)

/-- At most `n` digits after the point, without trailing zeros. -/
def decimalPlaces (n : Nat) (x : Decimal) : Prop := (x * 10 ^ n).den = 1

instance (n : Nat) (x : Decimal) : Decidable (decimalPlaces n x) :=
  inferInstanceAs (Decidable (_ = _))

/-! ## Accounts and postings -/

inductive AccountType where
  | asset
  | liability
  | equity
  | revenue
  | expense
  deriving DecidableEq

/-- `account_type in (AccountType.ASSET, AccountType.EXPENSE)`. -/
def AccountType.debitNormal : AccountType → Bool
  | .asset | .expense => true
  | _ => false

inductive PostingDirection where
  | debit
  | credit
  deriving DecidableEq

structure LedgerAccountEntity where
  id : UUID
  accountNumber : String
  name : String
  accountType : AccountType
  currency : String
  isActive : Bool
  createdAt : Time
  deriving DecidableEq

structure JournalPostingEntity where
  id : UUID
  journalEntryId : UUID
  accountId : UUID
  amount : Decimal
  direction : PostingDirection
  createdAt : Time
  deriving DecidableEq

structure JournalEntryEntity where
  id : UUID
  referenceId : String
  description : String
  postedAt : Time
  postings : List JournalPostingEntity
  isFlagged : Bool
  deriving DecidableEq

/-- A leg of a new journal entry; pydantic has checked `amount`. -/
structure PostingCreateDTO where
  accountId : UUID
  amount : Decimal
  direction : PostingDirection
  gt : 0 < amount
  decimal_places : decimalPlaces 4 amount

structure LedgerAccountCreate where
  accountNumber : String
  name : String
  accountType : AccountType
  currency : String := "USD"

structure JournalEntryCreateDTO where
  referenceId : String
  description : String
  postings : List PostingCreateDTO

structure FundTransferResponse where
  journalEntryId : UUID
  referenceId : String
  transferredAmount : Decimal
  feeDeducted : Decimal
  sourceNewBalance : Decimal
  destinationNewBalance : Decimal
  postedAt : Time
  sourceCurrency : String
  destinationCurrency : String
  exchangeRate : Option Decimal
  destinationAmount : Decimal
  isFlagged : Bool
  deriving DecidableEq

/-! ## Outbox -/

/-- The payload of a transfer's outbox event. The amounts are texts with four decimals in the
source; here they are the numbers of these texts. -/
structure LedgerTransferCompletedEvent where
  eventId : UUID
  referenceId : String
  sourceAccountId : UUID
  destinationAccountId : UUID
  amount : Decimal
  currency : String
  feeAmount : Decimal
  postedAt : Time
  partitionKey : UUID
  deriving DecidableEq

inductive OutboxStatus where
  | pending
  | published
  | processed
  | failed
  deriving DecidableEq

structure OutboxEventModel where
  id : UUID
  topic : String
  eventType : String
  partitionKey : UUID
  payload : LedgerTransferCompletedEvent
  status : OutboxStatus
  deriving DecidableEq

/-! ## Reconciliation -/

inductive DiscrepancyType where
  | matched
  | missingInLedger
  | missingInGateway
  | amountMismatch
  deriving DecidableEq

inductive ResolutionStatus where
  | unresolved
  | autoCompensated
  | manualReview
  | resolved
  deriving DecidableEq

structure SettlementItemDTO where
  referenceId : String
  amount : Decimal
  currency : String := "USD"
  deriving DecidableEq

structure ReconciliationItemEntity where
  id : UUID
  batchId : UUID
  referenceId : String
  externalAmount : Decimal
  internalAmount : Option Decimal
  discrepancyType : DiscrepancyType
  resolutionStatus : ResolutionStatus
  compensatingJournalEntryId : Option UUID
  deriving DecidableEq

structure ReconciliationBatchEntity where
  id : UUID
  batchReference : String
  gatewayName : String
  totalRecords : Nat
  matchedRecords : Nat
  discrepancyRecords : Nat
  status : String
  createdAt : Time
  items : List ReconciliationItemEntity
  deriving DecidableEq

/-! ## Exceptions -/

inductive AccountRole where
  | source
  | destination
  | fee
  | posting
  deriving DecidableEq

inductive LedgerError where
  | selfTransferNotAllowed
  | validation (message : String)
  | concurrentTransferInProgress (referenceId : String)
  | fraudDetected (riskScore : Nat) (reasons : List String)
  | lockAcquisitionTimeout (resource : UUID)
  | duplicateReference (referenceId : String)
  | ledgerAccountNotFound (role : AccountRole) (id : UUID)
  | inactiveLedgerAccount (role : AccountRole) (id : UUID)
  | invalidFXRate
  | insufficientFunds (accountId : UUID) (currentBalance requiredAmount : Decimal)
  | unbalancedJournalEntry (totalDebits totalCredits imbalance : Option Decimal)
  | entityConflict (accountNumber : String)
  | currencyMismatch (message : String)
  /-- `ValueError` of a currency code. -/
  | valueError (currency : String)
  /-- `decimal.InvalidOperation`: `quantize` needs more digits than the precision. -/
  | invalidOperation
  /-- `decimal.Overflow`. -/
  | decimalOverflow
  /-- pydantic's `ValidationError` of a field. -/
  | validationError (field : String)
  | integrityError
  | redisError
  | databaseError
  /-- FastAPI's `HTTPException`. -/
  | httpException (statusCode : Nat) (detail : String)
  /-- Whatever `process_charge` raises. -/
  | paymentError
  deriving DecidableEq

/-- `PostingCreateDTO(account_id=…, amount=…, direction=…)`. -/
def posting (accountId : UUID) (amount : Decimal) (direction : PostingDirection) :
    Except LedgerError PostingCreateDTO :=
  if h : 0 < amount ∧ decimalPlaces 4 amount then
    .ok ⟨accountId, amount, direction, h.1, h.2⟩
  else
    .error (.validationError "amount")

lemma posting_ok (h : posting accountId amount direction = .ok p) :
    p.accountId = accountId ∧ p.amount = amount ∧ p.direction = direction := by
  unfold posting at h
  split at h
  · cases h; exact ⟨rfl, rfl, rfl⟩
  · cases h

end CleanArch
