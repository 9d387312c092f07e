import CleanArch.Async.Prog
import CleanArch.Ledger.Types

/-!
# The database of the ledger

The tables behind `SqlAlchemyLedgerRepository`, `SqlAlchemyOutboxRepository` and
`SqlAlchemyReconciliationRepository`, and what one repository call does.

- **Tables** (`Ledger`). Rows are only inserted. A posting row is inserted with its entry, so the
  postings stand in the entries.
- **A session** (`Session`) has the rows that its transaction has inserted and not committed. A read
  sees the committed rows and these (`Session.view`). `commit` adds them to the tables in one step,
  unless a unique constraint of `app/models` fails.
- **Faults** (`Fault`). Any call can raise: before it had an effect (`refused`), or after it
  (`lostReply`).
-/

namespace CleanArch

open Async

/-! ## Tables -/

@[ext] structure Ledger where
  accounts : List LedgerAccountEntity := []
  entries : List JournalEntryEntity := []
  outbox : List OutboxEventModel := []
  batches : List ReconciliationBatchEntity := []

namespace Ledger

def empty : Ledger := {}

/-- The rows of `d`, then the rows of `e`. -/
def append (d e : Ledger) : Ledger :=
  ⟨d.accounts ++ e.accounts, d.entries ++ e.entries, d.outbox ++ e.outbox,
    d.batches ++ e.batches⟩

instance : Append Ledger := ⟨append⟩

variable (d e : Ledger)

@[simp] lemma accounts_append : (d ++ e).accounts = d.accounts ++ e.accounts := rfl

@[simp] lemma entries_append : (d ++ e).entries = d.entries ++ e.entries := rfl

@[simp] lemma outbox_append : (d ++ e).outbox = d.outbox ++ e.outbox := rfl

@[simp] lemma batches_append : (d ++ e).batches = d.batches ++ e.batches := rfl

@[simp] lemma append_empty (d : Ledger) : d ++ empty = d := by
  show append d empty = d
  simp [append, empty]

lemma append_assoc (d e f : Ledger) : d ++ e ++ f = d ++ (e ++ f) := by
  show append (append d e) f = append d (append e f)
  simp [append]

def postings (d : Ledger) : List JournalPostingEntity := d.entries.flatMap (·.postings)

@[simp] lemma postings_append : (d ++ e).postings = d.postings ++ e.postings := by
  simp [postings]

/-! ### Reads -/

def getAccountById (d : Ledger) (id : UUID) : Option LedgerAccountEntity :=
  d.accounts.find? fun a => a.id = id

def getAccountByNumber (d : Ledger) (number : String) : Option LedgerAccountEntity :=
  d.accounts.find? fun a => a.accountNumber = number

def getJournalEntryByReference (d : Ledger) (reference : String) : Option JournalEntryEntity :=
  d.entries.find? fun e => e.referenceId = reference

def getJournalEntriesByReferences (d : Ledger) (references : List String) :
    List JournalEntryEntity :=
  d.entries.filter fun e => e.referenceId ∈ references

def getBatchByReference (d : Ledger) (reference : String) : Option ReconciliationBatchEntity :=
  d.batches.find? fun b => b.batchReference = reference

end Ledger

def totalOf (direction : PostingDirection) (ps : List JournalPostingEntity) : Decimal :=
  ((ps.filter fun p => p.direction = direction).map (·.amount)).sum

/-- `get_account_balance_aggregates`: the debits and the credits of an account. -/
def Ledger.getAccountBalanceAggregates (d : Ledger) (id : UUID) : Decimal × Decimal :=
  (totalOf .debit (d.postings.filter fun p => p.accountId = id),
    totalOf .credit (d.postings.filter fun p => p.accountId = id))

def normalBalance (type : AccountType) (aggregates : Decimal × Decimal) : Decimal :=
  if type.debitNormal then aggregates.1 - aggregates.2 else aggregates.2 - aggregates.1

/-! ## Sessions -/

structure Session where
  staged : Ledger := Ledger.empty

namespace Session

def view (l : Session) (db : Ledger) : Ledger := db ++ l.staged

def stage (l : Session) (rows : Ledger) : Session := ⟨l.staged ++ rows⟩

@[simp] lemma view_empty (db : Ledger) : ({} : Session).view db = db := Ledger.append_empty db

@[simp] lemma stage_staged (l : Session) : (l.stage rows).staged = l.staged ++ rows := rfl

end Session

/-- A row of `rows` breaks a unique constraint against `d`. -/
def Ledger.conflicts (d rows : Ledger) : Bool :=
  (rows.accounts.any fun a =>
    d.accounts.any fun b => b.id = a.id || b.accountNumber = a.accountNumber) ||
  (rows.entries.any fun e =>
    d.entries.any fun f => f.id = e.id || f.referenceId = e.referenceId) ||
  (rows.outbox.any fun e => d.outbox.any fun f => f.id = e.id) ||
  (rows.batches.any fun b =>
    d.batches.any fun c => c.id = b.id || c.batchReference = b.batchReference)

/-! ## Repository calls -/

inductive Fault where
  | refused
  | lostReply
  deriving DecidableEq

structure Answer where
  fault : Option Fault := none
  ids : Nat → UUID := fun n => n
  now : Time := 0

inductive DbCmd where
  | openSession
  | closeSession
  | commit
  | rollback
  | getAccountById (id : UUID)
  | getAccountByNumber (number : String)
  | getJournalEntryByReference (reference : String)
  | getJournalEntriesByReferences (references : List String)
  | getAccountBalanceAggregates (id : UUID)
  | getBatchByReference (reference : String)
  | createAccount (accountNumber name : String) (accountType : AccountType) (currency : String)
  | createJournalEntry (referenceId description : String) (postings : List PostingCreateDTO)
      (isFlagged : Bool)
  | createOutboxEvent (topic eventType : String) (partitionKey : UUID)
      (payload : LedgerTransferCompletedEvent) (status : OutboxStatus)
  | createBatch (batchReference gatewayName : String)
      (totalRecords matchedRecords discrepancyRecords : Nat) (status : String)
      (items : List ReconciliationItemEntity)

@[reducible] def DbCmd.Res : DbCmd → Type
  | .openSession | .closeSession | .commit | .rollback => Unit
  | .getAccountById _ | .getAccountByNumber _ => Option LedgerAccountEntity
  | .getJournalEntryByReference _ => Option JournalEntryEntity
  | .getJournalEntriesByReferences _ => List JournalEntryEntity
  | .getAccountBalanceAggregates _ => Decimal × Decimal
  | .getBatchByReference _ => Option ReconciliationBatchEntity
  | .createAccount .. => LedgerAccountEntity
  | .createJournalEntry .. => JournalEntryEntity
  | .createOutboxEvent .. => Unit
  | .createBatch .. => ReconciliationBatchEntity

def postingRows (entryId : UUID) (now : Time) (ids : Nat → UUID) :
    List PostingCreateDTO → List JournalPostingEntity
  | [] => []
  | p :: ps =>
    ⟨ids 0, entryId, p.accountId, p.amount, p.direction, now⟩ ::
      postingRows entryId now (fun n => ids (n + 1)) ps

/-- An insert: the rows are staged and the first one is the answer, or a constraint fails. -/
def insert {α : Type} (rows : Ledger) (a : α) (l : Session) (db : Ledger) :
    Except LedgerError α × Session × Ledger :=
  if (l.view db).conflicts rows then (.error .integrityError, l, db)
  else (.ok a, l.stage rows, db)

def DbCmd.exec (o : Answer) (l : Session) (db : Ledger) :
    (c : DbCmd) → Except LedgerError c.Res × Session × Ledger
  | .openSession => (.ok (), {}, db)
  | .closeSession => (.ok (), {}, db)
  | .rollback => (.ok (), {}, db)
  | .commit =>
    if db.conflicts l.staged then (.error .integrityError, l, db)
    else (.ok (), {}, db ++ l.staged)
  | .getAccountById id => (.ok ((l.view db).getAccountById id), l, db)
  | .getAccountByNumber number => (.ok ((l.view db).getAccountByNumber number), l, db)
  | .getJournalEntryByReference r => (.ok ((l.view db).getJournalEntryByReference r), l, db)
  | .getJournalEntriesByReferences rs =>
    (.ok ((l.view db).getJournalEntriesByReferences rs), l, db)
  | .getAccountBalanceAggregates id => (.ok ((l.view db).getAccountBalanceAggregates id), l, db)
  | .getBatchByReference r => (.ok ((l.view db).getBatchByReference r), l, db)
  | .createAccount number name type currency =>
    let a : LedgerAccountEntity := ⟨o.ids 0, number, name, type, currency, true, o.now⟩
    insert { accounts := [a] } a l db
  | .createJournalEntry reference description postings flagged =>
    let e : JournalEntryEntity := ⟨o.ids 0, reference, description, o.now,
      postingRows (o.ids 0) o.now (fun n => o.ids (n + 1)) postings, flagged⟩
    insert { entries := [e] } e l db
  | .createOutboxEvent topic type key payload status =>
    insert { outbox := [⟨o.ids 0, topic, type, key, payload, status⟩] } () l db
  | .createBatch reference gateway total matched discrepancy status items =>
    let b : ReconciliationBatchEntity := ⟨o.ids 0, reference, gateway, total, matched,
      discrepancy, status, o.now, items.map fun i => { i with batchId := o.ids 0 }⟩
    insert { batches := [b] } b l db

/-- A request `x` that can fail: `e` is the exception, `before` the state without it. -/
def withFault {E α σ : Type} (o : Answer) (e : E) (before : σ) (x : Except E α × σ) :
    Except E α × σ :=
  match o.fault with
  | none => x
  | some .refused => (.error e, before)
  | some .lostReply => (.error e, x.2)

end CleanArch
