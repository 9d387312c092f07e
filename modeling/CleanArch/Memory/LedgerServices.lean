import CleanArch.Async.Alone
import CleanArch.Ledger.Transfer
import CleanArch.Memory.UnitOfWork

/-!
# The ledger's services in memory

The same coroutines that run over the database (`ledgerMachine`) run here over `InMemoryUnitOfWork`:
`memoryMachine` has its repositories as the state, for the requests of the reconciliation service.
An in-memory repository raises nothing, but the code between two calls can: any repository call may
raise, before its effect or after it.
-/

namespace CleanArch

open Async

/-- The two writes of `create_account`. -/
def LedgerRepository.addAccount (s : LedgerRepository) (entity : LedgerAccountEntity) :
    LedgerRepository :=
  { s with
    accounts := Assoc.set s.accounts entity.id entity
    accountsByNumber := Assoc.set s.accountsByNumber entity.accountNumber entity.id }

namespace InMemoryUnitOfWork

def setLedger (u : InMemoryUnitOfWork) (ledger : LedgerRepository) : InMemoryUnitOfWork :=
  { u with memory := { u.memory with ledger := ledger } }

def setReconciliation (u : InMemoryUnitOfWork) (reconciliation : ReconciliationRepository) :
    InMemoryUnitOfWork :=
  { u with memory := { u.memory with reconciliation := reconciliation } }

/-- `__aexit__` clears the snapshots. -/
def close (u : InMemoryUnitOfWork) : InMemoryUnitOfWork := { u with snapshot := none }

end InMemoryUnitOfWork

/-- A repository call that answers `a` and leaves `u'`, or raises. -/
def Answer.repo {α : Type} (o : Answer) (u : InMemoryUnitOfWork) (a : α) (u' : InMemoryUnitOfWork) :
    Except LedgerError α × InMemoryUnitOfWork :=
  withFault o .databaseError u (.ok a, u')

def DbCmd.execMemory (o : Answer) (u : InMemoryUnitOfWork) :
    (c : DbCmd) → Except LedgerError c.Res × InMemoryUnitOfWork
  | .openSession => (.ok (), u.aenter)
  | .closeSession => (.ok (), u.close)
  | .commit => (.ok (), u.commit)
  | .rollback => (.ok (), u.rollback)
  | .getAccountById id => o.repo u (u.memory.ledger.getAccountById id) u
  | .getAccountByNumber number => o.repo u (u.memory.ledger.getAccountByNumber number) u
  | .getJournalEntryByReference r => o.repo u (u.memory.ledger.getJournalEntryByReference r) u
  | .getJournalEntriesByReferences rs =>
    o.repo u (u.memory.ledger.getJournalEntriesByReferences rs) u
  | .getAccountBalanceAggregates id =>
    o.repo u (u.memory.ledger.getAccountBalanceAggregates id) u
  | .getBatchByReference r => o.repo u (u.memory.reconciliation.getBatchByReference r) u
  | .createAccount number name type currency =>
    let entity : LedgerAccountEntity := ⟨o.ids 0, number, name, type, currency, true, o.now⟩
    o.repo u entity (u.setLedger (u.memory.ledger.addAccount entity))
  | .createJournalEntry reference description postings flagged =>
    let x := u.memory.ledger.createJournalEntry o.now o.ids ⟨reference, description, postings⟩
      none none flagged
    o.repo u x.1 (u.setLedger x.2)
  | .createBatch reference gateway total matched discrepancy status items =>
    let x := u.memory.reconciliation.createBatch (o.ids 0)
      ⟨o.ids 0, reference, gateway, total, matched, discrepancy, status, o.now, items⟩ none
    o.repo u x.1 (u.setReconciliation x.2)
  | .createOutboxEvent .. => (.error .databaseError, u)

def LedgerCmd.execMemory (o : Answer) (u : InMemoryUnitOfWork) :
    (c : LedgerCmd) → Except LedgerError c.Res × InMemoryUnitOfWork
  | .db c => c.execMemory o u
  | .proc .time => (.ok o.now, u)
  | .proc .uuid => (.ok (o.ids 0), u)
  | .proc (.memBlacklisted _) | .proc (.memVelocity _) | .proc (.setMemVelocity ..) =>
    (.error .redisError, u)
  | .redis _ => (.error .redisError, u)
  | .processCharge .. => (.error .paymentError, u)

@[reducible] def memoryMachine : Machine where
  Cmd := LedgerCmd
  Res := LedgerCmd.Res
  Err := LedgerError
  Loc := Unit
  Sh := InMemoryUnitOfWork
  Out := Answer
  exec _ c o l u := ((c.execMemory o u).1, l, (c.execMemory o u).2)

/-! ## Rules -/

abbrev MemoryEnds {α : Type} (p : LedgerProg α)
    (Q : Except LedgerError α → Unit → InMemoryUnitOfWork × (Nat → Answer) → Prop)
    (u : InMemoryUnitOfWork) (o : Nat → Answer) : Prop :=
  memoryMachine.taped.Ends (fun _ => True) 0 p Q () (u, o)

def tail (o : Nat → Answer) : Nat → Answer := fun n => o (n + 1)

/-- What a program left: `R` of its result and the memory when it returned, `F` when it raised. -/
def Left {α : Type} (R : α → Memory → Prop) (F : InMemoryUnitOfWork → Prop)
    (r : Except LedgerError α) (u : InMemoryUnitOfWork) : Prop :=
  match r with
  | .ok a => R a u.memory
  | .error _ => F u

/-- A rollback gives `m`: the snapshot has all of it but the user objects and the view counts. -/
def Undoable (m : Memory) (u : InMemoryUnitOfWork) : Prop :=
  u.snapshot = some m.snapshot ∧ u.memory.users = m.users

section Rules

variable {α : Type}

lemma ends_repo {k : c.Res → LedgerProg α} {a : c.Res}
    (hc : c.execMemory (o 0) u = (o 0).repo u a u') (hok : MemoryEnds (k a) Q u' (tail o))
    (herr : ∀ e, Q (.error e) () (u, tail o)) (herr' : ∀ e, Q (.error e) () (u', tail o)) :
    MemoryEnds ((db c).bind k) Q u o := by
  intro _ _
  show memoryMachine.taped.Ends _ 0 ((Prog.ofExcept (c.execMemory (o 0) u).1).bind k) Q ()
    ((c.execMemory (o 0) u).2, tail o)
  rw [hc]
  unfold Answer.repo withFault
  cases (o 0).fault with
  | none => exact hok
  | some fault =>
    cases fault with
    | refused => exact herr _
    | lostReply => exact herr' _

lemma ends_uuid {k : UUID → LedgerProg α} (hok : MemoryEnds (k ((o 0).ids 0)) Q u (tail o)) :
    MemoryEnds ((proc .uuid).bind k) Q u o :=
  fun _ _ => hok

lemma ends_uow {k : c.Res → LedgerProg α} {a : c.Res} (hc : c.execMemory (o 0) u = (.ok a, u'))
    (hok : MemoryEnds (k a) Q u' (tail o)) : MemoryEnds ((db c).bind k) Q u o := by
  intro _ _
  show memoryMachine.taped.Ends _ 0 ((Prog.ofExcept (c.execMemory (o 0) u).1).bind k) Q ()
    ((c.execMemory (o 0) u).2, tail o)
  rw [hc]
  exact hok

lemma restore_snapshot {m m' : Memory} (h : m'.users = m.users) : m'.restore m.snapshot = m := by
  unfold Memory.restore Memory.snapshot
  rw [h]

lemma ends_asyncWithUow {body : LedgerProg α} {R : α → Memory → Prop}
    (hbody : MemoryEnds body (fun r _ s => Left R (Undoable m) r s.1) ⟨m, some m.snapshot⟩
      (tail o)) :
    MemoryEnds (asyncWithUow body) (fun r _ s => Left R (fun u => u.memory = m) r s.1) ⟨m, none⟩
      o := by
  refine ends_uow rfl ?_
  refine Machine.ends_bind.mpr (Machine.ends_handle.mpr (hbody.mono ?_))
  rintro r ⟨⟩ ⟨u, o⟩ hr
  cases r with
  | ok => exact ends_uow rfl hr
  | error =>
    obtain ⟨hsnapshot, husers⟩ := hr
    have hrollback : u.rollback.memory = m := by
      unfold InMemoryUnitOfWork.rollback
      rw [hsnapshot]
      exact restore_snapshot husers
    exact fun _ _ _ _ => hrollback

end Rules

end CleanArch
