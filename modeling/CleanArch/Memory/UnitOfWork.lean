import CleanArch.Outbox.Relay
import CleanArch.Users.Repository

/-!
# The in-memory unit of work

`InMemoryUnitOfWork` (`app/core/unit_of_work.py`): the seven in-memory repositories, and the copies
of their dictionaries that `__aenter__` makes and `rollback` puts back. A copy of `users._store`
holds the same user objects; `users._views` is not copied.
-/

namespace CleanArch

open Assoc Objects

/-!
## The other in-memory repositories

Posts, products, orders, outbox events, the ledger and the reconciliation batches
(`InMemoryPostRepository`, `InMemoryProductRepository`, `InMemoryOrderRepository`,
`InMemoryOutboxRepository`, `InMemoryLedgerRepository`, `InMemoryReconciliationRepository`).

- **Entities** are values here.
- **What the process adds** (the time, a new UUID) is an argument. An id that the caller may give is
  optional, and `fresh` is the generated one.
- **`dict`s** are association lists in insertion order; a sort is stable (`mergeSort`).
-/

/-- `entities[offset : offset + limit]`. -/
def slice {α : Type} (limit offset : Nat) (entities : List α) : List α :=
  (entities.drop offset).take limit

/-! ## Posts -/

structure PostEntity where
  id : Int
  title : String
  content : String
  userId : Int
  createdAt : Time
  author : Option UserEntity := none
  deriving DecidableEq

structure PostRepository where
  store : List (Int × PostEntity) := []
  currentId : Int := 0
  deriving DecidableEq

namespace PostRepository

def create (s : PostRepository) (now : Time) (title content : String) (userId : Int) :
    PostEntity × PostRepository :=
  let id := s.currentId + 1
  let entity : PostEntity := ⟨id, title, content, userId, now, none⟩
  (entity, { store := set s.store id entity, currentId := id })

def getById (s : PostRepository) (postId : Int) : Option PostEntity := find s.store postId

def getPostWithAuthor (s : PostRepository) (postId : Int) : Option PostEntity :=
  find s.store postId

end PostRepository

/-! ## Products -/

structure ProductEntity where
  id : Int
  name : String
  stock : Int
  price : Decimal
  deriving DecidableEq

inductive ProductError where
  | productNotFound (productId : Int)
  | insufficientStock
  deriving DecidableEq

structure ProductRepository where
  store : List (Int × ProductEntity) := []
  currentId : Int := 0
  deriving DecidableEq

namespace ProductRepository

def create (s : ProductRepository) (name : String) (stock : Int) (price : Decimal) :
    ProductEntity × ProductRepository :=
  let id := s.currentId + 1
  let entity : ProductEntity := ⟨id, name, stock, price⟩
  (entity, { store := set s.store id entity, currentId := id })

def getById (s : ProductRepository) (productId : Int) : Option ProductEntity :=
  find s.store productId

def getByIdWithLock (s : ProductRepository) (productId : Int) : Option ProductEntity :=
  find s.store productId

def deductStockPessimistic (s : ProductRepository) (productId quantity : Int) :
    Except ProductError ProductEntity × ProductRepository :=
  match find s.store productId with
  | none => (.error (.productNotFound productId), s)
  | some entity =>
    if entity.stock < quantity then (.error .insufficientStock, s)
    else
      let updated := { entity with stock := entity.stock - quantity }
      (.ok updated, { s with store := set s.store productId updated })

def listAll (s : ProductRepository) : List ProductEntity := s.store.map Prod.snd

end ProductRepository

/-! ## Orders -/

structure OrderEntity where
  id : UUID
  userId : Int
  totalAmount : Decimal
  status : String
  createdAt : Time
  deriving DecidableEq

structure OrderRepository where
  store : List (UUID × OrderEntity) := []
  deriving DecidableEq

namespace OrderRepository

def create (s : OrderRepository) (now : Time) (fresh : UUID) (userId : Int)
    (totalAmount : Decimal) (status : String) (orderId : Option UUID) :
    OrderEntity × OrderRepository :=
  let assignedId := orderId.getD fresh
  let entity : OrderEntity := ⟨assignedId, userId, totalAmount, status, now⟩
  (entity, { store := set s.store assignedId entity })

def getById (s : OrderRepository) (orderId : UUID) : Option OrderEntity :=
  find s.store orderId

def listByUserId (s : OrderRepository) (userId : Int) (limit offset : Nat) : List OrderEntity :=
  slice limit offset
    (((s.store.map Prod.snd).filter fun o => o.userId = userId).mergeSort fun a b => a.id ≤ b.id)

end OrderRepository

/-! ## Outbox -/

structure OutboxRepository where
  store : List (UUID × OutboxEventEntity) := []
  deriving DecidableEq

namespace OutboxRepository

/-- `create`, of an entity. -/
def create (s : OutboxRepository) (event : OutboxEventEntity) :
    OutboxEventEntity × OutboxRepository :=
  (event, { store := set s.store event.id event })

def recordEvent (s : OutboxRepository) (now : Time) (fresh : UUID)
    (eventType aggregateType aggregateId : String) (payload : OutboxPayload)
    (eventId : Option UUID) : OutboxEventEntity × OutboxRepository :=
  s.create { id := eventId.getD fresh, eventType, aggregateType, aggregateId, payload,
             createdAt := now }

def getPendingEvents (s : OutboxRepository) (batchSize : Nat) : List OutboxEventEntity :=
  (((s.store.map Prod.snd).filter fun e => e.status = .pending).mergeSort fun a b =>
    a.createdAt ≤ b.createdAt).take batchSize

def mark (s : OutboxRepository) (eventId : UUID) (f : OutboxEventEntity → OutboxEventEntity) :
    Option OutboxEventEntity × OutboxRepository :=
  match find s.store eventId with
  | none => (none, s)
  | some entity => (some (f entity), { store := set s.store eventId (f entity) })

def markPublished (s : OutboxRepository) (now : Time) (eventId : UUID) (status : OutboxStatus) :
    Option OutboxEventEntity × OutboxRepository :=
  s.mark eventId fun entity => { entity with status := status, publishedAt := some now }

def markFailed (s : OutboxRepository) (eventId : UUID) (maxRetries : Nat) :
    Option OutboxEventEntity × OutboxRepository :=
  s.mark eventId fun entity =>
    { entity with
      retryCount := entity.retryCount + 1
      status := if maxRetries ≤ entity.retryCount + 1 then .failed else .pending }

def getById (s : OutboxRepository) (eventId : UUID) : Option OutboxEventEntity :=
  find s.store eventId

def listRecentEvents (s : OutboxRepository) (limit : Nat) : List OutboxEventEntity :=
  ((s.store.map Prod.snd).mergeSort fun a b => b.createdAt ≤ a.createdAt).take limit

end OutboxRepository

/-! ## Ledger -/

structure LedgerRepository where
  accounts : List (UUID × LedgerAccountEntity) := []
  accountsByNumber : List (String × UUID) := []
  entries : List (UUID × JournalEntryEntity) := []
  entriesByRef : List (String × UUID) := []
  postings : List JournalPostingEntity := []
  deriving DecidableEq

namespace LedgerRepository

def createAccount [PyStr] (s : LedgerRepository) (now : Time) (fresh : UUID)
    (dto : LedgerAccountCreate) (accountId : Option UUID) :
    LedgerAccountEntity × LedgerRepository :=
  let id := accountId.getD fresh
  let entity : LedgerAccountEntity :=
    ⟨id, dto.accountNumber, dto.name, dto.accountType, PyStr.upper dto.currency, true, now⟩
  (entity, { s with
    accounts := set s.accounts id entity
    accountsByNumber := set s.accountsByNumber dto.accountNumber id })

def getAccountById (s : LedgerRepository) (accountId : UUID) : Option LedgerAccountEntity :=
  find s.accounts accountId

def getAccountByNumber (s : LedgerRepository) (number : String) : Option LedgerAccountEntity :=
  (find s.accountsByNumber number).bind s.getAccountById

def listAccounts (s : LedgerRepository) (limit offset : Nat) : List LedgerAccountEntity :=
  slice limit offset
    ((s.accounts.map Prod.snd).mergeSort fun a b => b.createdAt ≤ a.createdAt)

def getJournalEntryById (s : LedgerRepository) (entryId : UUID) : Option JournalEntryEntity :=
  find s.entries entryId

def getJournalEntryByReference (s : LedgerRepository) (reference : String) :
    Option JournalEntryEntity :=
  (find s.entriesByRef reference).bind s.getJournalEntryById

def getJournalEntriesByReferences (s : LedgerRepository) (references : List String) :
    List JournalEntryEntity :=
  references.filterMap s.getJournalEntryByReference

/-- The posting of one leg; the `n`-th has the generated id `fresh n`. -/
def newPostings (now : Time) (entryId : UUID) (fresh : Nat → UUID)
    (postings : List PostingCreateDTO) : List JournalPostingEntity :=
  postings.mapIdx fun n p => ⟨fresh n, entryId, p.accountId, p.amount, p.direction, now⟩

def createJournalEntry (s : LedgerRepository) (now : Time) (fresh : Nat → UUID)
    (dto : JournalEntryCreateDTO) (postedAt : Option Time) (entryId : Option UUID)
    (isFlagged : Bool) : JournalEntryEntity × LedgerRepository :=
  let time := postedAt.getD now
  let id := entryId.getD (fresh 0)
  let postings := newPostings time id (fun n => fresh (n + 1)) dto.postings
  let entity : JournalEntryEntity :=
    ⟨id, dto.referenceId, dto.description, time, postings, isFlagged⟩
  (entity, { s with
    postings := s.postings ++ postings
    entries := set s.entries id entity
    entriesByRef := set s.entriesByRef dto.referenceId id })

def getPostingsByAccountId (s : LedgerRepository) (accountId : UUID) : List JournalPostingEntity :=
  s.postings.filter fun p => p.accountId = accountId

def getAccountBalanceAggregates (s : LedgerRepository) (accountId : UUID) : Decimal × Decimal :=
  let total (direction : PostingDirection) : Decimal :=
    (((s.getPostingsByAccountId accountId).filter fun p => p.direction = direction).map
      (·.amount)).sum
  (total .debit, total .credit)

end LedgerRepository

/-! ## Reconciliation -/

structure ReconciliationRepository where
  batches : List (UUID × ReconciliationBatchEntity) := []
  byReference : List (String × UUID) := []
  deriving DecidableEq

namespace ReconciliationRepository

/-- `create_batch`, of a batch with all its fields; its items get the id of the batch. -/
def createBatch (s : ReconciliationRepository) (fresh : UUID) (batch : ReconciliationBatchEntity)
    (batchId : Option UUID) : ReconciliationBatchEntity × ReconciliationRepository :=
  let id := batchId.getD fresh
  let entity : ReconciliationBatchEntity := { batch with
    id := id, items := batch.items.map fun item => { item with batchId := id } }
  (entity, {
    batches := set s.batches id entity
    byReference := set s.byReference batch.batchReference id })

def getBatchById (s : ReconciliationRepository) (batchId : UUID) :
    Option ReconciliationBatchEntity :=
  find s.batches batchId

def getBatchByReference (s : ReconciliationRepository) (reference : String) :
    Option ReconciliationBatchEntity :=
  (find s.byReference reference).bind s.getBatchById

end ReconciliationRepository

structure Memory where
  users : UserRepository := {}
  posts : PostRepository := {}
  products : ProductRepository := {}
  orders : OrderRepository := {}
  outbox : OutboxRepository := {}
  ledger : LedgerRepository := {}
  reconciliation : ReconciliationRepository := {}

/-- What `__aenter__` copies. -/
structure MemorySnapshot where
  users : UserDicts
  posts : PostRepository
  products : ProductRepository
  orders : OrderRepository
  outbox : OutboxRepository
  ledger : LedgerRepository
  reconciliation : ReconciliationRepository

namespace Memory

def snapshot (m : Memory) : MemorySnapshot :=
  ⟨m.users.toUserDicts, m.posts, m.products, m.orders, m.outbox, m.ledger, m.reconciliation⟩

def restore (m : Memory) (d : MemorySnapshot) : Memory where
  users := { m.users with toUserDicts := d.users }
  posts := d.posts
  products := d.products
  orders := d.orders
  outbox := d.outbox
  ledger := d.ledger
  reconciliation := d.reconciliation

end Memory

structure InMemoryUnitOfWork where
  memory : Memory
  snapshot : Option MemorySnapshot := none

namespace InMemoryUnitOfWork

def aenter (u : InMemoryUnitOfWork) : InMemoryUnitOfWork :=
  { u with snapshot := some u.memory.snapshot }

def commit (u : InMemoryUnitOfWork) : InMemoryUnitOfWork := { u with snapshot := none }

def rollback (u : InMemoryUnitOfWork) : InMemoryUnitOfWork :=
  match u.snapshot with
  | none => u
  | some d => { u with memory := u.memory.restore d }

/-- `__aexit__`; `raised` if the block has. -/
def aexit (u : InMemoryUnitOfWork) (raised : Bool) : InMemoryUnitOfWork :=
  { (if raised then u.rollback else u) with snapshot := none }

end InMemoryUnitOfWork

section Operations

variable [PyCase]

/-! ## Operations -/

inductive MemoryOp where
  | user (op : UserRepoOp)
  | deleteUser (userId : Int)
  | incrementViewsBatch (viewsMap : List (Int × Nat))
  | clearUsers
  | createPost (now : Time) (title content : String) (userId : Int)
  | clearPosts
  | createProduct (name : String) (stock : Int) (price : Decimal)
  | deductStockPessimistic (productId quantity : Int)
  | clearProducts
  | createOrder (now : Time) (fresh : UUID) (userId : Int) (totalAmount : Decimal)
      (status : String) (orderId : Option UUID)
  | createEvent (event : OutboxEventEntity)
  | recordEvent (now : Time) (fresh : UUID) (eventType aggregateType aggregateId : String)
      (payload : OutboxPayload) (eventId : Option UUID)
  | markPublished (now : Time) (eventId : UUID) (status : OutboxStatus)
  | markFailed (eventId : UUID) (maxRetries : Nat)
  | createAccount (now : Time) (fresh : UUID) (dto : LedgerAccountCreate)
      (accountId : Option UUID)
  | createJournalEntry (now : Time) (fresh : Nat → UUID) (dto : JournalEntryCreateDTO)
      (postedAt : Option Time) (entryId : Option UUID) (isFlagged : Bool)
  | createBatch (fresh : UUID) (batch : ReconciliationBatchEntity) (batchId : Option UUID)

/-- `clear`, of the users: the objects that others hold stay. -/
def UserRepository.clear (s : UserRepository) : UserRepository := { heap := s.heap }

def MemoryOp.onUsers (s : UserRepository) : MemoryOp → UserRepository
  | .user op => s.call op
  | .deleteUser userId => (s.delete userId).2
  | .incrementViewsBatch viewsMap => (s.incrementViewsBatch viewsMap).2
  | .clearUsers => s.clear
  | _ => s

def Memory.exec (m : Memory) (op : MemoryOp) : Memory :=
  let m := { m with users := op.onUsers m.users }
  match op with
  | .createPost now title content userId =>
    { m with posts := (m.posts.create now title content userId).2 }
  | .clearPosts => { m with posts := {} }
  | .createProduct name stock price =>
    { m with products := (m.products.create name stock price).2 }
  | .deductStockPessimistic productId quantity =>
    { m with products := (m.products.deductStockPessimistic productId quantity).2 }
  | .clearProducts => { m with products := {} }
  | .createOrder now fresh userId totalAmount status orderId =>
    { m with orders := (m.orders.create now fresh userId totalAmount status orderId).2 }
  | .createEvent event => { m with outbox := (m.outbox.create event).2 }
  | .recordEvent now fresh eventType aggregateType aggregateId payload eventId =>
    { m with outbox :=
        (m.outbox.recordEvent now fresh eventType aggregateType aggregateId payload eventId).2 }
  | .markPublished now eventId status =>
    { m with outbox := (m.outbox.markPublished now eventId status).2 }
  | .markFailed eventId maxRetries =>
    { m with outbox := (m.outbox.markFailed eventId maxRetries).2 }
  | .createAccount now fresh dto accountId =>
    { m with ledger := (m.ledger.createAccount now fresh dto accountId).2 }
  | .createJournalEntry now fresh dto postedAt entryId isFlagged =>
    { m with ledger :=
        (m.ledger.createJournalEntry now fresh dto postedAt entryId isFlagged).2 }
  | .createBatch fresh batch batchId =>
    { m with reconciliation := (m.reconciliation.createBatch fresh batch batchId).2 }
  | _ => m

lemma Memory.exec_users (m : Memory) (op : MemoryOp) : (m.exec op).users = op.onUsers m.users := by
  cases op <;> rfl

def InMemoryUnitOfWork.exec (u : InMemoryUnitOfWork) (op : MemoryOp) : InMemoryUnitOfWork :=
  { u with memory := u.memory.exec op }

/-- `async with InMemoryUnitOfWork(): ops`, where the block raises after `ops`. -/
def raisingBlock (m : Memory) (ops : List MemoryOp) : Memory :=
  ((ops.foldl InMemoryUnitOfWork.exec (InMemoryUnitOfWork.aenter ⟨m, none⟩)).aexit true).memory

/-! ## Reads -/

/-- Does `list_all` keep the user? The search reads the lower-cased texts, which `None` does not
have. -/
def UserRepository.keeps (role search : Option String) (isActive : Option Bool)
    (user : UserEntity) : Except UserError Bool :=
  if role.any (· ≠ user.role) then .ok false
  else if isActive.any (· ≠ user.isActive) then .ok false
  else
    match search.filter (· ≠ "") with
    | none => .ok true
    | some search =>
      match user.username, user.email with
      | some username, some email =>
        .ok (mentions (PyCase.lower search) (PyCase.lower username) ||
          mentions (PyCase.lower search) (PyCase.lower email) ||
          user.fullName.any fun name => mentions (PyCase.lower search) (PyCase.lower name))
      | _, _ => .error .attributeError

def UserRepository.listAll (s : UserRepository) (limit offset : Nat) (role search : Option String)
    (isActive : Option Bool) : Except UserError (List UserEntity) :=
  let users := (s.heap.deref s.store).map Prod.snd
  if role.isNone && search.isNone && isActive.isNone then .ok (slice limit offset users)
  else (slice limit offset) <$> users.filterM (keeps role search isActive)

inductive MemoryRead where
  | userById (userId : Int)
  | userByEmail (email : String)
  | userByUsername (username : String)
  | listUsers (limit offset : Nat) (role search : Option String) (isActive : Option Bool)
  | views (userId : Int)
  | allUserIds
  | postById (postId : Int)
  | postWithAuthor (postId : Int)
  | productById (productId : Int)
  | productByIdWithLock (productId : Int)
  | listProducts
  | orderById (orderId : UUID)
  | listOrders (userId : Int) (limit offset : Nat)
  | pendingEvents (batchSize : Nat)
  | eventById (eventId : UUID)
  | recentEvents (limit : Nat)
  | accountById (accountId : UUID)
  | accountByNumber (number : String)
  | listAccounts (limit offset : Nat)
  | journalEntryById (entryId : UUID)
  | journalEntryByReference (reference : String)
  | journalEntriesByReferences (references : List String)
  | postingsByAccountId (accountId : UUID)
  | balanceAggregates (accountId : UUID)
  | batchById (batchId : UUID)
  | batchByReference (reference : String)

namespace MemoryRead

def Res : MemoryRead → Type
  | userById _ | userByEmail _ | userByUsername _ => Option UserEntity
  | listUsers .. => Except UserError (List UserEntity)
  | views _ => Nat
  | allUserIds => List Int
  | postById _ | postWithAuthor _ => Option PostEntity
  | productById _ | productByIdWithLock _ => Option ProductEntity
  | listProducts => List ProductEntity
  | orderById _ => Option OrderEntity
  | listOrders .. => List OrderEntity
  | pendingEvents _ | recentEvents _ => List OutboxEventEntity
  | eventById _ => Option OutboxEventEntity
  | accountById _ | accountByNumber _ => Option LedgerAccountEntity
  | listAccounts .. => List LedgerAccountEntity
  | journalEntryById _ | journalEntryByReference _ => Option JournalEntryEntity
  | journalEntriesByReferences _ => List JournalEntryEntity
  | postingsByAccountId _ => List JournalPostingEntity
  | balanceAggregates _ => Decimal × Decimal
  | batchById _ | batchByReference _ => Option ReconciliationBatchEntity

def eval (m : Memory) : (q : MemoryRead) → q.Res
  | userById userId => (m.users.getById userId).map m.users.heap.read
  | userByEmail email => (m.users.getByEmail email).map m.users.heap.read
  | userByUsername username => (m.users.getByUsername username).map m.users.heap.read
  | listUsers limit offset role search isActive =>
    m.users.listAll limit offset role search isActive
  | views userId => m.users.getViews userId
  | allUserIds => m.users.getAllIds
  | postById postId => m.posts.getById postId
  | postWithAuthor postId => m.posts.getPostWithAuthor postId
  | productById productId => m.products.getById productId
  | productByIdWithLock productId => m.products.getByIdWithLock productId
  | listProducts => m.products.listAll
  | orderById orderId => m.orders.getById orderId
  | listOrders userId limit offset => m.orders.listByUserId userId limit offset
  | pendingEvents batchSize => m.outbox.getPendingEvents batchSize
  | eventById eventId => m.outbox.getById eventId
  | recentEvents limit => m.outbox.listRecentEvents limit
  | accountById accountId => m.ledger.getAccountById accountId
  | accountByNumber number => m.ledger.getAccountByNumber number
  | listAccounts limit offset => m.ledger.listAccounts limit offset
  | journalEntryById entryId => m.ledger.getJournalEntryById entryId
  | journalEntryByReference reference => m.ledger.getJournalEntryByReference reference
  | journalEntriesByReferences references =>
    m.ledger.getJournalEntriesByReferences references
  | postingsByAccountId accountId => m.ledger.getPostingsByAccountId accountId
  | balanceAggregates accountId => m.ledger.getAccountBalanceAggregates accountId
  | batchById batchId => m.reconciliation.getBatchById batchId
  | batchByReference reference => m.reconciliation.getBatchByReference reference

end MemoryRead

end Operations

end CleanArch
