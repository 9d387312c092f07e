import CleanArch.Ledger.Repository

/-!
# The world of the ledger's services

The state that concurrent calls share: the database, the Redis keys that the ledger uses, the memory
of the fraud service, and the charges of the payment service. Redis keys are modelled by the part
that varies: `idempotency:{reference_id}` (`World.idem`), `lock:account:{id}` (`World.locks`),
`velocity:transfers:{id}` (`World.velocity`) and the set `blacklist:accounts` (`World.blacklist`).
-/

namespace CleanArch

open Async Function

/-!
## The documents under `idempotency:{key}`

Two schemes keep JSON documents under the same Redis prefix: the transfer service (`{"status": …,
"data": …}`) and `IdempotencyManager` (`{"state": …, "request_hash": …, …}`). A document here has
the keys of both; a key that the JSON does not have is `none`, as `dict.get` answers.
-/

/-- `status` of a transfer's document. -/
inductive TransferStatus where
  | processing
  | completed
  deriving DecidableEq

inductive IdempotencyState where
  | inProgress
  | completed
  | failed
  deriving DecidableEq

structure PaymentChargeResponse where
  chargeId : UUID
  orderId : String
  amount : Decimal
  currency : String
  status : String
  createdAt : Time
  deriving DecidableEq

structure IdempotencyDoc where
  status : Option TransferStatus := none
  data : Option FundTransferResponse := none
  state : Option IdempotencyState := none
  requestHash : Option String := none
  statusCode : Option Nat := none
  responseBody : Option PaymentChargeResponse := none
  error : Option String := none
  deriving DecidableEq

namespace IdempotencyDoc

/-- `{"status": "PROCESSING"}`. -/
def processing : IdempotencyDoc := { status := some .processing }

/-- `{"status": "COMPLETED", "data": response}`. -/
def completed (response : FundTransferResponse) : IdempotencyDoc :=
  { status := some .completed, data := some response }

/-- The free texts of a document: the other values are numbers, identifiers and instants. -/
def texts (d : IdempotencyDoc) : List String :=
  (match d.data with
    | some r => [r.referenceId, r.sourceCurrency, r.destinationCurrency]
    | none => []) ++
  (match d.responseBody with
    | some r => [r.orderId, r.currency, r.status]
    | none => []) ++ d.error.toList

/-- `"PROCESSING" in str(value)` for the JSON text of a document. -/
def mentionsProcessing (d : IdempotencyDoc) : Bool :=
  d.status = some .processing || d.texts.any (mentions "PROCESSING")

end IdempotencyDoc

/-- The token of a lock, unique to the call that took it (`uuid4().hex`). -/
abbrev Token := Nat

/-- A member of a velocity set: the amount, a nonce (`{amount}:{uuid}`) and the score. -/
structure VelocityEntry where
  amount : Decimal
  nonce : UUID
  score : Time
  deriving DecidableEq

structure World where
  db : Ledger := Ledger.empty
  idem : String → Option IdempotencyDoc := fun _ => none
  locks : UUID → Option Token := fun _ => none
  velocity : UUID → List VelocityEntry := fun _ => []
  blacklist : UUID → Bool := fun _ => false
  /-- `_in_memory_velocity` of the fraud service. -/
  memVelocity : UUID → List (Time × Decimal) := fun _ => []
  /-- `_in_memory_blacklist`. -/
  memBlacklist : UUID → Bool := fun _ => false
  /-- `_charge_history` of the payment service. -/
  charges : List PaymentChargeResponse := []

inductive RedisCmd where
  | get (reference : String)
  | setNx (reference : String) (doc : IdempotencyDoc) (ex : Nat)
  | set (reference : String) (doc : IdempotencyDoc) (ex : Nat)
  | delete (reference : String)
  /-- `SET lock:account:{id} token NX PX px`. -/
  | lockSetNx (resource : UUID) (token : Token) (px : Nat)
  | lockRelease (resource : UUID) (token : Token)
  | sismember (account : UUID)
  | zremrangebyscore (account : UUID) (max : Time)
  | zrange (account : UUID)
  /-- The pipeline `ZADD`, `EXPIRE`. -/
  | zadd (account : UUID) (entry : VelocityEntry)

@[reducible] def RedisCmd.Res : RedisCmd → Type
  | .get _ => Option IdempotencyDoc
  | .setNx .. | .lockSetNx .. | .lockRelease .. | .sismember _ => Bool
  | .set .. | .delete _ | .zremrangebyscore .. | .zadd .. => Unit
  | .zrange _ => List VelocityEntry

def RedisCmd.exec (s : World) : (c : RedisCmd) → c.Res × World
  | .get r => (s.idem r, s)
  | .setNx r doc _ =>
    match s.idem r with
    | some _ => (false, s)
    | none => (true, { s with idem := update s.idem r (some doc) })
  | .set r doc _ => ((), { s with idem := update s.idem r (some doc) })
  | .delete r => ((), { s with idem := update s.idem r none })
  | .lockSetNx k token _ =>
    match s.locks k with
    | some _ => (false, s)
    | none => (true, { s with locks := update s.locks k (some token) })
  | .lockRelease k token =>
    if s.locks k = some token then (true, { s with locks := update s.locks k none })
    else (false, s)
  | .sismember a => (s.blacklist a, s)
  | .zremrangebyscore a max =>
    ((), { s with
      velocity := update s.velocity a ((s.velocity a).filter fun e => max < e.score) })
  | .zrange a => (s.velocity a, s)
  | .zadd a e => ((), { s with velocity := update s.velocity a (s.velocity a ++ [e]) })

/-- What a call does in its own process: the clock, random numbers, and the memory of the fraud
service. These do not fail. -/
inductive ProcCmd where
  | time
  | uuid
  | memBlacklisted (account : UUID)
  | memVelocity (account : UUID)
  | setMemVelocity (account : UUID) (entries : List (Time × Decimal))

@[reducible] def ProcCmd.Res : ProcCmd → Type
  | .time => Time
  | .uuid => UUID
  | .memBlacklisted _ => Bool
  | .memVelocity _ => List (Time × Decimal)
  | .setMemVelocity .. => Unit

def ProcCmd.exec (o : Answer) (s : World) : (c : ProcCmd) → c.Res × World
  | .time => (o.now, s)
  | .uuid => (o.ids 0, s)
  | .memBlacklisted a => (s.memBlacklist a, s)
  | .memVelocity a => (s.memVelocity a, s)
  | .setMemVelocity a es => ((), { s with memVelocity := update s.memVelocity a es })

inductive LedgerCmd where
  | db (c : DbCmd)
  | redis (c : RedisCmd)
  | proc (c : ProcCmd)
  /-- `process_charge` of the payment service, which may raise. -/
  | processCharge (orderId : String) (amount : Decimal) (currency : String)

@[reducible] def LedgerCmd.Res : LedgerCmd → Type
  | .db c => c.Res
  | .redis c => c.Res
  | .proc c => c.Res
  | .processCharge .. => PaymentChargeResponse

/-- The charge that `process_charge` makes. -/
def newCharge (o : Answer) (orderId : String) (amount : Decimal) (currency : String) :
    PaymentChargeResponse :=
  ⟨o.ids 0, orderId, amount, currency, "succeeded", o.now⟩

def LedgerCmd.exec (o : Answer) (l : Session) (s : World) :
    (c : LedgerCmd) → Except LedgerError c.Res × Session × World
  | .db c =>
    withFault o .databaseError (l, s)
      ((c.exec o l s.db).1, (c.exec o l s.db).2.1, { s with db := (c.exec o l s.db).2.2 })
  | .redis c => withFault o .redisError (l, s) (.ok (c.exec s).1, l, (c.exec s).2)
  | .proc c => (.ok (c.exec o s).1, l, (c.exec o s).2)
  | .processCharge orderId amount currency =>
    let charge := newCharge o orderId amount currency
    withFault o .paymentError (l, s) (.ok charge, l, { s with charges := s.charges ++ [charge] })

@[reducible] def ledgerMachine : Machine where
  Cmd := LedgerCmd
  Res := LedgerCmd.Res
  Err := LedgerError
  Loc := Session
  Sh := World
  Out := Answer
  exec _ c o l s := c.exec o l s

def LedgerCmd.redisAnswers (o : Answer) : LedgerCmd → Answer
  | .redis _ => { o with fault := none }
  | _ => o

@[reducible] def redisUp : Machine where
  Cmd := LedgerCmd
  Res := LedgerCmd.Res
  Err := LedgerError
  Loc := Session
  Sh := World
  Out := Answer
  exec _ c o l s := c.exec (c.redisAnswers o) l s

abbrev LedgerProg := Prog LedgerCmd LedgerCmd.Res LedgerError

def db (c : DbCmd) : LedgerProg c.Res := Prog.call (LedgerCmd.db c)

def redis (c : RedisCmd) : LedgerProg c.Res := Prog.call (LedgerCmd.redis c)

def proc (c : ProcCmd) : LedgerProg c.Res := Prog.call (LedgerCmd.proc c)

inductive LedgerEnv where
  | expireIdem (reference : String)
  | expireLock (resource : UUID)
  | expireVelocity (account : UUID)

def LedgerEnv.exec (s : World) : LedgerEnv → World
  | .expireIdem r => { s with idem := update s.idem r none }
  | .expireLock k => { s with locks := update s.locks k none }
  | .expireVelocity a => { s with velocity := update s.velocity a [] }

end CleanArch
