import CleanArch.Async.Phases
import CleanArch.Locks.MultiLock

/-!
# Two locks on one Redis

`AsyncDistributedLock` (`app/core/distributed_lock.py`) and `DistributedLock`
(`app/core/dsa/distributed_lock.py`), which share the keys `lock:…`.

- **Clients** (`Client`) are the tasks, and the instances of `DistributedLock`. **Tokens** are
  unique (`uuid4`): the client, and how many tokens it has made before.
- **Tasks** run any program of method calls (`LockMethod`), so also the context managers. A task
  gives to `release` a token that one of its own calls of `acquire` has returned or that it has made
  itself.
- **Awaits** (`RedisAwait`). The world can refuse a command, lose its reply, or cancel the task,
  before the command or after it (`Reply`).
- **Time** passes by itself. A key can be gone at any time from its deadline on (`RedisEnv`). The
  loop of `acquire` ends at a deadline; the model has the number of tries before it, for any number.
-/

namespace CleanArch
namespace RedisLock

open Async Function

inductive Client where
  | task (t : Tid)
  | lock (i : Nat)
  deriving DecidableEq

def Client.ActsIn (t : Tid) : Client → Prop
  | .task u => u = t
  | .lock _ => True

structure Token where
  client : Client
  number : Nat
  deriving DecidableEq

structure Stored where
  token : Token
  setBy : Client
  expiresAt : Nat
  deriving DecidableEq

/-- A `SET` that has set its key. -/
structure Acquisition where
  stored : Stored
  key : String
  deriving DecidableEq

/-- The fields of a `DistributedLock` that change. -/
structure DistributedLock where
  token : Option Token := none
  acquired : Bool := false

/-- The fields of a `DistributedLock` that `__init__` sets. -/
structure LockInit where
  name : String
  ttlMs : Int := 5000

def LockInit.key (init : LockInit) : String := "lock:" ++ init.name

def LockInit.px (init : LockInit) : Nat := (max 1 init.ttlMs).toNat

structure RedisWorld where
  now : Nat := 0
  keys : String → Option Stored := fun _ => none
  locks : Nat → DistributedLock := fun _ => {}
  issued : Client → Nat := fun _ => 0
  acquisitions : List Acquisition := []
  /-- The acquisitions that have neither been released nor expired. -/
  held : List Acquisition := []

/-! ## Awaits -/

inductive LockError where
  | redisError
  | cancelled
  /-- `LockAcquisitionTimeoutException`. -/
  | acquisitionTimeout (resourceKey : String)
  deriving DecidableEq

inductive Reply where
  | done
  /-- The command fails; `applied`: it has reached Redis. -/
  | fails (applied : Bool)
  | cancels (applied : Bool)

inductive RedisAwait where
  /-- `uuid4().hex` of the task. -/
  | newToken
  | keepToken (token : Token)
  /-- The `i`-th token that the task keeps. -/
  | keptToken (i : Nat)
  /-- `SET key token NX PX px`. -/
  | setNx (client : Client) (key : String) (token : Token) (px : Nat)
  /-- The script of `release`. -/
  | evalRelease (client : Client) (key : String) (token : Token)
  | sleep
  /-- `DistributedLock.acquire`, before the `SET`. -/
  | beginAcquire (i : Nat)
  /-- `DistributedLock.acquire`, after the `SET`. -/
  | endAcquire (i : Nat) (result : Bool)
  /-- `DistributedLock.release`, before the script: the token, if there is one to release. -/
  | beginRelease (i : Nat)
  /-- `DistributedLock.release`, after the script. -/
  | endRelease (i : Nat)

@[reducible] def RedisAwait.Res : RedisAwait → Type
  | .newToken | .beginAcquire _ => Token
  | .keptToken _ | .beginRelease _ => Option Token
  | .setNx .. | .evalRelease .. => Bool
  | _ => Unit

namespace RedisWorld

def newToken (s : RedisWorld) (client : Client) : Token := ⟨client, s.issued client⟩

def countToken (s : RedisWorld) (client : Client) : RedisWorld :=
  { s with issued := update s.issued client (s.issued client + 1) }

def setLock (s : RedisWorld) (i : Nat) (fields : DistributedLock) : RedisWorld :=
  { s with locks := update s.locks i fields }

def setNx (s : RedisWorld) (client : Client) (key : String) (token : Token) (px : Nat) :
    Bool × RedisWorld :=
  match s.keys key with
  | some _ => (false, s)
  | none =>
    (true, { s with
      keys := update s.keys key (some ⟨token, client, s.now + px⟩)
      acquisitions := s.acquisitions ++ [⟨⟨token, client, s.now + px⟩, key⟩]
      held := s.held ++ [⟨⟨token, client, s.now + px⟩, key⟩] })

/-- `DEL` if the key has the token. -/
def evalRelease (s : RedisWorld) (key : String) (token : Token) : Bool × RedisWorld :=
  let s' := { s with held := s.held.filter fun a => ¬ (a.key = key ∧ a.stored.token = token) }
  if (s.keys key).map (·.token) = some token then
    (true, { s' with keys := update s.keys key none })
  else (false, s')

end RedisWorld

def Reply.apply {α : Type} (s : RedisWorld) (x : α × RedisWorld) :
    Reply → Except LockError α × RedisWorld
  | .done => (.ok x.1, x.2)
  | .fails applied => (.error .redisError, if applied then x.2 else s)
  | .cancels applied => (.error .cancelled, if applied then x.2 else s)

/-- One await of task `t`, which keeps the tokens `l`. -/
def RedisAwait.exec (t : Tid) (o : Reply) (l : List Token) (s : RedisWorld) :
    (c : RedisAwait) → Except LockError c.Res × List Token × RedisWorld
  | .newToken => (.ok (s.newToken (.task t)), l, s.countToken (.task t))
  | .keepToken token => (.ok (), l ++ [token], s)
  | .keptToken i => (.ok l[i]?, l, s)
  | .setNx client key token px =>
    let x := o.apply s (s.setNx client key token px)
    (x.1, l, x.2)
  | .evalRelease _ key token =>
    let x := o.apply s (s.evalRelease key token)
    (x.1, l, x.2)
  | .sleep =>
    (match o with
      | .cancels _ => .error .cancelled
      | _ => .ok (), l, s)
  | .beginAcquire i =>
    (.ok (s.newToken (.lock i)), l, (s.countToken (.lock i)).setLock i
      { s.locks i with token := some (s.newToken (.lock i)) })
  | .endAcquire i result =>
    (.ok (), l, s.setLock i
      { token := if result then (s.locks i).token else none, acquired := result })
  | .beginRelease i => (.ok (if (s.locks i).acquired then (s.locks i).token else none), l, s)
  | .endRelease i => (.ok (), l, s.setLock i {})

@[reducible] def redisMachine : Machine where
  Cmd := RedisAwait
  Res := RedisAwait.Res
  Err := LockError
  Loc := List Token
  Sh := RedisWorld
  Out := Reply
  exec t c o l s := c.exec t o l s

abbrev RedisProg := Prog RedisAwait RedisAwait.Res LockError

def call (c : RedisAwait) : RedisProg c.Res := Prog.call c

/-! ## The lock manager -/

/-- `max(100, int(ttl_seconds * 1000))`. -/
def ttlMs (ttlSeconds : Int) : Nat := (max 100 (ttlSeconds * 1000)).toNat

/-- `AsyncDistributedLock.acquire`. -/
def asyncAcquire (t : Tid) (resourceKey : String) (ttlSeconds : Int) (tries : Nat) :
    RedisProg Token := do
  let token ← call .newToken
  Locks.acquireLoop
    (call (.setNx (.task t) (Locks.lockKey resourceKey) token (ttlMs ttlSeconds)))
    (call .sleep) (.acquisitionTimeout resourceKey) token tries

/-- `AsyncDistributedLock.release`. -/
def asyncRelease (t : Tid) (resourceKey : String) (token : Token) : RedisProg Bool :=
  Locks.releaseScript (call (.evalRelease (.task t) (Locks.lockKey resourceKey) token)) .cancelled

/-! ## The lock objects -/

section Instances

variable (init : Nat → LockInit)

/-- `DistributedLock.acquire`. -/
def lockAcquire (i : Nat) : RedisProg Bool := do
  let token ← call (.beginAcquire i)
  let result ← call (.setNx (.lock i) (init i).key token (init i).px)
  call (.endAcquire i result)
  return result

/-- `DistributedLock.release`. -/
def lockRelease (i : Nat) : RedisProg Bool := do
  match ← call (.beginRelease i) with
  | some token =>
    (call (.evalRelease (.lock i) (init i).key token)).ensure (call (.endRelease i))
  | none => return false

/-! ## Tasks -/

inductive LockMethod where
  | acquire (resourceKey : String) (ttlSeconds : Int) (tries : Nat)
  /-- `release`, with the `i`-th token that the task keeps. -/
  | release (resourceKey : String) (i : Nat)
  | makeToken
  | lockAcquire (i : Nat)
  | lockRelease (i : Nat)

@[reducible] def LockMethod.Res : LockMethod → Type
  | .acquire .. | .makeToken => Token
  | _ => Bool

def LockMethod.code (t : Tid) : (m : LockMethod) → RedisProg m.Res
  | .acquire resourceKey ttlSeconds tries => do
    let token ← asyncAcquire t resourceKey ttlSeconds tries
    call (.keepToken token)
    return token
  | .release resourceKey i => do
    match ← call (.keptToken i) with
    | some token => asyncRelease t resourceKey token
    | none => return false
  | .makeToken => do
    let token ← call .newToken
    call (.keepToken token)
    return token
  | .lockAcquire i => RedisLock.lockAcquire init i
  | .lockRelease i => RedisLock.lockRelease init i

abbrev Task := Prog LockMethod LockMethod.Res LockError Unit

inductive RedisEnv where
  | advance (ms : Nat)
  | expire (key : String)

def RedisEnv.exec (s : RedisWorld) : RedisEnv → RedisWorld
  | .advance ms => { s with now := s.now + ms }
  | .expire key =>
    if (s.keys key).any (·.expiresAt ≤ s.now) then
      { s with
        keys := update s.keys key none
        held := s.held.filter fun a => ¬ (a.key = key ∧ a.stored.expiresAt ≤ s.now) }
    else s

/-- The tasks, over the lock objects `init`. -/
@[reducible] def redisSys (tasks : Tid → Task) : Sys where
  toMachine := redisMachine
  Env := RedisEnv
  env e s := e.exec s
  A := Unit
  prog t := (tasks t).interp (LockMethod.code init t)
  loc _ := []

end Instances

end RedisLock
end CleanArch
