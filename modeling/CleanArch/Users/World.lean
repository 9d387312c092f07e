import CleanArch.Async.Alone
import CleanArch.Cache.XFetch
import CleanArch.Dsa.Bloom
import CleanArch.Ledger.Repository
import CleanArch.Memory.UnitOfWork

/-!
# The world of the user service

What `UserService` reads and writes, and each of its requests as one step: the in-memory
repositories and the snapshots of the units of work (`UserDb`), the search trie and the Bloom filter
(`UserIndex`), and the keys `cache:user:{id}`, `xfetch:user:{id}` and
`lock:xfetch:user:{id}:recompute` of Redis (`UserRedis`).

- **Objects.** The repository gives out references; to read an attribute is a request of its own
  (`RepoCmd.read`). A user that was read from Redis is a copy of its own.
- **Redis.** A JSON text stands as the record of its fields. A command can be refused, or its reply
  can be lost. Keys can expire at any time (`UserExpiry`).
-/

namespace CleanArch

open Async Objects

/-! ## State -/

structure UserDb extends Memory where
  snapshots : Nat → Option MemorySnapshot := fun _ => none

structure UserPayload where
  id : Int
  username : Option String
  fullName : Option String
  deriving DecidableEq

structure UserIndex where
  trie : PrefixTrie UserPayload := {}
  bloom : BloomFilter

structure UserRedis where
  cache : List (Int × UserEntity) := []
  envelopes : List (Int × XFetchEnvelope Time UserEntity) := []
  locks : List Int := []

structure UserWorld where
  db : UserDb := {}
  index : UserIndex
  redis : UserRedis := {}

def UserWorld.empty : UserWorld where
  index := { bloom := .small }

structure UserAnswer extends Answer where
  hash : String := ""
  valid : Bool := true
  random : Time := 1

def Works (o : UserAnswer) : Prop := o.fault = none

/-! ## Requests -/

section Requests

variable [PyCase]

inductive RepoCmd where
  | getById (userId : Int)
  | getByEmail (email : String)
  | getByUsername (username : String)
  | create (a : UserCreateArgs)
  | update (userId : Int) (c : UserChanges)
  | updateNid (userId : Int) (nidNumber : String)
  | updatePermissions (userId : Int) (permissions : Nat)
  | updateWithOptimisticLock (userId : Int) (expectedVersion : Nat) (data : UserUpdate)
  | delete (userId : Int)
  | createPost (title content : String) (userId : Int)
  | aenter (uow : Nat)
  | commit (uow : Nat)
  | aexit (uow : Nat) (raised : Bool)
  | read (r : Ref)
  | setPasswordHash (r : Ref) (hash : String)

@[reducible] def RepoCmd.Res : RepoCmd → Type
  | .getById _ | .getByEmail _ | .getByUsername _ => Option Ref
  | .create _ | .updateWithOptimisticLock .. => Ref
  | .update .. | .updateNid .. | .updatePermissions .. => Option Ref
  | .delete _ => Bool
  | .createPost .. => PostEntity
  | .aenter _ | .commit _ | .aexit .. | .setPasswordHash .. => Unit
  | .read _ => UserEntity

/-- A call of the unit of work `uow` on the repositories. -/
def UserDb.onUow (db : UserDb) (uow : Nat) (f : InMemoryUnitOfWork → InMemoryUnitOfWork) : UserDb :=
  let u := f ⟨db.toMemory, db.snapshots uow⟩
  { toMemory := u.memory, snapshots := Function.update db.snapshots uow u.snapshot }

def UserDb.onUsers {α : Type} (db : UserDb) (x : α × UserRepository) : α × UserDb :=
  (x.1, { db with users := x.2 })

/-- `user.password_hash = hash`. -/
def UserRepository.setPasswordHash (s : UserRepository) (r : Ref) (hash : String) :
    UserRepository :=
  { s with heap := s.heap.write r { s.heap.read r with passwordHash := hash } }

def RepoCmd.exec (o : UserAnswer) (db : UserDb) : (c : RepoCmd) → Except UserError c.Res × UserDb
  | .getById userId => (.ok (db.users.getById userId), db)
  | .getByEmail email => (.ok (db.users.getByEmail email), db)
  | .getByUsername username => (.ok (db.users.getByUsername username), db)
  | .create a => db.onUsers ((db.users.create o.now a).map .ok id)
  | .update userId c => db.onUsers ((db.users.update userId c).map .ok id)
  | .updateNid userId nidNumber =>
    db.onUsers ((db.users.updateNid userId (some nidNumber)).map .ok id)
  | .updatePermissions userId permissions =>
    db.onUsers ((db.users.updatePermissions userId permissions).map .ok id)
  | .updateWithOptimisticLock userId expectedVersion data =>
    db.onUsers (db.users.updateWithOptimisticLock userId expectedVersion data)
  | .delete userId => db.onUsers ((db.users.delete userId).map .ok id)
  | .createPost title content userId =>
    (.ok (db.posts.create o.now title content userId).1,
      { db with posts := (db.posts.create o.now title content userId).2 })
  | .aenter uow => (.ok (), db.onUow uow InMemoryUnitOfWork.aenter)
  | .commit uow => (.ok (), db.onUow uow InMemoryUnitOfWork.commit)
  | .aexit uow raised => (.ok (), db.onUow uow (InMemoryUnitOfWork.aexit · raised))
  | .read r => (.ok (db.users.heap.read r), db)
  | .setPasswordHash r hash => (.ok (), { db with users := db.users.setPasswordHash r hash })

def RepoCmd.rollsBack : RepoCmd → Bool
  | .aexit _ raised => raised
  | _ => false

lemma UserRepository.Ok.exec {db : UserDb} (h : db.users.Ok) (o : UserAnswer) {c : RepoCmd}
    (hc : c.rollsBack = false) : (c.exec o db).2.users.Ok := by
  cases c with
  | create a => exact h.create o.now a
  | update userId c => exact h.update userId c
  | updateNid userId nidNumber => exact h.updateNid userId (some nidNumber)
  | updatePermissions userId permissions => exact h.updatePermissions userId permissions
  | updateWithOptimisticLock userId expectedVersion data =>
    exact h.updateWithOptimisticLock userId expectedVersion data
  | delete userId => exact h.delete userId
  | setPasswordHash => exact UserDicts.Fits.grow h (.write rfl)
  | aexit =>
    cases hc
    exact h
  | _ => exact h

/-- The trie and the filter. The key of a user without a user name is `None`. -/
inductive IndexCmd where
  | trieInsert (key : Option String) (payload : UserPayload) (score : Int)
  | trieDelete (key : Option String)
  | bloomAdd (id : Int)
  | bloomContains (id : Int)

@[reducible] def IndexCmd.Res : IndexCmd → Type
  | .bloomContains _ => Bool
  | _ => Unit

/-- `None` has no `strip`. -/
def IndexCmd.exec [Sha256] (x : UserIndex) : (c : IndexCmd) → Except UserError c.Res × UserIndex
  | .trieInsert none _ _ => (.error .attributeError, x)
  | .trieInsert (some key) payload score =>
    (.ok (), { x with trie := x.trie.insert key (some payload) score })
  | .trieDelete none => (.error .attributeError, x)
  | .trieDelete (some key) => (.ok (), { x with trie := (x.trie.delete key none).2 })
  | .bloomAdd id => (.ok (), { x with bloom := x.bloom.add (.number id) })
  | .bloomContains id => (.ok (x.bloom.contains (.number id)), x)

inductive UserRedisCmd where
  | get (id : Int)
  | set (id : Int) (doc : UserEntity)
  | delete (id : Int)
  | getEnvelope (id : Int)
  | setEnvelope (id : Int) (envelope : XFetchEnvelope Time UserEntity)
  | setNxLock (id : Int)
  | deleteLock (id : Int)

@[reducible] def UserRedisCmd.Res : UserRedisCmd → Type
  | .get _ => Option UserEntity
  | .getEnvelope _ => Option (XFetchEnvelope Time UserEntity)
  | .setNxLock _ => Bool
  | _ => Unit

def UserRedisCmd.apply (s : UserRedis) : (c : UserRedisCmd) → c.Res × UserRedis
  | .get id => (Assoc.find s.cache id, s)
  | .set id doc => ((), { s with cache := Assoc.set s.cache id doc })
  | .delete id => ((), { s with cache := Assoc.erase s.cache id })
  | .getEnvelope id => (Assoc.find s.envelopes id, s)
  | .setEnvelope id envelope =>
    ((), { s with envelopes := Assoc.set s.envelopes id envelope })
  | .setNxLock id =>
    if id ∈ s.locks then (false, s) else (true, { s with locks := id :: s.locks })
  | .deleteLock id => ((), { s with locks := s.locks.filter (· ≠ id) })

def UserRedisCmd.exec (o : UserAnswer) (s : UserRedis) (c : UserRedisCmd) :
    Except UserError c.Res × UserRedis :=
  withFault o.toAnswer .redisError s ((c.apply s).map .ok id)

inductive CacheMetric where
  | hit
  | miss
  | xfetchHit
  | xfetchEarly
  | xfetchMiss

inductive OutsideCmd where
  | hashPassword (password : String)
  | verifyPassword (password hash : String)
  | publish (userId : Int) (email username : Option String)
  | record (metric : CacheMetric)
  | time
  | random

@[reducible] def OutsideCmd.Res : OutsideCmd → Type
  | .hashPassword _ => String
  | .verifyPassword .. => Bool
  | .publish .. | .record _ => Unit
  | .time | .random => Time

def OutsideCmd.answer (o : UserAnswer) : (c : OutsideCmd) → c.Res
  | .hashPassword _ => o.hash
  | .verifyPassword .. => o.valid
  | .publish .. => ()
  | .record _ => ()
  | .time => o.now
  | .random => o.random

inductive UserCmd where
  | repo (c : RepoCmd)
  | index (c : IndexCmd)
  | redis (c : UserRedisCmd)
  | outside (c : OutsideCmd)

@[reducible] def UserCmd.Res : UserCmd → Type
  | .repo c => c.Res
  | .index c => c.Res
  | .redis c => c.Res
  | .outside c => c.Res

variable [Sha256]

def UserCmd.exec (o : UserAnswer) (w : UserWorld) :
    (c : UserCmd) → Except UserError c.Res × UserWorld
  | .repo c => ((c.exec o w.db).1, { w with db := (c.exec o w.db).2 })
  | .index c => ((c.exec w.index).1, { w with index := (c.exec w.index).2 })
  | .redis c => ((c.exec o w.redis).1, { w with redis := (c.exec o w.redis).2 })
  | .outside c => (.ok (c.answer o), w)

@[reducible] def userMachine : Machine where
  Cmd := UserCmd
  Res := UserCmd.Res
  Err := UserError
  Loc := Unit
  Sh := UserWorld
  Out := UserAnswer
  exec _ c o l s := ((c.exec o s).1, l, (c.exec o s).2)

end Requests

/-! ## Expiry -/

inductive UserExpiry where
  | cache (id : Int)
  | envelope (id : Int)
  | lock (id : Int)

def UserExpiry.exec (w : UserWorld) : UserExpiry → UserWorld
  | .cache id => { w with redis.cache := Assoc.erase w.redis.cache id }
  | .envelope id => { w with redis.envelopes := Assoc.erase w.redis.envelopes id }
  | .lock id => { w with redis.locks := w.redis.locks.filter (· ≠ id) }

end CleanArch
