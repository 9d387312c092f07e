import CleanArch.Users.World

/-!
# The user service

`UserService` (`app/services/user_service.py`) and the parts of `CacheService` that it calls
(`app/services/cache_service.py`), as programs over `userMachine`.

A method that returns a user returns the stored object, or a copy that it has read from Redis
(`UserView`). What a method compares with the user "before" an update is therefore the updated user
itself when the view is the stored object.
-/

namespace CleanArch

open Async Objects Prog

/-- How the service is set up: which of its collaborators it has, and `needs_rehash`. -/
structure UserDeps where
  cache : Bool := true
  bloom : Bool := true
  uow : Option Nat := some 0
  needsRehash : String → Bool := fun _ => false
  /-- `math.log`. -/
  log : Time → Time := fun _ => 0

inductive UserView where
  | stored (r : Ref)
  | copy (user : UserEntity)
  deriving DecidableEq

/-- `_deserialize_user` of what `_serialize_user` has written: `str(None)` is a text. -/
def deserializeUser (doc : UserEntity) : UserEntity :=
  { doc with email := some (doc.email.getD "None"), username := some (doc.username.getD "None") }

section Service

variable [PyCase]

abbrev UserProg (α : Type) := Async.Prog UserCmd UserCmd.Res UserError α

/-! ## Requests -/

def repo (c : RepoCmd) : UserProg c.Res := call (UserCmd.repo c)

def index (c : IndexCmd) : UserProg c.Res := call (UserCmd.index c)

def userRedis (c : UserRedisCmd) : UserProg c.Res := call (UserCmd.redis c)

def outside (c : OutsideCmd) : UserProg c.Res := call (UserCmd.outside c)

def UserView.read : UserView → UserProg UserEntity
  | .stored r => repo (.read r)
  | .copy user => pure user

/-- `try: p except Exception: logger.warning(…)`. -/
def tolerate (p : UserProg Unit) : UserProg Unit := p.handle fun _ => .ret ()

/-- `if user is None: raise UserNotFoundException(user_id=user_id)`. -/
def orNotFound (userId : Int) : Option Ref → UserProg Ref
  | none => throw (.userNotFound userId)
  | some r => pure r

/-- `if text:`, for a text that can be `None`. -/
def ifText (text : Option String) (p : UserProg Unit) : UserProg Unit :=
  if text = none ∨ text = some "" then pure () else p

/-! ## Search index -/

/-- The payload of `_index_user_in_trie`. -/
def UserEntity.payload (user : UserEntity) : UserPayload := ⟨user.id, user.username, user.fullName⟩

def indexUserInTrie (user : UserEntity) : UserProg Unit := do
  index (.trieInsert user.username user.payload 2)
  ifText user.fullName (index (.trieInsert user.fullName user.payload 1))

/-- "Synchronize PrefixTrie indexing", after an update of `user` to `updated`. -/
def syncTrie (user : UserView) (updated : Ref) : UserProg Unit := do
  let old ← user.read
  let new ← repo (.read updated)
  (if old.username ≠ new.username then index (.trieDelete old.username) else pure ())
  ifText old.fullName
    (if old.fullName ≠ new.fullName then index (.trieDelete old.fullName) else pure ())
  indexUserInTrie new

/-! ## Cache -/

/-- The cache lookup of `get_user_by_id`. -/
def cachedUser (deps : UserDeps) (userId : Int) : UserProg (Option UserEntity) :=
  if deps.cache then
    Prog.handle
      (do match ← userRedis (.get userId) with
          | some doc =>
            outside (.record .hit)
            return some (deserializeUser doc)
          | none =>
            outside (.record .miss)
            return none)
      fun _ => pure none
  else pure none

/-- `set_str(f"cache:user:{user_id}", serialize(user))`. -/
def storeInCache (deps : UserDeps) (userId : Int) (user : Ref) : UserProg Unit :=
  if deps.cache then
    tolerate (do
      let doc ← repo (.read user)
      userRedis (.set userId doc))
  else pure ()

def evict (deps : UserDeps) (userId : Int) : UserProg Unit :=
  if deps.cache then tolerate (userRedis (.delete userId)) else pure ()

def bloomGuard (deps : UserDeps) (userId : Int) : UserProg Unit :=
  if deps.bloom then do
    let known ← index (.bloomContains userId)
    raiseIf (known = false) (.userNotFound userId)
  else pure ()

def getUserById (deps : UserDeps) (userId : Int) : UserProg UserView := do
  bloomGuard deps userId
  match ← cachedUser deps userId with
  | some user => return .copy user
  | none =>
    let user ← orNotFound userId (← repo (.getById userId))
    storeInCache deps userId user
    return .stored user

/-! ### XFetch -/

/-- The part of `xfetch_get_or_compute` that serves a stored envelope, if it is to be served. -/
def serveWarm (deps : UserDeps) (key : Int) (currentTime beta : Time) (randVal : Option Time) :
    Option (XFetchEnvelope Time UserEntity) → UserProg (Option UserEntity)
  | none => do
    outside (.record .xfetchMiss)
    return none
  | some envelope => do
    let fresh ← outside .random
    if shouldRecompute deps.log envelope.delta envelope.expiry currentTime beta randVal fresh then
      let acquired ← Prog.handle (userRedis (.setNxLock key)) fun _ => pure true
      if acquired then
        outside (.record .xfetchEarly)
        return none
      else
        outside (.record .xfetchHit)
        return some envelope.val
    else
      outside (.record .xfetchHit)
      return some envelope.val

def computeAndStore (key : Int) (compute : UserProg UserEntity) (ttl currentTime : Time) :
    UserProg UserEntity := do
  let start ← outside .time
  let fresh ← ensure compute (tolerate (userRedis (.deleteLock key)))
  let stop ← outside .time
  let delta := max (stop - start) (1 / 1000)
  tolerate (userRedis (.setEnvelope key ⟨fresh, delta, currentTime + ttl⟩))
  return fresh

def orCompute (key : Int) (compute : UserProg UserEntity) (ttl currentTime : Time) :
    Option UserEntity → UserProg UserEntity
  | some val => pure val
  | none => computeAndStore key compute ttl currentTime

/-- `time.time() if now is None else now`. -/
def timeOr : Option Time → UserProg Time
  | none => outside .time
  | some t => pure t

def xfetchGetOrCompute (deps : UserDeps) (key : Int) (compute : UserProg UserEntity)
    (ttl beta : Time) (now randVal : Option Time) : UserProg UserEntity := do
  let currentTime ← timeOr now
  let raw ← Prog.handle (userRedis (.getEnvelope key)) fun _ => pure none
  let served ← serveWarm deps key currentTime beta randVal raw
  orCompute key compute ttl currentTime served

/-- The `compute` of `get_user_by_id_xfetch`. -/
def computeUser (userId : Int) : UserProg UserEntity := do
  let user ← orNotFound userId (← repo (.getById userId))
  repo (.read user)

def getUserByIdXfetch (deps : UserDeps) (userId : Int) (beta : Time) (now randVal : Option Time) :
    UserProg UserView := do
  bloomGuard deps userId
  if deps.cache then
    let doc ← xfetchGetOrCompute deps userId (computeUser userId) 300 beta now randVal
    return .copy (deserializeUser doc)
  else
    let user ← orNotFound userId (← repo (.getById userId))
    return .stored user

/-! ## New users -/

/-- `if await find is not None: raise UserAlreadyExistsException(message)`. -/
def refuseTaken (find : UserProg (Option Ref)) (message : String) : UserProg Unit := do
  let found ← find
  raiseIf (found.isSome = true) (.userAlreadyExists message)

def refuseDuplicate (payload : UserCreate) : UserProg Unit := do
  let email := payload.email
  let username := payload.username.text
  refuseTaken (repo (.getByEmail email)) s!"Email '{email}' is already registered."
  refuseTaken (repo (.getByUsername username)) s!"Username '{username}' is already taken."

/-- The arguments of `create` but for the permissions. -/
def UserCreate.args (payload : UserCreate) (passwordHash : String) : UserCreateArgs where
  email := payload.email
  username := payload.username.text
  passwordHash := passwordHash
  age := payload.age
  role := payload.role.value
  fullName := payload.fullName.map FullName.text
  phoneNumber := payload.phoneNumber
  bio := payload.bio
  companyName := payload.companyName

/-- `if self._bloom is not None: self._bloom.add(user_id)`. -/
def addToBloom (deps : UserDeps) (userId : Int) : UserProg Unit :=
  if deps.bloom then index (.bloomAdd userId) else pure ()

def registerUser (deps : UserDeps) (payload : UserCreate) : UserProg UserView := do
  refuseDuplicate payload
  let passwordHash ← outside (.hashPassword payload.password)
  let perms := if payload.role.value = "admin" then 63 else 3
  let created ← repo (.create { payload.args passwordHash with permissions := some perms })
  let user ← repo (.read created)
  indexUserInTrie user
  addToBloom deps user.id
  outside (.publish user.id user.email user.username)
  return .stored created

/-- `async with uow: body`. -/
def withUow {α : Type} (uow : Nat) (body : UserProg α) : UserProg α := do
  repo (.aenter uow)
  let r ← body.attempt
  repo (.aexit uow (match r with
    | .ok _ => false
    | .error _ => true))
  Prog.ofExcept r

/-- The block of `create_user_with_initial_post`. -/
def createBoth (payload : UserCreate) (postTitle postContent : String) (uow : Nat) :
    UserProg (UserView × PostEntity) := do
  refuseDuplicate payload
  let passwordHash ← outside (.hashPassword payload.password)
  let created ← repo (.create (payload.args passwordHash))
  let user ← repo (.read created)
  let post ← repo (.createPost postTitle postContent user.id)
  repo (.commit uow)
  let user ← repo (.read created)
  indexUserInTrie user
  return (.stored created, post)

def createUserWithInitialPost (deps : UserDeps) (payload : UserCreate)
    (postTitle postContent : String) (uow : Option Nat) : UserProg (UserView × PostEntity) :=
  match uow.or deps.uow with
  | none =>
    throw (.runtimeError "UnitOfWork is required for atomic multi-entity operations.")
  | some uow => withUow uow (createBoth payload postTitle postContent uow)

/-! ## Updates -/

/-- The uniqueness check of an update for one field: `wanted` is the new value, `current` the
one of the user. -/
def refuseTakenByOther (userId : Int) (wanted : Option String) (user : UserView)
    (current : UserEntity → Option String) (find : String → UserProg (Option Ref))
    (message : String → String) : UserProg Unit :=
  match wanted with
  | none => pure ()
  | some wanted => do
    let seen ← user.read
    if some wanted ≠ current seen then
      match ← find wanted with
      | none => pure ()
      | some r =>
        let existing ← repo (.read r)
        raiseIf (existing.id ≠ userId) (.userAlreadyExists (message wanted))
    else pure ()

def refuseConflicts (userId : Int) (payload : UserUpdate) (user : UserView) : UserProg Unit := do
  refuseTakenByOther userId payload.changes.email user UserEntity.email
    (fun email => repo (.getByEmail email)) fun email => s!"Email '{email}' is already registered."
  refuseTakenByOther userId payload.changes.username user UserEntity.username
    (fun username => repo (.getByUsername username))
    fun username => s!"Username '{username}' is already taken."

def updateUser (deps : UserDeps) (userId : Int) (payload : UserUpdate) : UserProg UserView := do
  let user ← getUserById deps userId
  refuseConflicts userId payload user
  let updated ← orNotFound userId (← repo (.update userId payload.changes))
  syncTrie user updated
  evict deps userId
  return .stored updated

def updateUserWriteThrough (deps : UserDeps) (userId : Int) (payload : UserUpdate) :
    UserProg UserView := do
  let user ← orNotFound userId (← repo (.getById userId))
  refuseConflicts userId payload (.stored user)
  let updated ← orNotFound userId (← repo (.update userId payload.changes))
  syncTrie (.stored user) updated
  storeInCache deps userId updated
  return .stored updated

def updateUserOptimistic (deps : UserDeps) (userId : Int) (expectedVersion : Nat)
    (payload : UserUpdate) : UserProg UserView := do
  let user ← getUserById deps userId
  refuseConflicts userId payload user
  let updated ← repo (.updateWithOptimisticLock userId expectedVersion payload)
  syncTrie user updated
  evict deps userId
  return .stored updated

def updateProfile (deps : UserDeps) (userId : Int) (payload : UserProfileUpdate) :
    UserProg UserView :=
  updateUser deps userId payload.toUpdate

def updateNid (deps : UserDeps) (userId : Int) (nidNumber : String) : UserProg UserView := do
  let _ ← orNotFound userId (← repo (.getById userId))
  let updated ← orNotFound userId (← repo (.updateNid userId nidNumber))
  storeInCache deps userId updated
  return .stored updated

def updateUserPermissions (deps : UserDeps) (userId : Int) (permissions : Nat) :
    UserProg UserView := do
  let _ ← getUserById deps userId
  let updated ← orNotFound userId (← repo (.updatePermissions userId permissions))
  evict deps userId
  return .stored updated

def deleteUser (deps : UserDeps) (userId : Int) : UserProg Unit := do
  let user ← getUserById deps userId
  let deleted ← repo (.delete userId)
  raiseIf (deleted = false) (.userNotFound userId)
  let user ← user.read
  index (.trieDelete user.username)
  ifText user.fullName (index (.trieDelete user.fullName))
  evict deps userId

/-! ## Authentication -/

def findLogin (username : String) : UserProg (Option Ref) := do
  match ← repo (.getByUsername username) with
  | some r => return some r
  | none => repo (.getByEmail username)

def rehash (user : Ref) (password : String) : UserProg UserView := do
  let newHash ← outside (.hashPassword password)
  let id := (← repo (.read user)).id
  match ← repo (.update id { passwordHash := some newHash }) with
  | some updated => return .stored updated
  | none =>
    repo (.setPasswordHash user newHash)
    return .stored user

def authenticateUser (deps : UserDeps) (username password : String) :
    UserProg (Option UserView) := do
  match ← findLogin username with
  | none => return none
  | some user =>
    let seen ← repo (.read user)
    let isValid ← outside (.verifyPassword password seen.passwordHash)
    if isValid then
      let seen ← repo (.read user)
      if deps.needsRehash seen.passwordHash then
        let user ← rehash user password
        return some user
      else return some (.stored user)
    else return none

def getUserByUsername (username : String) : UserProg UserView := do
  match ← repo (.getByUsername username) with
  | none => throw (.userNameNotFound username)
  | some user => return .stored user

/-! ## Autocomplete -/

/-- A suggestion of `autocomplete_users`. -/
structure UserSuggestion where
  id : Int
  username : Option String
  fullName : Option String
  matchedTerm : String
  deriving DecidableEq

/-- One round of `for p in payloads`, while there is room. -/
def suggest (limit : Int) (matchedTerm : List Char) (results : List UserSuggestion)
    (p : UserPayload) : List UserSuggestion :=
  if (limit ≤ results.length ∧ results ≠ []) ∨ results.any (·.id == p.id) then results
  else results ++ [⟨p.id, p.username, p.fullName, String.ofList matchedTerm⟩]

/-- `autocomplete_users`, where the walk over the trie takes at most `fuel` rounds. The ids that
were seen are those of the results. -/
def autocompleteUsers (fuel : Nat) (trie : PrefixTrie UserPayload) (pre : String) (limit : Int) :
    Option (List UserSuggestion) := do
  let completions ← trie.autocomplete fuel pre limit
  return completions.foldl (fun results c => c.2.foldl (suggest limit c.1) results) []

/-! ## Calls -/

inductive UserCall where
  | registerUser (payload : UserCreate)
  | createUserWithInitialPost (payload : UserCreate) (postTitle postContent : String)
      (uow : Option Nat)
  | updateUser (userId : Int) (payload : UserUpdate)
  | updateUserWriteThrough (userId : Int) (payload : UserUpdate)
  | updateUserOptimistic (userId : Int) (expectedVersion : Nat) (payload : UserUpdate)
  | updateProfile (userId : Int) (payload : UserProfileUpdate)
  | updateNid (userId : Int) (nidNumber : String)
  | updateUserPermissions (userId : Int) (permissions : Nat)
  | deleteUser (userId : Int)
  | authenticateUser (username password : String)
  | getUserById (userId : Int)
  | getUserByIdXfetch (userId : Int) (beta : Time) (now randVal : Option Time)

def UserCall.prog (deps : UserDeps) (c : UserCall) : UserProg Unit :=
  match c with
  | .registerUser payload => (CleanArch.registerUser deps payload).bind fun _ => .ret ()
  | .createUserWithInitialPost payload title content uow =>
    (CleanArch.createUserWithInitialPost deps payload title content uow).bind fun _ => .ret ()
  | .updateUser userId payload => (CleanArch.updateUser deps userId payload).bind fun _ => .ret ()
  | .updateUserWriteThrough userId payload =>
    (CleanArch.updateUserWriteThrough deps userId payload).bind fun _ => .ret ()
  | .updateUserOptimistic userId version payload =>
    (CleanArch.updateUserOptimistic deps userId version payload).bind fun _ => .ret ()
  | .updateProfile userId payload =>
    (CleanArch.updateProfile deps userId payload).bind fun _ => .ret ()
  | .updateNid userId nid => (CleanArch.updateNid deps userId nid).bind fun _ => .ret ()
  | .updateUserPermissions userId permissions =>
    (CleanArch.updateUserPermissions deps userId permissions).bind fun _ => .ret ()
  | .deleteUser userId => CleanArch.deleteUser deps userId
  | .authenticateUser username password =>
    (CleanArch.authenticateUser deps username password).bind fun _ => .ret ()
  | .getUserById userId => (CleanArch.getUserById deps userId).bind fun _ => .ret ()
  | .getUserByIdXfetch userId beta now randVal =>
    (CleanArch.getUserByIdXfetch deps userId beta now randVal).bind fun _ => .ret ()

variable [Sha256]

/-- A program from its start to its end, with the answers `o`. -/
def UserWorld.run {α : Type} (w : UserWorld) (p : UserProg α) (o : Nat → UserAnswer) :
    Except UserError α × UserWorld :=
  ((userMachine.run 0 p o () w).1, (userMachine.run 0 p o () w).2.2)

inductive UserStep where
  | call (c : UserCall) (o : Nat → UserAnswer)
  | expire (e : UserExpiry)

def UserStep.exec (deps : UserDeps) (w : UserWorld) : UserStep → UserWorld
  | .call c o => (w.run (c.prog deps) o).2
  | .expire e => e.exec w

end Service

end CleanArch
