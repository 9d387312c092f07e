import CleanArch.Auth.Service
import CleanArch.Users.Service
import CleanArch.Users.Version
import Mathlib.Data.Nat.Bits

/-!
# The user endpoints

Requests to the endpoints of `app/routers/user_router.py` that write: the guard of each endpoint,
then its call of the service. FastAPI has checked the path, the query and the body.

`UserBackend.exec` is one step of the server, over the in-memory repository or over SQL: a request
from its start to its end, or a key of Redis that expires.
-/

namespace CleanArch

open Async Objects

/-!
## The user service over SQL

The same programs as over the in-memory repositories, answered by `SqlAlchemyUserRepository` and
`SqlAlchemyUnitOfWork` (`app/core/unit_of_work.py`). A request has a session of its own
(`get_db_session`), which commits at its end and rolls back after an exception: `working` is what
the open session sees, `committed` is what the next one starts from. Entities are copies of rows.
-/

/-! ## State -/

structure SqlTables where
  users : UserTable := {}
  posts : PostRepository := {}

structure SqlDb where
  committed : SqlTables := {}
  working : SqlTables := {}
  heap : Heap UserEntity := {}

structure SqlWorld where
  db : SqlDb := {}
  index : UserIndex
  redis : UserRedis := {}

def SqlWorld.empty : SqlWorld where
  index := { bloom := .small }

/-! ## Requests -/

namespace SqlDb

/-- `session.commit()`. -/
def commit (db : SqlDb) : SqlDb := { db with committed := db.working }

/-- `session.rollback()`, `session.close()`, or a new session. -/
def restart (db : SqlDb) : SqlDb := { db with working := db.committed }

/-- `_to_entity` of a row. -/
def give (db : SqlDb) (user : UserEntity) : Ref × SqlDb :=
  (db.heap.size, { db with heap := db.heap.alloc user })

/-- The result of a `select`. -/
def select (db : SqlDb) : Option UserEntity → Option Ref × SqlDb
  | none => (none, db)
  | some user => ((db.give user).1, (db.give user).2)

def onUsers (db : SqlDb) (x : Except UserError UserEntity × UserTable) :
    Except UserError Ref × SqlDb :=
  let db := { db with working.users := x.2 }
  match x.1 with
  | .ok user => (db.give user).map .ok id
  | .error e => (.error e, db)

def onRow (db : SqlDb) (x : Except UserError (Option UserEntity) × UserTable) :
    Except UserError (Option Ref) × SqlDb :=
  let db := { db with working.users := x.2 }
  match x.1 with
  | .ok user => (db.select user).map .ok id
  | .error e => (.error e, db)

/-- `delete` of a user, whose posts go with it. -/
def delete (db : SqlDb) (userId : Int) : Bool × SqlDb :=
  let (deleted, users) := db.working.users.delete userId
  let posts := { db.working.posts with
    store := db.working.posts.store.filter fun p => p.2.userId ≠ userId }
  (deleted, if deleted then { db with working := ⟨users, posts⟩ } else db)

end SqlDb

section Requests

variable [PyCase]

def RepoCmd.execSql (o : UserAnswer) (db : SqlDb) : (c : RepoCmd) → Except UserError c.Res × SqlDb
  | .getById userId => (db.select (db.working.users.entity? userId)).map .ok id
  | .getByEmail email => (db.select (db.working.users.getByEmail email)).map .ok id
  | .getByUsername username => (db.select (db.working.users.getByUsername username)).map .ok id
  | .create a => db.onUsers (db.working.users.create o.now a)
  | .update userId c => db.onRow (db.working.users.update userId c none)
  | .updateNid userId nidNumber => db.onRow (db.working.users.updateNid userId (some nidNumber))
  | .updatePermissions userId permissions =>
    db.onRow (db.working.users.updatePermissions userId permissions)
  | .updateWithOptimisticLock userId expectedVersion data =>
    db.onUsers (db.working.users.updateWithOptimisticLock userId expectedVersion data)
  | .delete userId => (db.delete userId).map .ok id
  | .createPost title content userId =>
    let (post, posts) := db.working.posts.create o.now title content userId
    (.ok post, { db with working.posts := posts })
  | .aenter _ => (.ok (), db.restart)
  | .commit _ => (.ok (), db.commit)
  -- `close` drops what is not committed, after an exception or not.
  | .aexit .. => (.ok (), db.restart)
  | .read r => (.ok (db.heap.read r), db)
  | .setPasswordHash r hash =>
    (.ok (), { db with heap := db.heap.write r { db.heap.read r with passwordHash := hash } })

variable [Sha256]

def UserCmd.execSql (o : UserAnswer) (w : SqlWorld) :
    (c : UserCmd) → Except UserError c.Res × SqlWorld
  | .repo c => ((c.execSql o w.db).1, { w with db := (c.execSql o w.db).2 })
  | .index c => ((c.exec w.index).1, { w with index := (c.exec w.index).2 })
  | .redis c => ((c.exec o w.redis).1, { w with redis := (c.exec o w.redis).2 })
  | .outside c => (.ok (c.answer o), w)

@[reducible] def sqlUserMachine : Machine where
  Cmd := UserCmd
  Res := UserCmd.Res
  Err := UserError
  Loc := Unit
  Sh := SqlWorld
  Out := UserAnswer
  exec _ c o l s := ((c.execSql o s).1, l, (c.execSql o s).2)

/-- A program from its start to its end, with the answers `o`. -/
def SqlWorld.run {α : Type} (w : SqlWorld) (p : UserProg α) (o : Nat → UserAnswer) :
    Except UserError α × SqlWorld :=
  ((sqlUserMachine.run 0 p o () w).1, (sqlUserMachine.run 0 p o () w).2.2)

/-- A program in a session of its own. After a result, the response can still fail, or the commit
itself (`commits`). -/
def SqlWorld.inSession {α : Type} (w : SqlWorld) (p : UserProg α) (o : Nat → UserAnswer)
    (commits : Bool) : SqlWorld :=
  let (r, w) := { w with db := w.db.restart }.run p o
  match r, commits with
  | .ok _, true => { w with db := w.db.commit }
  | _, _ => { w with db := w.db.restart }

end Requests

/-!
## The guards of the endpoints

Permission masks (`app/core/permissions.py`), and who makes a request (`app/core/dependencies.py`):
`get_current_user` goes by the `X-API-Key` header and returns a stored user;
`get_current_authenticated_user` goes by the claims of a bearer token (`Jwt`) or by the same header,
and looks at no stored user.
-/

/-! ## Permissions -/

inductive Permission where
  | none
  | read
  | write
  | delete
  | admin
  | exportData
  | billing
  deriving DecidableEq

def Permission.value : Permission → Nat
  | .none => 0
  | .read => 1
  | .write => 2
  | .delete => 4
  | .admin => 8
  | .exportData => 16
  | .billing => 32

def Permission.name : Permission → String
  | .none => "NONE"
  | .read => "READ"
  | .write => "WRITE"
  | .delete => "DELETE"
  | .admin => "ADMIN"
  | .exportData => "EXPORT"
  | .billing => "BILLING"

def roleUser : Nat := Permission.read.value ||| Permission.write.value

def roleAdmin : Nat :=
  Permission.read.value ||| Permission.write.value ||| Permission.delete.value |||
    Permission.admin.value ||| Permission.exportData.value ||| Permission.billing.value

def hasPermission (userPerms requiredPerm : Nat) : Bool := userPerms &&& requiredPerm = requiredPerm

def grantPermission (userPerms flag : Nat) : Nat := userPerms ||| flag

/-- `user_perms & ~flag`. -/
def revokePermission (userPerms flag : Nat) : Nat := Nat.ldiff userPerms flag

/-! ## Headers -/

/-- The `Authorization` header: `Bearer <token>`, or another scheme. -/
inductive Authorization where
  | bearer (token : Jwt)
  | other

structure RequestHeaders where
  authorization : Option Authorization := none
  xApiKey : Option String := none

/-- `settings`. -/
structure ApiKeySettings where
  adminApiKey : String := "admin-secret-key-32chars-min-prod"
  userApiKey : String := "user-secret-key-32chars-min-prod"
  adminUsername : String := "admin_user"
  defaultUsername : String := "standard_user"

/-- `secrets.compare_digest`. -/
def compareDigest (a b : String) : Except UserError Bool :=
  if a.toList.all (·.toNat < 128) ∧ b.toList.all (·.toNat < 128) then .ok (a = b)
  else .error .typeError

/-- What follows `userkey_`. -/
def dynamicUsername (key : String) : Option String :=
  if "userkey_".toList.isPrefixOf key.toList then
    some (String.ofList (key.toList.drop "userkey_".toList.length))
  else none

/-! ## Stored users -/

def targetUsername (settings : ApiKeySettings) (key : String) :
    Except UserError (Option String) := do
  if ← compareDigest key settings.adminApiKey then return some settings.adminUsername
  else if ← compareDigest key settings.userApiKey then return some settings.defaultUsername
  else
    match dynamicUsername key with
    | none => return none
    | some username =>
      if ← compareDigest key ("userkey_" ++ username) then return some username else return none

section Stored

variable [PyCase]

def getCurrentUser (settings : ApiKeySettings) (headers : RequestHeaders) : UserProg UserView := do
  match headers.xApiKey with
  | none => throw (.http 401 "Missing API Key header")
  | some key =>
    match ← Prog.ofExcept (targetUsername settings key) with
    | none => throw (.http 401 "Invalid authentication credentials")
    | some username =>
      let user ← Prog.handle (getUserByUsername username) fun
        | .userNameNotFound _ | .userNotFound _ =>
          throw (.http 401 "Invalid authentication credentials")
        | e => throw e
      let seen ← user.read
      Prog.raiseIf (seen.isActive = false) (.http 403 "Inactive user account")
      return user

def requireUserOwnership (settings : ApiKeySettings) (headers : RequestHeaders) (userId : Int) :
    UserProg UserView := do
  let user ← getCurrentUser settings headers
  let seen ← user.read
  Prog.raiseIf (¬ (seen.id = userId ∨ seen.role = UserRole.admin.value))
    (.http 403 "Access forbidden: you cannot modify another user's profile")
  return user

end Stored

/-! ## Claims -/

/-- `AuthenticatedUserResponse`. -/
structure AuthenticatedUser where
  userId : Int
  role : String
  permissions : Nat := 3
  deriving DecidableEq

/-- `decode_jwt_token(token, expected_type="access")`. -/
def decodeAccessToken (now : Time) (token : Jwt) : Except UserError Jwt :=
  if token.valid = false ∨ now < token.iat then .error (.http 401 "Invalid authentication token")
  else if token.exp ≤ now then .error (.http 401 "Token has expired")
  else
    match token.tokenType with
    | .refresh => .error (.http 401 "Invalid token type: expected 'access', got 'refresh'")
    | .access => .ok token

def claimsOf (payload : Jwt) : Except UserError AuthenticatedUser :=
  match payload.sub with
  | none => .error .valueError
  | some userId =>
    let role := payload.role.getD "user"
    let defaultPerm := if role = "admin" then roleAdmin else roleUser
    .ok ⟨userId, role, payload.permissions.getD defaultPerm⟩

/-- `get_current_authenticated_user`, at the time `now`. -/
def getCurrentAuthenticatedUser (settings : ApiKeySettings) (now : Time)
    (headers : RequestHeaders) : Except UserError AuthenticatedUser := do
  match headers.authorization, headers.xApiKey with
  | some .other, _ =>
    throw (.http 401 "Invalid Authorization header scheme. Expected 'Bearer <token>'")
  | some (.bearer token), _ => claimsOf (← decodeAccessToken now token)
  | none, some key =>
    if ← compareDigest key settings.adminApiKey then return ⟨1, "admin", roleAdmin⟩
    else if ← compareDigest key settings.userApiKey then return ⟨2, "user", roleUser⟩
    else if "userkey_".toList.isPrefixOf key.toList then return ⟨3, "user", roleUser⟩
    else throw (.http 401 "Missing Authorization header")
  | none, none => throw (.http 401 "Missing Authorization header")

/-- `PermissionGuard(required)`, at the time `now`. -/
def permissionGuard (required : Permission) (settings : ApiKeySettings) (now : Time)
    (headers : RequestHeaders) : Except UserError AuthenticatedUser := do
  let user ← getCurrentAuthenticatedUser settings now headers
  let name := required.name
  if hasPermission user.permissions required.value then return user
  else throw (.http 403 s!"Forbidden: Missing required permission: {name}")

def requirePermission [PyCase] (required : Permission) (settings : ApiKeySettings)
    (headers : RequestHeaders) : UserProg AuthenticatedUser := do
  let now ← outside .time
  Prog.ofExcept (permissionGuard required settings now headers)

lemma permissionGuard_error
    (h : ∀ user, getCurrentAuthenticatedUser settings now headers = .ok user →
      hasPermission user.permissions required.value = false) :
    ∃ e, permissionGuard required settings now headers = .error e := by
  unfold permissionGuard
  cases hu : getCurrentAuthenticatedUser settings now headers with
  | error e => exact ⟨e, rfl⟩
  | ok user =>
    have hno := h user hu
    exact ⟨_, by simp [Bind.bind, Except.bind, hno]; rfl⟩

structure UpdateUserPermissionsRequest where
  permissions : Option Nat := none
  grant : Option Nat := none
  revoke : Option Nat := none

def UpdateUserPermissionsRequest.newPerms (payload : UpdateUserPermissionsRequest)
    (currentPerms : Nat) : Nat :=
  match payload.permissions with
  | some permissions => permissions
  | none =>
    let granted := (payload.grant.map (grantPermission currentPerms)).getD currentPerms
    (payload.revoke.map (revokePermission granted)).getD granted

section Router

variable [PyCase]

inductive UserEndpoint where
  | createUser (payload : UserCreate)
  | createUserWithInitialPost (payload : UserCreate) (postTitle postContent : String)
  | updateUser (userId : Int) (payload : UserUpdate)
  | updateUserProfile (userId : Int) (payload : UserProfileUpdate)
  | deleteUser (userId : Int)
  | updateUserPermissions (userId : Int) (payload : UpdateUserPermissionsRequest)
  | updateUserWriteThrough (userId : Int) (payload : UserUpdate)
  | updateUserOptimistic (userId : Int) (expectedVersion : Nat) (payload : UserUpdate)
  | updateUserNid (userId : Int) (nidNumber : String)

structure UserRequest where
  headers : RequestHeaders := {}
  endpoint : UserEndpoint

/-- The body of `update_user_permissions`, after its guard. -/
def setPermissions (deps : UserDeps) (userId : Int) (payload : UpdateUserPermissionsRequest) :
    UserProg Unit := do
  let targetUser ← getUserById deps userId
  let currentPerms := (← targetUser.read).permissions
  let _ ← CleanArch.updateUserPermissions deps userId (payload.newPerms currentPerms)

def UserRequest.prog (settings : ApiKeySettings) (deps : UserDeps) (r : UserRequest) :
    UserProg Unit :=
  match r.endpoint with
  | .createUser payload => (UserCall.registerUser payload).prog deps
  | .createUserWithInitialPost payload title content =>
    (UserCall.createUserWithInitialPost payload title content none).prog deps
  | .updateUser userId payload => do
    let _ ← requireUserOwnership settings r.headers userId
    (UserCall.updateUser userId payload).prog deps
  | .updateUserProfile userId payload => do
    let _ ← requireUserOwnership settings r.headers userId
    (UserCall.updateProfile userId payload).prog deps
  | .deleteUser userId => do
    let _ ← requirePermission .delete settings r.headers
    (UserCall.deleteUser userId).prog deps
  | .updateUserPermissions userId payload => do
    let _ ← requirePermission .admin settings r.headers
    setPermissions deps userId payload
  | .updateUserWriteThrough userId payload => do
    let _ ← requireUserOwnership settings r.headers userId
    (UserCall.updateUserWriteThrough userId payload).prog deps
  | .updateUserOptimistic userId expectedVersion payload =>
    (UserCall.updateUserOptimistic userId expectedVersion payload).prog deps
  | .updateUserNid userId nidNumber => (UserCall.updateNid userId nidNumber).prog deps

/-! ## The server -/

/-- One step of the server: a request with its answers, or a key of Redis expires. `commits` is for
the session of the request, if it has one. -/
inductive ServerStep where
  | request (r : UserRequest) (o : Nat → UserAnswer) (commits : Bool)
  | expire (e : UserExpiry)

def SqlWorld.expire (w : SqlWorld) : UserExpiry → SqlWorld
  | .cache id => { w with redis.cache := Assoc.erase w.redis.cache id }
  | .envelope id => { w with redis.envelopes := Assoc.erase w.redis.envelopes id }
  | .lock id => { w with redis.locks := w.redis.locks.filter (· ≠ id) }

namespace UserBackend

@[reducible] def World : UserBackend → Type
  | .inMemory => UserWorld
  | .sqlAlchemy => SqlWorld

def stored? : (b : UserBackend) → b.World → Int → Option UserEntity
  | .inMemory, w, id => w.db.users.entity? id
  | .sqlAlchemy, w, id => w.db.committed.users.entity? id

variable [Sha256]

def exec (settings : ApiKeySettings) (deps : UserDeps) :
    (b : UserBackend) → b.World → ServerStep → b.World
  | .inMemory, w, .request r o _ => (w.run (r.prog settings deps) o).2
  | .inMemory, w, .expire e => e.exec w
  | .sqlAlchemy, w, .request r o commits => w.inSession (r.prog settings deps) o commits
  | .sqlAlchemy, w, .expire e => w.expire e

end UserBackend

end Router

end CleanArch
