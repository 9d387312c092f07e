import CleanArch.Async.Sys
import CleanArch.Ledger.Repository

/-!
# Refresh token rotation

`AuthService` (`app/services/auth_service.py`) and the tokens it issues (`app/core/security.py`). A
login starts a token family; the Redis key `rtr:family:{family_id}` has the id of its one active
refresh token.

- **Ids** (`uuid4().hex`) are unique: the `n`-th id that call `t` draws is `⟨t, n⟩`.
- **Tokens** are their claims (`Jwt`). What `jwt.decode` checks of a text besides its times is one
  flag; a call may present any token, also one that nobody issued.
- **The user service** is one request with any answer, and so is `TTL`.
-/

namespace CleanArch

open Async Function

structure Uuid4 where
  drawnBy : Tid
  serial : Nat
  deriving DecidableEq

/-- `settings`. -/
structure AuthSettings where
  accessTokenExpireMinutes : Nat := 15
  refreshTokenExpireDays : Nat := 7

inductive TokenType where
  | access
  | refresh
  deriving DecidableEq

/-- A token. An optional claim is `none` when the token does not have it, or has an empty one. -/
structure Jwt where
  valid : Bool := true
  /-- `none` is a text that `int()` does not take. -/
  sub : Option Int
  tokenType : TokenType
  jti : Option Uuid4
  iat : Int
  exp : Int
  familyId : Option Uuid4 := none
  role : Option String := none
  permissions : Option Nat := none
  deriving DecidableEq

/-- `UserEntity`, as far as the service reads it. -/
structure AuthUser where
  id : Int
  role : String
  isActive : Bool

structure TokenResponse where
  accessToken : Jwt
  refreshToken : Jwt
  tokenType : String := "bearer"
  expiresIn : Nat
  deriving DecidableEq

structure FamilyState where
  activeJti : Uuid4
  userId : Int
  role : String
  deriving DecidableEq

inductive AuthError where
  /-- `HTTPException`, 401. -/
  | httpException (detail : String)
  | authenticationException (message : String)
  | authorizationException (message : String)
  /-- `int()` of a `sub` that is no number. -/
  | valueError
  | redisError
  | userServiceError
  deriving DecidableEq

/-! ## Requests -/

structure AuthStore where
  families : Uuid4 → Option FamilyState := fun _ => none

structure AuthAnswer extends Answer where
  user : Option AuthUser := none
  ttl : Int := 0

inductive AuthCmd where
  /-- `UserService.authenticate_user`. -/
  | authenticateUser (username password : String)
  | get (familyId : Uuid4)
  | set (familyId : Uuid4) (state : FamilyState) (ex : Int)
  | delete (familyId : Uuid4)
  | ttl (familyId : Uuid4)
  /-- `uuid.uuid4().hex`. -/
  | uuid4
  /-- `datetime.now(UTC)`. -/
  | now
  deriving DecidableEq

@[reducible] def AuthCmd.Res : AuthCmd → Type
  | .authenticateUser .. => Option AuthUser
  | .get _ => Option FamilyState
  | .set .. | .delete _ => Unit
  | .ttl _ => Int
  | .uuid4 => Uuid4
  | .now => Time

/-- What one request of call `t` does; `drawn` is the number of ids that it has drawn. -/
def AuthCmd.exec (t : Tid) (o : AuthAnswer) (drawn : Nat) (s : AuthStore) :
    (c : AuthCmd) → Except AuthError c.Res × Nat × AuthStore
  | .authenticateUser .. => withFault o.toAnswer .userServiceError (drawn, s) (.ok o.user, drawn, s)
  | .get f => withFault o.toAnswer .redisError (drawn, s) (.ok (s.families f), drawn, s)
  | .set f state _ =>
    withFault o.toAnswer .redisError (drawn, s)
      (.ok (), drawn, ⟨update s.families f (some state)⟩)
  | .delete f =>
    withFault o.toAnswer .redisError (drawn, s)
      (.ok (), drawn, ⟨update s.families f none⟩)
  | .ttl _ => withFault o.toAnswer .redisError (drawn, s) (.ok o.ttl, drawn, s)
  | .uuid4 => (.ok ⟨t, drawn⟩, drawn + 1, s)
  | .now => (.ok o.now, drawn, s)

@[reducible] def authMachine : Machine where
  Cmd := AuthCmd
  Res := AuthCmd.Res
  Err := AuthError
  Loc := Nat
  Sh := AuthStore
  Out := AuthAnswer
  exec t c o l s := c.exec t o l s

abbrev AuthProg := Prog AuthCmd AuthCmd.Res AuthError

def auth (c : AuthCmd) : AuthProg c.Res := Prog.call c

/-! ## Tokens -/

/-- `perms` of an access token. -/
def defaultPermissions (role : String) : Nat :=
  if role = "admin" then 63
  else if role = "moderator" then 7
  else if role = "guest" then 1
  else 3

def createAccessToken (settings : AuthSettings) (userId : Int) (role : String) : AuthProg Jwt := do
  let now ← auth .now
  let jti ← auth .uuid4
  return { sub := some userId, tokenType := .access, jti := some jti, iat := now.floor,
           exp := (now + settings.accessTokenExpireMinutes * 60).floor, role := some role,
           permissions := some (defaultPermissions role) }

def createRefreshToken (settings : AuthSettings) (userId : Int) (familyId : Uuid4) :
    AuthProg (Jwt × Uuid4) := do
  let now ← auth .now
  let jti ← auth .uuid4
  return ({ sub := some userId, tokenType := .refresh, jti := some jti, iat := now.floor,
            exp := (now + settings.refreshTokenExpireDays * 86400).floor,
            familyId := some familyId }, jti)

/-- `decode_jwt_token(token, expected_type="refresh")`. -/
def decodeRefreshToken (token : Jwt) : AuthProg Jwt := do
  let now ← auth .now
  if token.valid = false ∨ now < token.iat then
    throw (.httpException "Invalid authentication token")
  else if token.exp ≤ now then
    throw (.httpException "Token has expired")
  else
    match token.tokenType with
    | .access => throw (.httpException "Invalid token type: expected 'refresh', got 'access'")
    | .refresh => return token

/-! ## The service -/

def login (settings : AuthSettings) (username password : String) : AuthProg TokenResponse := do
  match ← auth (.authenticateUser username password) with
  | none => throw (.authenticationException "Invalid username or password")
  | some user =>
    if user.isActive = false then
      throw (.authorizationException "User account is inactive")
    else
      let familyId ← auth .uuid4
      let accessToken ← createAccessToken settings user.id user.role
      let (refreshToken, jti) ← createRefreshToken settings user.id familyId
      auth (.set familyId ⟨jti, user.id, user.role⟩ (settings.refreshTokenExpireDays * 86400))
      return { accessToken, refreshToken, expiresIn := settings.accessTokenExpireMinutes * 60 }

/-- The rotation at the end of `refresh_tokens`: the new pair, and the record with its id. -/
def rotate (settings : AuthSettings) (userId : Int) (familyId : Uuid4) (state : FamilyState) :
    AuthProg TokenResponse := do
  let (refreshToken, newJti) ← createRefreshToken settings userId familyId
  let accessToken ← createAccessToken settings userId state.role
  let remainingTtl ← auth (.ttl familyId)
  let ex := if remainingTtl ≤ 0 then (settings.refreshTokenExpireDays * 86400 : Int)
    else remainingTtl
  auth (.set familyId { state with activeJti := newJti } ex)
  return { accessToken, refreshToken, expiresIn := settings.accessTokenExpireMinutes * 60 }

/-- `refresh_tokens` after the token was decoded. -/
def refreshFamily (settings : AuthSettings) (userId : Int) (familyId incomingJti : Uuid4) :
    AuthProg TokenResponse := do
  match ← auth (.get familyId) with
  | none => throw (.authenticationException "Refresh token expired or revoked")
  | some state =>
    if incomingJti ≠ state.activeJti then
      auth (.delete familyId)
      throw (.authenticationException
        "Refresh token reuse detected. All sessions revoked for security.")
    else
      rotate settings userId familyId state

def refreshTokens (settings : AuthSettings) (refreshToken : Jwt) : AuthProg TokenResponse := do
  let payload ← decodeRefreshToken refreshToken
  match payload.sub with
  | none => throw .valueError
  | some userId =>
    match payload.familyId, payload.jti with
    | some familyId, some incomingJti => refreshFamily settings userId familyId incomingJti
    | _, _ => throw (.authenticationException "Malformed refresh token claims")

/-- `logout`. The decoder raises an `HTTPException`, which `except AuthenticationException` does
not catch. -/
def logout (refreshToken : Jwt) : AuthProg Unit := do
  try
    let payload ← decodeRefreshToken refreshToken
    match payload.familyId with
    | some familyId => auth (.delete familyId)
    | none => pure ()
  catch e =>
    match e with
    | .authenticationException _ => pure ()
    | e => throw e

/-! ## The system -/

inductive AuthCall where
  | login (username password : String)
  | refresh (token : Jwt)
  | logout (token : Jwt)

def AuthCall.prog (settings : AuthSettings) : AuthCall → AuthProg (Option TokenResponse)
  | .login username password => do
    let pair ← CleanArch.login settings username password
    return some pair
  | .refresh token => do
    let pair ← refreshTokens settings token
    return some pair
  | .logout token => do
    CleanArch.logout token
    return none

inductive AuthEnv where
  | expire (familyId : Uuid4)

def AuthEnv.exec (s : AuthStore) : AuthEnv → AuthStore
  | .expire f => ⟨update s.families f none⟩

@[reducible] def authSys (settings : AuthSettings) (calls : Tid → AuthCall) : Sys where
  toMachine := authMachine
  Env := AuthEnv
  env e s := e.exec s
  A := Option TokenResponse
  prog t := (calls t).prog settings
  loc _ := 0

end CleanArch
