import CleanArch.Assoc.Ordered
import CleanArch.Async.Rely
import CleanArch.Ledger.Repository

/-!
# The distributed rate limiter

`check_distributed_rate_limit` of `RateLimiterService` (`app/services/rate_limiter_service.py`),
with the guard of the endpoints that use it (`RateLimitGuard`), and `get_client_status`.

- **Time.** The clock may answer anything. A pipeline is executed at the time that its call has
  read; Redis counts a TTL from there.
- **Members** are texts of the time and eight digits of a UUID. The digits are the id of the call:
  no two calls have the same member.
-/

namespace CleanArch

open Async Function

/-- `f"{current_time}:{uuid}"`. -/
structure Member where
  time : Time
  id : UUID
  deriving DecidableEq

structure SortedSets where
  entries : String → List (Member × Time) := fun _ => []
  expiresAt : String → Option Time := fun _ => none
  clock : String → Time := fun _ => 0

namespace SortedSets

/-- `ZREMRANGEBYSCORE key 0 (upper`. -/
def zremrangebyscore (key : String) (upper : Time) (s : SortedSets) : SortedSets :=
  let kept := (s.entries key).filter fun e => !(decide (0 ≤ e.2) && decide (e.2 < upper))
  { s with entries := update s.entries key kept }

def zadd (key : String) (member : Member) (score : Time) (s : SortedSets) : SortedSets :=
  { s with entries := update s.entries key (Assoc.set (s.entries key) member score) }

def zcard (key : String) (s : SortedSets) : Nat := (s.entries key).length

/-- The score of `ZRANGE key 0 0 WITHSCORES`. -/
def zrange (key : String) (s : SortedSets) : Option Time := ((s.entries key).map (·.2)).min?

/-- The score of `ZREVRANGE key 0 0 WITHSCORES`. -/
def zrevrange (key : String) (s : SortedSets) : Option Time := ((s.entries key).map (·.2)).max?

/-- `TTL key`: rounded to seconds, -1 for a key that does not expire, -2 if there is no such key. -/
def ttl (key : String) (now : Time) (s : SortedSets) : Int :=
  if (s.entries key).isEmpty then -2
  else match s.expiresAt key with
    | none => -1
    | some d => ⌊d - now + 1 / 2⌋

def delete (key : String) (s : SortedSets) : SortedSets :=
  { s with entries := update s.entries key []
           expiresAt := update s.expiresAt key none }

/-- `EXPIRE key seconds`; a key whose time is over goes at once. -/
def expire (key : String) (seconds : Int) (s : SortedSets) : SortedSets :=
  if seconds ≤ 0 then s.delete key
  else { s with expiresAt := update s.expiresAt key (some (s.clock key + seconds)) }

def zrem (key : String) (member : Member) (s : SortedSets) : SortedSets :=
  { s with entries := update s.entries key (Assoc.erase (s.entries key) member) }

end SortedSets

structure PipelineReply where
  currentCount : Nat
  oldest : Option Time
  deriving DecidableEq

inductive RateCmd where
  /-- `time.time() if now is None else now`. -/
  | currentTime (now : Option Time)
  /-- `uuid.uuid4()`. -/
  | uuid4
  | pipeline (key : String) (threshold : Time) (member : Member) (score : Time) (seconds : Int)
  | zrem (key : String) (member : Member)
  | zremrangebyscore (key : String) (threshold : Time)
  | zcard (key : String)
  | ttl (key : String)
  | zrange (key : String)
  | zrevrange (key : String)
  deriving DecidableEq

@[reducible] def RateCmd.Res : RateCmd → Type
  | .currentTime _ => Time
  | .uuid4 => UUID
  | .pipeline .. => PipelineReply
  | .zrem .. => Unit
  | .zremrangebyscore .. => Unit
  | .zcard _ => Nat
  | .ttl _ => Int
  | .zrange _ => Option Time
  | .zrevrange _ => Option Time

inductive RateError where
  | redisError
  deriving DecidableEq

/-- The pipeline, executed at time `score`. -/
def SortedSets.execute (key : String) (threshold : Time) (member : Member) (score : Time)
    (seconds : Int) (s : SortedSets) : PipelineReply × SortedSets :=
  let s := { s with clock := update s.clock key score }
  let s := s.zremrangebyscore key threshold
  let s := s.zadd key member score
  (⟨s.zcard key, s.zrange key⟩, s.expire key seconds)

/-- What one request of call `t` does; the local variable is `current_time`. -/
def RateCmd.exec (t : Tid) (o : Answer) (l : Time) (s : SortedSets) :
    (c : RateCmd) → Except RateError c.Res × Time × SortedSets
  | .currentTime now => (.ok (now.getD o.now), now.getD o.now, s)
  | .uuid4 => (.ok t, l, s)
  | .pipeline key threshold member score seconds =>
    let r := s.execute key threshold member score seconds
    withFault o .redisError (l, s) (.ok r.1, l, r.2)
  | .zrem key member => withFault o .redisError (l, s) (.ok (), l, s.zrem key member)
  | .zremrangebyscore key threshold =>
    withFault o .redisError (l, s) (.ok (), l, s.zremrangebyscore key threshold)
  | .zcard key => withFault o .redisError (l, s) (.ok (s.zcard key), l, s)
  | .ttl key => withFault o .redisError (l, s) (.ok (s.ttl key l), l, s)
  | .zrange key => withFault o .redisError (l, s) (.ok (s.zrange key), l, s)
  | .zrevrange key => withFault o .redisError (l, s) (.ok (s.zrevrange key), l, s)

@[reducible] def rateMachine : Machine where
  Cmd := RateCmd
  Res := RateCmd.Res
  Err := RateError
  Loc := Time
  Sh := SortedSets
  Out := Answer
  exec t c o l s := c.exec t o l s

abbrev RateProg := Prog RateCmd RateCmd.Res RateError

def rate (c : RateCmd) : RateProg c.Res := Prog.call c

def formatKey (key : String) : String :=
  if key.startsWith "ratelimit:" then key else "ratelimit:" ++ key

/-- `int(x)` of a float. -/
def pyInt (x : Time) : Int := if 0 ≤ x then ⌊x⌋ else ⌈x⌉

/-- Whether the request is limited, the count, and `retry_after`. -/
structure RateCheck where
  limited : Bool
  count : Int
  retryAfter : Time
  deriving DecidableEq

structure RateCall where
  key : String
  limit : Int
  windowSeconds : Time
  now : Option Time := none

def checkDistributedRateLimit (call : RateCall) : RateProg RateCheck := do
  let currentTime ← rate (.currentTime call.now)
  let redisKey := formatKey call.key
  let id ← rate .uuid4
  let member : Member := ⟨currentTime, id⟩
  let results ← rate (.pipeline redisKey (currentTime - call.windowSeconds) member currentTime
    (pyInt call.windowSeconds + 2))
  if (results.currentCount : Int) ≤ call.limit then
    return ⟨false, results.currentCount, 0⟩
  else
    -- over the limit: the request takes no place
    let _ ← rate (.zrem redisKey member)
    let oldestTs := results.oldest.getD currentTime
    return ⟨true, call.limit, max 0 ((oldestTs + call.windowSeconds) - currentTime)⟩

/-- What `get_client_status` returns. -/
structure ClientStatus where
  key : String
  activeRequests : Nat
  ttlSeconds : Int
  windowSeconds : Time
  oldestTimestamp : Option Time
  newestTimestamp : Option Time
  deriving DecidableEq

def getClientStatus (key : String) (windowSeconds : Time := 60) (now : Option Time := none) :
    RateProg ClientStatus := do
  let currentTime ← rate (.currentTime now)
  let redisKey := formatKey key
  let _ ← rate (.zremrangebyscore redisKey (currentTime - windowSeconds))
  let count ← rate (.zcard redisKey)
  let ttl ← rate (.ttl redisKey)
  let oldest ← rate (.zrange redisKey)
  let newest ← rate (.zrevrange redisKey)
  return ⟨redisKey, count, ttl, windowSeconds, oldest, newest⟩

/-! ## The guard of an endpoint -/

structure RateLimitGuard where
  limit : Int := 10
  windowSeconds : Time := 60
  scope : String := "default"

structure RateRequest where
  apiKey : Option String := none
  forwarded : Option String := none
  host : Option String := none

def truthy (x : Option String) : Option String := x.filter (· ≠ "")

def RateRequest.clientId [PyStr] (request : RateRequest) : String :=
  match truthy request.apiKey, truthy request.forwarded, truthy request.host with
  | some apiKey, _, _ => apiKey
  | none, some forwarded, _ => PyStr.strip (String.ofList (forwarded.toList.takeWhile (· ≠ ',')))
  | none, none, some host => host
  | none, none, none => "127.0.0.1"

/-- `HTTPException(429)`, with the numbers of its headers. -/
structure TooManyRequests where
  retryAfter : Int
  rateLimitLimit : Int
  rateLimitRemaining : Int := 0
  detail : String := "Too Many Requests: Rate limit exceeded"
  deriving DecidableEq

/-- What the guard leaves in `request.state`. -/
structure RateLimitState where
  client : String
  count : Int
  limit : Int
  deriving DecidableEq

namespace RateLimitGuard

def scopedKey [PyStr] (guard : RateLimitGuard) (request : RateRequest) : String :=
  guard.scope ++ ":" ++ request.clientId

/-- `max(1, math.ceil(retry_after))`. -/
def retrySeconds (retryAfter : Time) : Int := max 1 ⌈retryAfter⌉

def answer [PyStr] (guard : RateLimitGuard) (request : RateRequest) (c : RateCheck) :
    Except TooManyRequests RateLimitState :=
  if c.limited then
    .error { retryAfter := retrySeconds c.retryAfter, rateLimitLimit := guard.limit }
  else .ok ⟨request.clientId, c.count, guard.limit⟩

def call [PyStr] (guard : RateLimitGuard) (request : RateRequest) :
    RateProg (Except TooManyRequests RateLimitState) := do
  let c ← checkDistributedRateLimit
    ⟨guard.scopedKey request, guard.limit, guard.windowSeconds, none⟩
  return guard.answer request c

end RateLimitGuard

/-! ## The calls of all workers -/

inductive RateEnv where
  | expire (key : String) (time : Time)

def RateEnv.exec (s : SortedSets) : RateEnv → SortedSets
  | .expire key time =>
    if (s.expiresAt key).any (· ≤ time) then
      { s.delete key with clock := update s.clock key time }
    else s

@[reducible] def rateSys (calls : Tid → RateCall) : Sys where
  toMachine := rateMachine
  Env := RateEnv
  env e s := e.exec s
  A := RateCheck
  prog t := checkDistributedRateLimit (calls t)
  loc _ := 0

end CleanArch
