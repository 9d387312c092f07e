import CleanArch.Async.Sys
import CleanArch.Users.Repository

/-!
# Profile views, written behind

`AnalyticsService` (`app/services/analytics_service.py`).

- **Requests** happen at once, or raise without taking effect (`ViewAnswer`).
- **The hash** has the ids and counts as numbers.
- **The repository** is the dictionary of `increment_views_batch`, which both repositories have.
- `get_user_views` is left out.
-/

namespace CleanArch

open Assoc Async

structure ViewStore where
  /-- `user:views:pending`. -/
  pending : List (Int × Nat) := []
  /-- `user:views:dirty`. -/
  dirty : List Int := []
  /-- `_views` of the repository. -/
  views : List (Int × Nat) := []
  distinct : Distinct pending := by exact List.Pairwise.nil

inductive ViewError where
  | redisError
  | repositoryError
  deriving DecidableEq

structure ViewAnswer where
  raises : Bool := false

inductive ViewCmd where
  /-- `HINCRBY user:views:pending {user_id} 1`. -/
  | hincrby (userId : Int)
  /-- `SADD user:views:dirty {user_id}`. -/
  | sadd (userId : Int)
  /-- The transaction: `HGETALL` and `DEL` of the hash, `DEL` of the set. -/
  | execute
  | incrementViewsBatch (viewsMap : List (Int × Nat))

@[reducible] def ViewCmd.Res : ViewCmd → Type
  | .hincrby _ => Nat
  | .sadd _ => Nat
  | .execute => List (Int × Nat)
  | .incrementViewsBatch _ => Nat

def ViewCmd.error : ViewCmd → ViewError
  | .incrementViewsBatch _ => .repositoryError
  | _ => .redisError

def ViewCmd.effect (s : ViewStore) : (c : ViewCmd) → c.Res × ViewStore
  | .hincrby userId =>
    let count := (find s.pending userId).getD 0 + 1
    (count, { s with
      pending := set s.pending userId count
      distinct := s.distinct.after_set userId })
  | .sadd userId =>
    if userId ∈ s.dirty then (0, s) else (1, { s with dirty := s.dirty ++ [userId] })
  | .execute =>
    (s.pending, { s with pending := [], dirty := [], distinct := List.Pairwise.nil })
  | .incrementViewsBatch viewsMap =>
    (viewsMap.length, { s with views := viewsMap.foldl UserRepository.addViews s.views })

def ViewCmd.exec (o : ViewAnswer) (s : ViewStore) (c : ViewCmd) :
    Except ViewError c.Res × Unit × ViewStore :=
  if o.raises then (.error c.error, (), s) else (.ok (c.effect s).1, (), (c.effect s).2)

@[reducible] def viewMachine : Machine where
  Cmd := ViewCmd
  Res := ViewCmd.Res
  Err := ViewError
  Loc := Unit
  Sh := ViewStore
  Out := ViewAnswer
  exec _ c o _ s := c.exec o s

abbrev ViewProg := Prog ViewCmd ViewCmd.Res ViewError

def view (c : ViewCmd) : ViewProg c.Res := Prog.call c

inductive ViewResult where
  | recorded (userId : Int) (status mode : String)
  | synced (flushedRecords totalViews : Nat) (status : String)
  deriving DecidableEq

/-! ## `record_view` -/

/-- The `try` block. -/
def recordInRedis (userId : Int) : ViewProg Unit := do
  let _ ← view (.hincrby userId)
  let _ ← view (.sadd userId)

def recordView (userId : Int) : ViewProg ViewResult := do
  match ← (recordInRedis userId).attempt with
  | .error _ =>
    let _ ← view (.incrementViewsBatch [(userId, 1)])
    return .recorded userId "recorded" "database-fallback"
  | .ok _ => return .recorded userId "recorded" "write-behind"

/-! ## `sync_pending_views_to_db` -/

def addPositive (viewsMap : List (Int × Nat)) (p : Int × Nat) : List (Int × Nat) :=
  if p.2 > 0 then set viewsMap p.1 p.2 else viewsMap

/-- `views_map` of a hash. -/
def toViewsMap (rawViews : List (Int × Nat)) : List (Int × Nat) := rawViews.foldl addPositive []

def flushViews (viewsMap : List (Int × Nat)) : ViewProg ViewResult :=
  if viewsMap.isEmpty then
    return .synced 0 0 "no_pending_data"
  else do
    let flushedCount ← view (.incrementViewsBatch viewsMap)
    return .synced flushedCount (viewsMap.map Prod.snd).sum "success"

def syncPendingViewsToDb : ViewProg ViewResult := do
  match ← (view .execute).attempt with
  | .error _ => return .synced 0 0 "redis_error"
  | .ok rawViews => flushViews (toViewsMap rawViews)

/-! ## Calls -/

inductive ViewCall where
  | recordView (userId : Int)
  | sync
  deriving DecidableEq

def ViewCall.prog : ViewCall → ViewProg ViewResult
  | .recordView userId => CleanArch.recordView userId
  | .sync => syncPendingViewsToDb

@[reducible] def viewSys (calls : Tid → ViewCall) : Sys where
  toMachine := viewMachine
  Env := Empty
  env e _ := e.elim
  A := ViewResult
  prog t := (calls t).prog
  loc _ := ()

end CleanArch
