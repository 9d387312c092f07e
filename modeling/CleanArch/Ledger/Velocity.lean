import CleanArch.Async.Alone
import CleanArch.Ledger.Fraud

/-!
# The velocity of an account, call by call

`FraudDetectionService` keeps the recorded transfers of an account in two places: a sorted set of
Redis, and a list in the memory of the service for the calls that Redis fails. Which of them a call
reads (`VelocityRead`) or writes (`VelocityWrite`) depends on the faults of its own requests.
-/

namespace CleanArch

open Async Function List

/-! ## The two stores -/

/-- What `zremrangebyscore` leaves. -/
def redisWindow (windowStart : Time) (es : List VelocityEntry) : List VelocityEntry :=
  es.filter fun e => windowStart < e.score

def memoryWindow (windowStart : Time) (es : List (Time × Decimal)) : List (Time × Decimal) :=
  es.filter fun e => windowStart ≤ e.1

lemma redisWindow_append (xs ys : List VelocityEntry) :
    redisWindow w (xs ++ ys) = redisWindow w xs ++ redisWindow w ys :=
  filter_append xs ys

lemma memoryWindow_append : memoryWindow w (xs ++ ys) = memoryWindow w xs ++ memoryWindow w ys :=
  filter_append xs ys

lemma redisWindow_of_le (h : w ≤ w') (es : List VelocityEntry) :
    redisWindow w' (redisWindow w es) = redisWindow w' es := by
  unfold redisWindow
  rw [filter_filter]
  refine filter_congr fun e _ => ?_
  simpa using h.trans_lt

lemma memoryWindow_of_le (h : w ≤ w') :
    memoryWindow w' (memoryWindow w es) = memoryWindow w' es := by
  unfold memoryWindow
  rw [filter_filter]
  refine filter_congr fun e _ => ?_
  simpa using h.trans

namespace World

def pruneRedis (account : UUID) (windowStart : Time) (s : World) : World :=
  { s with velocity :=
      update s.velocity account (redisWindow windowStart (s.velocity account)) }

def pruneMemory (account : UUID) (windowStart : Time) (s : World) : World :=
  { s with memVelocity :=
      update s.memVelocity account (memoryWindow windowStart (s.memVelocity account)) }

def addRedis (account : UUID) (e : VelocityEntry) (s : World) : World :=
  { s with velocity := update s.velocity account (s.velocity account ++ [e]) }

def addMemory (account : UUID) (e : Time × Decimal) (s : World) : World :=
  { s with memVelocity := update s.memVelocity account (s.memVelocity account ++ [e]) }

end World

inductive VelocityRead where
  | redis
  | memory
  | both
  deriving DecidableEq

namespace VelocityRead

def velocity (account : UUID) (windowStart : Time) (s : World) : VelocityRead → Nat × Decimal
  | .redis =>
    let es := redisWindow windowStart (s.velocity account)
    (es.length, (es.map (·.amount)).sum)
  | .memory | .both =>
    let es := memoryWindow windowStart (s.memVelocity account)
    (es.length, (es.map (·.2)).sum)

def after (account : UUID) (windowStart : Time) (s : World) : VelocityRead → World
  | .redis => s.pruneRedis account windowStart
  | .memory => s.pruneMemory account windowStart
  | .both => (s.pruneRedis account windowStart).pruneMemory account windowStart

end VelocityRead

inductive VelocityWrite where
  | redis
  | memory
  | both
  deriving DecidableEq

def VelocityWrite.after (account : UUID) (e : VelocityEntry) (s : World) : VelocityWrite → World
  | .redis => s.addRedis account e
  | .memory => s.addMemory account (e.score, e.amount)
  | .both => (s.addRedis account e).addMemory account (e.score, e.amount)

/-! ## One call -/

section Calls

variable (useRedis : Bool) (o : Nat → Answer)

/-- The read of a call whose answers, from the clock on, are `o`. -/
def velocityRead : VelocityRead :=
  if useRedis then
    match (o 1).fault, (o 2).fault with
    | none, none => .redis
    | some .refused, _ => .memory
    | _, _ => .both
  else .memory

def velocityWrite : VelocityWrite :=
  if useRedis then
    match (o 2).fault with
    | none => .redis
    | some .refused => .memory
    | some .lostReply => .both
  else .memory

/-- The answer of the blacklist check and the number of its requests, from what the two blacklists
say. -/
def blacklistCheck (inMemory inRedis : Bool) : Bool × Nat :=
  if inMemory then (true, 1)
  else if useRedis then (if (o 1).fault = none then inRedis else false, 2)
  else (false, 1)

def assess (isBlacklisted : Bool) (velocity : Nat × Decimal) (amount : Decimal) :
    FraudAssessmentResult :=
  let rules := fraudRules isBlacklisted (burstCountThreshold ≤ velocity.1)
    (burstVolumeThreshold < velocity.2 + amount) (spikeAmountThreshold ≤ amount)
  let riskScore := (rules.map (·.1)).sum
  ⟨riskScore, fraudDecision riskScore, rules.map (·.2)⟩

variable {useRedis o}

lemma run_redis_try {α : Type} {k : c.Res → LedgerProg α} {h : LedgerError → LedgerProg α} :
    ledgerMachine.run t (((redis c).bind k).handle h) o l s = match (o 0).fault with
      | none => ledgerMachine.run t ((k (c.exec s).1).handle h) (fun n => o (n + 1)) l (c.exec s).2
      | some .refused => ledgerMachine.run t (h .redisError) (fun n => o (n + 1)) l s
      | some .lostReply =>
        ledgerMachine.run t (h .redisError) (fun n => o (n + 1)) l (c.exec s).2 := by
  let answer : Except LedgerError c.Res × Session × World :=
    withFault (o 0) .redisError (l, s) (.ok (c.exec s).1, l, (c.exec s).2)
  show ledgerMachine.run t (((Prog.ofExcept answer.1).bind k).handle h) (fun n => o (n + 1))
    answer.2.1 answer.2.2 = _
  simp only [answer]
  unfold withFault
  rcases (o 0).fault with _ | _ | _ <;> rfl

lemma run_redis_last : ledgerMachine.run t ((redis c).handle h) o l s = match (o 0).fault with
      | none => (.ok (c.exec s).1, l, (c.exec s).2)
      | some .refused => ledgerMachine.run t (h .redisError) (fun n => o (n + 1)) l s
      | some .lostReply =>
        ledgerMachine.run t (h .redisError) (fun n => o (n + 1)) l (c.exec s).2 := by
  rw [← Prog.bind_ret (redis c), run_redis_try]
  rfl

lemma getAccountVelocity_run :
    ledgerMachine.run t (getAccountVelocity useRedis account lookback) o l s =
      (.ok ((velocityRead useRedis o).velocity account ((o 0).now - lookback) s), l,
        (velocityRead useRedis o).after account ((o 0).now - lookback) s) := by
  cases useRedis with
  | false => rfl
  | true =>
    show ledgerMachine.run t (((redis (.zremrangebyscore account ((o 0).now - lookback))).bind
      fun _ => (redis (.zrange account)).bind fun es =>
        .ret (es.length, (es.map (·.amount)).sum)).handle
        fun _ => memoryVelocity account ((o 0).now - lookback)) (fun n => o (n + 1)) l s = _
    rw [run_redis_try]
    rcases h1 : (o 1).fault with _ | _ | _
    · simp only [velocityRead, h1]
      refine run_redis_try.trans ?_
      rcases h2 : (o 2).fault with _ | _ | _
      · simp [RedisCmd.exec, Prog.handle, Machine.run, VelocityRead.velocity, VelocityRead.after,
          World.pruneRedis, redisWindow]
      all_goals rfl
    all_goals
      simp only [velocityRead, h1]
      rfl

lemma recordSuccessfulTransfer_run :
    ledgerMachine.run t (recordSuccessfulTransfer useRedis source amount) o l s =
      (.ok (), l, (velocityWrite useRedis o).after source ⟨amount, (o 1).ids 0, (o 0).now⟩ s) := by
  cases useRedis with
  | false => rfl
  | true =>
    show ledgerMachine.run t ((redis (.zadd source ⟨amount, (o 1).ids 0, (o 0).now⟩)).handle
      fun _ => (proc (.memVelocity source)).bind fun entries =>
        proc (.setMemVelocity source (entries ++ [((o 0).now, amount)])))
      (fun n => o (n + 2)) l s = _
    rw [run_redis_last]
    rcases h : (o 2).fault with _ | _ | _ <;> simp only [velocityWrite, h] <;> rfl

lemma run_isAccountBlacklisted {α : Type} {k : Bool → LedgerProg α} (destination : UUID) :
    let check := blacklistCheck useRedis o (s.memBlacklist destination) (s.blacklist destination)
    ledgerMachine.run t ((isAccountBlacklisted useRedis destination).bind k) o l s =
      ledgerMachine.run t (k check.1) (fun n => o (n + check.2)) l s := by
  intro check
  show ledgerMachine.run t (Prog.bind (if s.memBlacklist destination then .ret true
      else if useRedis then (redis (.sismember destination)).handle fun _ => .ret false
      else .ret false) k) (fun n => o (n + 1)) l s = _
  cases hmem : s.memBlacklist destination with
  | true => simp only [check, blacklistCheck, hmem, if_true]; rfl
  | false =>
    cases useRedis with
    | false => simp only [check, blacklistCheck, hmem]; rfl
    | true =>
      let answer : Except LedgerError Bool × Session × World :=
        withFault (o 1) .redisError (l, s) (.ok (s.blacklist destination), l, s)
      show ledgerMachine.run t (((Prog.ofExcept answer.1).handle fun _ => .ret false).bind k)
        (fun n => o (n + 2)) answer.2.1 answer.2.2 = _
      simp only [answer, check, blacklistCheck, hmem, withFault]
      rcases (o 1).fault with _ | _ | _ <;> rfl

lemma evaluateTransfer_run (source destination : UUID) (amount : Decimal) :
    let check := blacklistCheck useRedis o (s.memBlacklist destination) (s.blacklist destination)
    let read := velocityRead useRedis fun n => o (n + check.2)
    let windowStart := (o check.2).now - defaultVelocityWindowSeconds
    ledgerMachine.run t (evaluateTransfer useRedis source destination amount) o l s =
      (.ok (assess check.1 (read.velocity source windowStart s) amount), l,
        read.after source windowStart s) := by
  intro check read windowStart
  have hrest : ledgerMachine.run t (evaluateTransfer useRedis source destination amount) o l s =
      ledgerMachine.run t ((getAccountVelocity useRedis source defaultVelocityWindowSeconds).bind
        fun v => .ret (assess check.1 v amount)) (fun n => o (n + check.2)) l s :=
    run_isAccountBlacklisted destination
  rw [hrest, Machine.run_map, getAccountVelocity_run]
  simp only [Nat.zero_add]
  rfl

end Calls

/-! ## Histories -/

inductive FraudCall where
  | record (source : UUID) (amount : Decimal)
  | evaluate (source destination : UUID) (amount : Decimal)
  /-- `get_account_velocity`, as the endpoint calls it. -/
  | inspect (account : UUID) (windowSeconds : Nat)

/-- The answers of a call that reads the clock at `now`. -/
def answersAt (now : Time) (world : Nat → Answer) : Nat → Answer :=
  fun n => { world n with now := now }

inductive FraudEvent where
  /-- A call, the time that it reads, and what else the world chooses for it. -/
  | call (c : FraudCall) (now : Time) (world : Nat → Answer)
  | expire (account : UUID)

def FraudEvent.exec (useRedis : Bool) (s : World) :
    FraudEvent → Option (Except LedgerError FraudAssessmentResult) × World
  | .call (.record source amount) now world =>
    (none, (ledgerMachine.run 0 (recordSuccessfulTransfer useRedis source amount)
      (answersAt now world) {} s).2.2)
  | .call (.evaluate source destination amount) now world =>
    let r := ledgerMachine.run 0 (evaluateTransfer useRedis source destination amount)
      (answersAt now world) {} s
    (some r.1, r.2.2)
  | .call (.inspect account windowSeconds) now world =>
    (none, (ledgerMachine.run 0 (getAccountVelocity useRedis account windowSeconds)
      (answersAt now world) {} s).2.2)
  | .expire account => (none, LedgerEnv.exec s (.expireVelocity account))

def assessments (useRedis : Bool) :
    World → List FraudEvent → List (Except LedgerError FraudAssessmentResult)
  | _, [] => []
  | s, e :: es => (e.exec useRedis s).1.toList ++ assessments useRedis (e.exec useRedis s).2 es

section Events

variable {useRedis : Bool} {s : World} {now : Time} {world : Nat → Answer}

lemma exec_record : FraudEvent.exec useRedis s (.call (.record source amount) now world) =
      (none, (velocityWrite useRedis (answersAt now world)).after source
        ⟨amount, (world 1).ids 0, now⟩ s) := by
  simp only [FraudEvent.exec, recordSuccessfulTransfer_run]
  rfl

lemma exec_inspect : FraudEvent.exec useRedis s (.call (.inspect account windowSeconds) now world) =
      (none, (velocityRead useRedis (answersAt now world)).after account
        (now - windowSeconds) s) := by
  simp only [FraudEvent.exec, getAccountVelocity_run]
  rfl

def evaluationCheck (useRedis : Bool) (s : World) (now : Time) (world : Nat → Answer)
    (destination : UUID) : Bool × Nat :=
  blacklistCheck useRedis (answersAt now world) (s.memBlacklist destination)
    (s.blacklist destination)

def evaluationRead (useRedis : Bool) (s : World) (now : Time) (world : Nat → Answer)
    (destination : UUID) : VelocityRead :=
  velocityRead useRedis fun n =>
    answersAt now world (n + (evaluationCheck useRedis s now world destination).2)

lemma exec_evaluate (source destination : UUID) (amount : Decimal) :
    let read := evaluationRead useRedis s now world destination
    let windowStart := now - defaultVelocityWindowSeconds
    FraudEvent.exec useRedis s (.call (.evaluate source destination amount) now world) =
      (some (.ok (assess (evaluationCheck useRedis s now world destination).1
        (read.velocity source windowStart s) amount)), read.after source windowStart s) := by
  simp only [FraudEvent.exec, evaluateTransfer_run]
  rfl

end Events

end CleanArch
