import CleanArch.Ledger.World

/-!
# Fraud screening

`FraudDetectionService` (`app/services/fraud_detection_service.py`). Redis is optional (`useRedis`),
and a Redis error falls back to the memory of the service.
-/

namespace CleanArch

def defaultVelocityWindowSeconds : Time := 300
def burstCountThreshold : Nat := 3
def burstVolumeThreshold : Decimal := 100000
def spikeAmountThreshold : Decimal := 50000

inductive FraudDecision where
  | approved
  | flaggedForReview
  | rejected
  deriving DecidableEq

structure FraudAssessmentResult where
  riskScore : Nat
  decision : FraudDecision
  violatedRules : List String
  deriving DecidableEq

def isAccountBlacklisted (useRedis : Bool) (accountId : UUID) : LedgerProg Bool := do
  if ← proc (.memBlacklisted accountId) then
    return true
  if useRedis then
    try redis (.sismember accountId) catch _ => pure false
  else
    return false

/-- The memory fallback of `get_account_velocity`. -/
def memoryVelocity (accountId : UUID) (windowStart : Time) : LedgerProg (Nat × Decimal) := do
  let entries ← proc (.memVelocity accountId)
  let active := entries.filter fun e => windowStart ≤ e.1
  proc (.setMemVelocity accountId active)
  return (active.length, (active.map (·.2)).sum)

/-- `get_account_velocity`: the count and the volume of the transfers in the window. -/
def getAccountVelocity (useRedis : Bool) (accountId : UUID) (lookbackSeconds : Time) :
    LedgerProg (Nat × Decimal) := do
  let now ← proc .time
  let windowStart := now - lookbackSeconds
  if useRedis then
    try
      redis (.zremrangebyscore accountId windowStart)
      let rawEntries ← redis (.zrange accountId)
      pure (rawEntries.length, (rawEntries.map (·.amount)).sum)
    catch _ => memoryVelocity accountId windowStart
  else
    memoryVelocity accountId windowStart

def fraudRules (isBlacklisted hasCountBurst hasVolumeBurst isSpike : Bool) : List (Nat × String) :=
  (if isBlacklisted then [(100, "DESTINATION_ACCOUNT_BLACKLISTED")] else []) ++
  (if hasCountBurst then [(40, "VELOCITY_BURST_EXCEEDED")] else []) ++
  (if hasVolumeBurst then
    (if hasCountBurst then [(40, "VELOCITY_VOLUME_EXCEEDED")]
      else [(40, "VELOCITY_BURST_EXCEEDED")])
    else []) ++
  (if isSpike then [(30, "HIGH_VALUE_SPIKE")] else [])

def fraudDecision (riskScore : Nat) : FraudDecision :=
  if 70 ≤ riskScore then .rejected else if 30 ≤ riskScore then .flaggedForReview else .approved

def evaluateTransfer (useRedis : Bool) (sourceAccountId destinationAccountId : UUID)
    (amount : Decimal) : LedgerProg FraudAssessmentResult := do
  let isBlacklisted ← isAccountBlacklisted useRedis destinationAccountId
  let (windowCount, windowVolume) ←
    getAccountVelocity useRedis sourceAccountId defaultVelocityWindowSeconds
  let rules := fraudRules isBlacklisted (burstCountThreshold ≤ windowCount)
    (burstVolumeThreshold < windowVolume + amount) (spikeAmountThreshold ≤ amount)
  let riskScore := (rules.map (·.1)).sum
  return ⟨riskScore, fraudDecision riskScore, rules.map (·.2)⟩

def recordSuccessfulTransfer (useRedis : Bool) (sourceAccountId : UUID) (amount : Decimal) :
    LedgerProg Unit := do
  let now ← proc .time
  let nonce ← proc .uuid
  let remember : LedgerProg Unit := do
    let entries ← proc (.memVelocity sourceAccountId)
    proc (.setMemVelocity sourceAccountId (entries ++ [(now, amount)]))
  if useRedis then
    try redis (.zadd sourceAccountId ⟨amount, nonce, now⟩) catch _ => remember
  else
    remember

end CleanArch
