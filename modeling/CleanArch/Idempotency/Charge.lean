import CleanArch.Idempotency.Exclusion

/-!
# Charges with an idempotency key

The endpoint `POST /payments/charge` (`app/routers/payment_router.py`) claims its key, makes the
charge, and records the result. A key that has been charged is `COMPLETED`, or its client is still
working (`ChargedOnce`). `ChargeOk` excludes what breaks this: a retry that overwrites a record
which is not `FAILED` any more, and an exception of the `SET` that records a success.
-/

namespace CleanArch

open Async Function IdempotencyDoc LedgerCmd Protocol Sys

/-! ## The endpoint -/

structure PaymentChargeRequest where
  orderId : String
  amount : Decimal
  currency : String := "BDT"

/-- The parts of an HTTP request that the endpoint reads. FastAPI parses `payload` from `body`. -/
structure ChargeRequest where
  method : String := "POST"
  path : String := "/payments/charge"
  body : String
  payload : PaymentChargeRequest

structure PaymentDeps where
  /-- `hashlib.sha256(…).hexdigest()`. -/
  sha256 : String → String
  /-- `str(exc)`. -/
  str : LedgerError → String

/-- `X-Cache-Lookup`. -/
inductive CacheLookup where
  | hitIdempotent
  | miss
  deriving DecidableEq

structure JSONResponse where
  statusCode : Nat
  content : Option PaymentChargeResponse
  cacheLookup : CacheLookup
  deriving DecidableEq

def computeRequestHash [PyStr] (deps : PaymentDeps) (method path body : String) : String :=
  deps.sha256 (PyStr.upper method ++ ":" ++ path ++ ":" ++ body)

/-- The `try` block of the endpoint: the charge and the record of its success. -/
def chargeAndRecord (key requestHash : String) (payload : PaymentChargeRequest) :
    LedgerProg JSONResponse := do
  let charge ← Prog.call (processCharge payload.orderId payload.amount payload.currency)
  recordSuccess key requestHash 201 charge
  return ⟨201, some charge, .miss⟩

def processPaymentChargeEndpoint [PyStr] (deps : PaymentDeps) (key : String)
    (request : ChargeRequest) : LedgerProg JSONResponse := do
  let requestHash := computeRequestHash deps request.method request.path request.body
  match ← checkOrAcquire key requestHash with
  | (true, some record) =>
    return ⟨record.statusCode.getD 201, record.responseBody, .hitIdempotent⟩
  | _ =>
    try chargeAndRecord key requestHash request.payload
    catch exc =>
      recordFailure key (some (deps.str exc))
      throw exc

structure ChargeHistory where
  working : Tid → Bool := fun _ => false
  completed : Nat := 0

/-- `process_charge` returns. -/
def LedgerCmd.completesCharge : (c : LedgerCmd) → Except LedgerError c.Res → Bool
  | .processCharge .., .ok _ => true
  | _, _ => false

@[reducible] def chargeObserver (key : String) : Observer ledgerMachine LedgerEnv where
  H := ChargeHistory
  turn t c r _ _ h :=
    { working := noteWorking key t c r h.working
      completed := h.completed + if c.completesCharge r then 1 else 0 }
  world e h := { h with working := noteExpiry key h.working e }

def LedgerCmd.chargeOk (key : String) (s : World) (o : Answer) : LedgerCmd → Bool
  | .redis (.set _ doc _) =>
    match doc.state with
    | some .inProgress => s.stateOf key ≠ some .inProgress && s.stateOf key ≠ some .completed
    | some .completed => o.fault = none
    | _ => true
  | _ => true

structure ChargedOnce (key : String) (s : World) (h : ChargeHistory) : Prop where
  exclusive : Exclusive key s h.working
  once : h.completed ≤ 1
  done : h.completed = 1 → s.stateOf key = some .completed ∨ ∃ t, h.working t = true

/-- The others leave the work of `t` alone, and do not charge while it lasts. -/
def chargeProtocol (key : String) : Protocol (ledgerMachine.observed (chargeObserver key)) where
  inv s := ChargedOnce key s.1 s.2
  rely t s s' := s'.2.working t = s.2.working t ∧
    (s.2.working t = true → s'.2.completed = s.2.completed)
  ok _ c _ s o := c.chargeOk key s.1 o = true
  refl _ _ := ⟨rfl, fun _ => rfl⟩
  trans _ _ _ _ h1 h2 := by
    refine ⟨h2.1.trans h1.1, fun ht => ?_⟩
    exact (h2.2 (h1.1.trans ht)).trans (h1.2 ht)

lemma ChargedOnce.completed_eq_zero (hc : ChargedOnce key s h)
    (hp : s.stateOf key ≠ some .inProgress) (hd : s.stateOf key ≠ some .completed) :
    h.completed = 0 := by
  have hone : h.completed ≠ 1 := by
    intro h1
    rcases hc.done h1 with hs | ⟨t, ht⟩
    · exact hd hs
    · exact hp (hc.exclusive.inProgress t ht)
  have := hc.once
  omega

lemma ChargedOnce.of_zero (hx : Exclusive key s h.working) (h0 : h.completed = 0) :
    ChargedOnce key s h :=
  ⟨hx, by omega, fun h1 => absurd h1 (by omega)⟩

lemma ChargedOnce.setNx (hc : ChargedOnce key s h) (hdoc : doc.state = some .inProgress)
    (ex : Nat) (o : Answer) (l : Session) :
    ChargedOnce key (exec o l s (.redis (.setNx key doc ex))).2.2
        { working := noteWorking key t (.redis (.setNx key doc ex))
            (exec o l s (.redis (.setNx key doc ex))).1 h.working
          completed := h.completed } ∧
      ((exec o l s (.redis (.setNx key doc ex))).1 = .ok true → h.completed = 0) := by
  cases hi : s.idem key with
  | some =>
    have he : (RedisCmd.setNx key doc ex).exec s = (false, s) := by simp only [RedisCmd.exec, hi]
    have hcases := exec_redis_cases (.setNx key doc ex) o l s
    rw [he] at hcases
    rcases hcases with h' | h' | h'
    all_goals
      rw [h']
      constructor
      · simpa [noteWorking, claims, records] using hc
      · intro hok
        cases hok
  | none =>
    have h0 := hc.completed_eq_zero (by simp [World.stateOf, hi]) (by simp [World.stateOf, hi])
    exact ⟨.of_zero (hc.exclusive.setNx hdoc ex o l) h0, fun _ => h0⟩

lemma ChargedOnce.set (hc : ChargedOnce key s h) (h0 : h.completed = 0)
    (hp : inPlace key t s h.working (.redis (.set key doc ex)) = true) (o : Answer) (l : Session) :
    ChargedOnce key (exec o l s (.redis (.set key doc ex))).2.2
      { working := noteWorking key t (.redis (.set key doc ex))
          (exec o l s (.redis (.set key doc ex))).1 h.working
        completed := h.completed } :=
  .of_zero (hc.exclusive.set hp o l) h0

lemma ChargedOnce.success (hc : ChargedOnce key s h) (ht : h.working t = true)
    (hdoc : doc.state = some .completed) (ho : o.fault = none) (l : Session) :
    ChargedOnce key (exec o l s (.redis (.set key doc ex))).2.2
      { working := noteWorking key t (.redis (.set key doc ex))
          (exec o l s (.redis (.set key doc ex))).1 h.working
        completed := h.completed } := by
  refine ⟨hc.exclusive.set (by simpa [inPlace, hdoc] using ht) o l, hc.once, fun _ => ?_⟩
  refine .inl ?_
  simp [exec, withFault, ho, RedisCmd.exec, World.stateOf, hdoc]

/-- Client `t` has claimed a key that was not charged. -/
def Claimed (t : Tid) (w : World × ChargeHistory) : Prop :=
  w.2.working t = true ∧ w.2.completed = 0

/-- What `check_or_acquire` gives: a replay, or the claim. -/
def Acquired (t : Tid) (r : Except LedgerError (Bool × Option IdempotencyDoc))
    (w : World × ChargeHistory) : Prop :=
  match r with
  | .ok (true, some _) => True
  | .ok _ => Claimed t w
  | .error _ => True

section Wp

lemma Claimed.stable (h : Claimed t w) (hr : (chargeProtocol key).rely t w w') : Claimed t w' :=
  ⟨hr.1.trans h.1, (hr.2 h.1).trans h.2⟩

variable [PyStr]

end Wp

/-! ## Runs -/

def LedgerEnv.expires (key : String) : LedgerEnv → Bool
  | .expireIdem k => k = key
  | _ => false

section Runs

variable [PyStr]

end Runs

/-! ### Two requests of one charge -/

def orderCharge : ChargeRequest :=
  { body := "order-1: 50 BDT", payload := { orderId := "order-1", amount := 50 } }

end CleanArch
