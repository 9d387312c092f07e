import CleanArch.Ledger.Calls

/-!
# Mutual exclusion of the idempotency manager

At most one client works on a key at any moment, as long as each unconditional `SET` is in place
(`InPlace`). The code does not check what its second `SET` overwrites: two clients that both read a
`FAILED` record both claim the key.
-/

namespace CleanArch

open Async Function LedgerCmd Prog Protocol Sys

/-!
## The idempotency manager

`IdempotencyManager` (`app/core/idempotency.py`) over the shared Redis.

`managerSys` is the system of any number of clients of one key. Each runs any script of calls, and
goes on after an exception.
-/

namespace IdempotencyDoc

/-- `initial_payload`. -/
def inProgress (requestHash : String) : IdempotencyDoc :=
  { state := some .inProgress, requestHash := some requestHash }

def completedRecord (requestHash : String) (statusCode : Nat) (body : PaymentChargeResponse) :
    IdempotencyDoc :=
  { state := some .completed, requestHash := some requestHash, statusCode := some statusCode,
    responseBody := some body }

/-- `failed_record`: an error without a text is stored as "Operation failed". -/
def failedRecord (errorDetail : Option String) : IdempotencyDoc :=
  { state := some .failed,
    error := some (match errorDetail with
      | some e => if e = "" then "Operation failed" else e
      | none => "Operation failed") }

/-- `stored_hash and stored_hash != request_hash`: an empty hash is no hash. -/
def tampered (record : IdempotencyDoc) (requestHash : String) : Bool :=
  match record.requestHash with
  | some h => h ≠ "" && h ≠ requestHash
  | none => false

end IdempotencyDoc

/-- `check_or_acquire`: `(True, record)` is a replay, `(False, None)` a claim. -/
def checkOrAcquire (key requestHash : String) (ttlSeconds : Nat := 86400) :
    LedgerProg (Bool × Option IdempotencyDoc) := do
  if ← redis (.setNx key (.inProgress requestHash) ttlSeconds) then
    return (false, none)
  else
    match ← redis (.get key) with
    | none =>
      -- the key expired after the `SET NX`
      redis (.set key (.inProgress requestHash) ttlSeconds)
      return (false, none)
    | some record =>
      if record.tampered requestHash then
        throw (.httpException 422 "Idempotency key reused with different payload parameters.")
      else
        match record.state with
        | some .inProgress =>
          throw (.httpException 409
            "A request with this idempotency key is currently in progress. Please wait.")
        | some .completed => return (true, some record)
        -- FAILED, or a record without a state
        | _ =>
          redis (.set key (.inProgress requestHash) ttlSeconds)
          return (false, none)

def recordSuccess (key requestHash : String) (statusCode : Nat)
    (responseBody : PaymentChargeResponse) (ttlSeconds : Nat := 86400) : LedgerProg Unit :=
  redis (.set key (.completedRecord requestHash statusCode responseBody) ttlSeconds)

def recordFailure (key : String) (errorDetail : Option String := none)
    (ttlSeconds : Nat := 3600) : LedgerProg Unit :=
  redis (.set key (.failedRecord errorDetail) ttlSeconds)

/-! ## Clients -/

inductive ManagerCall where
  | checkOrAcquire (requestHash : String) (ttlSeconds : Nat)
  | recordSuccess (requestHash : String) (statusCode : Nat) (responseBody : PaymentChargeResponse)
      (ttlSeconds : Nat)
  | recordFailure (errorDetail : Option String) (ttlSeconds : Nat)

def ManagerCall.prog (key : String) : ManagerCall → LedgerProg Unit
  | .checkOrAcquire hash ttl => do
    let _ ← CleanArch.checkOrAcquire key hash ttl
    return ()
  | .recordSuccess hash code body ttl => CleanArch.recordSuccess key hash code body ttl
  | .recordFailure error ttl => CleanArch.recordFailure key error ttl

def client (key : String) : List ManagerCall → LedgerProg Unit
  | [] => return ()
  | c :: cs => do
    try c.prog key catch _ => pure ()
    client key cs

@[reducible] def managerSys (key : String) (scripts : Tid → List ManagerCall) : Sys where
  toMachine := ledgerMachine
  Env := LedgerEnv
  env e s := e.exec s
  A := Unit
  prog t := client key (scripts t)
  loc _ := {}

/-! ## Who is working -/

/-- `idempotency:{key}` has a record in this state. -/
def World.stateOf (s : World) (key : String) : Option IdempotencyState :=
  (s.idem key).bind (·.state)

/-- With this answer, the request makes `check_or_acquire` return `(False, None)`. -/
def LedgerCmd.claims (key : String) : (c : LedgerCmd) → Except LedgerError c.Res → Bool
  | .redis (.setNx k _ _), .ok won => k = key && won
  | .redis (.set k doc _), .ok _ => k = key && doc.state = some .inProgress
  | _, _ => false

/-- The request is the one of `record_success` or `record_failure`. -/
def LedgerCmd.records (key : String) : LedgerCmd → Bool
  | .redis (.set k doc _) => k = key && doc.state ≠ some .inProgress
  | _ => false

/-- The working clients after a request of client `t`. -/
def noteWorking (key : String) (t : Tid) (c : LedgerCmd) (r : Except LedgerError c.Res)
    (working : Tid → Bool) : Tid → Bool :=
  if c.claims key r then Function.update working t true
  else if c.records key then Function.update working t false
  else working

def noteExpiry (key : String) (working : Tid → Bool) : LedgerEnv → Tid → Bool
  | .expireIdem k => if k = key then fun _ => false else working
  | _ => working

@[reducible] def workingObserver (key : String) : Observer ledgerMachine LedgerEnv where
  H := Tid → Bool
  turn t c r _ _ working := noteWorking key t c r working
  world e working := noteExpiry key working e

structure Exclusive (key : String) (s : World) (working : Tid → Bool) : Prop where
  inProgress : ∀ t, working t = true → s.stateOf key = some .inProgress
  unique : ∀ t u, working t = true → working u = true → t = u

def LedgerCmd.inPlace (key : String) (t : Tid) (s : World) (working : Tid → Bool) : LedgerCmd → Bool
  | .redis (.set _ doc _) =>
    if doc.state = some .inProgress then s.stateOf key ≠ some .inProgress else working t
  | _ => true

def ManagerCmd (key : String) : LedgerCmd → Prop
  | .redis (.get k) => k = key
  | .redis (.setNx k doc _) => k = key ∧ doc.state = some .inProgress
  | .redis (.set k _ _) => k = key
  | _ => False

section Step

variable {key : String} {s : World} {working : Tid → Bool} {t : Tid}

lemma Exclusive.working_eq_false (h : Exclusive key s working)
    (hs : s.stateOf key ≠ some .inProgress) (t : Tid) : working t = false := by
  by_contra ht
  exact hs (h.inProgress t (by simpa using ht))

lemma Exclusive.of_none (h : ∀ t, working t = false) : Exclusive key s working where
  inProgress t ht := by rw [h t] at ht; cases ht
  unique t u ht := by rw [h t] at ht; cases ht

lemma Exclusive.claim (h : ∀ u, working u = false) (hs : s.stateOf key = some .inProgress) :
    Exclusive key s (update working t true) := by
  have ht : ∀ u, update working t true u = true → u = t := by
    intro u hu
    by_contra hne
    rw [update_of_ne hne, h u] at hu
    cases hu
  exact ⟨fun _ _ => hs, fun u v hu hv => (ht u hu).trans (ht v hv).symm⟩

lemma Exclusive.release (h : Exclusive key s working) (ht : working t = true) :
    Exclusive key s' (update working t false) := by
  refine .of_none fun u => ?_
  by_cases hu : u = t
  · rw [hu, update_self]
  · rw [update_of_ne hu]
    by_contra hw
    exact hu (h.unique u t (by simpa using hw) ht)

lemma Exclusive.setNx (h : Exclusive key s working) (hdoc : doc.state = some .inProgress)
    (ex : Nat) (o : Answer) (l : Session) :
    Exclusive key (exec o l s (.redis (.setNx key doc ex))).2.2
      (noteWorking key t (.redis (.setNx key doc ex))
        (exec o l s (.redis (.setNx key doc ex))).1 working) := by
  cases hi : s.idem key with
  | some =>
    have he : (RedisCmd.setNx key doc ex).exec s = (false, s) := by simp only [RedisCmd.exec, hi]
    have hcases := exec_redis_cases (.setNx key doc ex) o l s
    rw [he] at hcases
    rcases hcases with hc | hc | hc
    all_goals
      rw [hc]
      simpa [noteWorking, claims, records] using h
  | none =>
    have he : (RedisCmd.setNx key doc ex).exec s =
        (true, { s with idem := update s.idem key (some doc) }) := by
      simp only [RedisCmd.exec, hi]
    have hnone := h.working_eq_false (by simp [World.stateOf, hi])
    rcases exec_redis_cases (.setNx key doc ex) o l s with hc | hc | hc
    · rw [hc, he]
      simpa [noteWorking, claims] using Exclusive.claim hnone (by simp [World.stateOf, hdoc])
    · rw [hc]
      simpa [noteWorking, claims, records] using h
    · rw [hc, he]
      simpa [noteWorking, claims, records] using Exclusive.of_none hnone

lemma Exclusive.set (h : Exclusive key s working)
    (hc : inPlace key t s working (.redis (.set key doc ex)) = true) (o : Answer) (l : Session) :
    Exclusive key (exec o l s (.redis (.set key doc ex))).2.2
      (noteWorking key t (.redis (.set key doc ex))
        (exec o l s (.redis (.set key doc ex))).1 working) := by
  by_cases hdoc : doc.state = some .inProgress
  · have hnone := h.working_eq_false (by simpa [inPlace, hdoc] using hc)
    rcases exec_redis_cases (.set key doc ex) o l s with he | he | he
    · rw [he]
      simpa [noteWorking, claims, hdoc] using
        Exclusive.claim hnone (by simp [RedisCmd.exec, World.stateOf, hdoc])
    all_goals
      rw [he]
      simpa [noteWorking, claims, records, hdoc] using Exclusive.of_none hnone
  · have ht : working t = true := by simpa [inPlace, hdoc] using hc
    rcases exec_redis_cases (.set key doc ex) o l s with he | he | he
    all_goals
      rw [he]
      simpa [noteWorking, claims, records, hdoc] using h.release ht

lemma Exclusive.step (h : Exclusive key s working) {c : LedgerCmd} (hm : ManagerCmd key c)
    (hc : c.inPlace key t s working = true) (o : Answer) (l : Session) :
    Exclusive key (c.exec o l s).2.2 (noteWorking key t c (c.exec o l s).1 working) := by
  cases c with
  | redis c =>
    cases c with
    | get k =>
      rcases exec_redis_cases (.get k) o l s with he | he | he
      all_goals
        rw [he]
        exact h
    | setNx k doc ex =>
      obtain ⟨rfl, hdoc⟩ := hm
      exact h.setNx hdoc ex o l
    | set k =>
      cases (hm : k = key)
      exact h.set hc o l
    | _ => exact hm.elim
  | _ => exact hm.elim

lemma Exclusive.expire (h : Exclusive key s working) (e : LedgerEnv) :
    Exclusive key (e.exec s) (noteExpiry key working e) := by
  cases e with
  | expireIdem k =>
    by_cases hk : k = key
    · simpa [noteExpiry, hk] using Exclusive.of_none fun _ => rfl
    · refine ⟨fun t ht => ?_, fun t u ht hu => ?_⟩
      · simp only [noteExpiry, if_neg hk] at ht
        simpa only [World.stateOf, LedgerEnv.exec, update_of_ne (Ne.symm hk)] using
          h.inProgress t ht
      · simp only [noteExpiry, if_neg hk] at ht hu
        exact h.unique t u ht hu
  | expireLock | expireVelocity => exact ⟨h.inProgress, h.unique⟩

end Step

/-! ## Runs -/

def exclusionProtocol (key : String) : Protocol (ledgerMachine.observed (workingObserver key)) where
  inv s := Exclusive key s.1 s.2
  rely _ _ _ := True
  ok t c _ s _ := c.inPlace key t s.1 s.2 = true
  refl _ _ := trivial
  trans _ _ _ _ _ _ := trivial

lemma checkOrAcquire_within (hash : String) :
    (checkOrAcquire key hash ttl).Only (ManagerCmd key) := by
  have hset : ((redis (.set key (.inProgress hash) ttl)).bind fun _ =>
      (.ret (false, none) : LedgerProg (Bool × Option IdempotencyDoc))).Only (ManagerCmd key) :=
    within_call_bind rfl fun _ => trivial
  refine within_call_bind ⟨rfl, rfl⟩ fun won => ?_
  refine within_ite (fun _ => trivial) fun _ => ?_
  refine within_call_bind rfl fun cached => ?_
  cases cached with
  | none => exact hset
  | some record =>
    refine within_ite (fun _ => trivial) fun _ => ?_
    cases record.state with
    | none => exact hset
    | some state =>
      cases state with
      | inProgress | completed => trivial
      | failed => exact hset

lemma client_within : (client key script).Only (ManagerCmd key) := by
  induction script with
  | nil => trivial
  | cons c cs ih =>
    refine within_bind (within_handle ?_ fun _ _ => trivial) fun _ => ih
    cases c with
    | checkOrAcquire hash ttl =>
      exact within_bind (checkOrAcquire_within hash) fun _ => trivial
    | recordSuccess | recordFailure => exact within_call rfl

abbrev InPlace (key : String) (scripts : Tid → List ManagerCall) :
    ((managerSys key scripts).observed (workingObserver key)).Config →
      ((managerSys key scripts).observed (workingObserver key)).Event → Prop :=
  Asks (fun t r _ w _ => inPlace key t w.1 w.2 r = true) fun _ _ => True

/-- **Mutual exclusion.** Clients with any scripts run under any schedule, with any faults and
expired keys. If every `SET` is in place, at most one client is working in every state. -/
theorem manager_mutual_exclusion (key : String) (scripts : Tid → List ManagerCall) (s : World)
    (es : List ((managerSys key scripts).observed (workingObserver key)).Event)
    (hes : RunOk (InPlace key scripts) (start (s, fun _ => false)) es) :
    ∀ t u, (run (start (s, fun _ => false)) es).sh.2 t = true →
      (run (start (s, fun _ => false)) es).sh.2 u = true → t = u := by
  have henv : ∀ (e : LedgerEnv) s, (exclusionProtocol key).inv s → True →
      (exclusionProtocol key).inv (e.exec s.1, noteExpiry key s.2 e) ∧ ∀ _ : Tid, True :=
    fun e s hi _ => ⟨Exclusive.expire hi e, fun _ => trivial⟩
  refine (sound (S := (managerSys key scripts).observed (workingObserver key))
    (P := exclusionProtocol key) (Q := fun _ _ _ _ => True) henv ?_ hes).1.unique
  refine Holds.start (.of_none fun _ => rfl) fun t => ?_
  refine wp_mono (wp_within (I := fun _ _ => True) (fun _ _ _ _ _ => trivial)
    (fun c o l s hm hi _ ho => ?_) (client_within) trivial) fun _ _ _ _ _ => trivial
  exact ⟨⟨trivial, Exclusive.step hi hm ho o l, fun _ _ => trivial⟩, trivial, fun _ _ => trivial⟩

/-! ### A failed operation and its retries -/

def retryScripts : Tid → List ManagerCall
  | 0 => [.checkOrAcquire "hash" 86400, .recordFailure none 3600]
  | _ => [.checkOrAcquire "hash" 86400]

@[reducible] def retrySys : Sys :=
  (managerSys "key-0001" retryScripts).observed (workingObserver "key-0001")

def retryOrder (ts : List Tid) : List retrySys.Event := ts.map fun t => .turn t {}

def retryState (ts : List Tid) : retrySys.Config :=
  run (start ({}, fun _ => false)) (retryOrder ts)

/-- One retry after the failure: client 1 works alone. -/
theorem manager_mutual_exclusion_retry : (retryState [0, 0, 1, 1, 1]).sh.2 1 = true ∧
      ∀ t u, (retryState [0, 0, 1, 1, 1]).sh.2 t = true →
        (retryState [0, 0, 1, 1, 1]).sh.2 u = true → t = u :=
  ⟨by decide +kernel, manager_mutual_exclusion "key-0001" retryScripts {}
    (retryOrder [0, 0, 1, 1, 1]) (by decide +kernel)⟩

/-- Two retries that both read the `FAILED` record: both clients work, and no key has expired. -/
theorem manager_exclusion_race : (retryState [0, 0, 1, 1, 2, 2, 1, 2]).sh.2 1 = true ∧
      (retryState [0, 0, 1, 1, 2, 2, 1, 2]).sh.2 2 = true := by
  decide +kernel

end CleanArch
