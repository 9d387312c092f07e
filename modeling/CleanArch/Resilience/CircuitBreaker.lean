import CleanArch.Async.Sys
import CleanArch.Ledger.Types

/-!
# The circuit breaker

`CircuitBreaker` (`app/core/resilience/circuit_breaker.py`); `reset` and the metrics are left out.
`execute_async` is interrupted at one place, its `await func(…)`: what it does before the await is
one request (`beforeCall`), and what it does from the end of the await on is another (`func`). The
clock is a part of the shared state that only goes forward. Its readings are exact numbers: the
rounding of the float `now - last_state_change_time` is left out.
-/

namespace CleanArch

open Async

inductive CircuitState where
  | closed
  | open
  | halfOpen
  deriving DecidableEq

structure BreakerConfig where
  name : String := "default"
  failureThreshold : Nat := 5
  recoveryTimeout : Time := 30
  halfOpenSuccessThreshold : Nat := 2
  one_le_failureThreshold : 1 ≤ failureThreshold := by decide
  recoveryTimeout_pos : 0 < recoveryTimeout := by decide
  one_le_halfOpenSuccessThreshold : 1 ≤ halfOpenSuccessThreshold := by decide

structure CircuitBreaker where
  state : CircuitState := .closed
  consecutiveFailures : Nat := 0
  consecutiveSuccesses : Nat := 0
  lastStateChangeTime : Time
  lastFailureTime : Option Time := none
  totalCalls : Nat := 0
  totalSuccesses : Nat := 0
  totalFailures : Nat := 0
  totalShortCircuits : Nat := 0

inductive BreakerError where
  | circuitBreakerOpen (message code : String) (recoveryTimeout : Time)
  /-- Any other exception of `func`, a cancellation included. -/
  | exception (message : String)
  deriving DecidableEq

namespace CircuitBreaker

variable (cfg : BreakerConfig) (now : Time) (b : CircuitBreaker)

def evaluateState : CircuitBreaker :=
  if b.state = .open ∧ now - b.lastStateChangeTime ≥ cfg.recoveryTimeout then
    { b with
      state := .halfOpen
      consecutiveFailures := 0
      consecutiveSuccesses := 0
      lastStateChangeTime := now }
  else b

/-- The exception of `_before_call`. -/
def openException : BreakerError :=
  .circuitBreakerOpen
    ("Downstream service is unavailable. Circuit breaker [" ++ cfg.name ++
      "] is OPEN. Please retry later.")
    "CIRCUIT_BREAKER_OPEN" cfg.recoveryTimeout

def beforeCall : Except BreakerError Unit × CircuitBreaker :=
  let b := b.evaluateState cfg now
  if b.state = .open then
    (.error (openException cfg), { b with totalShortCircuits := b.totalShortCircuits + 1 })
  else
    (.ok (), { b with totalCalls := b.totalCalls + 1 })

def onSuccess : CircuitBreaker :=
  let b := { b with totalSuccesses := b.totalSuccesses + 1 }
  match b.state with
  | .halfOpen =>
    let b := { b with consecutiveSuccesses := b.consecutiveSuccesses + 1 }
    if b.consecutiveSuccesses ≥ cfg.halfOpenSuccessThreshold then
      { b with
        state := .closed
        consecutiveFailures := 0
        consecutiveSuccesses := 0
        lastStateChangeTime := now }
    else b
  | .closed => { b with consecutiveFailures := 0 }
  | .open => b

def onFailure : CircuitBreaker :=
  let b := { b with totalFailures := b.totalFailures + 1, lastFailureTime := some now }
  match b.state with
  | .halfOpen =>
    { b with
      state := .open
      consecutiveFailures := 1
      consecutiveSuccesses := 0
      lastStateChangeTime := now }
  | .closed =>
    let b := { b with consecutiveFailures := b.consecutiveFailures + 1 }
    if b.consecutiveFailures ≥ cfg.failureThreshold then
      { b with state := .open, consecutiveSuccesses := 0, lastStateChangeTime := now }
    else b
  | .open => b

end CircuitBreaker

/-! ## Calls -/

/-- How `func` ends. -/
inductive FuncOutcome where
  | returns (result : String)
  /-- `func` itself raises a `CircuitBreakerOpenException`, of a breaker inside it. -/
  | opens (message code : String) (recoveryTimeout : Time)
  | raises (message : String)
  deriving DecidableEq

inductive BreakerCmd where
  | beforeCall
  /-- `await func(*args, **kwargs)`, and the end of the call. -/
  | func
  /-- The property `state`. -/
  | readState
  deriving DecidableEq

@[reducible] def BreakerCmd.Res : BreakerCmd → Type
  | .beforeCall => Unit
  | .func => String
  | .readState => CircuitState

structure BreakerWorld where
  now : Time
  breaker : CircuitBreaker

def BreakerCmd.exec (cfg : BreakerConfig) (o : FuncOutcome) (s : BreakerWorld) :
    (c : BreakerCmd) → Except BreakerError c.Res × Unit × BreakerWorld
  | .beforeCall =>
    let r := s.breaker.beforeCall cfg s.now
    (r.1, (), { s with breaker := r.2 })
  | .func =>
    match o with
    | .returns result => (.ok result, (), { s with breaker := s.breaker.onSuccess cfg s.now })
    | .opens message code recoveryTimeout =>
      (.error (.circuitBreakerOpen message code recoveryTimeout), (), s)
    | .raises message =>
      (.error (.exception message), (), { s with breaker := s.breaker.onFailure cfg s.now })
  | .readState =>
    let b := s.breaker.evaluateState cfg s.now
    (.ok b.state, (), { s with breaker := b })

abbrev BreakerProg := Prog BreakerCmd BreakerCmd.Res BreakerError

inductive BreakerCall where
  | executeAsync
  | execute
  | state
  deriving DecidableEq

inductive BreakerResult where
  | result (r : String)
  | state (s : CircuitState)
  deriving DecidableEq

def executeAsync : BreakerProg String := do
  Prog.call BreakerCmd.beforeCall
  Prog.call BreakerCmd.func

def execute : BreakerProg String := do
  Prog.call BreakerCmd.beforeCall
  Prog.call BreakerCmd.func

def BreakerCall.prog : BreakerCall → BreakerProg BreakerResult
  | .executeAsync => return .result (← CleanArch.executeAsync)
  | .execute => return .result (← CleanArch.execute)
  | .state => return .state (← Prog.call BreakerCmd.readState)

@[reducible] def breakerSys (cfg : BreakerConfig) (calls : Tid → BreakerCall) : Sys where
  Cmd := BreakerCmd
  Res := BreakerCmd.Res
  Err := BreakerError
  Loc := Unit
  Sh := BreakerWorld
  Out := FuncOutcome
  exec _ c o _ s := c.exec cfg o s
  Env := ℚ≥0
  env elapsed s := { s with now := s.now + elapsed }
  A := BreakerResult
  prog t := (calls t).prog
  loc _ := ()

def newBreaker (now : Time) : BreakerWorld := { now, breaker := { lastStateChangeTime := now } }

end CleanArch
