import CleanArch.Async.Semaphore

/-!
# The bulkhead

`Bulkhead` (`app/core/resilience/bulkhead.py`): a compartment that lets `max_concurrent` tasks in at
a time, and lets at most `max_queue` others wait. Who gets in is decided by an `asyncio.Semaphore`
(`Async/Semaphore.lean`); who may wait is decided by two counters of the bulkhead's own, which
change when a task runs and not when it is handed a slot.

- A suspended task remembers whether it is counted in `_waiting_count` (the tag of its waiter).
- `execute` and `decorate` enter and leave around a coroutine. The metrics and `reset` are left out.
-/

namespace CleanArch

open Async

structure BulkheadConfig where
  name : String := "default"
  maxConcurrent : Nat := 10
  maxQueue : Nat := 0
  one_le_maxConcurrent : 1 ≤ maxConcurrent := by decide

structure BulkheadFullException where
  compartment : String
  message : String
  code : String
  retryAfter : Nat
  deriving DecidableEq

structure Bulkhead where
  activeCount : Nat := 0
  waitingCount : Nat := 0
  rejectionsCount : Nat := 0
  totalCalls : Nat := 0
  totalSuccesses : Nat := 0
  totalFailures : Nat := 0
  semaphore : Semaphore Bool
  deriving DecidableEq

namespace Bulkhead

variable (cfg : BulkheadConfig) (t : Tid) (b : Bulkhead)

def fullException : BulkheadFullException where
  compartment := cfg.name
  message := "Bulkhead capacity for compartment '" ++ cfg.name ++ "' exceeded (" ++
    toString cfg.maxConcurrent ++ " concurrent, queue " ++ toString cfg.maxQueue ++
    "). Please retry later."
  code := "BULKHEAD_CAPACITY_EXCEEDED"
  retryAfter := 5

/-- How `__aenter__` ends, or that it is suspended. -/
inductive Entry where
  | entered
  | suspended
  | rejected (e : BulkheadFullException)
  | cancelled
  deriving DecidableEq

/-- `await sem.acquire()`, and the rest of `__aenter__` if it does not suspend. The waiting count
goes down again in a `finally`. -/
def acquire (counted : Bool) : Entry × Bulkhead :=
  match b.semaphore.acquire t counted with
  | (true, semaphore) =>
    (.entered, { b with
      semaphore
      waitingCount := if counted then b.waitingCount - 1 else b.waitingCount
      activeCount := b.activeCount + 1 })
  | (false, semaphore) => (.suspended, { b with semaphore })

/-- `__aenter__` up to its first suspension. -/
def aenter : Entry × Bulkhead :=
  let b := { b with totalCalls := b.totalCalls + 1 }
  if b.activeCount ≥ cfg.maxConcurrent then
    if b.waitingCount ≥ cfg.maxQueue then
      (.rejected (fullException cfg), { b with rejectionsCount := b.rejectionsCount + 1 })
    else
      acquire t { b with waitingCount := b.waitingCount + 1 } true
  else
    acquire t b false

/-- The rest of `__aenter__`, when the event loop runs a suspended task again. -/
def resume : Option (Entry × Bulkhead) :=
  (b.semaphore.resume t).map fun (counted, hasSlot, semaphore) =>
    let b := { b with
      semaphore
      waitingCount := if counted then b.waitingCount - 1 else b.waitingCount }
    if hasSlot then (.entered, { b with activeCount := b.activeCount + 1 }) else (.cancelled, b)

/-- `__aexit__`; `failed` if the body has raised. -/
def aexit (failed : Bool) : Bulkhead :=
  let b := { b with activeCount := b.activeCount - 1, semaphore := b.semaphore.release }
  if failed then { b with totalFailures := b.totalFailures + 1 }
  else { b with totalSuccesses := b.totalSuccesses + 1 }

end Bulkhead

end CleanArch
