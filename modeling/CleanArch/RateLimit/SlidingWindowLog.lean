import CleanArch.Assoc.Ordered
import CleanArch.Ledger.Types

/-!
# The in-memory rate limiter

`SlidingWindowLog` (`app/core/dsa/sliding_window.py`): for every client the queue of its accepted
requests that are still in the window, and the time of the last one. A call holds the lock from its
first access to its last, so it is one step. `now` is the optional argument of a call and `clock`
what `time.time()` returns.
-/

namespace CleanArch

open Assoc List

structure SlidingWindowLog (Client : Type) where
  windowSeconds : Time
  maxRequests : Nat
  store : List (Client × List Time) := []
  lastSeen : List (Client × Time) := []
  windowSeconds_pos : 0 < windowSeconds
  maxRequests_pos : 0 < maxRequests

namespace SlidingWindowLog

variable {Client : Type}

/-- `__init__`; the error is the text of the `ValueError`. -/
def init (windowSeconds : Time) (maxRequests : Int) : Except String (SlidingWindowLog Client) :=
  if hw : windowSeconds ≤ 0 then throw "window_seconds must be strictly positive"
  else if hm : maxRequests ≤ 0 then throw "max_requests must be strictly positive"
  else pure
    { windowSeconds := windowSeconds
      maxRequests := maxRequests.toNat
      windowSeconds_pos := not_le.mp hw
      maxRequests_pos := by omega }

/-- Whether the request is allowed, the number of requests in the window, and `retry_after`. -/
structure Check where
  allowed : Bool
  count : Nat
  retryAfter : Time
  deriving DecidableEq

lemma ne_nil_of_full (limiter : SlidingWindowLog Client) {queue : List Time}
    (h : limiter.maxRequests ≤ queue.length) : queue ≠ [] :=
  ne_nil_of_length_pos (limiter.maxRequests_pos.trans_le h)

variable [DecidableEq Client]

def queue (limiter : SlidingWindowLog Client) (clientId : Client) : List Time :=
  (find limiter.store clientId).getD []

def recordAndCheck (clientId : Client) (now : Option Time) (clock : Time)
    (limiter : SlidingWindowLog Client) : Check × SlidingWindowLog Client :=
  let currentTime := now.getD clock
  let threshold := currentTime - limiter.windowSeconds
  let queue := (limiter.queue clientId).dropWhile (· ≤ threshold)
  if h : limiter.maxRequests ≤ queue.length then
    let oldestTimestamp := queue.head (limiter.ne_nil_of_full h)
    let retryAfter := max 0 ((oldestTimestamp + limiter.windowSeconds) - currentTime)
    -- the queue object is in the store: the pops stay
    (⟨false, queue.length, retryAfter⟩,
      { limiter with store := set limiter.store clientId queue })
  else
    let queue := queue ++ [currentTime]
    (⟨true, queue.length, 0⟩,
      { limiter with
        store := set limiter.store clientId queue
        lastSeen := set limiter.lastSeen clientId currentTime })

/-- `[client_id for client_id, last_time in self._last_seen.items() if last_time < …]`. -/
def staleKeys (staleThreshold : Time) (limiter : SlidingWindowLog Client) : List Client :=
  (limiter.lastSeen.filter fun p => p.2 < staleThreshold).map (·.1)

def evictIdleClients (idleSeconds : Time) (now : Option Time) (clock : Time)
    (limiter : SlidingWindowLog Client) : Nat × SlidingWindowLog Client :=
  let currentTime := now.getD clock
  let stale := limiter.staleKeys (currentTime - idleSeconds)
  (stale.length,
    { limiter with
      store := stale.foldl erase limiter.store
      lastSeen := stale.foldl erase limiter.lastSeen })

end SlidingWindowLog
end CleanArch
