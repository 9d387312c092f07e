import CleanArch.Async.Phases
import CleanArch.Async.Sys
import CleanArch.Cache.XFetch
import Mathlib.Algebra.Field.Rat

/-!
# Concurrent early refreshes

Calls of `xfetch_get_or_compute` (`app/services/cache_service.py`) on one key, at any interleaving
of their awaits, with a Redis that answers and a lock whose ten seconds never elapse. The stored
text can expire at any time, and `compute_func` is one await with any outcome.

The lock names no owner, and every call that has computed deletes it, whether it took it or not.
-/

namespace CleanArch

open Async Function Prog Sys

variable {V : Type}

/-! ## Requests -/

inductive FetchMetric where
  | hits
  | early
  | misses
  deriving DecidableEq

/-- What `XFetchEnvelope.from_json` makes of the text of the key: none if it raises. -/
abbrev FetchText (V : Type) := Option (XFetchEnvelope ℚ V)

inductive FetchCmd (V : Type) where
  | getStr
  | record (m : FetchMetric)
  | setLock
  | compute
  | deleteLock
  | setStr (envelope : XFetchEnvelope ℚ V)
  deriving DecidableEq

@[reducible] def FetchCmd.Res : FetchCmd V → Type
  | .getStr => Option (FetchText V)
  | .setLock => Bool
  | .compute => V × ℚ
  | .record _ | .deleteLock | .setStr _ => Unit

/-- The key and the lock `lock:{key}:recompute`. -/
structure FetchRedis (V : Type) where
  text : Option (FetchText V) := none
  locked : Bool := false

/-- The outcome of `compute_func`: its value and the time it took, or an exception. -/
abbrev FetchOut (V : Type) := Except String (V × ℚ)

def FetchCmd.exec (o : FetchOut V) (s : FetchRedis V) :
    (c : FetchCmd V) → Except String c.Res × FetchRedis V
  | .getStr => (.ok s.text, s)
  | .setLock => (.ok !s.locked, { s with locked := true })
  | .compute => (o, s)
  | .record _ => (.ok (), s)
  | .deleteLock => (.ok (), { s with locked := false })
  | .setStr envelope => (.ok (), { s with text := some (some envelope) })

/-! ## The call -/

/-- The arguments of a call, its reading of the clock and its random number. -/
structure FetchCall where
  ttl : ℚ := 300
  beta : ℚ := 1
  randVal : Option ℚ := none
  currentTime : ℚ
  fresh : ℚ := 1

abbrev FetchProg (V α : Type) := Prog (FetchCmd V) FetchCmd.Res String α

def fetch (c : FetchCmd V) : FetchProg V c.Res := call c

namespace FetchCall

variable (log : ℚ → ℚ) (a : FetchCall)

/-- The value to serve without a computation, if any. -/
def serveStored : Option (FetchText V) → FetchProg V (Option V)
  | none => do
    fetch (.record .misses)
    return none
  -- the exception of `from_json` is logged
  | some none => return none
  | some (some envelope) => do
    if shouldRecompute log envelope.delta envelope.expiry a.currentTime a.beta a.randVal
        a.fresh then
      let acquired ← fetch .setLock
      if acquired then
        fetch (.record .early)
        return none
    fetch (.record .hits)
    return some envelope.val

def computeFresh : FetchProg V V := do
  let (val, elapsed) ← Prog.ensure (fetch .compute) (fetch .deleteLock)
  fetch (.setStr ⟨val, max elapsed (1 / 1000), a.currentTime + a.ttl⟩)
  return val

def xfetchGetOrCompute : FetchProg V V := do
  let raw ← fetch .getStr
  match ← a.serveStored log raw with
  | some val => return val
  | none => a.computeFresh

end FetchCall

/-! ## Phases -/

/-- How far a call has come. -/
inductive FetchPhase where
  | begun
  /-- It found no envelope, and computes without the lock. -/
  | missed
  /-- It found an envelope. -/
  | found
  /-- It found an envelope and took the lock. -/
  | holds
  /-- It found an envelope, took the lock and deleted it. -/
  | released
  deriving DecidableEq

def FetchPhase.foundEnvelope : FetchPhase → Bool
  | .begun | .missed => false
  | .found | .holds | .released => true

def FetchPhase.next : FetchPhase → (c : FetchCmd V) → Except String c.Res → FetchPhase
  | .begun, .getStr, .ok (some (some _)) => .found
  | .begun, .getStr, _ => .missed
  | .found, .setLock, .ok true => .holds
  | .holds, .deleteLock, _ => .released
  | q, _, _ => q

/-- The requests of a phase. -/
def FetchPhase.allows : FetchPhase → FetchCmd V → Bool
  | .begun, .getStr => true
  | .missed, .record .misses | .missed, .compute | .missed, .deleteLock | .missed, .setStr _ => true
  | .found, .setLock | .found, .record .hits => true
  | .holds, .record .early | .holds, .compute | .holds, .deleteLock => true
  | .released, .setStr _ => true
  | _, _ => false

@[reducible] def fetchPhases (V : Type) : Phases (FetchCmd V) FetchCmd.Res String where
  Phase := FetchPhase
  possible _ _ := True
  allowed q c := q.allows c = true
  next := FetchPhase.next

section Follows

open Phases

lemma computeFresh_follows (a : FetchCall) (hq : q = .missed ∨ q = .holds) :
    (fetchPhases V).Follows a.computeFresh (fun _ _ => True) q := by
  rcases hq with rfl | rfl <;>
  · refine follows_bind (follows_bind (follows_attempt (follows_call rfl fun r _ => ?_)))
    refine follows_call_bind rfl (fun _ _ => follows_ofExcept ?_) fun _ _ => trivial
    cases r with
    | ok => exact follows_call_bind rfl (fun _ _ => trivial) fun _ _ => trivial
    | error => trivial

lemma serveStored_follows (log : ℚ → ℚ) (a : FetchCall) :
    (fetchPhases V).Follows (a.serveStored log (some (some envelope)))
      (fun r q => r = .ok none → q = .holds) .found := by
  refine follows_ite (fun _ => ?_) fun _ => ?_
  · refine follows_call_bind rfl (fun acquired _ => ?_) (by nofun)
    cases acquired with
    | true => exact follows_call_bind rfl (fun _ _ _ => rfl) (by nofun)
    | false => exact follows_call_bind rfl (by nofun) (by nofun)
  · exact follows_call_bind rfl (by nofun) (by nofun)

lemma xfetchGetOrCompute_follows (log : ℚ → ℚ) (a : FetchCall) :
    (fetchPhases V).Follows (a.xfetchGetOrCompute log) (fun _ _ => True) .begun := by
  refine follows_call_bind rfl (fun raw _ => ?_) (fun _ _ => trivial)
  rcases raw with _ | _ | envelope
  · refine follows_bind (follows_call_bind rfl (fun _ _ => ?_) fun _ _ => trivial)
    exact computeFresh_follows a (.inl rfl)
  · exact computeFresh_follows a (.inl rfl)
  · refine follows_bind ((serveStored_follows log a).mono ?_)
    rintro (_ | _ | _) q hq
    · trivial
    · exact computeFresh_follows a (.inr (hq rfl))
    · trivial

end Follows

/-! ## Runs -/

@[reducible] def fetchSys (log : ℚ → ℚ) (calls : Tid → FetchCall) : Sys where
  Cmd := FetchCmd V
  Res := FetchCmd.Res
  Err := String
  Loc := FetchPhase
  Sh := FetchRedis V
  Out := FetchOut V
  exec _ c o q s := ((c.exec o s).1, q.next c (c.exec o s).1, (c.exec o s).2)
  Env := Unit
  -- the physical TTL of the key
  env _ s := { s with text := none }
  A := V
  prog t := (calls t).xfetchGetOrCompute log
  loc _ := .begun

namespace FetchCall

variable {log : ℚ → ℚ} {calls : Tid → FetchCall}

/-- The call has found an envelope and executes `compute_func`. -/
def RefreshesEarly (c : (fetchSys (V := V) log calls).Config) (t : Tid) : Prop :=
  (c.thr t).1.foundEnvelope = true ∧ (c.thr t).2.next? = some .compute

/-- A call that has computed without the lock deletes it only while no other call holds it. -/
def LeavesLock (c : (fetchSys (V := V) log calls).Config) :
    (fetchSys (V := V) log calls).Event → Prop
  | .turn t _ => (c.thr t).1 = .missed → (c.thr t).2.next? = some .deleteLock →
      ∀ u, (c.thr u).1 ≠ .holds
  | .world _ => True

/-- At most one call holds the lock. -/
structure Held (locked : Bool) (phase : Tid → FetchPhase) : Prop where
  locked : ∀ t, phase t = .holds → locked = true
  unique : ∀ t u, phase t = .holds → phase u = .holds → t = u

namespace Held

variable {locked : Bool} {phase : Tid → FetchPhase} {t : Tid}

lemma of_free (h : ∀ u, u ≠ t → phase u ≠ .holds) (hq : q ≠ .holds) :
    Held locked (update phase t q) := by
  have hfree : ∀ u, update phase t q u ≠ .holds := by
    intro u
    by_cases hut : u = t
    · rwa [hut, update_self]
    · rw [update_of_ne hut]
      exact h u hut
  exact ⟨fun u hu => absurd hu (hfree u), fun u _ hu => absurd hu (hfree u)⟩

lemma keep (h : Held locked phase) (hq : q = .holds → phase t = .holds) :
    Held locked (update phase t q) := by
  have hback : ∀ u, update phase t q u = .holds → phase u = .holds := by
    intro u hu
    by_cases hut : u = t
    · rw [hut, update_self] at hu
      rw [hut, hq hu]
    · rwa [update_of_ne hut] at hu
  exact ⟨fun u hu => h.locked u (hback u hu),
    fun u v hu hv => h.unique u v (hback u hu) (hback v hv)⟩

lemma take (h : ∀ u, phase u ≠ .holds) : Held true (update phase t .holds) := by
  have hself : ∀ u, update phase t .holds u = .holds → u = t := by
    intro u hu
    by_contra hut
    rw [update_of_ne hut] at hu
    exact h u hu
  exact ⟨fun _ _ => rfl, fun u v hu hv => (hself u hu).trans (hself v hv).symm⟩

/-- One request. -/
lemma step (h : Held locked phase) {c : FetchCmd V} (hc : (phase t).allows c = true)
    (hdelete : phase t = .missed → c = .deleteLock → ∀ u, phase u ≠ .holds) (o : FetchOut V)
    {s : FetchRedis V} (hs : s.locked = locked) :
    Held (c.exec o s).2.locked (update phase t ((phase t).next c (c.exec o s).1)) := by
  subst hs
  cases c with
  | getStr =>
    refine h.keep fun hnext => ?_
    cases hq : phase t with
    | begun =>
      rw [hq] at hnext
      rcases ht : s.text with _ | _ | _ <;> simp [FetchPhase.next, FetchCmd.exec, ht] at hnext
    | holds => rfl
    | missed | found | released => rw [hq] at hc; cases hc
  | setLock =>
    cases hq : phase t with
    | found =>
      cases hlocked : s.locked with
      | true =>
        refine (hlocked ▸ h).keep fun hnext => ?_
        simp [FetchPhase.next, FetchCmd.exec, hlocked] at hnext
      | false =>
        simp only [FetchPhase.next, FetchCmd.exec, hlocked, Bool.not_false]
        exact take fun u hu => by simpa [hlocked] using h.locked u hu
    | _ => rw [hq] at hc; cases hc
  | deleteLock =>
    cases hq : phase t with
    | missed => exact of_free (fun u _ => hdelete hq rfl u) (by nofun)
    | holds => exact of_free (fun u hut hu => hut (h.unique u t hu hq)) (by nofun)
    | _ => rw [hq] at hc; cases hc
  | record | compute | setStr =>
    refine h.keep fun hnext => ?_
    cases hq : phase t <;> rw [hq] at hnext <;> cases hnext

end Held

structure Sound (c : (fetchSys (V := V) log calls).Config) : Prop where
  follows : ∀ t, (fetchPhases V).Follows (c.thr t).2 (fun _ _ => True) (c.thr t).1
  held : Held c.sh.locked fun t => (c.thr t).1

variable {c : (fetchSys (V := V) log calls).Config}

lemma Sound.start (s : FetchRedis V) : Sound (start (S := fetchSys log calls) s) where
  follows t := xfetchGetOrCompute_follows log (calls t)
  held := ⟨by nofun, by nofun⟩

lemma Sound.step (h : Sound c) {e : (fetchSys (V := V) log calls).Event} (he : LeavesLock c e) :
    Sound (step c e) := by
  cases e with
  | world => exact ⟨h.follows, h.held⟩
  | turn t o =>
    rcases (c.thr t).2.ended_or_awaits with hn | ⟨r, k, hp⟩
    · rwa [step_ended hn]
    · have hfollows := h.follows t
      rw [hp] at hfollows
      rw [step_await hp]
      refine ⟨fun u => ?_, ?_⟩
      · by_cases hut : u = t
        · subst hut
          simp only [update_self]
          exact hfollows.step trivial
        · simp only [update_of_ne hut]
          exact h.follows u
      · have hstep := h.held.step hfollows.1 (fun hq hr => he hq (by rw [hp, ← hr]; rfl)) o rfl
        convert hstep using 2 with u
        by_cases hut : u = t
        · subst hut
          simp only [update_self]
        · simp only [update_of_ne hut]

lemma Sound.holds_of_refreshes (h : Sound c) (ht : RefreshesEarly c t) : (c.thr t).1 = .holds := by
  obtain ⟨hfound, hnext⟩ := ht
  have hfollows := h.follows t
  rcases (c.thr t).2.ended_or_awaits with hn | ⟨r, k, hp⟩
  · rw [hn] at hnext
    cases hnext
  · rw [hp] at hnext hfollows
    cases hnext
    cases hq : (c.thr t).1 with
    | holds => rfl
    | begun | missed => rw [hq] at hfound; cases hfound
    | found | released => rw [hq] at hfollows; cases hfollows.1

/-- **One early refresh.** While no call that computed without the lock deletes that of another, at
most one call that found an envelope executes `compute_func`. -/
theorem one_early_refresh (log : ℚ → ℚ) (calls : Tid → FetchCall) (s : FetchRedis V)
    {es : List (fetchSys (V := V) log calls).Event} (hes : Sys.RunOk LeavesLock (start s) es)
    {t u : Tid} (ht : RefreshesEarly (run (start s) es) t)
    (hu : RefreshesEarly (run (start s) es) u) : t = u := by
  have h : Sound (run (start s) es) :=
    (hes.invariant (fun c e h he => h.step he) (.start s)).last
  exact h.held.unique t u (h.holds_of_refreshes ht) (h.holds_of_refreshes hu)

def expired : FetchRedis Nat := { text := some (some ⟨7, 1, 0⟩) }

/-- Both calls find an expired envelope: call 0 takes the lock, and call 1 does not. -/
def expiredSchedule : List (fetchSys (V := Nat) id fun _ => { currentTime := 2 }).Event :=
  [0, 1, 0, 1, 0].map fun t => .turn t (.ok (7, 1))

theorem one_early_refresh_expired :
    let c := run (start expired) expiredSchedule
    RefreshesEarly c 0 ∧ ¬ RefreshesEarly c 1 := by
  have hes : Sys.RunOk LeavesLock (start expired) expiredSchedule := by
    refine ⟨?_, ?_, ?_, ?_, ?_, trivial⟩ <;> exact fun hq => absurd hq (by decide +kernel)
  have h0 : RefreshesEarly (run (start expired) expiredSchedule) 0 := by
    unfold RefreshesEarly
    decide +kernel
  exact ⟨h0, fun h1 => absurd (one_early_refresh _ _ _ hes h0 h1) Nat.zero_ne_one⟩

/-! ### A miss that ends late -/

def absent : FetchRedis Nat := {}

/-- Two calls find no envelope at time 0; two more find the one that the second has stored, and
that has expired. -/
def lateMiss (t : Tid) : FetchCall := if t < 2 then { ttl := 1, currentTime := 0 }
  else { currentTime := 2 }

/-- Call 0 computes for long. Call 1 stores its value, call 2 takes the lock to refresh it, and call
0 deletes that lock. -/
def lateMissSchedule : List (fetchSys (V := Nat) id lateMiss).Event :=
  [0, 0, 1, 1, 1, 1, 1, 2, 2, 2, 0, 0, 3, 3, 3].map fun t => .turn t (.ok (7, 1))

/-- Calls 2 and 3 have found an envelope and both execute `compute_func`. -/
theorem refreshes_overlap :
    let c := run (start absent) lateMissSchedule
    RefreshesEarly c 2 ∧ RefreshesEarly c 3 := by
  unfold RefreshesEarly
  decide +kernel

end FetchCall

end CleanArch
