import CleanArch.Resilience.CircuitBreaker

/-!
# An open breaker fails fast

Any number of calls through one breaker, which end in any later state of it. The history has the
times at which the breaker has opened, the failures since the last success or the last change of the
state, and the successes since the last failure or the last change of the state.
-/

namespace CleanArch

open Async CircuitBreaker Sys

structure FailFastHistory where
  openings : List Time := []
  failures : Nat := 0
  successes : Nat := 0

/-- What is remembered of one request. A `CircuitBreakerOpenException` of `func` is no failure. -/
def FailFastHistory.note (s s' : BreakerWorld) (h : FailFastHistory) :
    (c : BreakerCmd) → Except BreakerError c.Res → FailFastHistory := fun c r =>
  { openings :=
      if s.breaker.state ≠ .open ∧ s'.breaker.state = .open then s'.now :: h.openings
      else h.openings
    failures :=
      if s'.breaker.state ≠ s.breaker.state then 0
      else match c, r with
        | .func, .ok _ => 0
        | .func, .error (.exception _) => h.failures + 1
        | _, _ => h.failures
    successes :=
      if s'.breaker.state ≠ s.breaker.state then 0
      else match c, r with
        | .func, .ok _ => h.successes + 1
        | .func, .error (.exception _) => 0
        | _, _ => h.successes }

section

variable (cfg : BreakerConfig) (calls : Tid → BreakerCall)

@[reducible] def failFastObserver : Observer (breakerSys cfg calls).toMachine ℚ≥0 where
  H := FailFastHistory
  turn _ c r s s' h := h.note s s' c r
  world _ h := h

@[reducible] def failFastSys : Sys := (breakerSys cfg calls).observed (failFastObserver cfg calls)

end

abbrev FailFastView := BreakerWorld × FailFastHistory

/-- The breaker's counters are the counts of the history, below their thresholds, and no opening is
later than the breaker's last change of state. -/
structure Guarded (cfg : BreakerConfig) (w : FailFastView) : Prop where
  closed : w.1.breaker.state = .closed → w.1.breaker.consecutiveFailures = w.2.failures ∧
    w.2.failures < cfg.failureThreshold
  halfOpen : w.1.breaker.state = .halfOpen → (w.1.breaker.consecutiveFailures = 0 ∧
    w.2.failures = 0) ∧ w.1.breaker.consecutiveSuccesses = w.2.successes ∧
    w.2.successes < cfg.halfOpenSuccessThreshold
  opened : w.1.breaker.state = .open → ∀ t ∈ w.2.openings, t ≤ w.1.breaker.lastStateChangeTime
  waited : w.1.breaker.state ≠ .open → ∀ t ∈ w.2.openings, t + cfg.recoveryTimeout ≤ w.1.now

namespace Guarded

lemma elapse (h : Guarded cfg w) (elapsed : ℚ≥0) :
    Guarded cfg ({ w.1 with now := w.1.now + elapsed }, w.2) where
  closed := h.closed
  halfOpen := h.halfOpen
  opened := h.opened
  waited hs t ht := (h.waited hs t ht).trans (le_add_of_nonneg_right elapsed.2)

/-- The breaker trips now. -/
lemma trip (h : Guarded cfg w) (hs : w.1.breaker.state ≠ .open) (hb : b.state = .open)
    (hlast : b.lastStateChangeTime = w.1.now) :
    Guarded cfg (⟨w.1.now, b⟩, ⟨w.1.now :: w.2.openings, failures, successes⟩) where
  closed hc := by cases hb.symm.trans hc
  halfOpen hc := by cases hb.symm.trans hc
  opened _ := by
    rw [hlast]
    refine List.forall_mem_cons.mpr ⟨le_rfl, fun t ht => ?_⟩
    exact (le_add_of_nonneg_right cfg.recoveryTimeout_pos.le).trans (h.waited hs t ht)
  waited hc := absurd hb hc

/-- `_evaluate_state`, whatever else of the breaker is counted. -/
lemma evaluate (h : Guarded cfg w) (hc : c ≠ .func)
    (hb : b.state = (w.1.breaker.evaluateState cfg w.1.now).state ∧
      b.consecutiveFailures = (w.1.breaker.evaluateState cfg w.1.now).consecutiveFailures ∧
      b.consecutiveSuccesses = (w.1.breaker.evaluateState cfg w.1.now).consecutiveSuccesses ∧
      b.lastStateChangeTime = (w.1.breaker.evaluateState cfg w.1.now).lastStateChangeTime) :
    Guarded cfg (⟨w.1.now, b⟩, w.2.note w.1 ⟨w.1.now, b⟩ c r) ∧
      (b.state = w.1.breaker.state ∨ b.state = .halfOpen) := by
  obtain ⟨hstate, hfail, hsucc, hlast⟩ := hb
  unfold evaluateState at hstate hfail hsucc hlast
  split at hstate
  · next hprobe =>
    rw [if_pos hprobe] at hfail hsucc hlast
    obtain ⟨hopen, htime⟩ := hprobe
    refine ⟨⟨fun hs => ?_, fun _ => ?_, fun hs => ?_, fun _ t ht => ?_⟩, .inr hstate⟩
    · cases hstate.symm.trans hs
    · simp only [FailFastHistory.note, hstate, hopen, ne_eq, reduceCtorEq, not_false_eq_true,
        if_true]
      exact ⟨⟨hfail, trivial⟩, hsucc, cfg.one_le_halfOpenSuccessThreshold⟩
    · cases hstate.symm.trans hs
    · simp only [FailFastHistory.note, hopen, ne_eq, not_true_eq_false, false_and, if_false] at ht
      have := h.opened hopen t ht
      linarith
  · next hprobe =>
    rw [if_neg hprobe] at hfail hsucc hlast
    have hnote : w.2.note w.1 ⟨w.1.now, b⟩ c r = w.2 := by
      cases c with
      | func => exact absurd rfl hc
      | _ => simp [FailFastHistory.note, hstate]
    rw [hnote]
    refine ⟨⟨?_, ?_, ?_, ?_⟩, .inl hstate⟩
    all_goals simp only [hstate, hfail, hsucc, hlast]
    · exact h.closed
    · exact h.halfOpen
    · exact h.opened
    · exact h.waited

lemma success (h : Guarded cfg w) (result : String) :
    let b := w.1.breaker.onSuccess cfg w.1.now
    Guarded cfg (⟨w.1.now, b⟩, w.2.note w.1 ⟨w.1.now, b⟩ .func (.ok result)) ∧
      (w.1.breaker.state = .closed → b.state = .closed) := by
  obtain ⟨⟨now, b⟩, hist⟩ := w
  have hwaited := h.waited
  cases hs : b.state with
  | closed =>
    simp only [onSuccess, FailFastHistory.note, hs]
    refine ⟨⟨fun _ => ⟨rfl, ?_⟩, nofun, nofun, fun _ => ?_⟩, fun _ => trivial⟩
    · exact cfg.one_le_failureThreshold
    · simpa [hs] using hwaited
  | «open» =>
    simp only [onSuccess, FailFastHistory.note, hs]
    refine ⟨⟨nofun, nofun, fun _ => ?_, nofun⟩, nofun⟩
    simpa [hs] using h.opened
  | halfOpen =>
    simp only [onSuccess, FailFastHistory.note, hs]
    split
    · refine ⟨⟨fun _ => ⟨rfl, ?_⟩, nofun, nofun, fun _ => ?_⟩, nofun⟩
      · exact cfg.one_le_failureThreshold
      · simpa [hs] using hwaited
    · next hlt =>
      refine ⟨⟨nofun, fun _ => ?_, nofun, fun _ => ?_⟩, nofun⟩
      · have hcount := (h.halfOpen hs).2.1
        simp only at hcount
        simp only [hcount] at hlt ⊢
        exact ⟨⟨(h.halfOpen hs).1.1, rfl⟩, rfl, not_le.mp hlt⟩
      · simpa [hs] using hwaited

lemma failure (h : Guarded cfg w) (message : String) :
    let b := w.1.breaker.onFailure cfg w.1.now
    Guarded cfg (⟨w.1.now, b⟩, w.2.note w.1 ⟨w.1.now, b⟩ .func (.error (.exception message))) ∧
      (w.1.breaker.state = .closed → b.state = .open →
        w.2.failures + 1 = cfg.failureThreshold) := by
  obtain ⟨⟨now, b⟩, hist⟩ := w
  cases hs : b.state with
  | «open» =>
    simp only [onFailure, FailFastHistory.note, hs]
    refine ⟨⟨nofun, nofun, fun _ => ?_, nofun⟩, nofun⟩
    simpa [hs] using h.opened
  | halfOpen =>
    have hne : b.state ≠ .open := by simp [hs]
    simp only [onFailure, FailFastHistory.note, hs]
    exact ⟨h.trip hne rfl rfl, nofun⟩
  | closed =>
    have hne : b.state ≠ .open := by simp [hs]
    obtain ⟨hcount, hlt⟩ := h.closed hs
    simp only at hcount hlt
    simp only [onFailure, FailFastHistory.note, hs, hcount]
    split
    · next hthr => exact ⟨h.trip hne rfl rfl, fun _ _ => le_antisymm hlt hthr⟩
    · next hthr =>
      refine ⟨⟨fun _ => ?_, nofun, nofun, fun _ => ?_⟩, nofun⟩
      · exact ⟨rfl, not_le.mp hthr⟩
      · simpa [hs] using h.waited

lemma exec (h : Guarded cfg w) (c : BreakerCmd) (o : FuncOutcome) :
    let r := c.exec cfg o w.1
    Guarded cfg (r.2.2, w.2.note w.1 r.2.2 c r.1) ∧
      (w.1.breaker.state = .closed → r.2.2.breaker.state = .open →
        c = .func ∧ (∃ message, o = .raises message) ∧
          w.2.failures + 1 = cfg.failureThreshold) := by
  have hstays : ∀ {s : CircuitState}, s = w.1.breaker.state ∨ s = .halfOpen →
      w.1.breaker.state = .closed → s ≠ .open := by
    rintro s (rfl | rfl) hs
    · simp [hs]
    · simp
  cases c with
  | beforeCall =>
    obtain ⟨hg, hs⟩ := h.evaluate (b := (w.1.breaker.beforeCall cfg w.1.now).2) (c := .beforeCall)
      (r := (w.1.breaker.beforeCall cfg w.1.now).1) nofun (by
        unfold beforeCall
        dsimp only
        split <;> exact ⟨rfl, rfl, rfl, rfl⟩)
    exact ⟨hg, fun hc ho => absurd ho (hstays hs hc)⟩
  | readState =>
    obtain ⟨hg, hs⟩ := h.evaluate (c := .readState) (r := .ok _) nofun ⟨rfl, rfl, rfl, rfl⟩
    exact ⟨hg, fun hc ho => absurd ho (hstays hs hc)⟩
  | func =>
    cases o with
    | returns result =>
      obtain ⟨hg, hs⟩ := h.success result
      exact ⟨hg, fun hc ho => by cases (hs hc).symm.trans ho⟩
    | raises message =>
      obtain ⟨hg, hs⟩ := h.failure message
      exact ⟨hg, fun hc ho => ⟨rfl, ⟨message, rfl⟩, hs hc ho⟩⟩
    | opens message code recoveryTimeout =>
      have hnote : w.2.note w.1 w.1 .func
          (.error (.circuitBreakerOpen message code recoveryTimeout)) = w.2 := by
        simp [FailFastHistory.note]
      refine ⟨?_, fun hc ho => by cases hc.symm.trans ho⟩
      simpa only [BreakerCmd.exec, hnote] using h

lemma admits (h : Guarded cfg w) (hok : (w.1.breaker.beforeCall cfg w.1.now).1 = .ok ()) :
    ∀ t ∈ w.2.openings, t + cfg.recoveryTimeout ≤ w.1.now := by
  by_cases hs : w.1.breaker.state = .open
  · intro t ht
    have hle := h.opened hs t ht
    by_cases hprobe : w.1.now - w.1.breaker.lastStateChangeTime ≥ cfg.recoveryTimeout
    · linarith
    · simp [beforeCall, evaluateState, hs, hprobe] at hok
  · exact h.waited hs

end Guarded

variable {cfg : BreakerConfig} {calls : Tid → BreakerCall}

/-- What is claimed of a state and of the next event. -/
structure FailsFast (c : (failFastSys cfg calls).Config) (e : (failFastSys cfg calls).Event) :
    Prop where
  /-- A call is admitted when the recovery timeout is over. -/
  admits : ∀ t o, e = .turn t o → (c.thr t).2.next? = some .beforeCall →
    (c.sh.1.breaker.beforeCall cfg c.sh.1.now).1 = .ok () →
    ∀ opening ∈ c.sh.2.openings, opening + cfg.recoveryTimeout ≤ c.sh.1.now
  /-- From `CLOSED` to `OPEN` on the failure that makes the threshold. -/
  trips : c.sh.1.breaker.state = .closed → (step c e).sh.1.breaker.state = .open →
    ∃ t message, e = .turn t (.raises message) ∧ (c.thr t).2.next? = some .func ∧
      c.sh.2.failures + 1 = cfg.failureThreshold
  /-- The failures in a row, those that were and those that the breaker has counted. -/
  closed : c.sh.1.breaker.state = .closed → c.sh.2.failures < cfg.failureThreshold ∧
    c.sh.1.breaker.consecutiveFailures < cfg.failureThreshold
  halfOpen : c.sh.1.breaker.state = .halfOpen →
    (c.sh.2.successes < cfg.halfOpenSuccessThreshold ∧
      c.sh.1.breaker.consecutiveSuccesses < cfg.halfOpenSuccessThreshold) ∧
      c.sh.2.failures = 0 ∧ c.sh.1.breaker.consecutiveFailures = 0

lemma Guarded.step {c : (failFastSys cfg calls).Config} (h : Guarded cfg c.sh)
    (e : (failFastSys cfg calls).Event) :
    Guarded cfg (step c e).sh ∧ (c.sh.1.breaker.state = .closed →
      (Sys.step c e).sh.1.breaker.state = .open →
      ∃ t message, e = .turn t (.raises message) ∧ (c.thr t).2.next? = some .func ∧
        c.sh.2.failures + 1 = cfg.failureThreshold) := by
  cases e with
  | world elapsed => exact ⟨h.elapse elapsed, fun hc ho => by cases hc.symm.trans ho⟩
  | turn t o =>
    rcases (c.thr t).2.ended_or_awaits with hn | ⟨r, k, hp⟩
    · rw [step_ended hn]
      exact ⟨h, fun hc ho => by cases hc.symm.trans ho⟩
    · have hnext : (c.thr t).2.next? = some r := by
        rw [hp]
        rfl
      obtain ⟨hg, htrips⟩ := h.exec r o
      rw [step_await hp]
      refine ⟨hg, fun hc ho => ?_⟩
      obtain ⟨rfl, ⟨message, rfl⟩, hfailures⟩ := htrips hc ho
      exact ⟨t, message, rfl, hnext, hfailures⟩

/-- **An open breaker fails fast.** Calls run through a new breaker under any schedule, with any
outcomes, and the clock goes forward as it likes. -/
theorem fail_fast (cfg : BreakerConfig) (calls : Tid → BreakerCall) (now : Time)
    (es : List (failFastSys cfg calls).Event) (e : (failFastSys cfg calls).Event) :
    FailsFast (run (start (newBreaker now, {})) es) e := by
  have hstart : Guarded cfg (newBreaker now, {}) :=
    ⟨fun _ => ⟨rfl, cfg.one_le_failureThreshold⟩, nofun, nofun, nofun⟩
  have h : Guarded cfg (run (start (newBreaker now, {})) es : (failFastSys cfg calls).Config).sh :=
    List.foldlRecOn (motive := fun c : (failFastSys cfg calls).Config => Guarded cfg c.sh) es step
      hstart fun c hc e _ => (hc.step e).1
  refine ⟨fun _ _ _ _ => h.admits, (h.step e).2, fun hs => ?_, fun hs => ?_⟩
  · obtain ⟨hcount, hlt⟩ := h.closed hs
    exact ⟨hlt, hcount.trans_lt hlt⟩
  · obtain ⟨⟨hzero, hnone⟩, hcount, hlt⟩ := h.halfOpen hs
    exact ⟨⟨hlt, hcount.trans_lt hlt⟩, hnone, hzero⟩

end CleanArch
