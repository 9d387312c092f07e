import CleanArch.Resilience.CircuitBreaker

/-!
# Recovery is earned

The breaker counts every success and every failure that arrives while it is `HALF_OPEN`, whenever
the call was admitted. The result of a call that was admitted before the breaker tripped is enough
to close or to trip it, unless every call that ends while the breaker is `HALF_OPEN` was admitted in
that same period (`Timely`).
-/

namespace CleanArch

open Async Sys

/-! ## The history -/

structure RecoveryHistory where
  period : Nat := 0
  admitted : Tid → Option Nat := fun _ => none
  /-- How many calls that were admitted in a period have succeeded. -/
  succeeded : Nat → Nat := fun _ => 0

namespace RecoveryHistory

def move (h : RecoveryHistory) (s s' : CircuitState) : RecoveryHistory :=
  { h with period := if s' = s then h.period else h.period + 1 }

@[simp] lemma move_self (h : RecoveryHistory) : h.move s s = h := by
  simp [move]

/-- Call `t` is admitted. -/
def letIn (h : RecoveryHistory) (t : Tid) : RecoveryHistory :=
  { h with admitted := Function.update h.admitted t (some h.period) }

/-- Call `t` has succeeded. -/
def succeed (h : RecoveryHistory) (t : Tid) : RecoveryHistory :=
  { h with
    succeeded := fun p => if h.admitted t = some p then h.succeeded p + 1 else h.succeeded p }

/-- What is remembered of one request. A call that turns the breaker to `HALF_OPEN` is admitted in
the new period; the call that closes it has succeeded in the old one. -/
def note (t : Tid) (s s' : CircuitState) (h : RecoveryHistory) :
    (c : BreakerCmd) → Except BreakerError c.Res → RecoveryHistory
  | .beforeCall, .ok _ => (h.move s s').letIn t
  | .func, .ok _ => (h.succeed t).move s s'
  | _, _ => h.move s s'

end RecoveryHistory

section

variable (cfg : BreakerConfig) (calls : Tid → BreakerCall)

@[reducible] def recoveryObserver : Observer (breakerSys cfg calls).toMachine ℚ≥0 where
  H := RecoveryHistory
  turn t c r s s' h := h.note t s.breaker.state s'.breaker.state c r
  world _ h := h

@[reducible] def recoverySys : Sys := (breakerSys cfg calls).observed (recoveryObserver cfg calls)

end

abbrev RecoveryView := BreakerWorld × RecoveryHistory

/-! ## One request -/

/-- The invariant: in `HALF_OPEN` only successes of the period are counted. -/
def OwnSuccesses (w : RecoveryView) : Prop :=
  w.1.breaker.state = .halfOpen →
    w.1.breaker.consecutiveSuccesses ≤ w.2.succeeded w.2.period

/-- The request of `t` ends a call, and the breaker notes its outcome. -/
def BreakerCmd.ends : BreakerCmd → FuncOutcome → Bool
  | .func, .returns _ => true
  | .func, .raises _ => true
  | _, _ => false

/-- A call that ends while the breaker is `HALF_OPEN` was admitted in this period. -/
def BreakerCmd.timely (t : Tid) (c : BreakerCmd) (o : FuncOutcome) (w : RecoveryView) : Prop :=
  w.1.breaker.state = .halfOpen → c.ends o = true → w.2.admitted t = some w.2.period

instance (t : Tid) (c : BreakerCmd) (o : FuncOutcome) (w : RecoveryView) :
    Decidable (c.timely t o w) := inferInstanceAs (Decidable (_ → _ → _))

section Step

variable {cfg : BreakerConfig} {calls : Tid → BreakerCall} {t : Tid} {o : FuncOutcome}
  {w : RecoveryView}

lemma CircuitBreaker.evaluateState_cases (cfg : BreakerConfig) (now : Time) (b : CircuitBreaker) :
    (b.state = .open ∧ (b.evaluateState cfg now).state = .halfOpen ∧
      (b.evaluateState cfg now).consecutiveSuccesses = 0) ∨ b.evaluateState cfg now = b := by
  unfold evaluateState
  split
  · next h => exact Or.inl ⟨h.1, rfl, rfl⟩
  · exact Or.inr rfl

lemma CircuitBreaker.beforeCall_state (cfg : BreakerConfig) (now : Time) (b : CircuitBreaker) :
    (b.beforeCall cfg now).2.state = (b.evaluateState cfg now).state ∧
      (b.beforeCall cfg now).2.consecutiveSuccesses =
        (b.evaluateState cfg now).consecutiveSuccesses := by
  unfold beforeCall
  simp only
  split <;> exact ⟨rfl, rfl⟩

/-- What is claimed of a request of `t` that takes the breaker from `w` to `w'`. -/
structure EarnedBy (cfg : BreakerConfig) (t : Tid) (c : BreakerCmd) (o : FuncOutcome)
    (w w' : RecoveryView) : Prop where
  closes : w.1.breaker.state = .halfOpen → w'.1.breaker.state = .closed →
    cfg.halfOpenSuccessThreshold ≤ w'.2.succeeded w.2.period
  trips : w.1.breaker.state = .halfOpen → w'.1.breaker.state = .open →
    c = .func ∧ (∃ message, o = .raises message) ∧ w.2.admitted t = some w.2.period

lemma earned_outside (hs : w.1.breaker.state ≠ .halfOpen) (hi : OwnSuccesses w') :
    OwnSuccesses w' ∧ EarnedBy cfg t c o w w' :=
  ⟨hi, fun h => absurd h hs, fun h => absurd h hs⟩

lemma earned_unchanged (hstate : w'.1.breaker.state = w.1.breaker.state) (hi : OwnSuccesses w') :
    OwnSuccesses w' ∧ EarnedBy cfg t c o w w' := by
  refine ⟨hi, fun h h' => ?_, fun h h' => ?_⟩
  all_goals
    rw [hstate, h] at h'
    cases h'

lemma earned_of_evaluate (hi : OwnSuccesses w)
    (hstate : w'.1.breaker.state = (w.1.breaker.evaluateState cfg w.1.now).state)
    (hcount : w'.1.breaker.consecutiveSuccesses =
      (w.1.breaker.evaluateState cfg w.1.now).consecutiveSuccesses)
    (hperiod : w'.2.period = (w.2.move w.1.breaker.state w'.1.breaker.state).period)
    (hsucc : w'.2.succeeded = w.2.succeeded) : OwnSuccesses w' ∧ EarnedBy cfg t c o w w' := by
  rcases w.1.breaker.evaluateState_cases cfg w.1.now with ⟨hopen, -, hzero⟩ | hsame
  · refine earned_outside (by simp [hopen]) fun _ => ?_
    rw [hcount, hzero]
    exact Nat.zero_le _
  · rw [hsame] at hstate hcount
    rw [hstate, RecoveryHistory.move_self] at hperiod
    refine earned_unchanged hstate fun h => ?_
    rw [hcount, hsucc, hperiod]
    exact hi (hstate ▸ h)

lemma RecoveryHistory.succeeded_succeed {h : RecoveryHistory} (ht : h.admitted t = some p) :
    (h.succeed t).succeeded p = h.succeeded p + 1 :=
  if_pos ht

variable {b : CircuitBreaker}

lemma CircuitBreaker.onSuccess_outside (hs : b.state ≠ .halfOpen) :
    (b.onSuccess cfg now).state = b.state := by
  cases hb : b.state with
  | closed | «open» => simp [onSuccess, hb]
  | halfOpen => exact absurd hb hs

lemma CircuitBreaker.onSuccess_halfOpen (cfg : BreakerConfig) (hs : b.state = .halfOpen) :
    (cfg.halfOpenSuccessThreshold ≤ b.consecutiveSuccesses + 1 ∧
      (b.onSuccess cfg now).state = .closed) ∨
    ((b.onSuccess cfg now).state = .halfOpen ∧
      (b.onSuccess cfg now).consecutiveSuccesses = b.consecutiveSuccesses + 1) := by
  by_cases hthr : cfg.halfOpenSuccessThreshold ≤ b.consecutiveSuccesses + 1
  · exact Or.inl ⟨hthr, by simp [onSuccess, hs, hthr]⟩
  · exact Or.inr (by simp [onSuccess, hs, hthr])

lemma CircuitBreaker.onFailure_state : (b.onFailure cfg now).state ≠ .halfOpen := by
  cases hb : b.state with
  | closed =>
    simp only [onFailure, hb]
    split <;> simp
  | «open» | halfOpen => simp [onFailure, hb]

lemma earned_of_success (hi : OwnSuccesses w) (ht : BreakerCmd.func.timely t (.returns result) w)
    (hb : w'.1.breaker = w.1.breaker.onSuccess cfg w.1.now)
    (hh : w'.2 = (w.2.succeed t).move w.1.breaker.state w'.1.breaker.state) :
    OwnSuccesses w' ∧ EarnedBy cfg t .func (.returns result) w w' := by
  by_cases hs : w.1.breaker.state = .halfOpen
  · have hadm : w.2.admitted t = some w.2.period := ht hs rfl
    have hcount : w.1.breaker.consecutiveSuccesses + 1 ≤ w'.2.succeeded w.2.period := by
      rw [hh, RecoveryHistory.move, RecoveryHistory.succeeded_succeed hadm]
      exact Nat.succ_le_succ (hi hs)
    rcases CircuitBreaker.onSuccess_halfOpen cfg hs with
      ⟨hthr, hclosed⟩ | ⟨hhalf, hsucc⟩
    · -- the threshold is met, by successes of this period
      rw [← hb] at hclosed
      refine ⟨fun h => ?_, ⟨fun _ _ => hthr.trans hcount, fun _ h => ?_⟩⟩
      all_goals
        rw [hclosed] at h
        cases h
    · -- one more success of this period
      rw [← hb] at hhalf hsucc
      have hperiod : w'.2.period = w.2.period := by
        rw [hh, hs, hhalf, RecoveryHistory.move_self]
        rfl
      refine earned_unchanged (hhalf.trans hs.symm) fun _ => ?_
      rw [hsucc, hperiod]
      exact hcount
  · refine earned_outside hs fun h => ?_
    rw [hb, CircuitBreaker.onSuccess_outside hs] at h
    exact absurd h hs

lemma earned_of_failure (ht : BreakerCmd.func.timely t (.raises message) w)
    (hb : w'.1.breaker = w.1.breaker.onFailure cfg w.1.now) :
    OwnSuccesses w' ∧ EarnedBy cfg t .func (.raises message) w w' := by
  have hs' : w'.1.breaker.state ≠ .halfOpen := hb ▸ CircuitBreaker.onFailure_state
  by_cases hs : w.1.breaker.state = .halfOpen
  · have hopen : w'.1.breaker.state = .open := by
      rw [hb]
      simp [CircuitBreaker.onFailure, hs]
    refine ⟨fun h => absurd h hs', ⟨fun _ h => ?_, fun _ _ => ⟨rfl, ⟨message, rfl⟩, ht hs rfl⟩⟩⟩
    rw [hopen] at h
    cases h
  · exact earned_outside hs fun h => absurd h hs'

lemma earned_exec (cfg : BreakerConfig) (calls : Tid → BreakerCall)
    (hi : OwnSuccesses w) (ht : c.timely t o w) :
    OwnSuccesses ((recoverySys cfg calls).exec t c o l w).2.2 ∧
      EarnedBy cfg t c o w ((recoverySys cfg calls).exec t c o l w).2.2 := by
  cases c with
  | beforeCall =>
    obtain ⟨hstate, hcount⟩ := w.1.breaker.beforeCall_state cfg w.1.now
    have hnote : ∀ r : Except BreakerError Unit, ∀ s s',
        (w.2.note t s s' .beforeCall r).period = (w.2.move s s').period ∧
          (w.2.note t s s' .beforeCall r).succeeded = w.2.succeeded := by
      intro r s s'
      cases r with
      | ok | error => exact ⟨rfl, rfl⟩
    exact earned_of_evaluate hi hstate hcount (hnote _ _ _).1 (hnote _ _ _).2
  | readState => exact earned_of_evaluate hi rfl rfl rfl rfl
  | func =>
    cases o with
    | returns => exact earned_of_success hi ht rfl rfl
    | raises => exact earned_of_failure ht rfl
    | opens message code recoveryTimeout =>
      refine earned_unchanged rfl fun h => ?_
      rw [show ((recoverySys cfg calls).exec t .func (.opens message code recoveryTimeout) l w).2.2
        = w from Prod.ext rfl (RecoveryHistory.move_self _)]
      exact hi h

end Step

/-! ## Runs -/

section Runs

variable {cfg : BreakerConfig} {calls : Tid → BreakerCall}

/-- Every call that ends while the breaker is `HALF_OPEN` was admitted in that period. -/
abbrev Timely : (recoverySys cfg calls).Config → (recoverySys cfg calls).Event → Prop :=
  Asks (fun t r _ w o => r.timely t o w) fun _ _ => True

structure Earned (c : (recoverySys cfg calls).Config) (e : (recoverySys cfg calls).Event) :
    Prop where
  /-- From `HALF_OPEN` to `CLOSED` after enough successes of calls of this period. -/
  closes : c.sh.1.breaker.state = .halfOpen → (step c e).sh.1.breaker.state = .closed →
    cfg.halfOpenSuccessThreshold ≤ (step c e).sh.2.succeeded c.sh.2.period
  /-- From `HALF_OPEN` to `OPEN` on the failure of a call of this period. -/
  trips : c.sh.1.breaker.state = .halfOpen → (step c e).sh.1.breaker.state = .open →
    ∃ t message, e = .turn t (.raises message) ∧ (c.thr t).2.next? = some .func ∧
      c.sh.2.admitted t = some c.sh.2.period

lemma earned_step {e : (recoverySys cfg calls).Event} (hi : OwnSuccesses c.sh) (ht : Timely c e) :
    OwnSuccesses (step c e).sh ∧ Earned c e := by
  cases e with
  | world =>
    refine ⟨hi, fun h h' => ?_, fun h h' => ?_⟩
    all_goals cases h.symm.trans h'
  | turn t o =>
    rcases (c.thr t).2.ended_or_awaits with hn | ⟨r, k, hp⟩
    · have hsame := step_ended (o := o) hn
      refine ⟨by rwa [hsame], fun h h' => ?_, fun h h' => ?_⟩
      all_goals
        rw [hsame, h] at h'
        cases h'
    · have hr : (c.thr t).2.next? = some r := by
        rw [hp]
        rfl
      obtain ⟨hi', hearned⟩ := earned_exec cfg calls hi (ht r hr)
      have hsh : (step c (.turn t o)).sh =
          ((recoverySys cfg calls).exec t r o (c.thr t).1 c.sh).2.2 := by
        rw [step_await hp]
      refine ⟨hsh ▸ hi', fun h h' => ?_, fun h h' => ?_⟩
      · rw [hsh] at h' ⊢
        exact hearned.closes h h'
      · rw [hsh] at h'
        obtain ⟨rfl, ⟨message, rfl⟩, hadm⟩ := hearned.trips h h'
        exact ⟨t, message, rfl, hr, hadm⟩

/-- **Recovery is earned.** Calls run through a new breaker under any schedule, with any outcomes,
and the clock goes forward as it likes. If every call that ends while the breaker is `HALF_OPEN`
was admitted in that period, each change of the state at the next event is earned. -/
theorem recovery_earned (now : Time) (es : List (recoverySys cfg calls).Event)
    (e : (recoverySys cfg calls).Event)
    (hes : RunOk Timely (start (newBreaker now, {})) (es ++ [e])) :
    Earned (run (start (newBreaker now, {})) es) e := by
  obtain ⟨hes, he⟩ := hes.append
  have hi : OwnSuccesses (run (start (newBreaker now, {})) es :
      (recoverySys cfg calls).Config).sh :=
    (hes.invariant (fun c e hi ht => (earned_step hi ht).1) fun h => by cases h).last
  exact (earned_step hi he.1).2

end Runs

/-! ### A late result -/

def sampleBreaker : BreakerConfig := { failureThreshold := 1, halfOpenSuccessThreshold := 1 }

abbrev sampleRecovery : Sys := recoverySys sampleBreaker fun _ => .executeAsync

def recoveryRun (es : List sampleRecovery.Event) : sampleRecovery.Config :=
  run (start (newBreaker 0, {})) es

def tripAndProbe : List sampleRecovery.Event :=
  [.turn 0 (.returns ""), .turn 1 (.returns ""), .turn 1 (.raises "timeout"), .world 30,
    .turn 2 (.returns "")]

/-- Call 2 succeeds, and closes the breaker. -/
theorem recovery_earned_probe : (recoveryRun tripAndProbe).sh.1.breaker.state = .halfOpen ∧
      (step (recoveryRun tripAndProbe) (.turn 2 (.returns "ok"))).sh.1.breaker.state = .closed ∧
      1 ≤ (step (recoveryRun tripAndProbe) (.turn 2 (.returns "ok"))).sh.2.succeeded
        (recoveryRun tripAndProbe).sh.2.period := by
  have hhalf : (recoveryRun tripAndProbe).sh.1.breaker.state = .halfOpen := by decide +kernel
  have hclosed : (step (recoveryRun tripAndProbe)
      (.turn 2 (.returns "ok"))).sh.1.breaker.state = .closed := by decide +kernel
  refine ⟨hhalf, hclosed, ?_⟩
  exact (recovery_earned 0 tripAndProbe (.turn 2 (.returns "ok")) (by decide +kernel)).closes
    hhalf hclosed

/-- Call 0 was admitted while the breaker was `CLOSED`. Its late success closes the breaker, without
any success of the `HALF_OPEN` period; its late failure trips it. -/
theorem recovery_unearned : (recoveryRun tripAndProbe).sh.1.breaker.state = .halfOpen ∧
    (recoveryRun tripAndProbe).sh.2.period = 2 ∧
    (recoveryRun tripAndProbe).sh.2.admitted 0 = some 0 ∧
    ((recoveryRun (tripAndProbe ++ [.turn 0 (.returns "ok")])).sh.1.breaker.state = .closed ∧
      (recoveryRun (tripAndProbe ++ [.turn 0 (.returns "ok")])).sh.2.succeeded 2 = 0) ∧
    (recoveryRun (tripAndProbe ++ [.turn 0 (.raises "timeout")])).sh.1.breaker.state = .open := by
  decide +kernel

end CleanArch
