import CleanArch.RateLimit.DistributedCalls

/-!
# The retry hint of the distributed limiter

A limited check is told when its oldest member leaves the window. The prune of the pipeline leaves
out the end of its range: a member that is exactly as old as the window still counts. So a retry is
admitted after the hint, and never at it (`distributed_hint`).
-/

namespace CleanArch

open Async Int List

namespace Quota

variable {q : Quota} {r : KeyRun} {t : Time} {hint : Time}

/-! ## After a limited check -/

/-- A check at time `t` was limited, with this hint. -/
structure Limited (q : Quota) (t hint : Time) (r : KeyRun) : Prop where
  fresh : ∀ e ∈ r.sets.entries q.redisKey, e.1.id ≠ r.next
  full : ((r.sets.entries q.redisKey).length : Int) = q.limit
  expiresAt : r.sets.expiresAt q.redisKey = some (t + (pyInt q.windowSeconds + 2 : Int))
  inside : ∀ e ∈ r.sets.entries q.redisKey, 0 ≤ e.2 → t - q.windowSeconds ≤ e.2
  oldest : ∃ x, (∃ e ∈ r.sets.entries q.redisKey, e.2 = x) ∧
    (∀ e ∈ r.sets.entries q.redisKey, x ≤ e.2) ∧ x ≤ t ∧ hint = max 0 (x + q.windowSeconds - t)

lemma min_scores {es : List (Member × Time)} (hle : ∀ e ∈ es, e.2 ≤ t) (hne : es ≠ []) :
    (∃ e ∈ es, e.2 = (es.map (·.2) ++ [t]).min?.getD t) ∧
      ∀ e ∈ es, (es.map (·.2) ++ [t]).min?.getD t ≤ e.2 := by
  obtain ⟨x, hx⟩ := Option.isSome_iff_exists.mp
    (isSome_min?_of_mem (mem_append_right (es.map (·.2)) (mem_singleton_self t)))
  obtain ⟨hmem, hmin⟩ := List.min?_eq_some_iff.mp hx
  rw [hx, Option.getD_some]
  have hfirst : ∀ e ∈ es, x ≤ e.2 := fun e he =>
    hmin _ (mem_append_left _ (mem_map_of_mem he))
  refine ⟨?_, hfirst⟩
  rcases mem_append.mp hmem with hmem | hmem
  · exact mem_map.mp hmem
  · -- no member is younger than the check itself
    obtain ⟨e, he⟩ := exists_mem_of_ne_nil es hne
    have ht := mem_singleton.mp hmem
    exact ⟨e, he, le_antisymm (ht ▸ hle e he) (hfirst e he)⟩

lemma limited_of_check (hkept : q.Kept calls r)
    (hpast : ∀ call ∈ calls, call.time ≤ now.getD clock) (hcheck : (q.check r now clock).1 = .ok c)
    (hc : c.limited = true) :
    q.Limited (now.getD clock) c.retryAfter (q.step r (.check now clock)) := by
  set es := q.counted (now.getD clock) r.sets with hes
  have hanswer : Except.ok c = _ := hcheck.symm.trans (check_answer hkept.fresh)
  rw [Except.ok.injEq] at hanswer
  by_cases hroom : (es.length : Int) < q.limit
  · rw [if_pos hroom] at hanswer
    rw [hanswer] at hc
    cases hc
  rw [if_neg hroom] at hanswer
  have hentries : (q.step r (.check now clock)).sets.entries q.redisKey = es := by
    exact (check_entries hkept.fresh).trans (if_neg hroom)
  have hsub : es.Sublist (r.sets.entries q.redisKey) := counted_sublist
  have hle : ∀ e ∈ es, e.2 ≤ now.getD clock := by
    intro e he
    obtain ⟨call, hcall, htime⟩ := mem_map.mp (hkept.times e (hsub.subset he))
    rw [← htime]
    exact hpast call hcall
  constructor
  · intro e he
    rw [hentries] at he
    exact ((hkept.ids e (hsub.subset he)).trans (Nat.lt_succ_self _)).ne
  · rw [hentries]
    refine le_antisymm ?_ (not_lt.mp hroom)
    exact (ofNat_le.mpr hsub.length_le).trans hkept.length_le
  · exact check_expiresAt
  · rw [hentries]
    exact fun e he => (mem_prunedEntries.mp he).2
  · rw [hentries, hanswer]
    have hne : es ≠ [] := by
      intro hnil
      rw [hnil] at hroom
      exact hroom (lt_of_add_one_le q.limit_pos)
    obtain ⟨⟨e, he, heq⟩, hmin⟩ := min_scores hle hne
    exact ⟨_, ⟨e, he, heq⟩, hmin, heq ▸ hle e he, rfl⟩

lemma Limited.admitted_iff (h : q.Limited t hint r)
    (hlive : now.getD clock < t + (pyInt q.windowSeconds + 2 : Int)) :
    (q.check r now clock).1.map (·.limited) = .ok false ↔
      ∃ e ∈ r.sets.entries q.redisKey, 0 ≤ e.2 ∧ e.2 < now.getD clock - q.windowSeconds := by
  have hcounted : q.counted (now.getD clock) r.sets =
      prunedEntries (now.getD clock - q.windowSeconds) (r.sets.entries q.redisKey) := by
    rw [counted, setsAt_entries, h.expiresAt, if_neg]
    simpa using hlive
  rw [check_limited h.fresh, hcounted, ← h.full, Except.ok.injEq, Bool.not_eq_false',
    decide_eq_true_iff, ofNat_lt, prunedEntries, length_filter_lt_length_iff_exists]
  simp only [Bool.not_eq_true', Bool.and_eq_true, decide_eq_true_iff, Bool.not_eq_false]

lemma Limited.hint_le (h : q.Limited t hint r) : hint ≤ q.windowSeconds := by
  obtain ⟨x, -, -, hx, rfl⟩ := h.oldest
  exact max_le q.window_pos.le (by linarith)

lemma Limited.at_hint (h : q.Limited t hint r) (ht : now.getD clock = t + hint) :
    (q.check r now clock).1.map (·.limited) = .ok true := by
  have hnot : ¬ (q.check r now clock).1.map (·.limited) = .ok false := by
    have hlong := lt_pyInt_add q.window_pos
    rw [h.admitted_iff (by rw [ht]; linarith [h.hint_le]), ht]
    rintro ⟨e, he, hpos, hlt⟩
    have hin := h.inside e he hpos
    obtain ⟨x, -, hmin, -, rfl⟩ := h.oldest
    rcases max_cases 0 (x + q.windowSeconds - t) with ⟨hmax, -⟩ | ⟨hmax, -⟩
    · linarith
    · linarith [hmin e he]
  rw [check_limited h.fresh] at hnot ⊢
  rw [Except.ok.injEq, Bool.not_eq_false] at hnot
  rw [hnot]

lemma Limited.after_hint (h : q.Limited t hint r)
    (hpos : ∀ e ∈ r.sets.entries q.redisKey, 0 ≤ e.2) :
    (q.check r now clock).1.map (·.limited) = .ok false ↔ t + hint < now.getD clock := by
  have hlong := lt_pyInt_add q.window_pos
  rcases lt_or_ge (now.getD clock) (t + (pyInt q.windowSeconds + 2 : Int)) with hlive | hgone
  · obtain ⟨x, ⟨e, he, rfl⟩, hmin, -, hhint⟩ := h.oldest
    have hend : t + hint = e.2 + q.windowSeconds := by
      rw [hhint, max_eq_right (by linarith [h.inside e he (hpos e he)])]
      ring
    rw [h.admitted_iff hlive, hend]
    constructor
    · rintro ⟨e', he', -, hlt⟩
      linarith [hmin e' he']
    · exact fun hlt => ⟨e, he, hpos e he, by linarith⟩
  · -- the key has expired
    have hcounted : q.counted (now.getD clock) r.sets = [] := by
      rw [counted, setsAt_entries, h.expiresAt, if_pos]
      · rfl
      · simpa using hgone
    rw [check_limited h.fresh, hcounted, length_nil]
    have hroom : ((0 : Nat) : Int) < q.limit := lt_of_add_one_le q.limit_pos
    simp only [hroom, decide_true, Bool.not_true, true_iff]
    linarith [h.hint_le]

end Quota

/-! ## The guard -/

namespace RateLimitGuard

variable [PyStr] (guard : RateLimitGuard) (request : RateRequest)

def quota (hlimit : 1 ≤ guard.limit) (hwindow : 0 < guard.windowSeconds) : Quota :=
  ⟨guard.scopedKey request, guard.limit, guard.windowSeconds, hlimit, hwindow⟩

def enter (r : KeyRun) (clock : Time) : Except RateError (Except TooManyRequests RateLimitState) :=
  (rateMachine.run r.next (guard.call request) (fun _ => { now := clock }) 0
    (RateEnv.exec r.sets (.expire (formatKey (guard.scopedKey request)) clock))).1

variable {guard request}

variable (hlimit : 1 ≤ guard.limit) (hwindow : 0 < guard.windowSeconds)

lemma enter_eq : guard.enter request r clock =
      ((guard.quota request hlimit hwindow).check r none clock).1.map (guard.answer request) := by
  exact congrArg Prod.fst (Machine.run_map ..)

lemma enter_ok_iff : (∃ state, guard.enter request r clock = .ok (.ok state)) ↔
      ((guard.quota request hlimit hwindow).check r none clock).1.map (·.limited) = .ok false := by
  rw [enter_eq hlimit hwindow]
  cases hcheck : ((guard.quota request hlimit hwindow).check r none clock).1 with
  | error => simp [Except.map]
  | ok c => cases hc : c.limited <;> simp [Except.map, answer, hc]

omit [PyStr] in
lemma lt_retrySeconds_iff (h : 0 ≤ retryAfter) :
    retryAfter < retrySeconds retryAfter ↔ ¬ ∃ n : Nat, 0 < n ∧ retryAfter = n := by
  constructor
  · rintro hlt ⟨n, hn, rfl⟩
    have hone : (1 : Int) ≤ n := by exact_mod_cast hn
    rw [retrySeconds, ceil_natCast, max_eq_right hone] at hlt
    exact lt_irrefl _ (by exact_mod_cast hlt)
  · intro hwhole
    rcases lt_or_ge retryAfter 1 with hlt | hge
    · exact hlt.trans_le (by exact_mod_cast le_max_left 1 ⌈retryAfter⌉)
    · have hle : (⌈retryAfter⌉ : Time) ≤ retrySeconds retryAfter := by
        exact_mod_cast le_max_right 1 ⌈retryAfter⌉
      refine lt_of_lt_of_le (lt_of_le_of_ne (le_ceil _) fun heq => hwhole ?_) hle
      have hceil : 0 < ⌈retryAfter⌉ := ceil_pos.mpr (by linarith)
      refine ⟨⌈retryAfter⌉.toNat, by omega, heq.trans ?_⟩
      exact_mod_cast (toNat_of_nonneg hceil.le).symm

end RateLimitGuard

open RateLimitGuard in
/-- **A retry is admitted after the hint, and not at it.** After any completed calls, let a check at
time `t` be limited with `retry_after`, and no call come in between. A check at
`t + retry_after` is limited again. If no time is negative, a check is admitted exactly if it comes
later than that. So a client that waits the `Retry-After` of the guard is admitted exactly if
`retry_after` is not a positive whole number. -/
theorem distributed_hint [PyStr] (q : Quota) {calls : List KeyCall} {now : Option Time}
    {clock : Time} (hpast : ∀ call ∈ calls, call.time ≤ now.getD clock) {c : RateCheck}
    (hcheck : (q.check (q.run {} calls) now clock).1 = .ok c) (hlimited : c.limited = true) :
    let after := q.run {} (calls ++ [.check now clock])
    (∀ now' clock', now'.getD clock' = now.getD clock + c.retryAfter →
      (q.check after now' clock').1.map (·.limited) = .ok true) ∧
    ((∀ call ∈ calls ++ [.check now clock], 0 ≤ call.time) →
      (∀ now' clock', (q.check after now' clock').1.map (·.limited) = .ok false ↔
        now.getD clock + c.retryAfter < now'.getD clock') ∧
      ∀ (guard : RateLimitGuard) (request : RateRequest) hlimit hwindow,
        q = guard.quota request hlimit hwindow → now = none →
        ∃ e, guard.enter request (q.run {} calls) clock = .ok (.error e) ∧
          ((∃ state, guard.enter request after (clock + e.retryAfter) = .ok (.ok state)) ↔
            ¬ ∃ n : Nat, 0 < n ∧ c.retryAfter = n)) := by
  intro after
  have hkept : q.Kept calls _ := Quota.kept_run calls
  have hafter : after = q.step (q.run {} calls) (.check now clock) := by
    simp only [after, Quota.run, foldl_append]
    rfl
  have h : q.Limited (now.getD clock) c.retryAfter after := by
    rw [hafter]
    exact Quota.limited_of_check hkept hpast hcheck hlimited
  refine ⟨fun now' clock' ht => h.at_hint ht, fun hpos => ?_⟩
  have hscores : ∀ e ∈ after.sets.entries q.redisKey, 0 ≤ e.2 := by
    intro e he
    have hkept : q.Kept _ after := Quota.kept_run (calls ++ [.check now clock])
    obtain ⟨call, hcall, htime⟩ := mem_map.mp (hkept.times e he)
    rw [← htime]
    exact hpos call hcall
  have hiff : ∀ now' clock', (q.check after now' clock').1.map (·.limited) = .ok false ↔
      now.getD clock + c.retryAfter < now'.getD clock' := fun now' clock' => h.after_hint hscores
  refine ⟨hiff, ?_⟩
  rintro guard request hlimit hwindow rfl rfl
  have hretry : 0 ≤ c.retryAfter := by
    obtain ⟨x, -, -, -, heq⟩ := h.oldest
    rw [heq]
    exact le_max_left _ _
  refine ⟨{ retryAfter := retrySeconds c.retryAfter, rateLimitLimit := guard.limit }, ?_, ?_⟩
  · rw [enter_eq hlimit hwindow, hcheck, Except.map, answer, if_pos hlimited]
  · rw [enter_ok_iff hlimit hwindow, hiff, ← lt_retrySeconds_iff hretry]
    exact add_lt_add_iff_left clock

/-! ### One request in ten seconds -/

def onePerTen : RateLimitGuard := { limit := 1, windowSeconds := 10 }

def apiClient : RateRequest := { apiKey := some "client" }

def onePerTenQuota : Quota :=
  @RateLimitGuard.quota asciiStr onePerTen apiClient (by decide) (by decide +kernel)

/-- A request at second four and a half is told to wait, and is admitted when it has waited the six
seconds of the header. -/
theorem distributed_hint_fraction : ∃ e, @RateLimitGuard.enter asciiStr onePerTen apiClient
        (onePerTenQuota.run {} [.check none 0]) (9 / 2) = .ok (.error e) ∧
      ∃ state, @RateLimitGuard.enter asciiStr onePerTen apiClient
        (onePerTenQuota.run {} ([.check none 0] ++ [.check none (9 / 2)])) (9 / 2 + e.retryAfter) =
          .ok (.ok state) := by
  have hcheck : (onePerTenQuota.check (onePerTenQuota.run {} [.check none 0]) none (9 / 2)).1 =
      .ok ⟨true, 1, 11 / 2⟩ := by decide +kernel
  have hhint := @distributed_hint asciiStr onePerTenQuota [.check none 0] none (9 / 2)
    (by decide +kernel) _ hcheck rfl
  obtain ⟨e, he, hiff⟩ := (hhint.2 (by decide +kernel)).2 onePerTen apiClient _ _ rfl rfl
  refine ⟨e, he, hiff.mpr ?_⟩
  rintro ⟨n, -, hn⟩
  have h : (11 : Rat) = 2 * n := by linarith
  have h' : 11 = 2 * n := by exact_mod_cast h
  omega

/-- A request at second five is told to wait five seconds, and is limited again when it has. -/
theorem limited_at_hint :
    (onePerTenQuota.run {} [.check none 0, .check none 5, .check none (5 + 5)]).answers =
      [.ok ⟨false, 1, 0⟩, .ok ⟨true, 1, 5⟩, .ok ⟨true, 1, 0⟩] ∧
    @RateLimitGuard.enter asciiStr onePerTen apiClient (onePerTenQuota.run {} [.check none 0]) 5 =
      .ok (.error { retryAfter := 5, rateLimitLimit := 1 }) ∧
    @RateLimitGuard.enter asciiStr onePerTen apiClient
      (onePerTenQuota.run {} [.check none 0, .check none 5]) (5 + 5) =
        .ok (.error { retryAfter := 1, rateLimitLimit := 1 }) := by
  decide +kernel

end CleanArch
