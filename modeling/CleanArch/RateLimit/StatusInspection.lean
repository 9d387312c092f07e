import CleanArch.RateLimit.DistributedCalls

/-!
# Inspections of a rate limit

`get_client_status` prunes the sorted set that it reads, with the window of its caller, and the
checks of the key count what is left. With windows that are not shorter than the window of the
checks, an inspection removes only what the next check would remove.
-/

namespace CleanArch

open List

def KeyCall.isStatus : KeyCall → Bool
  | .status .. => true
  | .check .. => false

def withoutStatus (calls : List KeyCall) : List KeyCall := calls.filter fun c => !c.isStatus

def KeyRun.limited (r : KeyRun) : List (Except RateError Bool) :=
  r.answers.map fun x => x.map (·.limited)

def KeyInOrder (calls : List KeyCall) : Prop := (calls.map KeyCall.time).Pairwise (· ≤ ·)

lemma prunedEntries_of_le (h : w ≤ w') :
    prunedEntries w' (prunedEntries w es) = prunedEntries w' es := by
  unfold prunedEntries
  rw [filter_filter]
  refine filter_congr fun e _ => ?_
  by_cases hw : e.2 < w
  · simp [hw, hw.trans_le h]
  · simp [hw]

namespace Quota

variable {q : Quota} {r r' : KeyRun} {s : SortedSets} {t : Time} {calls calls' : List KeyCall}

lemma limited_check (q : Quota) (r : KeyRun) (now : Option Time) (clock : Time) :
    (q.step r (.check now clock)).limited =
      r.limited ++ [(q.check r now clock).1.map (·.limited)] :=
  map_append

/-! ## The key at two times -/

lemma setsAt_expiresAt_of_le (h : t ≤ t') (s : SortedSets) : (q.setsAt t' s).expiresAt q.redisKey =
      if ((q.setsAt t s).expiresAt q.redisKey).any (· ≤ t') then none
      else (q.setsAt t s).expiresAt q.redisKey := by
  rw [setsAt_expiresAt, setsAt_expiresAt]
  cases s.expiresAt q.redisKey with
  | none => rfl
  | some d =>
    by_cases hd : d ≤ t
    · simp [hd, hd.trans h]
    · simp [hd]

lemma counted_of_le (h : t ≤ t') (s : SortedSets) :
    q.counted t' s = if ((q.setsAt t s).expiresAt q.redisKey).any (· ≤ t') then []
      else prunedEntries (t' - q.windowSeconds) (q.counted t s) := by
  rw [counted, counted, setsAt_entries, setsAt_entries, setsAt_expiresAt,
    prunedEntries_of_le (sub_le_sub_right h _)]
  cases s.expiresAt q.redisKey with
  | none => rfl
  | some d =>
    by_cases hd : d ≤ t
    · simp [hd, hd.trans h, prunedEntries]
    · by_cases hd' : d ≤ t' <;> simp [hd, hd', prunedEntries]

/-! ## Two runs -/

/-- The two runs agree on what a check from time `t` on sees. -/
structure SameCounts (q : Quota) (t : Time) (r r' : KeyRun) : Prop where
  next : r.next = r'.next
  answers : r.answers = r'.answers
  counted : q.counted t r.sets = q.counted t r'.sets
  expiresAt : (q.setsAt t r.sets).expiresAt q.redisKey = (q.setsAt t r'.sets).expiresAt q.redisKey

lemma SameCounts.mono (h : q.SameCounts t r r') (ht : t ≤ t') : q.SameCounts t' r r' where
  next := h.next
  answers := h.answers
  counted := by rw [counted_of_le ht, counted_of_le ht, h.counted, h.expiresAt]
  expiresAt := by rw [setsAt_expiresAt_of_le ht, setsAt_expiresAt_of_le ht, h.expiresAt]

lemma counted_congr (hentries : s.entries q.redisKey = s'.entries q.redisKey)
    (hexp : s.expiresAt q.redisKey = s'.expiresAt q.redisKey) :
    q.counted t s = q.counted t s' := by
  rw [counted, counted, setsAt_entries, setsAt_entries, hentries, hexp]

/-- **A check of both runs**: the answer is the same, and the runs agree after it. -/
theorem SameCounts.check (h : q.SameCounts (now.getD clock) r r') (hkept : q.Kept calls r)
    (hkept' : q.Kept calls' r') :
    q.SameCounts (now.getD clock) (q.step r (.check now clock)) (q.step r' (.check now clock)) := by
  have hanswer : (q.check r now clock).1 = (q.check r' now clock).1 := by
    rw [check_answer hkept.fresh, check_answer hkept'.fresh]
    rw [h.counted]
  have hentries : (q.check r now clock).2.entries q.redisKey =
      (q.check r' now clock).2.entries q.redisKey := by
    rw [check_entries hkept.fresh, check_entries hkept'.fresh]
    rw [h.counted, h.next]
  have hexp : (q.check r now clock).2.expiresAt q.redisKey =
      (q.check r' now clock).2.expiresAt q.redisKey := by
    rw [check_expiresAt, check_expiresAt]
  constructor
  · exact congrArg (· + 1) h.next
  · change r.answers ++ [_] = r'.answers ++ [_]
    rw [h.answers, hanswer]
  · exact counted_congr hentries hexp
  · change (q.setsAt _ (q.check r now clock).2).expiresAt _ =
      (q.setsAt _ (q.check r' now clock).2).expiresAt _
    rw [setsAt_expiresAt, setsAt_expiresAt, hexp]

/-- **An inspection of one run**, with a window that is long enough. -/
theorem SameCounts.status {windowSeconds : Time} (h : q.SameCounts (now.getD clock) r r')
    (hlong : q.windowSeconds ≤ windowSeconds) :
    q.SameCounts (now.getD clock) (q.step r (.status windowSeconds now clock)) r' := by
  have hlive : ((q.setsAt (now.getD clock) r.sets).expiresAt q.redisKey).any
      (· ≤ now.getD clock) = false := by
    rw [setsAt_expiresAt]
    split
    · rfl
    · next hnot => exact Bool.eq_false_iff.mpr hnot
  constructor
  · exact h.next
  · exact h.answers
  · rw [← h.counted]
    change q.counted (now.getD clock) (q.status r windowSeconds now clock).2 =
      q.counted (now.getD clock) r.sets
    rw [Quota.counted, setsAt_entries, status_expiresAt, hlive, if_neg Bool.false_ne_true,
      status_entries, prunedEntries_of_le (sub_le_sub_left hlong _)]
    rfl
  · rw [← h.expiresAt]
    change (q.setsAt _ (q.status r windowSeconds now clock).2).expiresAt _ = _
    rw [setsAt_expiresAt, status_expiresAt, hlive, if_neg Bool.false_ne_true]

/-- **The run with the inspections, and the run without.** -/
theorem SameCounts.run (h : q.SameCounts t r r') (hkept : q.Kept calls r)
    (hkept' : q.Kept calls' r') {later : List KeyCall} (horder : KeyInOrder later)
    (ht : ∀ call ∈ later, t ≤ call.time)
    (hlong : ∀ windowSeconds now clock, .status windowSeconds now clock ∈ later →
      q.windowSeconds ≤ windowSeconds) :
    (q.run r later).answers = (q.run r' (withoutStatus later)).answers := by
  induction later generalizing t r r' calls calls' with
  | nil => exact h.answers
  | cons call later ih =>
    obtain ⟨hfirst, hrest⟩ := pairwise_cons.mp horder
    have hafter : ∀ c ∈ later, call.time ≤ c.time := fun c hc =>
      hfirst _ (mem_map_of_mem hc)
    have hlong' : ∀ windowSeconds now clock, .status windowSeconds now clock ∈ later →
        q.windowSeconds ≤ windowSeconds :=
      fun w now clock hmem => hlong w now clock (mem_cons_of_mem _ hmem)
    have hnow := h.mono (ht call mem_cons_self)
    cases call with
    | check =>
      exact ih (hnow.check hkept hkept') (hkept.step _) (hkept'.step _) hrest hafter hlong'
    | status windowSeconds now clock =>
      have hw := hlong windowSeconds now clock mem_cons_self
      exact ih (hnow.status hw) (hkept.step _) hkept' hrest hafter hlong'

/-! ## A short window -/

structure Zeros (q : Quota) (n : Nat) (s : SortedSets) : Prop where
  length_eq : (s.entries q.redisKey).length = n
  zero : ∀ e ∈ s.entries q.redisKey, e.2 = 0
  live : ∀ d, s.expiresAt q.redisKey = some d → q.windowSeconds < d

variable {n : Nat}

lemma Zeros.entries_setsAt (h : q.Zeros n s) (ht : t ≤ q.windowSeconds) :
    (q.setsAt t s).entries q.redisKey = s.entries q.redisKey := by
  rw [setsAt_entries]
  cases hd : s.expiresAt q.redisKey with
  | none => rfl
  | some d =>
    have := h.live d hd
    rw [if_neg]
    simp only [Option.any_some, decide_eq_true_eq, not_le]
    exact ht.trans_lt this

lemma Zeros.counted (h : q.Zeros n s) (ht : t ≤ q.windowSeconds) :
    q.counted t s = s.entries q.redisKey := by
  rw [Quota.counted, h.entries_setsAt ht, prunedEntries, filter_eq_self]
  intro e he
  simp [h.zero e he, ht]

lemma Zeros.check (h : q.Zeros n r.sets) (hkept : q.Kept calls r) (hn : (n : Int) < q.limit) :
    q.Zeros (n + 1) (q.step r (.check (some 0) 0)).sets := by
  have hcounted : q.counted 0 r.sets = r.sets.entries q.redisKey := h.counted q.window_pos.le
  have hentries : (q.step r (.check (some 0) 0)).sets.entries q.redisKey =
      r.sets.entries q.redisKey ++ [(⟨0, r.next⟩, 0)] := by
    rw [← hcounted]
    refine (check_entries hkept.fresh).trans (if_pos ?_)
    change ((q.counted 0 r.sets).length : Int) < q.limit
    rw [hcounted, h.length_eq]
    exact hn
  constructor
  · rw [hentries, length_append, h.length_eq, length_singleton]
  · rw [hentries]
    intro e he
    rcases mem_append.mp he with he | he
    · exact h.zero e he
    · rw [mem_singleton.mp he]
  · intro d hd
    have hexp : (q.step r (.check (some 0) 0)).sets.expiresAt q.redisKey = some _ :=
      check_expiresAt
    rw [hexp, Option.some.injEq] at hd
    rw [← hd, Option.getD_some, zero_add]
    exact lt_pyInt_add q.window_pos

lemma zeros_run (hn : (n : Int) ≤ q.limit) :
    q.Zeros n (q.run {} (List.replicate n (.check (some 0) 0))).sets := by
  induction n with
  | zero =>
    exact ⟨rfl, fun _ he => absurd he not_mem_nil, nofun⟩
  | succ n ih =>
    have hlt : (n : Int) < q.limit := by omega
    rw [replicate_succ', run, foldl_append]
    exact (ih hlt.le).check (kept_run _) hlt

/-- A full set of members of time 0, at the end of their window: a check is limited, and it is
admitted after an inspection with a shorter window. -/
lemma short_status_admits (hkept : q.Kept calls r) (h : q.Zeros q.limit.toNat r.sets)
    {windowSeconds : Time} (hshort : windowSeconds < q.windowSeconds) :
    let last : Time := q.windowSeconds
    (q.check r (some last) last).1.map (·.limited) = .ok true ∧
      (q.check (q.step r (.status windowSeconds (some last) last)) (some last)
        last).1.map (·.limited) = .ok false := by
  intro last
  have hlimit : ((q.limit.toNat : Nat) : Int) = q.limit := by
    have := q.limit_pos
    omega
  have hcounted : q.counted last r.sets = r.sets.entries q.redisKey := h.counted le_rfl
  have hempty : q.counted last (q.step r (.status windowSeconds (some last) last)).sets = [] := by
    rw [Quota.counted, eq_nil_iff_forall_not_mem]
    intro e he
    have hmem : e ∈ (q.status r windowSeconds (some last) last).2.entries q.redisKey :=
      (prunedEntries_sublist).subset he
    rw [status_entries] at hmem
    obtain ⟨hmem, hout⟩ := mem_prunedEntries.mp hmem
    rw [Option.getD_some, h.entries_setsAt le_rfl] at hmem
    have hzero := h.zero e hmem
    have := hout hzero.ge
    rw [hzero, Option.getD_some] at this
    linarith
  constructor
  · rw [check_limited hkept.fresh, Option.getD_some, hcounted, h.length_eq, hlimit]
    simp
  · rw [check_limited (hkept.step _).fresh, Option.getD_some, hempty, length_nil]
    have hroom : 0 < q.limit := Int.lt_of_add_one_le q.limit_pos
    simp [hroom]

end Quota

/-- **Inspections do not change the answers of the checks, exactly if none has a shorter window**:
for every limit from 1 on and every window (a `Quota` has no other), and every set of windows that
the inspections may use. -/
theorem inspections_harmless_iff (q : Quota) (allowed : Time → Prop) : (∀ calls, KeyInOrder calls →
      (∀ windowSeconds now clock, .status windowSeconds now clock ∈ calls → allowed windowSeconds) →
      (q.run {} calls).limited = (q.run {} (withoutStatus calls)).limited) ↔
    ∀ windowSeconds, allowed windowSeconds → q.windowSeconds ≤ windowSeconds := by
  constructor
  · intro hsame windowSeconds hallowed
    by_contra hshort
    have hlimit : ((q.limit.toNat : Nat) : Int) ≤ q.limit := by
      have := q.limit_pos
      omega
    let zeros := List.replicate q.limit.toNat (KeyCall.check (some 0) 0)
    let status := KeyCall.status windowSeconds (some q.windowSeconds) q.windowSeconds
    let check := KeyCall.check (some q.windowSeconds) q.windowSeconds
    obtain ⟨hlimited, hadmitted⟩ := Quota.short_status_admits (Quota.kept_run zeros)
      (Quota.zeros_run hlimit) (not_le.mp hshort)
    have hwithout : withoutStatus (zeros ++ [status, check]) = zeros ++ [check] := by
      simp [withoutStatus, zeros, status, check, KeyCall.isStatus]
    have h := hsame (zeros ++ [status, check]) ?_ ?_
    · -- the last answers differ
      rw [hwithout, Quota.run, Quota.run, foldl_append, foldl_append] at h
      have hlast : (q.run {} zeros).limited ++ [.ok false] =
          (q.run {} zeros).limited ++ [.ok true] := by
        have hleft := q.limited_check (q.step (q.run {} zeros) status)
          (some q.windowSeconds) q.windowSeconds
        have hright := q.limited_check (q.run {} zeros) (some q.windowSeconds) q.windowSeconds
        rw [hadmitted] at hleft
        rw [hlimited] at hright
        exact hleft.symm.trans (h.trans hright)
      cases append_cancel_left hlast
    · refine pairwise_map.mpr (pairwise_append.mpr ⟨?_, ?_, ?_⟩)
      · exact pairwise_replicate.mpr (.inr le_rfl)
      · simp [status, check, KeyCall.time]
      · intro a ha b hb
        rw [eq_of_mem_replicate ha]
        have hw := q.window_pos.le
        rcases mem_pair.mp hb with rfl | rfl <;> exact hw
    · intro w now clock hmem
      rcases mem_append.mp hmem with hmem | hmem
      · cases eq_of_mem_replicate hmem
      · rcases mem_pair.mp hmem with heq | heq
        · rw [(KeyCall.status.inj heq).1]
          exact hallowed
        · exact KeyCall.noConfusion heq
  · intro hlong calls horder hallowed
    unfold KeyRun.limited
    cases calls with
    | nil => rfl
    | cons call calls =>
      have hstart : q.SameCounts call.time {} {} := ⟨rfl, rfl, rfl, rfl⟩
      have hfirst := (pairwise_cons.mp horder).1
      have ht : ∀ c ∈ call :: calls, call.time ≤ c.time := by
        intro c hc
        rcases mem_cons.mp hc with rfl | hc
        · exact le_rfl
        · exact hfirst _ (mem_map_of_mem hc)
      rw [hstart.run (Quota.kept_run []) (Quota.kept_run []) horder ht
        fun w now clock hmem => hlong w (hallowed w now clock hmem)]

/-- One request in ten seconds. An inspection with a window of a second, five seconds after the
first request, lets a second request through at once. -/
theorem short_inspection_admits :
    let q : Quota := ⟨"client", 1, 10, by decide, by decide +kernel⟩
    let calls : List KeyCall := [.check (some 0) 0, .status 1 (some 5) 5, .check (some 5) 5]
    (q.run {} calls).limited = [.ok false, .ok false] ∧
      (q.run {} (withoutStatus calls)).limited = [.ok false, .ok true] := by
  decide +kernel

end CleanArch
