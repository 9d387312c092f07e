import CleanArch.Ledger.Velocity
import Mathlib.Algebra.Group.Prod

/-!
# The velocity while Redis comes and goes

An evaluation reads the set of Redis or the list in memory, and never both. `AllFound` says that the
transfers are where it reads.
-/

namespace CleanArch

open Function List World

inductive OutageEvent where
  | record (source : UUID) (amount : Decimal) (now : Time) (up : Bool)
  | evaluate (source destination : UUID) (amount : Decimal) (now : Time) (up : Bool)
  | expire (account : UUID) (now : Time)

def outage (up : Bool) : Nat → Answer :=
  fun _ => { fault := if up then none else some .refused }

namespace OutageEvent

def event : OutageEvent → FraudEvent
  | .record source amount now up => .call (.record source amount) now (outage up)
  | .evaluate source destination amount now up =>
    .call (.evaluate source destination amount) now (outage up)
  | .expire account _ => .expire account

def now : OutageEvent → Time
  | .record _ _ now _ | .evaluate _ _ _ now _ | .expire _ now => now

def step (s : World) (e : OutageEvent) : World := (e.event.exec true s).2

end OutageEvent

def velocityUsed (s : World) (source : UUID) (now : Time) (up : Bool) :
    Except LedgerError (Nat × Decimal) :=
  (ledgerMachine.run 0 (getAccountVelocity true source defaultVelocityWindowSeconds)
    (answersAt now (outage up)) {} s).1

/-! ## The log -/

structure LoggedTransfer where
  time : Time
  amount : Decimal
  up : Bool
  deriving DecidableEq

def recorded (account : UUID) (es : List OutageEvent) : List LoggedTransfer :=
  es.filterMap fun
    | .record source amount now up => if source = account then some ⟨now, amount, up⟩ else none
    | _ => none

def totals (rs : List LoggedTransfer) : Nat × Decimal := (rs.length, (rs.map (·.amount)).sum)

def recent (now : Time) (rs : List LoggedTransfer) : List LoggedTransfer :=
  rs.filter fun r => now - defaultVelocityWindowSeconds < r.time

def AllFound (rs : List LoggedTransfer) (now : Time) (up : Bool) : Prop :=
  if up then ∀ r ∈ recent now rs, r.up = true
  else totals ((recent now rs).filter (·.up)) =
    totals (rs.filter fun r => !r.up && r.time = now - defaultVelocityWindowSeconds)

def defaultVelocityTtlSeconds : Time := 600

/-- The event after the history `before`: the clock does not go back, and a set is removed when its
TTL has passed since the last transfer. -/
structure OnTime (before : List OutageEvent) (e : OutageEvent) : Prop where
  clock : ∀ e' ∈ before, e'.now ≤ e.now
  ttl : ∀ account now, e = .expire account now → ∀ r ∈ recorded account before,
    r.up = true → r.time + defaultVelocityTtlSeconds ≤ now

/-- Every event of the history is `OnTime`. -/
def OnTimeRun (es : List OutageEvent) : Prop := ∀ before e, before ++ [e] <+: es → OnTime before e

/-! ## What the stores have -/

section Invariant

variable {a : UUID} {es : List OutageEvent} {s : World}

lemma recorded_append (es : List OutageEvent) :
    recorded a (es ++ es') = recorded a es ++ recorded a es' := filterMap_append

lemma velocityRead_outage (now : Time) (up : Bool) (k : Nat) :
    (velocityRead true fun n => answersAt now (outage up) (n + k)) =
      if up then .redis else .memory := by
  cases up <;> rfl

lemma velocityWrite_outage (now : Time) :
    velocityWrite true (answersAt now (outage up)) = if up then .redis else .memory := by
  cases up <;> rfl

/-- The transfers of the set in the window from `w` on. -/
def redisPart (w : Time) (rs : List LoggedTransfer) : List (Time × Decimal) :=
  (rs.filter fun r => r.up && w < r.time).map fun r => (r.time, r.amount)

/-- The transfers of the list in the window from `w` on. -/
def memoryPart (w : Time) (rs : List LoggedTransfer) : List (Time × Decimal) :=
  (rs.filter fun r => !r.up && w ≤ r.time).map fun r => (r.time, r.amount)

lemma redisPart_append : redisPart w (xs ++ ys) = redisPart w xs ++ redisPart w ys := by
  simp [redisPart]

lemma memoryPart_append : memoryPart w (xs ++ ys) = memoryPart w xs ++ memoryPart w ys := by
  simp [memoryPart]

/-- From the start of the last window on, the set has the transfers that were recorded while Redis
was up, and the list has the others. -/
structure Stored (es : List OutageEvent) (s : World) : Prop where
  redis : ∀ a w, (∀ e ∈ es, e.now - defaultVelocityWindowSeconds ≤ w) →
    (redisWindow w (s.velocity a)).map (fun e => (e.score, e.amount)) = redisPart w (recorded a es)
  memory : ∀ a w, (∀ e ∈ es, e.now - defaultVelocityWindowSeconds ≤ w) →
    memoryWindow w (s.memVelocity a) = memoryPart w (recorded a es)

namespace Stored

lemma nil (hredis : ∀ a, s.velocity a = []) (hmemory : ∀ a, s.memVelocity a = []) :
    Stored [] s := by
  constructor
  · intro a w _
    rw [hredis]
    rfl
  · intro a w _
    rw [hmemory]
    rfl

lemma record (h : Stored es s) (source : UUID) (amount : Decimal) (now : Time) (up : Bool) :
    Stored (es ++ [.record source amount now up])
      (OutageEvent.step s (.record source amount now up)) := by
  have hstep : OutageEvent.step s (.record source amount now up) =
      (if up then VelocityWrite.redis else .memory).after source ⟨amount, 0, now⟩ s := by
    show (FraudEvent.exec true s (.call (.record source amount) now (outage up))).2 = _
    rw [exec_record, velocityWrite_outage]
    rfl
  rw [hstep]
  constructor
  · intro a w hw
    have hold := h.redis a w fun e he => hw e (mem_append_left _ he)
    rw [recorded_append, redisPart_append, ← hold]
    by_cases ha : a = source
    · subst ha
      cases up with
      | true =>
        have hnew : (redisWindow w [⟨amount, 0, now⟩]).map (fun e => (e.score, e.amount)) =
            redisPart w (recorded a [.record a amount now true]) := by
          by_cases hlt : w < now <;> simp [redisWindow, redisPart, recorded, hlt]
        simp only [if_true, VelocityWrite.after, addRedis, update_self,
          redisWindow_append, map_append, hnew]
      | false => simp [VelocityWrite.after, addMemory, redisPart, recorded]
    · cases up <;>
        simp [VelocityWrite.after, addMemory, addRedis, redisPart, recorded, Ne.symm ha,
          update_of_ne ha]
  · intro a w hw
    have hold := h.memory a w fun e he => hw e (mem_append_left _ he)
    rw [recorded_append, memoryPart_append, ← hold]
    by_cases ha : a = source
    · subst ha
      cases up with
      | true => simp [VelocityWrite.after, addRedis, memoryPart, recorded]
      | false =>
        have hnew : memoryWindow w [(now, amount)] =
            memoryPart w (recorded a [.record a amount now false]) := by
          by_cases hle : w ≤ now <;> simp [memoryWindow, memoryPart, recorded, hle]
        simp [VelocityWrite.after, addMemory, memoryWindow_append, hnew]
    · cases up <;>
        simp [VelocityWrite.after, addMemory, addRedis, memoryPart, recorded,
          Ne.symm ha, update_of_ne ha]

lemma evaluate (h : Stored es s) (source destination : UUID) (amount : Decimal) (now : Time)
    (up : Bool) : Stored (es ++ [.evaluate source destination amount now up])
      (OutageEvent.step s (.evaluate source destination amount now up)) := by
  have hstep : OutageEvent.step s (.evaluate source destination amount now up) =
      (if up then VelocityRead.redis else .memory).after source
        (now - defaultVelocityWindowSeconds) s := by
    show (FraudEvent.exec true s
      (.call (.evaluate source destination amount) now (outage up))).2 = _
    rw [exec_evaluate, evaluationRead, velocityRead_outage]
  have hsame : ∀ a, recorded a (es ++ [.evaluate source destination amount now up]) =
      recorded a es := fun a => by rw [recorded_append]; exact append_nil _
  rw [hstep]
  constructor
  · intro a w hw
    rw [hsame, ← h.redis a w fun e he => hw e (mem_append_left _ he)]
    have hle : now - defaultVelocityWindowSeconds ≤ w :=
      hw _ (mem_append_right _ (mem_singleton_self _))
    cases up with
    | false => rfl
    | true =>
      by_cases ha : a = source
      · subst ha
        simp only [if_true, VelocityRead.after, pruneRedis, update_self]
        rw [redisWindow_of_le hle]
      · simp only [if_true, VelocityRead.after, pruneRedis, update_of_ne ha]
  · intro a w hw
    rw [hsame, ← h.memory a w fun e he => hw e (mem_append_left _ he)]
    have hle : now - defaultVelocityWindowSeconds ≤ w :=
      hw _ (mem_append_right _ (mem_singleton_self _))
    cases up with
    | true => rfl
    | false =>
      by_cases ha : a = source
      · subst ha
        simp only [Bool.false_eq_true, if_false, VelocityRead.after, pruneMemory, update_self]
        rw [memoryWindow_of_le hle]
      · simp only [Bool.false_eq_true, if_false, VelocityRead.after, pruneMemory, update_of_ne ha]

lemma expire (h : Stored es s) (account : UUID) {now : Time}
    (hold : ∀ r ∈ recorded account es, r.up = true → r.time + defaultVelocityTtlSeconds ≤ now) :
    Stored (es ++ [.expire account now]) (OutageEvent.step s (.expire account now)) := by
  have hsame : ∀ a, recorded a (es ++ [.expire account now]) = recorded a es :=
    fun a => by rw [recorded_append]; exact append_nil _
  constructor
  · intro a w hw
    rw [hsame]
    have hle := hw _ (mem_append_right _ (mem_singleton_self _))
    by_cases ha : a = account
    · subst ha
      have hnone : redisPart w (recorded a es) = [] := by
        unfold redisPart
        rw [map_eq_nil_iff, filter_eq_nil_iff]
        intro r hr hin
        simp only [Bool.and_eq_true, decide_eq_true_eq] at hin
        have := hold r hr hin.1
        simp only [OutageEvent.now, defaultVelocityWindowSeconds, defaultVelocityTtlSeconds] at *
        linarith [hin.2]
      rw [hnone]
      simp [OutageEvent.step, OutageEvent.event, FraudEvent.exec, LedgerEnv.exec, redisWindow]
    · rw [← h.redis a w fun e he => hw e (mem_append_left _ he)]
      simp [OutageEvent.step, OutageEvent.event, FraudEvent.exec, LedgerEnv.exec, update_of_ne ha]
  · intro a w hw
    rw [hsame]
    exact h.memory a w fun e he => hw e (mem_append_left _ he)

lemma step (h : Stored es s) {e : OutageEvent} (he : OnTime es e) :
    Stored (es ++ [e]) (e.step s) := by
  cases e with
  | record source amount now up => exact h.record source amount now up
  | evaluate source destination amount now up =>
    exact h.evaluate source destination amount now up
  | expire account now => exact h.expire account (he.ttl account now rfl)

lemma run (hs : Stored [] s) (hes : OnTimeRun es) : Stored es (es.foldl OutageEvent.step s) := by
  induction es using reverseRecOn with
  | nil => exact hs
  | append_singleton es e ih =>
    rw [foldl_append]
    refine (ih fun before e' hpre => hes before e' ?_).step (hes es e prefix_rfl)
    exact hpre.trans (prefix_append es [e])

end Stored

end Invariant

/-! ## What an evaluation uses -/

lemma totals_append : totals (xs ++ ys) = totals xs + totals ys := by
  simp [totals]

lemma totals_perm (h : xs.Perm ys) : totals xs = totals ys := by
  unfold totals
  rw [h.length_eq, (h.map _).sum_eq]

lemma totals_split (p : LoggedTransfer → Bool) (rs : List LoggedTransfer) :
    totals (rs.filter p) + totals (rs.filter fun r => !p r) = totals rs := by
  rw [← totals_append]
  exact totals_perm (filter_append_perm p rs)

lemma totals_eq_zero : totals rs = 0 ↔ rs = [] := by
  constructor
  · intro h
    exact eq_nil_of_length_eq_zero (congrArg Prod.fst h)
  · rintro rfl
    rfl

lemma totals_memory (now : Time) (rs : List LoggedTransfer) :
    totals (rs.filter fun r => !r.up && now - defaultVelocityWindowSeconds ≤ r.time) =
      totals ((recent now rs).filter fun r => !r.up) +
        totals (rs.filter fun r => !r.up && r.time = now - defaultVelocityWindowSeconds) := by
  rw [← totals_split fun r => now - defaultVelocityWindowSeconds < r.time]
  unfold recent
  rw [filter_filter, filter_filter, filter_filter]
  congr 2
  all_goals
    refine filter_congr fun r _ => ?_
    grind

section Used

variable {now : Time}

/-- Of the recent transfers, an evaluation uses those of the set while Redis is up, and otherwise
those of the list. -/
lemma Stored.velocityUsed_eq (h : Stored es s) (hclock : ∀ e ∈ es, e.now ≤ now) (up : Bool) :
    velocityUsed s source now up = .ok (
      if up then totals ((recent now (recorded source es)).filter (·.up))
      else totals ((recorded source es).filter fun r =>
        !r.up && now - defaultVelocityWindowSeconds ≤ r.time)) := by
  have hw : ∀ e ∈ es, e.now - defaultVelocityWindowSeconds ≤ now - defaultVelocityWindowSeconds :=
    fun e he => sub_le_sub_right (hclock e he) _
  have hread : velocityRead true (answersAt now (outage up)) = if up then .redis else .memory :=
    velocityRead_outage now up 0
  unfold velocityUsed
  rw [getAccountVelocity_run, hread]
  refine congrArg Except.ok ?_
  cases up with
  | true =>
    have hset := h.redis source _ hw
    have hcount := congrArg List.length hset
    have hvolume := congrArg (fun ps => (ps.map Prod.snd).sum) hset
    simp only [length_map, map_map, comp_def, redisPart] at hcount hvolume
    simp only [if_true, VelocityRead.velocity, totals, recent, filter_filter]
    exact Prod.ext hcount hvolume
  | false =>
    have hlist := h.memory source _ hw
    simp only [Bool.false_eq_true, if_false, VelocityRead.velocity]
    have hstart : (answersAt now (outage false) 0).now = now := rfl
    rw [hstart, hlist]
    simp only [memoryPart, totals, length_map, map_map, comp_def]

/-- **What an evaluation uses is the velocity** of the last 300 seconds exactly if the transfers are
`AllFound`, in every history from an empty service. -/
theorem velocity_used_iff (s : World) (hredis : ∀ a, s.velocity a = [])
    (hmemory : ∀ a, s.memVelocity a = []) (es : List OutageEvent) (source destination : UUID)
    (amount : Decimal) (now : Time) (up : Bool)
    (hes : OnTimeRun (es ++ [.evaluate source destination amount now up])) :
    velocityUsed (es.foldl OutageEvent.step s) source now up =
        .ok (totals (recent now (recorded source es))) ↔
      AllFound (recorded source es) now up := by
  have hstored : Stored es (es.foldl OutageEvent.step s) :=
    (Stored.nil hredis hmemory).run fun before e hpre =>
      hes before e (hpre.trans (prefix_append es _))
  have hclock : ∀ e ∈ es, e.now ≤ now := (hes es _ prefix_rfl).clock
  rw [hstored.velocityUsed_eq hclock, Except.ok.injEq]
  have hsplit := totals_split (·.up) (recent now (recorded source es))
  unfold AllFound
  cases up with
  | true =>
    simp only [if_true]
    rw [← hsplit, left_eq_add, totals_eq_zero, filter_eq_nil_iff]
    simp
  | false =>
    simp only [Bool.false_eq_true, if_false]
    rw [totals_memory, ← hsplit, add_comm, add_left_inj]
    exact eq_comm

end Used

/-! ### A transfer before an outage -/

theorem OnTimeRun.snoc (h : OnTimeRun es) (he : OnTime es e) : OnTimeRun (es ++ [e]) := by
  intro before e' hpre
  rcases prefix_concat_iff.mp hpre with heq | hpre'
  · obtain ⟨rfl, hlast⟩ := append_inj' heq rfl
    cases hlast
    exact he
  · exact h before e' hpre'

lemma timely_evaluation : OnTimeRun [.record 1 10 0 up, .evaluate 1 2 10 10 up'] := by
  have hnil : OnTimeRun [] := fun before e hpre => by
    have := prefix_nil.mp hpre
    simp at this
  have hone : OnTimeRun [.record 1 10 0 up] := by
    refine hnil.snoc ⟨fun e he => ?_, fun account now he => ?_⟩
    all_goals cases he
  refine hone.snoc ⟨fun e he => ?_, fun account now he => ?_⟩
  · rw [mem_singleton.mp he]
    norm_num [OutageEvent.now]
  · cases he

/-- With Redis up all the time. -/
theorem velocity_used_up :
    velocityUsed ([OutageEvent.record 1 10 0 true].foldl OutageEvent.step {}) 1 10 true =
      .ok (1, 10) := by
  have hfound : AllFound (recorded 1 [.record 1 10 0 true]) 10 true := by
    unfold AllFound
    decide +kernel
  have htotals : totals (recent 10 (recorded 1 [.record 1 10 0 true])) = (1, 10) := by
    decide +kernel
  rw [← htotals]
  exact (velocity_used_iff {} (fun _ => rfl) (fun _ => rfl) [.record 1 10 0 true] 1 2 10 10 true
    (timely_evaluation)).mpr hfound

/-- Redis goes down between the two: the evaluation uses no transfer. -/
theorem outage_forgets :
    velocityUsed ([OutageEvent.record 1 10 0 true].foldl OutageEvent.step {}) 1 10 false =
        .ok (0, 0) ∧
      totals (recent 10 (recorded 1 [.record 1 10 0 true])) = (1, 10) := by
  decide +kernel

end CleanArch
