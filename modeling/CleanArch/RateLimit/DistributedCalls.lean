import CleanArch.Async.Alone
import CleanArch.RateLimit.DistributedBound

/-!
# Completed calls on one key

The calls on one key, each from its start to its end, with a Redis that works: checks with one limit
and one window (`Quota`), and inspections with any window. The calls and Redis read one clock: a
call finds the key without what has expired at its time.
-/

namespace CleanArch

open Assoc Async Int List SortedSets

structure Quota where
  key : String
  limit : Int
  windowSeconds : Time
  limit_pos : 1 ≤ limit
  window_pos : 0 < windowSeconds

inductive KeyCall where
  /-- `check_distributed_rate_limit`. -/
  | check (now : Option Time) (clock : Time)
  /-- `get_client_status`. -/
  | status (windowSeconds : Time) (now : Option Time) (clock : Time)
  deriving DecidableEq

def KeyCall.time : KeyCall → Time
  | .check now clock => now.getD clock
  | .status _ now clock => now.getD clock

structure KeyRun where
  sets : SortedSets := {}
  next : Tid := 0
  answers : List (Except RateError RateCheck) := []

/-- What is left of the members when those with a score in `[0, threshold)` are removed. -/
def prunedEntries (threshold : Time) (es : List (Member × Time)) : List (Member × Time) :=
  es.filter fun e => !(decide (0 ≤ e.2) && decide (e.2 < threshold))

lemma mem_prunedEntries :
    e ∈ prunedEntries threshold es ↔ e ∈ es ∧ (0 ≤ e.2 → threshold ≤ e.2) := by
  rw [prunedEntries, mem_filter]
  simp [or_iff_not_imp_left]

namespace Quota

variable (q : Quota)

def redisKey : String := formatKey q.key

def setsAt (time : Time) (s : SortedSets) : SortedSets := RateEnv.exec s (.expire q.redisKey time)

def check (r : KeyRun) (now : Option Time) (clock : Time) :
    Except RateError RateCheck × SortedSets :=
  let x := rateMachine.run r.next
    (checkDistributedRateLimit ⟨q.key, q.limit, q.windowSeconds, now⟩) (fun _ => { now := clock }) 0
    (q.setsAt (now.getD clock) r.sets)
  (x.1, x.2.2)

def status (r : KeyRun) (windowSeconds : Time) (now : Option Time) (clock : Time) :
    Except RateError ClientStatus × SortedSets :=
  let x := rateMachine.run r.next (getClientStatus q.key windowSeconds now)
    (fun _ => { now := clock }) 0 (q.setsAt (now.getD clock) r.sets)
  (x.1, x.2.2)

def step (r : KeyRun) : KeyCall → KeyRun
  | .check now clock =>
    let x := q.check r now clock
    ⟨x.2, r.next + 1, r.answers ++ [x.1]⟩
  | .status windowSeconds now clock => { r with sets := (q.status r windowSeconds now clock).2 }

def run (r : KeyRun) (calls : List KeyCall) : KeyRun := calls.foldl q.step r

def counted (time : Time) (s : SortedSets) : List (Member × Time) :=
  prunedEntries (time - q.windowSeconds) ((q.setsAt time s).entries q.redisKey)

/-- The pipeline of a check at `t`. -/
def executed (r : KeyRun) (t : Time) : PipelineReply × SortedSets :=
  (q.setsAt t r.sets).execute q.redisKey (t - q.windowSeconds) ⟨t, r.next⟩ t
    (pyInt q.windowSeconds + 2)

section Calls

variable {q : Quota} {r : KeyRun} {clock : Time}

lemma seconds_pos : 0 < pyInt q.windowSeconds + 2 := by
  have h := lt_pyInt_add q.window_pos
  have h' : (0 : Time) < (pyInt q.windowSeconds + 2 : Int) := q.window_pos.trans h
  exact_mod_cast h'

lemma check_eq : q.check r now clock =
    let t := now.getD clock
    let x := q.executed r t
    if (x.1.currentCount : Int) ≤ q.limit then (.ok ⟨false, x.1.currentCount, 0⟩, x.2)
    else (.ok ⟨true, q.limit, max 0 (x.1.oldest.getD t + q.windowSeconds - t)⟩,
      x.2.zrem q.redisKey ⟨t, r.next⟩) := by
  unfold check checkDistributedRateLimit
  simp only [rate, Prog.call, bind, Prog.bind, Prog.ofExcept, Machine.run, RateCmd.exec, withFault,
    pure]
  split
  · next h => exact (if_pos h).symm
  · next h => exact (if_neg h).symm

lemma setsAt_entries : (q.setsAt t s).entries q.redisKey =
    if (s.expiresAt q.redisKey).any (· ≤ t) then [] else s.entries q.redisKey := by
  simp only [setsAt, RateEnv.exec]
  split <;> simp [delete]

lemma setsAt_expiresAt : (q.setsAt t s).expiresAt q.redisKey =
    if (s.expiresAt q.redisKey).any (· ≤ t) then none else s.expiresAt q.redisKey := by
  simp only [setsAt, RateEnv.exec]
  split <;> simp [delete]

lemma prunedEntries_sublist : (prunedEntries threshold ((q.setsAt t s).entries q.redisKey)).Sublist
      (s.entries q.redisKey) := by
  refine filter_sublist.trans ?_
  rw [setsAt_entries]
  split
  · exact nil_sublist _
  · exact List.Sublist.refl _

lemma counted_sublist : (q.counted t s).Sublist (s.entries q.redisKey) := prunedEntries_sublist

section Fresh

variable (hfresh : ∀ e ∈ r.sets.entries q.redisKey, e.1.id ≠ r.next)

include hfresh

lemma execute_counted :
    (q.executed r t).2.entries q.redisKey = q.counted t r.sets ++ [(⟨t, r.next⟩, t)] := by
  rw [executed, execute_entries seconds_pos]
  refine set_of_absent (fun e he => beq_eq_false_iff_ne.mpr fun heq => ?_)
  exact hfresh e ((counted_sublist).subset he) (by rw [heq])

lemma execute_count : (q.executed r t).1.currentCount = (q.counted t r.sets).length + 1 := by
  have hcount : (q.executed r t).1.currentCount = _ := execute_currentCount seconds_pos
  rw [hcount, ← executed, execute_counted hfresh, length_append, length_singleton]

lemma check_answer :
    let t := now.getD clock
    let es := q.counted t r.sets
    (q.check r now clock).1 = .ok (if (es.length : Int) < q.limit then ⟨false, es.length + 1, 0⟩
      else ⟨true, q.limit, max 0 ((es.map (·.2) ++ [t]).min?.getD t + q.windowSeconds - t)⟩) := by
  intro t es
  have holdest : (q.executed r t).1.oldest = (es.map (·.2) ++ [t]).min? := by
    have hexec : (q.executed r t).1.oldest = _ := execute_oldest seconds_pos
    rw [hexec, ← executed, execute_counted hfresh, map_append]
    rfl
  rw [check_eq]
  dsimp only
  rw [execute_count hfresh, holdest]
  push_cast
  by_cases hroom : (es.length : Int) < q.limit
  · rw [if_pos (add_one_le_of_lt hroom), if_pos hroom]
  · rw [if_neg fun h => hroom (lt_of_add_one_le h), if_neg hroom]

lemma check_limited : (q.check r now clock).1.map (·.limited) =
      .ok (!decide (((q.counted (now.getD clock) r.sets).length : Int) < q.limit)) := by
  rw [check_answer hfresh, Except.map]
  split
  all_goals next h => simp [h]

lemma check_entries :
    let t := now.getD clock
    let es := q.counted t r.sets
    (q.check r now clock).2.entries q.redisKey =
      if (es.length : Int) < q.limit then es ++ [(⟨t, r.next⟩, t)] else es := by
  intro t es
  rw [check_eq]
  dsimp only
  rw [execute_count hfresh]
  push_cast
  by_cases hroom : (es.length : Int) < q.limit
  · rw [if_pos (add_one_le_of_lt hroom), if_pos hroom, execute_counted hfresh]
  · rw [if_neg fun h => hroom (lt_of_add_one_le h), if_neg hroom]
    have habsent : ∀ e ∈ es, (e.1 == (⟨t, r.next⟩ : Member)) = false := fun e he => by
      refine beq_eq_false_iff_ne.mpr fun heq => ?_
      exact hfresh e ((counted_sublist).subset he) (by rw [heq])
    simp only [zrem, Function.update_self]
    rw [execute_counted hfresh, erase, filter_append]
    change erase es _ ++ _ = es
    rw [erase_of_absent habsent]
    simp

end Fresh

lemma check_expiresAt : (q.check r now clock).2.expiresAt q.redisKey =
    some (now.getD clock + (pyInt q.windowSeconds + 2 : Int)) := by
  rw [check_eq]
  dsimp only
  split
  all_goals exact execute_expiresAt seconds_pos

lemma status_entries (windowSeconds : Time) :
    (q.status r windowSeconds now clock).2.entries q.redisKey =
      prunedEntries (now.getD clock - windowSeconds)
        ((q.setsAt (now.getD clock) r.sets).entries q.redisKey) :=
  Function.update_self ..

lemma status_expiresAt (windowSeconds : Time) :
    (q.status r windowSeconds now clock).2.expiresAt q.redisKey =
      (q.setsAt (now.getD clock) r.sets).expiresAt q.redisKey := rfl

end Calls

/-! ## Runs -/

structure Kept (calls : List KeyCall) (r : KeyRun) : Prop where
  ids : ∀ e ∈ r.sets.entries q.redisKey, e.1.id < r.next
  times : ∀ e ∈ r.sets.entries q.redisKey, e.2 ∈ calls.map KeyCall.time
  length_le : ((r.sets.entries q.redisKey).length : Int) ≤ q.limit

variable {q} {calls : List KeyCall} {r : KeyRun}

lemma Kept.fresh (h : q.Kept calls r) : ∀ e ∈ r.sets.entries q.redisKey, e.1.id ≠ r.next :=
  fun e he => (h.ids e he).ne

lemma Kept.of_sublist (h : q.Kept calls r) (call : KeyCall) {s : SortedSets}
    (hs : (s.entries q.redisKey).Sublist (r.sets.entries q.redisKey)) :
    q.Kept (calls ++ [call]) { r with sets := s } where
  ids e he := h.ids e (hs.subset he)
  times e he := by
    rw [map_append]
    exact mem_append_left _ (h.times e (hs.subset he))
  length_le := (ofNat_le.mpr hs.length_le).trans h.length_le

lemma Kept.step (h : q.Kept calls r) (call : KeyCall) :
    q.Kept (calls ++ [call]) (q.step r call) := by
  cases call with
  | status =>
    refine h.of_sublist _ ?_
    rw [status_entries]
    exact prunedEntries_sublist
  | check now clock =>
    have hentries : (q.step r (.check now clock)).sets.entries q.redisKey = _ :=
      check_entries h.fresh
    have hmem : ∀ e ∈ (q.step r (.check now clock)).sets.entries q.redisKey,
        e ∈ r.sets.entries q.redisKey ∨ e = (⟨now.getD clock, r.next⟩, now.getD clock) := by
      intro e he
      rw [hentries] at he
      split at he
      · rcases mem_append.mp he with he | he
        · exact .inl ((counted_sublist).subset he)
        · exact .inr (mem_singleton.mp he)
      · exact .inl ((counted_sublist).subset he)
    refine ⟨fun e he => ?_, fun e he => ?_, ?_⟩
    · rcases hmem e he with he | rfl
      · exact (h.ids e he).trans (Nat.lt_succ_self _)
      · exact Nat.lt_succ_self _
    · rw [map_append]
      rcases hmem e he with he | rfl
      · exact mem_append_left _ (h.times e he)
      · exact mem_append_right _ mem_cons_self
    · rw [hentries]
      split
      · next hroom =>
        rw [length_append, length_singleton]
        exact add_one_le_of_lt hroom
      · exact (ofNat_le.mpr (counted_sublist).length_le).trans h.length_le

lemma kept_run (calls : List KeyCall) : q.Kept calls (q.run {} calls) := by
  induction calls using reverseRecOn with
  | nil =>
    refine ⟨fun _ he => absurd he not_mem_nil, fun _ he => absurd he not_mem_nil, ?_⟩
    exact (zero_le_ofNat 1).trans q.limit_pos
  | append_singleton calls call ih =>
    rw [run, foldl_append]
    exact ih.step call

end Quota
end CleanArch
