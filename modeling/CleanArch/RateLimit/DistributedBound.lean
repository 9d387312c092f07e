import CleanArch.RateLimit.Distributed
import CleanArch.Windows.Sliding
import Mathlib.Data.Finset.Card
import Mathlib.Tactic.Linarith

/-!
# The rate bound of the distributed limiter

For a key that is used with one limit and one window. The history has the calls whose pipeline
counted at most `limit` members (`noteAdmitted`). The sorted set also has the members of calls that
are over the limit and have not taken them out yet, or never will. The invariant (`Admits`) is one
inclusion: an admitted call that can still count has its member in the set.
-/

namespace CleanArch

open Assoc Async Function List Protocol RateCmd SortedSets Sys Window

/-! ## One pipeline -/

namespace SortedSets

variable {s : SortedSets}

lemma execute_clock (s : SortedSets) :
    (s.execute key threshold member score seconds).2.clock key = score := by
  simp only [execute, expire]
  split <;> simp [delete, zadd, zremrangebyscore]

lemma execute_expiresAt (h : 0 < seconds) :
    (s.execute key threshold member score seconds).2.expiresAt key = some (score + seconds) := by
  simp only [execute, expire, if_neg h.not_ge]
  simp [zadd, zremrangebyscore]

lemma execute_entries (h : 0 < seconds) :
    (s.execute key threshold member score seconds).2.entries key =
      set ((s.entries key).filter fun e => !(decide (0 ≤ e.2) && decide (e.2 < threshold)))
        member score := by
  simp only [execute, expire, if_neg h.not_ge]
  simp [zadd, zremrangebyscore]

lemma execute_currentCount (h : 0 < seconds) :
    (s.execute key threshold member score seconds).1.currentCount =
      ((s.execute key threshold member score seconds).2.entries key).length := by
  simp only [execute, expire, if_neg h.not_ge, zcard]

lemma execute_oldest (h : 0 < seconds) : (s.execute key threshold member score seconds).1.oldest =
      (((s.execute key threshold member score seconds).2.entries key).map (·.2)).min? := by
  simp only [execute, expire, if_neg h.not_ge, zrange]

lemma execute_other (hk : k ≠ key) (s : SortedSets) :
    (s.execute key threshold member score seconds).2.entries k = s.entries k ∧
      (s.execute key threshold member score seconds).2.expiresAt k = s.expiresAt k ∧
      (s.execute key threshold member score seconds).2.clock k = s.clock k := by
  simp only [execute, expire]
  split <;> simp [delete, zadd, zremrangebyscore, update_of_ne hk]

lemma mem_execute_self (h : 0 < seconds) :
    (member, score) ∈ (s.execute key threshold member score seconds).2.entries key := by
  rw [execute_entries h]
  refine mem_of_find ?_
  rw [find_set, if_pos (beq_self_eq_true member)]

lemma mem_execute (h : 0 < seconds) (he : e ∈ s.entries key) (hin : threshold ≤ e.2)
    (hne : e.1 ≠ member) : e ∈ (s.execute key threshold member score seconds).2.entries key := by
  rw [execute_entries h]
  refine mem_set_of_mem (mem_filter.mpr ⟨he, ?_⟩) (by simpa using hne)
  simp [hin.not_gt]

end SortedSets

/-! ## The history -/

/-- The calls whose pipeline counted at most `limit` members, and their times. -/
def noteAdmitted (key : String) (limit : Int) (t : Tid) (h : List (Tid × Time)) :
    (c : RateCmd) → Except RateError c.Res → List (Tid × Time)
  | .pipeline k _ _ score _, .ok r =>
    if k = key ∧ (r.currentCount : Int) ≤ limit then h ++ [(t, score)] else h
  | _, _ => h

@[reducible] def rateObserver (key : String) (limit : Int) : Observer rateMachine RateEnv where
  H := List (Tid × Time)
  turn t c r _ _ h := noteAdmitted key limit t h c r
  world _ h := h

abbrev RateView := SortedSets × List (Tid × Time)

def entryOf (a : Tid × Time) : Member × Time := (⟨a.2, a.1⟩, a.2)

lemma entryOf_injective : Injective entryOf := by
  rintro ⟨t, x⟩ ⟨u, y⟩ h
  simp only [entryOf, Prod.mk.injEq, Member.mk.injEq] at h
  exact Prod.ext h.1.2 h.2

structure Admits (key : String) (limit : Int) (window : Time) (w : RateView) : Prop where
  past : ∀ a ∈ w.2, a.2 ≤ w.1.clock key
  kept : ∀ a ∈ w.2, w.1.clock key - window ≤ a.2 → entryOf a ∈ w.1.entries key
  ttl : ∀ d, w.1.expiresAt key = some d → ∀ a ∈ w.2, a.2 < d - window
  nodup : w.2.Nodup
  bounded : (closed window).Bounded limit.toNat (w.2.map (·.2))

section Step

variable {key : String} {limit : Int} {window : Time} {s : SortedSets} {h : List (Tid × Time)}
  {t : Tid}

def NotAdmitted (t : Tid) (w : RateView) : Prop := ∀ a ∈ w.2, a.1 ≠ t

lemma Admits.other (hi : Admits key limit window (s, h)) {s' : SortedSets}
    (hentries : s'.entries key = s.entries key) (hexp : s'.expiresAt key = s.expiresAt key)
    (hclock : s'.clock key = s.clock key) : Admits key limit window (s', h) where
  past a ha := by
    rw [show s'.clock key = _ from hclock]
    exact hi.past a ha
  kept a ha := by
    rw [show s'.clock key = _ from hclock, show s'.entries key = _ from hentries]
    exact hi.kept a ha
  ttl d hd := hi.ttl d (hexp ▸ hd)
  nodup := hi.nodup
  bounded := hi.bounded

lemma lt_pyInt_add (hw : 0 < window) : window < (pyInt window + 2 : Int) := by
  rw [pyInt, if_pos hw.le]
  push_cast
  have := Int.lt_floor_add_one window
  linarith

lemma pyInt_add_pos (hw : 0 < window) : 0 < pyInt window + 2 := by
  have := hw.trans (lt_pyInt_add hw)
  exact_mod_cast this

section Execute

variable {now : Time} (hw : 0 < window) (hi : Admits key limit window (s, h))
  (hfresh : NotAdmitted t (s, h)) (hnow : s.clock key ≤ now)

include hw hi hfresh hnow

lemma Admits.entry_mem_execute (ha : a ∈ h) (hin : now - window ≤ a.2) : entryOf a ∈
      (s.execute key (now - window) ⟨now, t⟩ now (pyInt window + 2)).2.entries key := by
  refine mem_execute (pyInt_add_pos hw) (hi.kept a ha ?_) hin ?_
  · exact (sub_le_sub_right hnow window).trans hin
  · intro heq
    exact hfresh a ha (Member.mk.inj heq).2

lemma Admits.execute : Admits key limit window
      ((s.execute key (now - window) ⟨now, t⟩ now (pyInt window + 2)).2, h) where
  past a ha := by
    rw [execute_clock]
    exact (hi.past a ha).trans hnow
  kept a ha hin := by
    rw [execute_clock] at hin
    exact hi.entry_mem_execute hw hfresh hnow ha hin
  ttl d hd a ha := by
    rw [execute_expiresAt (pyInt_add_pos hw)] at hd
    cases hd
    have hpast := hi.past a ha
    have httl := lt_pyInt_add hw
    linarith
  nodup := hi.nodup
  bounded := hi.bounded

lemma Admits.execute_admitted
    (hcount : ((s.execute key (now - window) ⟨now, t⟩ now (pyInt window + 2)).1.currentCount : Int)
      ≤ limit) :
    Admits key limit window
      ((s.execute key (now - window) ⟨now, t⟩ now (pyInt window + 2)).2, h ++ [(t, now)]) := by
  have hexec := hi.execute hw hfresh hnow
  have hpast : ∀ a ∈ h ++ [(t, now)], a.2 ≤ now :=
    forall_mem_append.mpr ⟨fun a ha => (hi.past a ha).trans hnow, forall_mem_singleton.mpr le_rfl⟩
  have hmem : ∀ a ∈ h ++ [(t, now)], now - window ≤ a.2 → entryOf a ∈
      (s.execute key (now - window) ⟨now, t⟩ now (pyInt window + 2)).2.entries key := by
    intro a ha hin
    rcases mem_append.mp ha with ha | ha
    · exact hi.entry_mem_execute hw hfresh hnow ha hin
    · rw [mem_singleton.mp ha]
      exact mem_execute_self (pyInt_add_pos hw)
  have hnodup : (h ++ [(t, now)]).Nodup := by
    refine nodup_append.mpr ⟨hi.nodup, nodup_singleton _, ?_⟩
    intro a ha b hb heq
    rw [mem_singleton.mp hb] at heq
    exact hfresh a ha (by rw [heq])
  refine ⟨?_, ?_, ?_, hnodup, ?_⟩
  · rw [execute_clock]
    exact hpast
  · rw [execute_clock]
    exact hmem
  · intro d hd a ha
    rcases mem_append.mp ha with ha | ha
    · exact hexec.ttl d hd a ha
    · rw [execute_expiresAt (pyInt_add_pos hw)] at hd
      cases hd
      rw [mem_singleton.mp ha]
      have httl := lt_pyInt_add hw
      linarith
  · -- the members in the window of the new call are all counted
    have hle : (closed window).count now ((h ++ [(t, now)]).map (·.2)) ≤ limit.toNat := by
      refine (count_map_le hnodup entryOf_injective fun a ha hin =>
        hmem a ha (closed_inside.mp hin).1).trans ?_
      rw [← execute_currentCount (pyInt_add_pos hw)]
      omega
    rw [map_append] at hle ⊢
    refine hi.bounded.snoc ?_ hle
    intro x hx
    obtain ⟨a, ha, rfl⟩ := mem_map.mp hx
    exact (hi.past a ha).trans hnow

end Execute

lemma Admits.zrem (hi : Admits key limit window (s, h)) (hfresh : NotAdmitted t (s, h))
    (now : Time) : Admits key limit window (s.zrem key ⟨now, t⟩, h) where
  past := hi.past
  kept a ha hin := by
    have hne : (entryOf a).1 ≠ ⟨now, t⟩ := fun heq => hfresh a ha (Member.mk.inj heq).2
    simp only [SortedSets.zrem, update_self]
    exact mem_filter.mpr ⟨hi.kept a ha hin, by simpa using hne⟩
  ttl := hi.ttl
  nodup := hi.nodup
  bounded := hi.bounded

lemma SortedSets.zrem_other (hk : key ≠ k) (s : SortedSets) :
    (s.zrem k member).entries key = s.entries key := update_of_ne hk _ _

/-- The key is removed at a time that is not before the last pipeline. -/
def RateEnv.inOrder (key : String) (s : SortedSets) : RateEnv → Bool
  | .expire k time => k = key → s.clock key ≤ time

lemma Admits.world (hi : Admits key limit window (s, h)) {e : RateEnv}
    (he : e.inOrder key s = true) :
    Admits key limit window (e.exec s, h) := by
  obtain ⟨k, time⟩ := e
  rw [RateEnv.exec]
  split
  · next hexp =>
    by_cases hk : k = key
    · subst hk
      obtain ⟨d, hd, hdt⟩ : ∃ d, s.expiresAt k = some d ∧ d ≤ time := by
        cases hd : s.expiresAt k with
        | none =>
          rw [hd] at hexp
          cases hexp
        | some d =>
          rw [hd] at hexp
          exact ⟨d, rfl, of_decide_eq_true hexp⟩
      refine ⟨fun a ha => ?_, fun a ha hin => ?_, fun d' hd' => ?_, hi.nodup, hi.bounded⟩
      · simp only [update_self]
        exact (hi.past a ha).trans (of_decide_eq_true he rfl)
      · -- the call is older than the TTL
        simp only [update_self] at hin
        have hold := hi.ttl d hd a ha
        linarith
      · simp [delete] at hd'
    · refine hi.other ?_ ?_ ?_ <;> simp [delete, update_of_ne (Ne.symm hk)]
  · exact hi

end Step

/-! ## The calls -/

def RateCmd.inOrder (key : String) (s : SortedSets) : RateCmd → Bool
  | .pipeline k _ _ score _ => k = key → s.clock key ≤ score
  | _ => true

def rateProtocol (key : String) (limit : Int) (window : Time) :
    Protocol (rateMachine.observed (rateObserver key limit)) where
  inv := Admits key limit window
  rely t w w' := w.2 ⊆ w'.2 ∧ (NotAdmitted t w → NotAdmitted t w')
  ok _ c _ w _ := c.inOrder key w.1 = true
  refl _ _ := ⟨List.Subset.refl _, id⟩
  trans _ _ _ _ h1 h2 := ⟨List.Subset.trans h1.1 h2.1, h2.2 ∘ h1.2⟩

section Calls

variable {key : String} {t : Tid} {w : RateView} {l : Time}

lemma rateProtocol_notes {h : List (Tid × Time)}
    (hnote : noteAdmitted key limit t w.2 c (c.exec t o l w.1).1 = h)
    (hi : Admits key limit window ((c.exec t o l w.1).2.2, h)) (hsub : w.2 ⊆ h)
    (hothers : ∀ u ≠ t, NotAdmitted u w → ∀ a ∈ h, a.1 ≠ u) :
    (rateProtocol key limit window).Keeps t c o l w := by
  subst hnote
  exact ⟨trivial, hi, fun u hu => ⟨hsub, hothers u hu⟩⟩

lemma rateProtocol_keeps (hi : Admits key limit window ((c.exec t o l w.1).2.2, w.2))
    (hnote : noteAdmitted key limit t w.2 c (c.exec t o l w.1).1 = w.2) :
    (rateProtocol key limit window).Keeps t c o l w :=
  rateProtocol_notes hnote hi (List.Subset.refl _) fun _ _ => id

lemma rateProtocol_admits (hi : Admits key limit window ((c.exec t o l w.1).2.2, w.2 ++ [(t, x)]))
    (hnote : noteAdmitted key limit t w.2 c (c.exec t o l w.1).1 = w.2 ++ [(t, x)]) :
    (rateProtocol key limit window).Keeps t c o l w := by
  refine rateProtocol_notes hnote hi (subset_append_left _ _) fun u hu hfresh => ?_
  exact forall_mem_append.mpr ⟨hfresh, forall_mem_singleton.mpr hu.symm⟩

lemma rateProtocol_quiet (hi : Admits key limit window w) (hs : (c.exec t o l w.1).2.2 = w.1)
    (hnote : noteAdmitted key limit t w.2 c (c.exec t o l w.1).1 = w.2) :
    (rateProtocol key limit window).Keeps t c o l w :=
  rateProtocol_keeps (hs.symm ▸ hi) hnote

def RatePost (key : String) (call : RateCall) (t : Tid) (r : Except RateError RateCheck) (l : Time)
    (w : RateView) : Prop :=
  ∀ check, r = .ok check → check.limited = false → formatKey call.key = key → (t, l) ∈ w.2

lemma ratePost_stable : (rateProtocol key limit window).Stable t (RatePost key call t) :=
  fun _ _ _ _ h hr check hc hl hk => hr.rely.1 (h check hc hl hk)

lemma ratePost_error (l : Time) (w : RateView) : RatePost key call t (.error e) l w := nofun

variable {call : RateCall}

lemma wp_zrem (hfresh : NotAdmitted t w) : (rateProtocol key limit window).wp t
      ((rate (.zrem (formatKey call.key) ⟨now, t⟩)).bind fun _ => .ret ⟨true, n, retryAfter⟩)
      (RatePost key call t) l w := by
  refine (ratePost_stable).call_bind fun w' o hr hi _ => ⟨rateProtocol_keeps ?_ rfl, ?_⟩
  · have hrem : Admits key limit window (w'.1.zrem (formatKey call.key) ⟨now, t⟩, w'.2) := by
      by_cases hk : formatKey call.key = key
      · rw [hk]
        exact hi.zrem (hr.2 hfresh) now
      · exact hi.other (zrem_other (Ne.symm hk) _) rfl rfl
    simp only [exec, withFault]
    split
    · exact hrem
    · exact hi
    · exact hrem
  · split
    · refine (ratePost_stable).ret ?_
      intro check hc hl
      cases hc
      cases hl
    · exact ratePost_error _ _

def afterClock (call : RateCall) (now : Time) (t : Tid) : RateProg RateCheck :=
  (rate (.pipeline (formatKey call.key) (now - call.windowSeconds) ⟨now, t⟩ now
    (pyInt call.windowSeconds + 2))).bind fun results =>
      if (results.currentCount : Int) ≤ call.limit then .ret ⟨false, results.currentCount, 0⟩
      else (rate (.zrem (formatKey call.key) ⟨now, t⟩)).bind fun _ =>
        .ret ⟨true, call.limit, max 0 ((results.oldest.getD now + call.windowSeconds) - now)⟩

lemma wp_afterClock_other (hk : formatKey call.key ≠ key) (hfresh : NotAdmitted t w) :
    (rateProtocol key limit window).wp t (afterClock call now t) (RatePost key call t) now w := by
  refine (ratePost_stable).call_bind fun w' o hr hi _ => ?_
  obtain ⟨s, h⟩ := w'
  obtain ⟨hentries, hexp, hclock⟩ := execute_other (Ne.symm hk) s
  have hother := hi.other hentries hexp hclock
  have hnote : ∀ r, noteAdmitted key limit t h (.pipeline (formatKey call.key)
      (now - call.windowSeconds) ⟨now, t⟩ now (pyInt call.windowSeconds + 2)) r = h := by
    intro r
    cases r with
    | error => rfl
    | ok => exact if_neg fun hc => hk hc.1
  refine ⟨rateProtocol_keeps ?_ (hnote _), ?_⟩
  · simp only [exec, withFault]
    split
    · exact hother
    · exact hi
    · exact hother
  · split
    · split
      · exact (ratePost_stable).ret fun check _ _ hkey => absurd hkey hk
      · refine wp_zrem ?_
        change NotAdmitted t (_, noteAdmitted _ _ _ _ _ _)
        rw [hnote]
        exact hr.2 hfresh
    · exact ratePost_error _ _

lemma RateCmd.exec_pipeline_error (hf : o.fault = some fault) (k : String) (threshold : Time)
    (member : Member) (score : Time) (seconds : Int) (s : SortedSets) :
    ((pipeline k threshold member score seconds).exec t o l s).1 = .error .redisError := by
  simp only [exec, withFault, hf]
  cases fault with
  | refused | lostReply => rfl

lemma RateCmd.exec_pipeline_ok (hf : o.fault = none) (k : String) (threshold : Time)
    (member : Member) (score : Time) (seconds : Int) (s : SortedSets) :
    (pipeline k threshold member score seconds).exec t o l s =
      (.ok (s.execute k threshold member score seconds).1, l,
        (s.execute k threshold member score seconds).2) := by
  simp only [exec, withFault, hf]

lemma wp_afterClock (hk : formatKey call.key = key) (hlimit : call.limit = limit)
    (hwindow : call.windowSeconds = window) (hw : 0 < window) (hfresh : NotAdmitted t w) :
    (rateProtocol key limit window).wp t (afterClock call now t) (RatePost key call t) now w := by
  unfold afterClock
  rw [hk, hlimit, hwindow]
  refine (ratePost_stable).call_bind fun w' o hr hi hnow => ?_
  obtain ⟨s, h⟩ := w'
  have hnow : s.clock key ≤ now := of_decide_eq_true hnow rfl
  have hfresh' : NotAdmitted t (s, h) := hr.2 hfresh
  have hexec := hi.execute hw hfresh' hnow
  cases hf : o.fault with
  | some fault =>
    have hraise := exec_pipeline_error (t := t) (l := now) hf key (now - window) ⟨now, t⟩
      now (pyInt window + 2) s
    refine ⟨rateProtocol_keeps ?_ ?_, ?_⟩
    · simp only [exec, withFault, hf]
      cases fault with
      | refused => exact hi
      | lostReply => exact hexec
    · rw [hraise]
      rfl
    · rw [hraise]
      exact ratePost_error _ _
  | none =>
    have hok := exec_pipeline_ok (t := t) (l := now) hf key (now - window) ⟨now, t⟩
      now (pyInt window + 2) s
    by_cases hcount : ((s.execute key (now - window) ⟨now, t⟩ now (pyInt window + 2)).1.currentCount
        : Int) ≤ limit
    · have hnote : noteAdmitted key limit t h _
          (exec t o now s
            (.pipeline key (now - window) ⟨now, t⟩ now (pyInt window + 2))).1 =
          h ++ [(t, now)] := by
        rw [hok]
        exact if_pos ⟨rfl, hcount⟩
      refine ⟨rateProtocol_admits ?_ hnote, ?_⟩
      · rw [hok]
        exact hi.execute_admitted hw hfresh' hnow hcount
      · dsimp only
        rw [hnote, hok]
        dsimp only
        rw [if_pos hcount]
        exact (ratePost_stable).ret fun _ _ _ _ => mem_append_right _ (by simp)
    · have hnote : noteAdmitted key limit t h _
          (exec t o now s
            (.pipeline key (now - window) ⟨now, t⟩ now (pyInt window + 2))).1 =
          h := by
        rw [hok]
        exact if_neg fun hc => hcount hc.2
      refine ⟨rateProtocol_keeps ?_ hnote, ?_⟩
      · rw [hok]
        exact hexec
      · dsimp only
        rw [hnote, hok]
        dsimp only
        rw [if_neg hcount, ← hk]
        exact wp_zrem hfresh'

lemma wp_check (hcall : formatKey call.key = key → call.limit = limit ∧ call.windowSeconds = window)
    (hw : 0 < window) (hfresh : NotAdmitted t w) :
    (rateProtocol key limit window).wp t (checkDistributedRateLimit call) (RatePost key call t)
      l w := by
  refine (ratePost_stable).call_bind fun w1 o1 hr1 hi1 _ =>
    ⟨rateProtocol_quiet hi1 rfl rfl, ?_⟩
  refine (ratePost_stable).call_bind fun w2 o2 hr2 hi2 _ =>
    ⟨rateProtocol_quiet hi2 rfl rfl, ?_⟩
  have hfresh2 : NotAdmitted t w2 := hr2.2 (hr1.2 hfresh)
  by_cases hk : formatKey call.key = key
  · exact wp_afterClock hk (hcall hk).1 (hcall hk).2 hw hfresh2
  · exact wp_afterClock_other hk hfresh2

end Calls

/-! ## Runs -/

/-- The run of the calls under a schedule, from the sorted sets `s`. -/
def rateRun (calls : Tid → RateCall) (s : SortedSets) (es : List (rateSys calls).Event) :
    (rateSys calls).Config := run (start s) es

/-- Every pipeline of the key, and every removal of it, is at a time that is not before the last
one. -/
abbrev RateInOrder (key : String) (calls : Tid → RateCall) :
    (rateSys calls).Config → (rateSys calls).Event → Prop :=
  Asks (fun _ r _ s _ => r.inOrder key s = true) fun e s => e.inOrder key s = true

def observedRate (calls : Tid → RateCall) (key : String) (limit : Int) (s : SortedSets)
    (es : List (rateSys calls).Event) :
    ((rateSys calls).observed (rateObserver key limit)).Config :=
  run (start (s, []))
    (es.map (Event.observe (S := rateSys calls) (rateObserver key limit)))

lemma observedRate_thr : (observedRate calls key limit s es).thr = (rateRun calls s es).thr := by
  have herase : erase (observedRate calls key limit s es) = rateRun calls s es :=
    erase_run (S := rateSys calls) (O := rateObserver key limit)
  rw [← herase]
  rfl

lemma admits_start : Admits key limit window (s, []) where
  past a ha := by cases ha
  kept a ha := by cases ha
  ttl d _ a ha := by cases ha
  nodup := nodup_nil
  bounded := bounded_nil

lemma rateProtocol_holds (hw : 0 < window) (hcalls : ∀ t, formatKey (calls t).key = key →
      (calls t).limit = limit ∧ (calls t).windowSeconds = window) {s : SortedSets}
    (hes : RunOk (RateInOrder key calls) (start s) es) :
    Holds (S := (rateSys calls).observed (rateObserver key limit))
      (P := rateProtocol key limit window) (Q := fun t => RatePost key (calls t) t)
      (observedRate calls key limit s es) := by
  refine sound_observed (S := rateSys calls) (O := rateObserver key limit) (c := start (s, []))
    (fun _ _ _ _ _ h => h) (fun e w hi he => ?_) (Holds.start (admits_start) fun t => ?_) hes
  · exact ⟨hi.world he, fun t => ⟨List.Subset.refl _, id⟩⟩
  · exact wp_check (hcalls t) hw nofun

def NotLimited (calls : Tid → RateCall) (c : (rateSys calls).Config) (t : Tid) : Prop :=
  ∃ check, Returned c t check ∧ check.limited = false

/-- The `current_time` of a call. -/
def timestamp (calls : Tid → RateCall) (c : (rateSys calls).Config) (t : Tid) : Time := (c.thr t).1

/-- **The distributed rate bound.** The calls run under any schedule, with any faults and crashes,
from any sorted sets. All the calls of the key have the same limit and window; its pipelines are
executed in the order of their times, and the key expires only after its TTL. Then, for every
instant, at most `limit` calls of the key with a time in `[instant - window, instant]` return that
they are not limited. -/
theorem not_limited_in_window (calls : Tid → RateCall) (key : String) (limit : Int) (window : Time)
    (hw : 0 < window)
    (hcalls : ∀ t, formatKey (calls t).key = key →
      (calls t).limit = limit ∧ (calls t).windowSeconds = window)
    (s : SortedSets) (es : List (rateSys calls).Event)
    (hes : RunOk (RateInOrder key calls) (start s) es) (instant : Time) (ts : Finset Tid)
    (hts : ∀ t ∈ ts, formatKey (calls t).key = key ∧ NotLimited calls (rateRun calls s es) t ∧
      (closed window).inside instant (timestamp calls (rateRun calls s es) t) = true) :
    (ts.card : Int) ≤ max limit 0 := by
  have hh := rateProtocol_holds hw hcalls hes
  have hle : ts.toList.length ≤ (closed window).count instant
      ((observedRate calls key limit s es).sh.2.map (·.2)) := by
    refine le_count_map (g := fun a => a.1) ts.nodup_toList fun t ht => ?_
    obtain ⟨hk, ⟨check, hret, hlimited⟩, hin⟩ := hts t (Finset.mem_toList.mp ht)
    rw [timestamp, ← observedRate_thr] at hin
    rw [Returned, ← observedRate_thr] at hret
    exact ⟨_, hh.returned hret check rfl hlimited hk, rfl, hin⟩
  have hbound := hh.1.bounded instant
  rw [Finset.length_toList] at hle
  omega

/-! ### One call in ten seconds -/

/-- Calls of one key with the limit 1; call `t` has the time `t`. -/
def limitOne (t : Tid) : RateCall := ⟨"client", 1, 10, some t⟩

def limitOneOrder : List (rateSys limitOne).Event :=
  [0, 1, 0, 1, 0, 1, 1].map fun t => .turn t {}

/-- Call 0 is not limited, and it is the only one. -/
theorem not_limited_in_window_one : NotLimited limitOne (rateRun limitOne {} limitOneOrder) 0 ∧
      (({0} : Finset Tid).card : Int) ≤ max 1 0 := by
  have hret : NotLimited limitOne (rateRun limitOne {} limitOneOrder) 0 :=
    ⟨⟨false, 1, 0⟩, returned_of_result (by decide +kernel), rfl⟩
  have hes :
      RunOk (RateInOrder (formatKey "client") limitOne) (start {}) limitOneOrder := by
    decide +kernel
  refine ⟨hret, not_limited_in_window limitOne (formatKey "client") 1 10 (by decide)
    (fun t _ => ⟨rfl, rfl⟩) {} limitOneOrder hes 5 {0} fun t ht => ?_⟩
  rw [Finset.mem_singleton.mp ht]
  exact ⟨rfl, hret, by decide +kernel⟩

end CleanArch
