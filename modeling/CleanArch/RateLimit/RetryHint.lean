import CleanArch.RateLimit.RateBound

/-!
# The retry hint of the in-memory limiter

A refused request is told `retry_after`: when the oldest request of the full queue leaves the
window.
-/

namespace CleanArch
namespace SlidingWindowLog

open List

variable {Client : Type}

def Call.isRecord : Call Client → Bool
  | .record .. => true
  | .evict .. => false

variable [DecidableEq Client]

/-! ## The queues -/

/-- The queues after calls up to time `t`. -/
structure Queued (t : Time) (limiter : SlidingWindowLog Client) : Prop where
  sorted : ∀ c, (limiter.queue c).Pairwise (· ≤ ·)
  past : ∀ c, ∀ x ∈ limiter.queue c, x ≤ t
  length_le : ∀ c, (limiter.queue c).length ≤ limiter.maxRequests

section Queues

variable {limiter : SlidingWindowLog Client}

lemma Queued.mono (h : Queued t limiter) (ht : t ≤ t') : Queued t' limiter :=
  ⟨h.sorted, fun c x hx => (h.past c x hx).trans ht, h.length_le⟩

lemma fresh_sublist (limiter : SlidingWindowLog Client) (c : Client) (t : Time) :
    (limiter.fresh c t).Sublist (limiter.queue c) :=
  dropWhile_sublist _

lemma Queued.record (h : Queued t limiter) (ht : t ≤ now.getD clock) (c : Client) :
    Queued (now.getD clock) (limiter.recordAndCheck c now clock).2 := by
  have hpast : ∀ c', ∀ x ∈ limiter.queue c', x ≤ now.getD clock :=
    fun c' x hx => (h.past c' x hx).trans ht
  have hfresh : ∀ x ∈ limiter.fresh c (now.getD clock), x ≤ now.getD clock :=
    fun x hx => hpast c x ((fresh_sublist limiter c _).subset hx)
  refine ⟨fun c' => ?_, fun c' => ?_, fun c' => ?_⟩
  · rw [queue_recordAndCheck]
    split
    · refine pairwise_append.mpr ⟨(h.sorted c).sublist (fresh_sublist limiter c _), ?_, ?_⟩
      · split <;> simp
      · intro x hx y hy
        split at hy
        · rw [mem_singleton.mp hy]
          exact hfresh x hx
        · cases hy
    · exact h.sorted c'
  · rw [queue_recordAndCheck]
    split
    · intro x hx
      rcases mem_append.mp hx with hx | hx
      · exact hfresh x hx
      · split at hx
        · rw [mem_singleton.mp hx]
        · cases hx
    · exact hpast c'
  · rw [queue_recordAndCheck, recordAndCheck_maxRequests]
    split
    · rw [length_append]
      split
      · next ha => exact allowed_iff.mp ha
      · exact ((fresh_sublist limiter c _).length_le).trans (h.length_le c)
    · exact h.length_le c'

lemma retryAfter_eq (h : (limiter.recordAndCheck c now clock).1.allowed = false) :
    ∃ oldest rest, limiter.fresh c (now.getD clock) = oldest :: rest ∧
      now.getD clock - limiter.windowSeconds < oldest ∧
      (limiter.recordAndCheck c now clock).1.retryAfter =
        oldest + limiter.windowSeconds - now.getD clock := by
  have hfull : limiter.maxRequests ≤ (limiter.fresh c (now.getD clock)).length := by
    rw [← not_lt, ← allowed_iff, h]
    exact Bool.false_ne_true
  cases hq : limiter.fresh c (now.getD clock) with
  | nil => exact absurd hq (limiter.ne_nil_of_full hfull)
  | cons oldest rest =>
    have hne : limiter.fresh c (now.getD clock) ≠ [] := limiter.ne_nil_of_full hfull
    have hhead : now.getD clock - limiter.windowSeconds < oldest := by
      have hnot := head_dropWhile_not _ hne
      simp only [decide_eq_false_iff_not, not_le] at hnot
      have heq : (limiter.fresh c (now.getD clock)).head hne = oldest := by
        simp only [hq, head_cons]
      rw [← heq]
      exact hnot
    refine ⟨oldest, rest, rfl, hhead, ?_⟩
    have hcheck : (limiter.recordAndCheck c now clock).1.retryAfter =
        max 0 ((limiter.fresh c (now.getD clock)).head hne + limiter.windowSeconds -
          now.getD clock) := by
      unfold recordAndCheck
      rw [dif_pos (by simpa only [fresh] using hfull)]
      rfl
    rw [hcheck, max_eq_right]
    · simp only [hq, head_cons]
    · simp only [hq, head_cons]
      linarith

lemma fresh_eq_queue_iff (hq : limiter.queue c = oldest :: rest) (t : Time) :
    limiter.fresh c t = limiter.queue c ↔ t < oldest + limiter.windowSeconds := by
  rw [fresh, hq, dropWhile_cons]
  split
  · next hle =>
    have hle : oldest ≤ t - limiter.windowSeconds := of_decide_eq_true hle
    refine ⟨fun heq => ?_, fun hlt => by linarith⟩
    have hlen := congrArg List.length heq
    have := (dropWhile_sublist (l := rest) (· ≤ t - limiter.windowSeconds)).length_le
    simp only [length_cons] at hlen
    omega
  · next hle =>
    have hlt : t - limiter.windowSeconds < oldest := by simpa using hle
    exact ⟨fun _ => by linarith, fun _ => rfl⟩

end Queues

/-! ## A full queue -/

/-- The queue of the client is full, and `oldest` is its first request. -/
structure Full (c : Client) (oldest : Time) (limiter : SlidingWindowLog Client) : Prop where
  first : ∃ rest, limiter.queue c = oldest :: rest
  length_eq : (limiter.queue c).length = limiter.maxRequests

section Full

variable {limiter : SlidingWindowLog Client}

lemma Full.allowed_iff (h : Full c oldest limiter) :
    (limiter.recordAndCheck c now clock).1.allowed = true ↔
      oldest + limiter.windowSeconds ≤ now.getD clock := by
  obtain ⟨rest, hq⟩ := h.first
  have hsub := fresh_sublist limiter c (now.getD clock)
  rw [SlidingWindowLog.allowed_iff, ← h.length_eq, ← not_lt (a := now.getD clock),
    ← fresh_eq_queue_iff hq]
  constructor
  · intro hlt heq
    rw [heq] at hlt
    exact lt_irrefl _ hlt
  · intro hne
    exact lt_of_le_of_ne hsub.length_le fun heq => hne (hsub.eq_of_length heq)

lemma Full.of_refused (hqueued : Queued t limiter)
    (h : (limiter.recordAndCheck c now clock).1.allowed = false) :
    ∃ oldest, Full c oldest (limiter.recordAndCheck c now clock).2 ∧
      now.getD clock < oldest + limiter.windowSeconds ∧
      (limiter.recordAndCheck c now clock).1.retryAfter =
        oldest + limiter.windowSeconds - now.getD clock := by
  obtain ⟨oldest, rest, hfresh, hlt, hretry⟩ := retryAfter_eq h
  have hnot : ¬ (limiter.recordAndCheck c now clock).1.allowed = true := by
    rw [h]
    exact Bool.false_ne_true
  have hqueue : (limiter.recordAndCheck c now clock).2.queue c =
      limiter.fresh c (now.getD clock) := by
    rw [queue_recordAndCheck, if_pos rfl, if_neg hnot, append_nil]
  refine ⟨oldest, ⟨⟨rest, hqueue.trans hfresh⟩, ?_⟩, by linarith, hretry⟩
  rw [hqueue, recordAndCheck_maxRequests]
  refine le_antisymm ?_ (not_lt.mp fun hroom => hnot (SlidingWindowLog.allowed_iff.mpr hroom))
  exact ((fresh_sublist limiter c _).length_le).trans (hqueued.length_le c)

lemma Full.queue_refused (h : Full c oldest limiter)
    (hnot : ¬ (limiter.recordAndCheck c now clock).1.allowed = true) :
    (limiter.recordAndCheck c now clock).2.queue c = limiter.queue c := by
  obtain ⟨rest, hq⟩ := h.first
  have hlt : now.getD clock < oldest + limiter.windowSeconds :=
    not_le.mp fun hle => hnot (h.allowed_iff.mpr hle)
  rw [queue_recordAndCheck, if_pos rfl, if_neg hnot, append_nil]
  exact (fresh_eq_queue_iff hq _).mpr hlt

end Full

/-! ## Runs -/

namespace Served

variable {s : Served Client} {c : Client} {oldest : Time} {calls : List (Call Client)}

lemma acceptedOf_step (s : Served Client) (c : Client) :
    s.acceptedOf c <+: (s.step call).acceptedOf c := by
  cases call with
  | record =>
    rw [acceptedOf_record]
    exact prefix_append _ _
  | evict => exact prefix_rfl

lemma acceptedOf_run (s : Served Client) (calls : List (Call Client)) (c : Client) :
    s.acceptedOf c <+: (s.run calls).acceptedOf c := by
  induction calls generalizing s with
  | nil => exact prefix_rfl
  | cons call calls ih => exact (acceptedOf_step s c).trans (ih (s.step call))

lemma queued_run (h : s.limiter.store = []) (hrecord : ∀ call ∈ calls, call.isRecord = true)
    (horder : InOrder calls) (ht : ∀ call ∈ calls, call.time ≤ t) :
    Queued t (s.run calls).limiter := by
  induction calls using reverseRecOn generalizing t with
  | nil =>
    have hempty : ∀ c, s.limiter.queue c = [] := fun c => by rw [queue, h]; rfl
    refine ⟨fun c => ?_, fun c => ?_, fun c => ?_⟩ <;> simp [run, hempty]
  | append_singleton calls call ih =>
    have horders := pairwise_append.mp horder
    have hbefore := ih (fun c hc => hrecord c (mem_append_left _ hc)) horders.1
      fun c hc => horders.2.2 c hc call mem_cons_self
    have hcall := hrecord call (mem_append_right _ mem_cons_self)
    have htime := ht call (mem_append_right _ mem_cons_self)
    cases call with
    | evict => cases hcall
    | record c =>
      rw [run_append]
      exact (hbefore.record le_rfl c).mono htime

lemma Full.step (h : Full c oldest s.limiter) {call : Call Client}
    (hcall : call.isRecord = true) (hnone : (s.step call).acceptedOf c = s.acceptedOf c) :
    Full c oldest (s.step call).limiter := by
  cases call with
  | evict => cases hcall
  | record c' now clock =>
    have hqueue : (s.limiter.recordAndCheck c' now clock).2.queue c = s.limiter.queue c := by
      by_cases hc : c' = c
      · subst hc
        refine h.queue_refused fun hallowed => ?_
        rw [acceptedOf_record, if_pos ⟨rfl, hallowed⟩] at hnone
        exact absurd (congrArg List.length hnone) (by simp)
      · rw [queue_recordAndCheck, if_neg hc]
    refine ⟨?_, ?_⟩
    · change ∃ rest, (s.limiter.recordAndCheck c' now clock).2.queue c = _
      rw [hqueue]
      exact h.first
    · rw [step_maxRequests]
      change ((s.limiter.recordAndCheck c' now clock).2.queue c).length = _
      rw [hqueue]
      exact h.length_eq

lemma Full.run (h : Full c oldest s.limiter) (hrecord : ∀ call ∈ calls, call.isRecord = true)
    (hnone : (s.run calls).acceptedOf c = s.acceptedOf c) :
    Full c oldest (s.run calls).limiter := by
  induction calls generalizing s with
  | nil => exact h
  | cons call calls ih =>
    obtain ⟨hcall, hrecord⟩ := forall_mem_cons.mp hrecord
    have hlater := acceptedOf_run (s.step call) calls c
    change (s.step call).acceptedOf c <+: (s.run (call :: calls)).acceptedOf c at hlater
    rw [hnone] at hlater
    have hstep : (s.step call).acceptedOf c = s.acceptedOf c :=
      hlater.eq_of_length_le (acceptedOf_step s c).length_le
    exact ih (Full.step h hcall hstep) hrecord (hnone.trans hstep.symm)

end Served

open Served in
/-- **The retry hint is exact.** After any requests with times that do not decrease, a request that
is refused is told a positive `retry_after`. While no other request of the client is accepted, one
that comes less than `retry_after` later is refused, and one that comes `retry_after` later is
accepted. -/
theorem retry_hint_exact {windowSeconds : Time} {maxRequests : Int}
    {limiter : SlidingWindowLog Client} (hinit : init windowSeconds maxRequests = .ok limiter)
    {calls : List (Call Client)} (hcalls : ∀ call ∈ calls, call.isRecord = true)
    {c : Client} {now : Option Time} {clock : Time}
    (horder : InOrder (calls ++ [.record c now clock]))
    (hrefused : ((run { limiter := limiter } calls).limiter.recordAndCheck c now
      clock).1.allowed = false) :
    let hint := ((run { limiter := limiter } calls).limiter.recordAndCheck c now clock).1.retryAfter
    0 < hint ∧
    ∀ (between : List (Call Client)) (now' : Option Time) (clock' : Time),
      (∀ call ∈ between, call.isRecord = true) →
      (run { limiter := limiter } (calls ++ .record c now clock :: between)).acceptedOf c =
        (run { limiter := limiter } calls).acceptedOf c →
      let after := run { limiter := limiter } (calls ++ .record c now clock :: between)
      (now'.getD clock' < now.getD clock + hint →
        (after.limiter.recordAndCheck c now' clock').1.allowed = false) ∧
      (now'.getD clock' = now.getD clock + hint →
        (after.limiter.recordAndCheck c now' clock').1.allowed = true) := by
  obtain ⟨-, -, hstore, -⟩ := init_ok hinit
  obtain ⟨horders, -, hbefore⟩ := pairwise_append.mp horder
  have hqueued : Queued (now.getD clock) (run { limiter := limiter } calls).limiter :=
    queued_run hstore hcalls horders fun call hcall => hbefore call hcall _ mem_cons_self
  obtain ⟨oldest, hfull, hlt, hretry⟩ := Full.of_refused hqueued hrefused
  intro hint
  have hend : now.getD clock + hint = oldest + limiter.windowSeconds := by
    rw [show hint = _ from hretry, run_windowSeconds]
    ring
  rw [run_windowSeconds] at hlt
  refine ⟨by linarith, fun between now' clock' hbetween hnone => ?_⟩
  intro after
  have hafter : after = (((run { limiter := limiter } calls).step (.record c now clock)).run
      between) := by
    simp only [after, run_append]
    rfl
  have hkept : Full c oldest after.limiter := by
    rw [hafter]
    refine Full.run hfull hbetween ?_
    rw [← hafter, acceptedOf_record, hrefused, if_neg (by simp), append_nil]
    exact hnone
  have hwindow : after.limiter.windowSeconds = limiter.windowSeconds := run_windowSeconds _ _
  have hiff : (after.limiter.recordAndCheck c now' clock').1.allowed = true ↔
      now.getD clock + hint ≤ now'.getD clock' := by
    rw [hkept.allowed_iff, hwindow, ← hend]
  refine ⟨fun hearly => ?_, fun hat => hiff.mpr hat.ge⟩
  rw [← Bool.not_eq_true, hiff]
  exact not_le.mpr hearly

omit [DecidableEq Client] in
/-- One request in ten seconds: the one at second four is told to wait six seconds, and a request of
the same client six seconds later is accepted, although another client was served in between. -/
theorem retry_hint_exact_four : (init 10 1 : Except String (SlidingWindowLog Nat)) =
      .ok ⟨10, 1, [], [], by decide, by decide⟩ ∧
    ((Served.run ⟨⟨10, 1, [], [], by decide, by decide⟩, []⟩
      [.record 7 (some 0) 0]).limiter.recordAndCheck 7 none 4).1.retryAfter = 6 ∧
    ((Served.run ⟨⟨10, 1, [], [], by decide, by decide⟩, []⟩
      ([.record 7 (some 0) 0] ++ .record 7 none 4 :: [.record 8 none 5])).limiter.recordAndCheck
        7 none 10).1.allowed = true := by
  have hinit : (init 10 1 : Except String (SlidingWindowLog Nat)) =
      .ok ⟨10, 1, [], [], by decide, by decide⟩ := rfl
  have hretry : ((Served.run ⟨⟨10, 1, [], [], by decide, by decide⟩, []⟩
      [.record 7 (some 0) 0]).limiter.recordAndCheck 7 none 4).1.retryAfter = 6 := by
    decide +kernel
  have horder : InOrder ([.record 7 (some 0) 0] ++ [.record 7 none 4] : List (Call Nat)) := by
    simp [InOrder, Call.time]
  have hhint := retry_hint_exact hinit (by simp [Call.isRecord]) horder (by decide +kernel)
  refine ⟨hinit, hretry, (hhint.2 [.record 8 none 5] none 10 ?_ ?_).2 ?_⟩
  · simp [Call.isRecord]
  · decide +kernel
  · decide +kernel

end SlidingWindowLog
end CleanArch
