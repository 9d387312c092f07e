import CleanArch.RateLimit.SlidingWindowLog
import CleanArch.Windows.Sliding
import Mathlib.Data.List.TakeWhile
import Mathlib.Tactic.Linarith

/-!
# The rate bound of the in-memory limiter

At every instant at most `max_requests` requests of a client with a time in `(t - w, t]` have been
accepted, in every run with times that do not decrease and whose evictions are safe (`Call.Safe`): a
client that is evicted has had no request accepted within the window.
-/

namespace CleanArch

open Assoc List

namespace SlidingWindowLog

variable {Client : Type} [DecidableEq Client]

/-! ## What a call does to the queues -/

section

variable {limiter : SlidingWindowLog Client} {c : Client}

def fresh (limiter : SlidingWindowLog Client) (c : Client) (t : Time) : List Time :=
  (limiter.queue c).dropWhile (· ≤ t - limiter.windowSeconds)

lemma allowed_iff : (limiter.recordAndCheck c now clock).1.allowed = true ↔
      (limiter.fresh c (now.getD clock)).length < limiter.maxRequests := by
  simp only [recordAndCheck, fresh]
  split
  all_goals next h => simpa using h

@[simp] lemma recordAndCheck_windowSeconds :
    (limiter.recordAndCheck c now clock).2.windowSeconds = limiter.windowSeconds := by
  unfold recordAndCheck
  dsimp only
  split <;> rfl

@[simp] lemma recordAndCheck_maxRequests :
    (limiter.recordAndCheck c now clock).2.maxRequests = limiter.maxRequests := by
  unfold recordAndCheck
  dsimp only
  split <;> rfl

lemma recordAndCheck_allowed (h : (limiter.recordAndCheck c now clock).1.allowed = true) :
    (limiter.recordAndCheck c now clock).2 = { limiter with
        store := set limiter.store c (limiter.fresh c (now.getD clock) ++ [now.getD clock])
        lastSeen := set limiter.lastSeen c (now.getD clock) } := by
  have hlen : ¬ limiter.maxRequests ≤ (limiter.fresh c (now.getD clock)).length :=
    not_le.mpr (allowed_iff.mp h)
  unfold recordAndCheck
  rw [dif_neg (by simpa only [fresh] using hlen)]
  rfl

lemma recordAndCheck_refused (h : ¬ (limiter.recordAndCheck c now clock).1.allowed = true) :
    (limiter.recordAndCheck c now clock).2 =
      { limiter with store := set limiter.store c (limiter.fresh c (now.getD clock)) } := by
  have hlen : limiter.maxRequests ≤ (limiter.fresh c (now.getD clock)).length :=
    not_lt.mp fun hlt => h (allowed_iff.mpr hlt)
  unfold recordAndCheck
  rw [dif_pos (by simpa only [fresh] using hlen)]
  rfl

lemma queue_recordAndCheck : (limiter.recordAndCheck c now clock).2.queue c' = if c = c' then
        limiter.fresh c (now.getD clock) ++
          if (limiter.recordAndCheck c now clock).1.allowed = true then [now.getD clock] else []
      else limiter.queue c' := by
  have hset : ∀ (q : List Time), (find (set limiter.store c q) c').getD [] =
      if c = c' then q else limiter.queue c' := by
    intro q
    rw [find_set]
    by_cases hc : c = c'
    · rw [if_pos (beq_iff_eq.mpr hc), if_pos hc]
      rfl
    · rw [if_neg (by simpa using hc), if_neg hc]
      rfl
  by_cases h : (limiter.recordAndCheck c now clock).1.allowed = true
  · rw [recordAndCheck_allowed h, if_pos h]
    exact hset _
  · rw [recordAndCheck_refused h, if_neg h, append_nil]
    exact hset _

lemma mem_lastSeen_recordAndCheck {p : Client × Time}
    (h : p ∈ (limiter.recordAndCheck c now clock).2.lastSeen) :
    ((limiter.recordAndCheck c now clock).1.allowed = true ∧ p = (c, now.getD clock)) ∨
      (p ∈ limiter.lastSeen ∧
        (p.1 = c → ¬ (limiter.recordAndCheck c now clock).1.allowed = true)) := by
  by_cases ha : (limiter.recordAndCheck c now clock).1.allowed = true
  · rw [recordAndCheck_allowed ha] at h
    rcases mem_set h with ⟨hc, hp⟩ | ⟨hp, hc⟩
    · exact Or.inl ⟨ha, Prod.ext (beq_iff_eq.mp hc) hp⟩
    · refine Or.inr ⟨hp, fun hpc => ?_⟩
      rw [hpc, beq_self_eq_true] at hc
      cases hc
  · rw [recordAndCheck_refused ha] at h
    exact Or.inr ⟨h, fun _ => ha⟩

lemma find_foldl_erase {V : Type} (stale : List Client) (l : List (Client × V)) (c : Client) :
    find (stale.foldl erase l) c = if c ∈ stale then none else find l c := by
  induction stale generalizing l with
  | nil => rfl
  | cons k stale ih =>
    rw [foldl_cons, ih, find_erase]
    by_cases hc : c ∈ stale
    · rw [if_pos hc, if_pos (mem_cons_of_mem k hc)]
    · rw [if_neg hc]
      by_cases hk : k = c
      · rw [if_pos (beq_iff_eq.mpr hk), if_pos (hk ▸ mem_cons_self)]
      · rw [if_neg (by simpa using hk), if_neg (by simp [hc, Ne.symm hk])]

lemma queue_evictIdleClients : (limiter.evictIdleClients idleSeconds now clock).2.queue c =
      if c ∈ limiter.staleKeys (now.getD clock - idleSeconds) then [] else limiter.queue c := by
  simp only [queue, evictIdleClients, find_foldl_erase]
  split <;> rfl

omit [DecidableEq Client] in
lemma mem_staleKeys :
    c ∈ limiter.staleKeys staleThreshold ↔ ∃ s, (c, s) ∈ limiter.lastSeen ∧ s < staleThreshold := by
  simp [staleKeys]

lemma mem_foldl_erase {V : Type} {p : Client × V} (stale : List Client) (l : List (Client × V))
    (h : p ∈ stale.foldl erase l) : p ∈ l := by
  induction stale generalizing l with
  | nil => exact h
  | cons k stale ih => exact (mem_filter.mp (ih _ h)).1

end

end SlidingWindowLog

namespace SlidingWindowLog

open List Window

variable {Client : Type}

inductive Call (Client : Type) where
  | record (clientId : Client) (now : Option Time) (clock : Time)
  | evict (idleSeconds : Time) (now : Option Time) (clock : Time)
  deriving DecidableEq

def Call.time : Call Client → Time
  | .record _ now clock => now.getD clock
  | .evict _ now clock => now.getD clock

def InOrder (calls : List (Call Client)) : Prop := calls.Pairwise fun a b => a.time ≤ b.time

/-- The clients that the eviction forgets have had no request accepted within the window. -/
def Call.Safe (limiter : SlidingWindowLog Client) : Call Client → Prop
  | .record .. => True
  | .evict idleSeconds now clock =>
    ∀ p ∈ limiter.lastSeen, p.2 < now.getD clock - idleSeconds →
      p.2 ≤ now.getD clock - limiter.windowSeconds

variable {limiter : SlidingWindowLog Client}

lemma Call.safe_of_le (h : limiter.windowSeconds ≤ idleSeconds) :
    (Call.evict idleSeconds now clock).Safe limiter := by
  intro p _ hp
  linarith

lemma exists_time_ge (calls : List (Call Client)) : ∃ t, ∀ call ∈ calls, call.time ≤ t := by
  induction calls with
  | nil => exact ⟨0, by simp⟩
  | cons call calls ih =>
    obtain ⟨t, ht⟩ := ih
    refine ⟨max call.time t, fun call' hcall' => ?_⟩
    rcases mem_cons.mp hcall' with rfl | hcall'
    · exact le_max_left _ _
    · exact (ht call' hcall').trans (le_max_right _ _)

lemma inOrder_spike {calls : List (Call Client)} (horder : InOrder calls)
    (ht : ∀ call ∈ calls, call.time ≤ now.getD clock) :
    InOrder (calls ++ .evict idleSeconds now clock ::
      List.replicate n (.record c (some (now.getD clock)) (now.getD clock))) := by
  have hlater : ∀ call ∈ List.replicate n (Call.record c (some (now.getD clock)) (now.getD clock)),
      call.time = now.getD clock := by
    intro call hcall
    rw [eq_of_mem_replicate hcall]
    rfl
  refine pairwise_append.mpr ⟨horder, pairwise_cons.mpr ⟨?_, ?_⟩, ?_⟩
  · exact fun call hcall => (hlater call hcall).ge
  · exact pairwise_replicate.mpr (Or.inr le_rfl)
  · intro call hcall call' hcall'
    rcases mem_cons.mp hcall' with rfl | hcall'
    · exact ht call hcall
    · rw [hlater call' hcall']
      exact ht call hcall

structure Served (Client : Type) where
  limiter : SlidingWindowLog Client
  accepted : List (Client × Time) := []

namespace Served

variable [DecidableEq Client]

def step (s : Served Client) : Call Client → Served Client
  | .record clientId now clock =>
    let r := s.limiter.recordAndCheck clientId now clock
    { limiter := r.2
      accepted := if r.1.allowed then s.accepted ++ [(clientId, now.getD clock)] else s.accepted }
  | .evict idleSeconds now clock =>
    { s with limiter := (s.limiter.evictIdleClients idleSeconds now clock).2 }

def run (s : Served Client) (calls : List (Call Client)) : Served Client := calls.foldl step s

def Safe (s : Served Client) : List (Call Client) → Prop
  | [] => True
  | call :: calls => call.Safe s.limiter ∧ (s.step call).Safe calls

def acceptedOf (s : Served Client) (c : Client) : List Time :=
  (s.accepted.filter fun p => p.1 = c).map (·.2)

/-! ## One call -/

section Step

variable {s : Served Client} {c : Client} {now : Option Time} {t : Time}

lemma acceptedOf_record : (s.step (.record c now clock)).acceptedOf c' = s.acceptedOf c' ++
      if c = c' ∧ (s.limiter.recordAndCheck c now clock).1.allowed = true then [now.getD clock]
      else [] := by
  by_cases ha : (s.limiter.recordAndCheck c now clock).1.allowed = true
  · by_cases hc : c = c'
    · subst hc
      simp [acceptedOf, step, ha]
    · simp [acceptedOf, step, ha, hc]
  · simp [acceptedOf, step, ha]

@[simp] lemma step_windowSeconds :
    (s.step call).limiter.windowSeconds = s.limiter.windowSeconds := by
  cases call with
  | record => exact recordAndCheck_windowSeconds
  | evict => rfl

@[simp] lemma step_maxRequests (call : Call Client) :
    (s.step call).limiter.maxRequests = s.limiter.maxRequests := by
  cases call with
  | record => exact recordAndCheck_maxRequests
  | evict => rfl

/-- What holds after the calls up to time `t`. -/
structure Sound (t : Time) (s : Served Client) : Prop where
  past : ∀ c, ∀ x ∈ s.acceptedOf c, x ≤ t
  kept : ∀ c, ∃ old, s.acceptedOf c = old ++ s.limiter.queue c ∧
    ∀ x ∈ old, x ≤ t - s.limiter.windowSeconds
  last : ∀ c x, (c, x) ∈ s.limiter.lastSeen →
    x ∈ s.acceptedOf c ∧ ∀ y ∈ s.acceptedOf c, y ≤ x
  bounded : ∀ c,
    (halfOpen s.limiter.windowSeconds).Bounded s.limiter.maxRequests (s.acceptedOf c)

lemma Sound.mono (h : Sound t s) (ht : t ≤ t') : Sound t' s where
  past c x hx := (h.past c x hx).trans ht
  kept c := by
    obtain ⟨old, hacc, hold⟩ := h.kept c
    exact ⟨old, hacc, fun x hx => (hold x hx).trans (sub_le_sub_right ht _)⟩
  last := h.last
  bounded := h.bounded

lemma Sound.fresh (h : Sound t s) (ht : t ≤ now.getD clock) (c : Client) :
    ∃ old, s.acceptedOf c = old ++ s.limiter.fresh c (now.getD clock) ∧
      ∀ x ∈ old, x ≤ now.getD clock - s.limiter.windowSeconds := by
  obtain ⟨old, hacc, hold⟩ := (h.mono ht).kept c
  refine ⟨old ++ (s.limiter.queue c).takeWhile (· ≤ now.getD clock - s.limiter.windowSeconds),
    ?_, ?_⟩
  · rw [append_assoc, SlidingWindowLog.fresh, takeWhile_append_dropWhile, hacc]
  · intro x hx
    rcases mem_append.mp hx with hx | hx
    · exact hold x hx
    · simpa using mem_takeWhile_imp hx

lemma Sound.bounded_snoc (h : Sound t s) (ht : t ≤ now.getD clock)
    (ha : (s.limiter.recordAndCheck c now clock).1.allowed = true) :
    (halfOpen s.limiter.windowSeconds).Bounded s.limiter.maxRequests
      (s.acceptedOf c ++ [now.getD clock]) := by
  refine (h.bounded c).snoc (fun x hx => (h.past c x hx).trans ht) ?_
  obtain ⟨old, hacc, hold⟩ := h.fresh ht c
  have hout : ∀ x ∈ old, ¬ (halfOpen s.limiter.windowSeconds).inside (now.getD clock) x :=
    fun x hx hin => (hold x hx).not_gt (halfOpen_inside.mp hin).1
  rw [hacc, append_assoc, count_append_of_outside hout]
  refine countP_le_length.trans ?_
  rw [length_append, length_singleton]
  exact allowed_iff.mp ha

lemma Sound.record (h : Sound t s) (ht : t ≤ now.getD clock) (c : Client) :
    Sound (now.getD clock) (s.step (.record c now clock)) where
  past c' x hx := by
    rw [acceptedOf_record] at hx
    rcases mem_append.mp hx with hx | hx
    · exact (h.past c' x hx).trans ht
    · split at hx
      · rw [mem_singleton.mp hx]
      · cases hx
  kept c' := by
    rw [step_windowSeconds, acceptedOf_record]
    change ∃ old, _ = old ++ (s.limiter.recordAndCheck c now clock).2.queue c' ∧ _
    rw [queue_recordAndCheck]
    by_cases hc : c = c'
    · subst hc
      obtain ⟨old, hacc, hold⟩ := h.fresh ht c
      refine ⟨old, ?_, hold⟩
      rw [hacc, append_assoc]
      simp only [true_and, if_true]
    · obtain ⟨old, hacc, hold⟩ := (h.mono ht).kept c'
      refine ⟨old, ?_, hold⟩
      rw [if_neg (by simp [hc]), if_neg hc, append_nil, hacc]
  last c' x hx := by
    rw [acceptedOf_record]
    rcases mem_lastSeen_recordAndCheck hx with ⟨ha, hp⟩ | ⟨hp, hc⟩
    · obtain ⟨rfl, rfl⟩ := Prod.mk.inj hp
      rw [if_pos ⟨rfl, ha⟩]
      refine ⟨by simp, fun y hy => ?_⟩
      rcases mem_append.mp hy with hy | hy
      · exact (h.past _ y hy).trans ht
      · rw [mem_singleton.mp hy]
    · rw [if_neg (by rintro ⟨rfl, ha⟩; exact hc rfl ha), append_nil]
      exact h.last c' x hp
  bounded c' := by
    rw [step_windowSeconds, step_maxRequests, acceptedOf_record]
    split
    · next hc =>
      obtain ⟨rfl, ha⟩ := hc
      exact h.bounded_snoc ht ha
    · rw [append_nil]
      exact h.bounded c'

lemma Sound.evict (h : Sound t s) (ht : t ≤ now.getD clock)
    (hsafe : (Call.evict idleSeconds now clock).Safe s.limiter) :
    Sound (now.getD clock) (s.step (.evict idleSeconds now clock)) where
  past c x hx := (h.past c x hx).trans ht
  kept c := by
    change ∃ old,
      s.acceptedOf c = old ++ (s.limiter.evictIdleClients idleSeconds now clock).2.queue c
      ∧ ∀ x ∈ old, x ≤ now.getD clock - s.limiter.windowSeconds
    rw [queue_evictIdleClients]
    split
    · next hstale =>
      -- all the accepted requests of a stale client have left the window
      obtain ⟨x, hx, hlt⟩ := mem_staleKeys.mp hstale
      refine ⟨s.acceptedOf c, by rw [append_nil], fun y hy => ?_⟩
      exact ((h.last c x hx).2 y hy).trans (hsafe _ hx hlt)
    · exact (h.mono ht).kept c
  last c x hx := h.last c x (mem_foldl_erase _ _ hx)
  bounded c := h.bounded c

lemma Sound.step (h : Sound t s) {call : Call Client} (ht : t ≤ call.time)
    (hsafe : call.Safe s.limiter) : Sound call.time (s.step call) := by
  cases call with
  | record c => exact h.record ht c
  | evict => exact h.evict ht hsafe

end Step

/-! ## A run -/

section Run

variable {s : Served Client} {t : Time} {calls : List (Call Client)}

lemma run_append (s : Served Client) (calls rest : List (Call Client)) :
    s.run (calls ++ rest) = (s.run calls).run rest := foldl_append

@[simp] lemma run_windowSeconds (calls : List (Call Client)) (s : Served Client) :
    (s.run calls).limiter.windowSeconds = s.limiter.windowSeconds := by
  induction calls generalizing s with
  | nil => rfl
  | cons call calls ih => rw [run, foldl_cons, ← run, ih, step_windowSeconds]

@[simp] lemma run_maxRequests (calls : List (Call Client)) (s : Served Client) :
    (s.run calls).limiter.maxRequests = s.limiter.maxRequests := by
  induction calls generalizing s with
  | nil => rfl
  | cons call calls ih => rw [run, foldl_cons, ← run, ih, step_maxRequests]

lemma Sound.run (h : Sound t s) (ht : ∀ call ∈ calls, t ≤ call.time) (horder : InOrder calls)
    (hsafe : s.Safe calls) {t' : Time} (ht' : ∀ call ∈ calls, call.time ≤ t') (htt' : t ≤ t') :
    Sound t' (s.run calls) := by
  induction calls generalizing s t with
  | nil => exact h.mono htt'
  | cons call calls ih =>
    obtain ⟨hfirst, horder⟩ := pairwise_cons.mp horder
    have hstep := h.step (ht call mem_cons_self) hsafe.1
    exact ih hstep hfirst horder hsafe.2 (fun c hc => ht' c (mem_cons_of_mem _ hc))
      (ht' call mem_cons_self)

lemma safe_append (hsafe : s.Safe calls) {rest : List (Call Client)}
    (hrest : (s.run calls).Safe rest) : s.Safe (calls ++ rest) := by
  induction calls generalizing s with
  | nil => exact hrest
  | cons call calls ih => exact ⟨hsafe.1, ih hsafe.2 hrest⟩

lemma safe_records (s : Served Client) : s.Safe (List.replicate n (.record c now clock)) := by
  induction n generalizing s with
  | zero => trivial
  | succ n ih => exact ⟨trivial, ih _⟩

variable (limiter : SlidingWindowLog Client)

lemma sound_new (h : limiter.store = []) (h' : limiter.lastSeen = []) (t : Time) :
    Sound t { limiter := limiter } where
  past c x hx := by cases hx
  kept c := ⟨[], by rw [queue, h]; rfl, by simp⟩
  last c x hx := by rw [h'] at hx; cases hx
  bounded c := bounded_nil

lemma sound_run_new (h : limiter.store = []) (h' : limiter.lastSeen = []) (horder : InOrder calls)
    (hsafe : Safe { limiter := limiter } calls) (ht : ∀ call ∈ calls, call.time ≤ t) :
    Sound t (run { limiter := limiter } calls) := by
  cases calls with
  | nil => exact sound_new limiter h h' t
  | cons call =>
    refine (sound_new limiter h h' call.time).run ?_ horder hsafe ht (ht call mem_cons_self)
    intro call' hcall'
    rcases mem_cons.mp hcall' with rfl | hcall'
    · exact le_rfl
    · exact (pairwise_cons.mp horder).1 call' hcall'

lemma run_spike (s : Served Client) (c : Client) (n k : Nat) (t : Time)
    (hqueue : s.limiter.queue c = List.replicate k t) (hroom : k + n ≤ s.limiter.maxRequests) :
    (s.run (List.replicate n (.record c (some t) t))).acceptedOf c =
      s.acceptedOf c ++ List.replicate n t := by
  induction n generalizing s k with
  | zero => exact (append_nil _).symm
  | succ n ih =>
    have hfresh : s.limiter.fresh c t = List.replicate k t := by
      rw [fresh, hqueue]
      have hin : ¬ t ≤ t - s.limiter.windowSeconds := by
        have := s.limiter.windowSeconds_pos
        linarith
      cases k with
      | zero => rfl
      | succ => rw [replicate_succ, dropWhile_cons_of_neg (by simpa using hin)]
    have hallowed : (s.limiter.recordAndCheck c (some t) t).1.allowed = true := by
      rw [allowed_iff]
      change (s.limiter.fresh c t).length < _
      rw [hfresh, length_replicate]
      omega
    have hnext : (s.step (.record c (some t) t)).limiter.queue c = List.replicate (k + 1) t := by
      change (s.limiter.recordAndCheck c (some t) t).2.queue c = _
      rw [queue_recordAndCheck, if_pos rfl, if_pos hallowed]
      change s.limiter.fresh c t ++ [t] = _
      rw [hfresh, replicate_succ']
    rw [replicate_succ, run, foldl_cons, ← run,
      ih _ (k + 1) hnext (by rw [step_maxRequests]; omega), acceptedOf_record,
      if_pos ⟨rfl, hallowed⟩, append_assoc, replicate_succ]
    rfl

lemma Sound.exceeds (h : Sound t s) (ht : t ≤ now.getD clock)
    (hnot : ¬ (Call.evict idleSeconds now clock).Safe s.limiter) :
    ∃ c, s.limiter.maxRequests < (halfOpen s.limiter.windowSeconds).count (now.getD clock)
      (((s.step (.evict idleSeconds now clock)).run (List.replicate s.limiter.maxRequests
        (.record c (some (now.getD clock)) (now.getD clock)))).acceptedOf c) := by
  simp only [Call.Safe, not_forall] at hnot
  obtain ⟨⟨c, x⟩, hx, hidle, hrecent⟩ := hnot
  have hempty : (s.step (.evict idleSeconds now clock)).limiter.queue c =
      List.replicate 0 (now.getD clock) := by
    change (s.limiter.evictIdleClients idleSeconds now clock).2.queue c = _
    rw [queue_evictIdleClients, if_pos (mem_staleKeys.mpr ⟨x, hx, hidle⟩)]
    rfl
  refine ⟨c, ?_⟩
  rw [run_spike _ c _ 0 _ hempty (by rw [Nat.zero_add, step_maxRequests])]
  change _ < (halfOpen _).count _ (s.acceptedOf c ++ _)
  -- the last request before the eviction still counts, and so do all the new ones
  have hold : 0 < (s.acceptedOf c).countP
      ((halfOpen s.limiter.windowSeconds).inside (now.getD clock)) := by
    obtain ⟨hmem, -⟩ := h.last c x hx
    refine countP_pos_iff.mpr ⟨x, hmem, halfOpen_inside.mpr ⟨not_le.mp hrecent, ?_⟩⟩
    exact (h.past c x hmem).trans ht
  have hnew : (halfOpen s.limiter.windowSeconds).inside (now.getD clock) (now.getD clock) =
      true := halfOpen_inside.mpr ⟨sub_lt_self _ s.limiter.windowSeconds_pos, le_rfl⟩
  rw [Window.count, countP_append, countP_replicate, if_pos hnew]
  omega

end Run

end Served

lemma init_ok {windowSeconds : Time} {maxRequests : Int}
    (h : init windowSeconds maxRequests = .ok limiter) :
    limiter.windowSeconds = windowSeconds ∧ (limiter.maxRequests : Int) = maxRequests ∧
      limiter.store = [] ∧ limiter.lastSeen = [] := by
  unfold init at h
  split at h
  · cases h
  · split at h
    · cases h
    · cases h
      exact ⟨rfl, by dsimp only; omega, rfl, rfl⟩

variable [DecidableEq Client]

open Served in
/-- The requests accepted from a client, in every run whose evictions are safe: at most
`max_requests` in every window. And an eviction keeps this for the safe runs after it if and only
if it is safe itself. -/
theorem accepted_in_window {windowSeconds : Time} {maxRequests : Int}
    {limiter : SlidingWindowLog Client} (hinit : init windowSeconds maxRequests = .ok limiter)
    {calls : List (Call Client)} (horder : InOrder calls)
    (hsafe : Safe { limiter := limiter } calls) :
    (∀ c t, ((halfOpen windowSeconds).count t
      ((run { limiter := limiter } calls).acceptedOf c) : Int) ≤ maxRequests) ∧
    ∀ idleSeconds now clock, (∀ call ∈ calls, call.time ≤ now.getD clock) →
      ((∀ rest, InOrder (calls ++ .evict idleSeconds now clock :: rest) →
        Safe (run { limiter := limiter } (calls ++ [.evict idleSeconds now clock])) rest →
        ∀ c t, ((halfOpen windowSeconds).count t ((run { limiter := limiter }
            (calls ++ .evict idleSeconds now clock :: rest)).acceptedOf c)
            : Int) ≤ maxRequests) ↔
      (Call.evict idleSeconds now clock).Safe (run { limiter := limiter } calls).limiter) := by
  obtain ⟨rfl, rfl, hstore, hlast⟩ := init_ok hinit
  have hbound : ∀ calls, InOrder calls → Safe { limiter := limiter } calls → ∀ c t,
      ((halfOpen limiter.windowSeconds).count t
        ((run { limiter := limiter } calls).acceptedOf c) : Int) ≤ limiter.maxRequests := by
    intro calls horder hsafe c t
    obtain ⟨t', ht'⟩ := exists_time_ge calls
    have hsound := sound_run_new limiter hstore hlast horder hsafe ht'
    have := hsound.bounded c t
    rw [run_windowSeconds, run_maxRequests] at this
    exact_mod_cast this
  refine ⟨hbound calls horder hsafe, fun idleSeconds now clock ht => ⟨fun hall => ?_, ?_⟩⟩
  · -- an eviction that is not safe lets a client use its quota again at once
    have hsound := sound_run_new limiter hstore hlast horder hsafe ht
    by_contra hnot
    obtain ⟨c, hc⟩ := hsound.exceeds le_rfl hnot
    rw [run_windowSeconds, run_maxRequests] at hc
    have hle := hall (List.replicate limiter.maxRequests
      (.record c (some (now.getD clock)) (now.getD clock))) ?_ ?_ c (now.getD clock)
    · rw [run_append, run, foldl_cons, ← run] at hle
      exact absurd (by exact_mod_cast hle) hc.not_ge
    · exact inOrder_spike horder ht
    · exact safe_records _
  · intro hevict rest horder' hsafe' c t
    refine hbound _ horder' ?_ c t
    refine safe_append hsafe ⟨hevict, ?_⟩
    rw [run_append] at hsafe'
    exact hsafe'

omit [DecidableEq Client] in
/-- One request in ten seconds, and one more after an eviction of the clients that have been idle
for ten seconds. -/
theorem accepted_in_window_two : (init 10 1 : Except String (SlidingWindowLog Nat)) =
      .ok ⟨10, 1, [], [], by decide, by decide⟩ ∧
    ((halfOpen (10 : Time)).count 11 ((Served.run ⟨⟨10, 1, [], [], by decide, by decide⟩, []⟩
        [.record 7 (some 0) 0, .evict 10 (some 11) 11, .record 7 none 11]).acceptedOf 7) : Int)
      ≤ 1 := by
  refine (and_iff_left_of_imp fun hinit => (accepted_in_window hinit ?_ ?_).1 7 11).mpr rfl
  · simp [InOrder, Call.time]
  · exact ⟨trivial, Call.safe_of_le le_rfl, trivial, trivial⟩

omit [DecidableEq Client] in
/-- The limit is one request in ten seconds. The eviction of all idle clients, one second after the
first request, forgets it, and a second request is accepted at once. -/
theorem evicted_too_early :
    ((init 10 1 : Except String (SlidingWindowLog Nat)).toOption.map fun limiter =>
      (halfOpen (10 : Time)).count 1 ((Served.run ⟨limiter, []⟩
        [.record 7 (some 0) 0, .evict 0 (some 1) 1, .record 7 (some 1) 1]).acceptedOf 7)) =
      some 2 := by
  decide +kernel

end SlidingWindowLog

end CleanArch
