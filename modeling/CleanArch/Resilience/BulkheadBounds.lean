import CleanArch.Resilience.Bulkhead
import CleanArch.Steps.Along

/-!
# How many tasks a bulkhead holds

At most `max_concurrent` tasks are inside the compartment (`Bounded`). After a slot has been handed
to a waiter that has not run yet, `_active_count` is below `max_concurrent`, and the semaphore is
locked: a task that enters does not look at the queue, and is suspended without being counted.
-/

namespace CleanArch

open Async List Option Semaphore Steps

/-! ## Tasks -/

structure Compartment where
  bulkhead : Bulkhead
  inside : List Tid := []
  deriving DecidableEq

/-- The tasks that are suspended in `__aenter__`. -/
def Compartment.suspended (w : Compartment) : List (Waiter Bool) := w.bulkhead.semaphore.waiters

inductive TaskEvent where
  | enter (t : Tid)
  | cancel (t : Tid)
  | resume (t : Tid)
  | leave (t : Tid) (failed : Bool)
  deriving DecidableEq

namespace Compartment

variable (cfg : BulkheadConfig) (w : Compartment)

/-- The task goes on after `__aenter__`, or part of it. -/
def after (t : Tid) : Bulkhead.Entry × Bulkhead → Compartment
  | (.entered, bulkhead) => { bulkhead, inside := w.inside ++ [t] }
  | (_, bulkhead) => { w with bulkhead }

def step : TaskEvent → Compartment
  | .enter t =>
    if t ∈ w.inside ∨ t ∈ w.suspended.map Waiter.task then w
    else w.after t (w.bulkhead.aenter cfg t)
  | .cancel t =>
    { w with bulkhead := { w.bulkhead with semaphore := w.bulkhead.semaphore.cancel t } }
  | .resume t => (w.bulkhead.resume t).elim w (w.after t)
  | .leave t failed =>
    if t ∈ w.inside then { bulkhead := w.bulkhead.aexit failed, inside := w.inside.erase t } else w

def new : Compartment := { bulkhead := { semaphore := { value := cfg.maxConcurrent } } }

end Compartment

namespace Bulkhead

variable {b : Bulkhead}

lemma acquire_locked (h : b.semaphore.locked = true) : b.acquire t counted =
      (.suspended, { b with semaphore := b.semaphore.suspend t counted }) := by
  rw [acquire, Semaphore.acquire_locked h]

lemma acquire_unlocked (h : b.semaphore.locked = false) : b.acquire t counted = (.entered, { b with
      semaphore := { b.semaphore with value := b.semaphore.value - 1 }
      waitingCount := if counted then b.waitingCount - 1 else b.waitingCount
      activeCount := b.activeCount + 1 }) := by
  rw [acquire, Semaphore.acquire_unlocked h]

end Bulkhead

namespace Compartment

structure Bounded (cfg : BulkheadConfig) (w : Compartment) : Prop where
  active : w.bulkhead.activeCount = w.inside.length
  slots : w.bulkhead.activeCount + w.bulkhead.semaphore.slots = cfg.maxConcurrent
  waiting : w.bulkhead.waitingCount = w.bulkhead.semaphore.tags.count true
  fair : w.bulkhead.semaphore.Fair

/-- The invariant of the runs without an entry in the window: every suspended task is counted, and
there are not too many. -/
structure Queued (cfg : BulkheadConfig) (w : Compartment) : Prop where
  counted : ∀ c ∈ w.bulkhead.semaphore.tags, c = true
  length_le : w.bulkhead.semaphore.tags.length ≤ cfg.maxQueue

def NoHandOver (w : Compartment) : TaskEvent → Prop
  | .enter _ => w.bulkhead.semaphore.granted = 0
  | _ => True

instance (w : Compartment) (e : TaskEvent) : Decidable (NoHandOver w e) :=
  match e with
  | .enter _ => inferInstanceAs (Decidable (_ = _))
  | .cancel _ => inferInstanceAs (Decidable True)
  | .resume _ => inferInstanceAs (Decidable True)
  | .leave _ _ => inferInstanceAs (Decidable True)

section Step

variable {cfg : BulkheadConfig} {w : Compartment} {t : Tid}

/-! ### The invariant of every run -/

lemma Bounded.acquire (h : Bounded cfg w) (counted : Bool) {b : Bulkhead}
    (hactive : b.activeCount = w.bulkhead.activeCount)
    (hsem : b.semaphore = w.bulkhead.semaphore)
    (hwaiting : b.waitingCount = w.bulkhead.waitingCount + if counted then 1 else 0) :
    Bounded cfg (w.after t (b.acquire t counted)) := by
  have hfair := fair_acquire (t := t) h.fair counted
  have hslots := h.slots
  rw [h.waiting] at hwaiting
  rw [← hsem] at hfair hslots hwaiting
  rw [← hactive] at hslots
  cases hl : b.semaphore.locked with
  | true =>
    rw [Semaphore.acquire_locked hl] at hfair
    rw [Bulkhead.acquire_locked hl]
    refine ⟨hactive.trans h.active, ?_, ?_, hfair⟩
    · simp only [after, Semaphore.slots, Semaphore.granted_suspend]
      exact hslots
    · simp only [after, Semaphore.tags_suspend, hwaiting]
      cases counted <;> simp
  | false =>
    have hpos := value_pos_of_unlocked hl
    rw [Semaphore.acquire_unlocked hl] at hfair
    rw [Bulkhead.acquire_unlocked hl]
    refine ⟨?_, ?_, ?_, hfair⟩
    · simp [after, hactive, h.active]
    · simp only [after, Semaphore.slots, Semaphore.granted] at hslots ⊢
      omega
    · simp only [after, hwaiting]
      cases counted
      all_goals rfl

lemma Bounded.enter (h : Bounded cfg w) : Bounded cfg (w.after t (w.bulkhead.aenter cfg t)) := by
  unfold Bulkhead.aenter
  simp only
  split
  · split
    · exact ⟨h.active, h.slots, h.waiting, h.fair⟩
    · exact h.acquire true rfl rfl rfl
  · exact h.acquire false rfl rfl rfl

lemma count_of_perm (h : (c :: l').Perm l) : l.count true = l'.count true + if c then 1 else 0 := by
  rw [← h.count_eq, count_cons]
  cases c <;> rfl

lemma Bounded.resume (h : Bounded cfg w) (hr : w.bulkhead.resume t = some r) :
    Bounded cfg (w.after t r) := by
  obtain ⟨⟨counted, hasSlot, semaphore⟩, hres, rfl⟩ := map_eq_some_iff.mp hr
  obtain ⟨hslots, htags, hfair⟩ := resume_spec hres
  have hcount := count_of_perm htags
  have hwaiting : (if counted = true then w.bulkhead.waitingCount - 1
      else w.bulkhead.waitingCount) = semaphore.tags.count true := by
    rw [h.waiting, hcount]
    cases counted
    all_goals rfl
  have htotal := h.slots
  cases hasSlot with
  | true =>
    refine ⟨?_, ?_, hwaiting, hfair⟩
    · simp [after, h.active]
    · simp only [after, if_true] at hslots ⊢
      omega
  | false =>
    refine ⟨h.active, ?_, hwaiting, hfair⟩
    simp only [after, Bool.false_eq_true, if_false] at hslots ⊢
    omega

lemma Bounded.cancel (h : Bounded cfg w) : Bounded cfg (w.step cfg (.cancel t)) := by
  refine ⟨h.active, ?_, ?_, fair_cancel h.fair⟩
  · have hslots := h.slots
    simp only [step, Semaphore.slots, Semaphore.granted_cancel] at hslots ⊢
    exact hslots
  · simp only [step, Semaphore.tags_cancel]
    exact h.waiting

lemma Bounded.leave (h : Bounded cfg w) (ht : t ∈ w.inside) (failed : Bool) :
    Bounded cfg { bulkhead := w.bulkhead.aexit failed, inside := w.inside.erase t } := by
  have hpos : 0 < w.inside.length := length_pos_of_mem ht
  have hslots := h.slots
  have hactive := h.active
  have hexit : (w.bulkhead.aexit failed).activeCount = w.bulkhead.activeCount - 1 ∧
      (w.bulkhead.aexit failed).waitingCount = w.bulkhead.waitingCount ∧
      (w.bulkhead.aexit failed).semaphore = w.bulkhead.semaphore.release := by
    cases failed <;> exact ⟨rfl, rfl, rfl⟩
  obtain ⟨hact, hwait, hsem⟩ := hexit
  refine ⟨?_, ?_, ?_, ?_⟩
  · rw [hact, hactive, length_erase_of_mem ht]
  · rw [hact, hsem, slots_release]
    omega
  · rw [hwait, hsem, tags_release, h.waiting]
  · rw [hsem]
    exact fair_release

lemma Bounded.step (h : Bounded cfg w) (e : TaskEvent) : Bounded cfg (w.step cfg e) := by
  cases e with
  | enter =>
    simp only [Compartment.step]
    split
    · exact h
    · exact h.enter
  | cancel => exact h.cancel
  | resume t =>
    cases hr : w.bulkhead.resume t with
    | none => simpa [Compartment.step, hr] using h
    | some => simpa [Compartment.step, hr] using h.resume hr
  | leave t failed =>
    simp only [Compartment.step]
    split
    · exact h.leave ‹_› failed
    · exact h

lemma Bounded.new : Bounded cfg (.new cfg) :=
  ⟨rfl, by simp [Compartment.new, Semaphore.slots, Semaphore.granted], rfl, fun _ => Or.inr nofun⟩

/-! ### The invariant of the runs without an entry in the window -/

lemma Queued.of_tags (h : Queued cfg w)
    (htags : w'.bulkhead.semaphore.tags = w.bulkhead.semaphore.tags) : Queued cfg w' :=
  ⟨htags ▸ h.counted, htags ▸ h.length_le⟩

lemma Queued.suspend (h : Queued cfg w)
    (htags : w'.bulkhead.semaphore.tags = w.bulkhead.semaphore.tags ++ [true])
    (hlt : w.bulkhead.semaphore.tags.length < cfg.maxQueue) : Queued cfg w' := by
  refine ⟨fun c hc => ?_, ?_⟩
  · rw [htags] at hc
    rcases mem_append.mp hc with hc | hc
    · exact h.counted c hc
    · exact mem_singleton.mp hc
  · rw [htags, length_append]
    exact hlt

lemma tags_acquire_locked {b : Bulkhead} (hl : b.semaphore.locked = true) :
    (w.after t (b.acquire t counted)).bulkhead.semaphore.tags = b.semaphore.tags ++ [counted] := by
  rw [Bulkhead.acquire_locked hl]
  exact Semaphore.tags_suspend counted

lemma tags_acquire_unlocked {b : Bulkhead} (hl : b.semaphore.locked = false) :
    (w.after t (b.acquire t counted)).bulkhead.semaphore.tags = b.semaphore.tags := by
  rw [Bulkhead.acquire_unlocked hl]
  rfl

lemma Queued.length_eq (h : Queued cfg w) (hb : Bounded cfg w) :
    w.bulkhead.semaphore.tags.length = w.bulkhead.waitingCount := by
  rw [hb.waiting]
  exact (count_eq_length.mpr fun c hc => (h.counted c hc).symm).symm

lemma Queued.enter (h : Queued cfg w) (hb : Bounded cfg w) (hg : w.bulkhead.semaphore.granted = 0) :
    Queued cfg (w.after t (w.bulkhead.aenter cfg t)) := by
  have hlength := h.length_eq hb
  have hslots := hb.slots
  unfold Bulkhead.aenter
  simp only
  split
  · split
    · exact h.of_tags rfl
    · cases hl : w.bulkhead.semaphore.locked with
      | true => exact h.suspend (tags_acquire_locked hl) (by omega)
      | false => exact h.of_tags (tags_acquire_unlocked hl)
  · -- there is a free slot, and no one who has been handed one
    have hvalue : 0 < w.bulkhead.semaphore.value := by
      rw [Semaphore.slots, hg] at hslots
      omega
    exact h.of_tags (tags_acquire_unlocked (unlocked_of_fair hb.fair hg hvalue))

lemma Queued.resume (h : Queued cfg w) (hr : w.bulkhead.resume t = some r) :
    Queued cfg (w.after t r) := by
  obtain ⟨⟨counted, hasSlot, semaphore⟩, hres, rfl⟩ := map_eq_some_iff.mp hr
  obtain ⟨-, htags, -⟩ := resume_spec hres
  have hcounted : ∀ c ∈ semaphore.tags, c = true := fun c hc =>
    h.counted c (htags.subset (mem_cons_of_mem _ hc))
  have hle : semaphore.tags.length ≤ cfg.maxQueue := by
    have hlen := htags.length_eq
    have := h.length_le
    rw [length_cons] at hlen
    omega
  cases hasSlot with
  | true | false => exact ⟨hcounted, hle⟩

lemma Queued.step (h : Queued cfg w) (hb : Bounded cfg w) {e : TaskEvent} (he : NoHandOver w e) :
    Queued cfg (w.step cfg e) := by
  cases e with
  | enter =>
    simp only [Compartment.step]
    split
    · exact h
    · exact h.enter hb he
  | cancel => exact h.of_tags Semaphore.tags_cancel
  | resume t =>
    cases hr : w.bulkhead.resume t with
    | none => simpa [Compartment.step, hr] using h
    | some => simpa [Compartment.step, hr] using h.resume hr
  | leave t failed =>
    simp only [Compartment.step]
    split
    · refine h.of_tags ?_
      cases failed
      all_goals exact tags_release
    · exact h

end Step

/-! ## Runs -/

/-- **Bulkhead bounds.** Tasks enter, are cancelled while they wait, run again and leave, in any
order. In every state at most `max_concurrent` tasks are inside. If no task enters while a waiter
has been handed a slot and has not run yet, at most `max_queue` tasks are suspended in every state.
-/
theorem bulkhead_bounds (cfg : BulkheadConfig) (es : List TaskEvent) :
    Always (step cfg) (fun w => w.inside.length ≤ cfg.maxConcurrent) (new cfg) es ∧
      (Along (step cfg) NoHandOver (new cfg) es →
        Always (step cfg) (fun w => w.suspended.length ≤ cfg.maxQueue) (new cfg) es) := by
  constructor
  · intro before hbefore
    have hb : Bounded cfg (before.foldl (step cfg) (new cfg)) :=
      always_of_step (P := Bounded cfg) (fun _ e h => h.step e) Bounded.new es before hbefore
    have hslots := hb.slots
    rw [hb.active] at hslots
    exact Nat.le_of_add_right_le hslots.le
  · intro hes before hbefore
    have hq := hes.invariant (P := fun w => Bounded cfg w ∧ Queued cfg w)
      (fun w e h he => ⟨h.1.step e, h.2.step h.1 he⟩)
      ⟨Bounded.new, ⟨fun c hc => (by cases hc), Nat.zero_le _⟩⟩ before hbefore
    have hle := hq.2.length_le
    rwa [tags, length_map] at hle

/-! ## No slot is lost -/

/-- The calls that have ended with a result or an exception of their own, and those in progress. -/
def accounted (w : Compartment) : Nat :=
  w.bulkhead.totalSuccesses + w.bulkhead.totalFailures + w.bulkhead.rejectionsCount +
    (w.inside.length + w.suspended.length)

/-- Whether the event ends a call that was cancelled while it waited. -/
def cancelledAt (w : Compartment) : TaskEvent → Nat
  | .resume t => if (w.bulkhead.resume t).any (·.1 = .cancelled) then 1 else 0
  | _ => 0

def cancelledIn (cfg : BulkheadConfig) : Compartment → List TaskEvent → Nat
  | _, [] => 0
  | w, e :: es => cancelledAt w e + cancelledIn cfg (w.step cfg e) es

section Leakage

variable {w : Compartment}

lemma suspended_length (w : Compartment) : w.suspended.length = w.bulkhead.semaphore.tags.length :=
  (length_map _).symm

lemma accounted_acquire (b : Bulkhead) (htags : b.semaphore.tags = w.bulkhead.semaphore.tags) :
    (w.after t (b.acquire t counted)).bulkhead.totalCalls = b.totalCalls ∧
      (w.after t (b.acquire t counted)).accounted =
        b.totalSuccesses + b.totalFailures + b.rejectionsCount +
          (w.inside.length + w.suspended.length + 1) := by
  cases hl : b.semaphore.locked with
  | true =>
    have hlength : (w.after t (b.acquire t counted)).suspended.length = w.suspended.length + 1 := by
      rw [suspended_length, tags_acquire_locked hl, length_append, htags, suspended_length]
      rfl
    rw [accounted, hlength, Bulkhead.acquire_locked hl]
    exact ⟨rfl, rfl⟩
  | false =>
    have hlength : (w.after t (b.acquire t counted)).suspended.length = w.suspended.length := by
      rw [suspended_length, tags_acquire_unlocked hl, htags, suspended_length]
    rw [accounted, hlength, Bulkhead.acquire_unlocked hl]
    simp only [after, length_append, length_singleton, true_and]
    omega

lemma accounted_resume (hr : w.bulkhead.resume t = some r) :
    (w.after t r).bulkhead.totalCalls = w.bulkhead.totalCalls ∧
      (w.after t r).accounted + (if r.1 = .cancelled then 1 else 0) = w.accounted := by
  obtain ⟨⟨counted, hasSlot, semaphore⟩, hres, rfl⟩ := map_eq_some_iff.mp hr
  have hlength := (resume_spec hres).2.1.length_eq
  simp only [accounted, suspended_length, ← hlength]
  cases hasSlot
  all_goals
    simp [after]
    try omega

lemma accounted_leave (ht : t ∈ w.inside) :
    (w.bulkhead.aexit failed).totalCalls = w.bulkhead.totalCalls ∧
      accounted { bulkhead := w.bulkhead.aexit failed, inside := w.inside.erase t } =
        w.accounted := by
  have hpos := length_pos_of_mem ht
  simp only [accounted, suspended_length, length_erase_of_mem ht]
  cases failed
  all_goals
    simp only [Bulkhead.aexit, tags_release, Bool.false_eq_true, if_false, if_true, true_and]
    omega

lemma accounted_step (cfg : BulkheadConfig) (w : Compartment) (e : TaskEvent) :
    (w.step cfg e).bulkhead.totalCalls + w.accounted =
      w.bulkhead.totalCalls + ((w.step cfg e).accounted + cancelledAt w e) := by
  cases e with
  | enter t =>
    simp only [step, cancelledAt]
    split
    · omega
    unfold Bulkhead.aenter
    simp only
    split
    · split
      · simp only [after, accounted, suspended]
        omega
      · obtain ⟨hcalls, hacc⟩ := accounted_acquire (w := w) (t := t) { w.bulkhead with
            totalCalls := w.bulkhead.totalCalls + 1
            waitingCount := w.bulkhead.waitingCount + 1 } rfl
        rw [hcalls, hacc, accounted]
        simp only
        omega
    · obtain ⟨hcalls, hacc⟩ := accounted_acquire (w := w) (t := t)
        { w.bulkhead with totalCalls := w.bulkhead.totalCalls + 1 } rfl
      rw [hcalls, hacc, accounted]
      simp only
      omega
  | cancel t =>
    simp only [step, cancelledAt, accounted, suspended_length, Semaphore.tags_cancel]
    omega
  | resume t =>
    cases hr : w.bulkhead.resume t with
    | none => simp [step, cancelledAt, hr]
    | some r =>
      obtain ⟨hcalls, hacc⟩ := accounted_resume hr
      simp only [step, cancelledAt, hr, elim_some, any_some, decide_eq_true_eq, hcalls, ← hacc]
  | leave t failed =>
    simp only [step, cancelledAt]
    split
    · next ht =>
      obtain ⟨hcalls, hacc⟩ := accounted_leave ht
      rw [hcalls, hacc, Nat.add_zero]
    · omega

lemma accounted_run (cfg : BulkheadConfig) (h : w.bulkhead.totalCalls = w.accounted + n)
    (es : List TaskEvent) : (es.foldl (step cfg) w).bulkhead.totalCalls =
      (es.foldl (step cfg) w).accounted + (n + cancelledIn cfg w es) := by
  induction es generalizing w n with
  | nil => exact h
  | cons e es ih =>
    have hstep := accounted_step cfg w e
    have hrest := ih (w := w.step cfg e) (n := n + cancelledAt w e) (by omega)
    rw [foldl_cons, cancelledIn, ← Nat.add_assoc n]
    exact hrest

/-- **No slot is lost.** Tasks enter, are cancelled while they wait, run again and leave (with a
result, an exception or a cancellation), in any order. Whenever no task is inside or suspended, the
counts are zero and all slots are free; and every call is accounted for in every state. -/
theorem zero_slot_leakage (cfg : BulkheadConfig) (es : List TaskEvent) :
    let w := es.foldl (step cfg) (new cfg)
    (w.inside = [] → w.suspended = [] → w.bulkhead.activeCount = 0 ∧ w.bulkhead.waitingCount = 0 ∧
      w.bulkhead.semaphore.value = cfg.maxConcurrent) ∧
    w.bulkhead.totalCalls = w.bulkhead.totalSuccesses + w.bulkhead.totalFailures +
      w.bulkhead.rejectionsCount + (w.inside.length + w.suspended.length) +
      cancelledIn cfg (new cfg) es := by
  refine ⟨fun hinside hsuspended => ?_, ?_⟩
  · have hb : Bounded cfg (es.foldl (step cfg) (new cfg)) :=
      (always_of_step (P := Bounded cfg) (fun _ e h => h.step e) Bounded.new es).last
    generalize es.foldl (step cfg) (new cfg) = w at hinside hsuspended hb
    have hactive : w.bulkhead.activeCount = 0 := by rw [hb.active, hinside, length_nil]
    have hslots := hb.slots
    rw [hactive, Nat.zero_add, Semaphore.slots, Semaphore.granted,
      show w.bulkhead.semaphore.waiters = [] from hsuspended] at hslots
    refine ⟨hactive, ?_, hslots⟩
    rw [hb.waiting, tags, show w.bulkhead.semaphore.waiters = [] from hsuspended]
    rfl
  · have h := accounted_run cfg (w := new cfg) (n := 0) rfl es
    rwa [Nat.zero_add] at h

end Leakage

/-! ### The window of a hand-over -/

def sampleBulkhead : BulkheadConfig where
  maxConcurrent := 1
  maxQueue := 1
  one_le_maxConcurrent := Nat.one_pos

def compartmentRun (es : List TaskEvent) : Compartment :=
  es.foldl (step sampleBulkhead) (new sampleBulkhead)

def handOver : List TaskEvent := [.enter 0, .enter 1, .leave 0 false]

/-- Task 1 gets in before tasks 2 and 3 come: one waits, the other is rejected. -/
theorem bulkhead_bounds_queue :
    (compartmentRun (handOver ++ [.resume 1, .enter 2, .enter 3])).inside = [1] ∧
      (compartmentRun (handOver ++ [.resume 1, .enter 2, .enter 3])).suspended.length ≤ 1 :=
  ⟨by decide +kernel,
    (bulkhead_bounds sampleBulkhead (handOver ++ [.resume 1, .enter 2, .enter 3])).2
      (by decide +kernel) _ prefix_rfl⟩

/-- Tasks 2 and 3 come before task 1 runs. Both are suspended and none is rejected, although only
one task may wait; neither of them has been handed a slot. -/
theorem queue_exceeded : ((compartmentRun (handOver ++ [.enter 2, .enter 3])).suspended.filter
      fun p => p.fut = .pending).map Waiter.task = [2, 3] ∧
    (compartmentRun (handOver ++ [.enter 2, .enter 3])).bulkhead.rejectionsCount = 0 ∧
    sampleBulkhead.maxQueue = 1 := by
  decide +kernel

end Compartment

end CleanArch
