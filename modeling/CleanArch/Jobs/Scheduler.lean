import CleanArch.Heaps.HeapQ
import CleanArch.Ledger.Types
import Mathlib.Data.List.Nodup
import Mathlib.Data.Prod.Lex

/-!
# The job scheduler

`PriorityJobScheduler` (`app/core/dsa/priority_queue.py`) and `process_due_jobs`
(`app/services/job_service.py`). Jobs are ordered by priority, then by time, then by sequence, and
only the first one is looked at: while it is not due, the others wait, due or not. The docstring of
`pop_due_job` promises the highest priority job that is due.
-/

namespace CleanArch

open HeapQ List

inductive JobPriority where
  | critical
  | high
  | normal
  | low
  deriving DecidableEq

def JobPriority.value : JobPriority → Nat
  | .critical => 1
  | .high => 2
  | .normal => 3
  | .low => 4

structure PriorityJob where
  priority : JobPriority
  scheduledAt : Time
  sequence : Nat
  jobId : String
  taskType : String
  payload : String
  deriving DecidableEq

namespace PriorityJob

/-- What `PriorityJob` compares. -/
def key (job : PriorityJob) : Nat ×ₗ Time ×ₗ Nat :=
  toLex (job.priority.value, toLex (job.scheduledAt, job.sequence))

instance : Preorder PriorityJob := Preorder.lift key

instance : DecidableLT PriorityJob := fun a b =>
  inferInstanceAs (Decidable (a.key < b.key))

instance : Std.Total (α := PriorityJob) (· ≤ ·) := ⟨fun a b => le_total a.key b.key⟩

end PriorityJob

structure PriorityJobScheduler where
  heap : Array PriorityJob := #[]
  sequenceCounter : Nat := 0

/-- What `process_due_jobs` reports of a job. -/
structure JobResult where
  jobId : String
  taskType : String
  priority : JobPriority
  payload : String
  deriving DecidableEq

def PriorityJob.result (job : PriorityJob) : JobResult :=
  ⟨job.jobId, job.taskType, job.priority, job.payload⟩

structure JobService where
  scheduler : PriorityJobScheduler := {}
  processedHistory : List JobResult := []

inductive SchedulerOp where
  | schedule (taskType payload : String) (priority : JobPriority) (delaySeconds : Time)
      (jobId : Option String)
  | popDueJob (now : Option Time)
  | clear

/-- `f"{n:08d}"`. -/
def eightDigits (n : Nat) : String :=
  String.ofList (List.replicate (8 - (toString n).length) '0') ++ toString n

namespace PriorityJobScheduler

/-! ## Calls -/

section Calls

variable (s : PriorityJobScheduler) (time : Time)

/-- The queued jobs. -/
def jobs : List PriorityJob := s.heap.toList

def scheduleSync (taskType payload : String) (priority : JobPriority) (delaySeconds : Time)
    (jobId : Option String) : String × PriorityJobScheduler :=
  let sequence := s.sequenceCounter + 1
  let jid := (jobId.filter (· ≠ "")).getD ("job_" ++ eightDigits sequence)
  (jid, ⟨heappush s.heap ⟨priority, time + max delaySeconds 0, sequence, jid, taskType, payload⟩,
    sequence⟩)

def popDueJobSync (now : Option Time) : Option PriorityJob × PriorityJobScheduler :=
  match s.heap[0]? with
  | none => (none, s)
  | some top =>
    if top.scheduledAt ≤ now.getD time then
      match heappop s.heap with
      | none => (none, s)
      | some (job, heap) => (some job, { s with heap })
    else (none, s)

/-- A call at the time `time`. -/
def exec (op : SchedulerOp × Time) : PriorityJobScheduler :=
  match op.1 with
  | .schedule taskType payload priority delay jobId =>
    (s.scheduleSync op.2 taskType payload priority delay jobId).2
  | .popDueJob now => (s.popDueJobSync op.2 now).2
  | .clear => {}

end Calls

def run (ops : List (SchedulerOp × Time)) : PriorityJobScheduler := ops.foldl exec {}

end PriorityJobScheduler

/-- The rounds of `process_due_jobs`; `time.time()` is `clock i` in round `i`. -/
def JobService.rounds (clock : Nat → Time) : Nat → JobService → List JobResult × JobService
  | 0, service => ([], service)
  | n + 1, service =>
    match service.scheduler.popDueJobSync (clock 0) none with
    | (none, scheduler) => ([], { service with scheduler })
    | (some job, scheduler) =>
      let (executed, service) := rounds (fun i => clock (i + 1)) n
        ⟨scheduler, service.processedHistory ++ [job.result]⟩
      (job.result :: executed, service)

def JobService.processDueJobs (service : JobService) (clock : Nat → Time) (maxJobs : Int) :
    List JobResult × JobService :=
  service.rounds clock maxJobs.toNat

/-- The jobs of an ordered queue that are due when their round comes, up to the first that is
not. -/
def dueInTurn (clock : Nat → Time) : Nat → List PriorityJob → List PriorityJob
  | n + 1, job :: queue =>
    if job.scheduledAt ≤ clock 0 then job :: dueInTurn (fun i => clock (i + 1)) n queue else []
  | _, _ => []

namespace PriorityJobScheduler

variable {s : PriorityJobScheduler}

/-! ## The order of the jobs -/

/-- What holds after any history of calls. -/
structure Sound (s : PriorityJobScheduler) : Prop where
  heap : IsHeap s.heap
  le : ∀ job ∈ s.jobs, job.sequence ≤ s.sequenceCounter
  nodup : (s.jobs.map (·.sequence)).Nodup

lemma Sound.of_perm {top : PriorityJob} {heap : Array PriorityJob} (h : Sound s)
    (hheap : IsHeap heap) (hperm : s.jobs.Perm (top :: heap.toList)) : Sound { s with heap } where
  heap := hheap
  le job hjob := h.le job (hperm.mem_iff.mpr (mem_cons_of_mem _ hjob))
  nodup := ((hperm.map _).nodup_iff.mp h.nodup).of_cons

/-- The first job of the heap is a least one, and it is popped if it is due. -/
lemma Sound.pop_cases (h : Sound s) (time : Time) (now : Option Time) :
    s.jobs = [] ∧ s.popDueJobSync time now = (none, s) ∨
      ∃ top heap, s.jobs.Perm (top :: heap.toList) ∧ (∀ job ∈ s.jobs, top ≤ job) ∧ IsHeap heap ∧
        s.popDueJobSync time now = if top.scheduledAt ≤ now.getD time then
          (some top, { s with heap }) else (none, s) := by
  rcases Nat.eq_zero_or_pos s.heap.size with hsize | hpos
  · have hheap : s.heap = #[] := Array.size_eq_zero_iff.mp hsize
    exact .inl ⟨by simp [jobs, hheap], by simp [popDueJobSync, hheap]⟩
  · obtain ⟨heap, hpop, hheap, hperm⟩ := heappop_eq h.heap hpos
    refine .inr ⟨s.heap[0], heap, hperm, fun job hjob => ?_, hheap, ?_⟩
    · obtain ⟨i, hi, rfl⟩ := mem_iff_getElem.mp hjob
      exact h.heap.head_le i (by simpa [jobs] using hi)
    · simp only [popDueJobSync, Array.getElem?_eq_getElem hpos, hpop]

lemma Sound.exec (h : Sound s) (op : SchedulerOp × Time) : Sound (s.exec op) := by
  obtain ⟨op, time⟩ := op
  cases op with
  | schedule taskType payload priority delay jobId =>
    have hperm := heappush_perm s.heap
    refine ⟨isHeap_heappush h.heap _, fun job hjob => ?_, ?_⟩
    · rcases mem_cons.mp ((hperm _).mem_iff.mp hjob) with rfl | hjob
      · exact le_rfl
      · exact (h.le job hjob).trans (Nat.le_succ _)
    · refine ((hperm _).map _).nodup_iff.mpr (h.nodup.cons fun hmem => ?_)
      obtain ⟨job, hjob, heq⟩ := mem_map.mp hmem
      have := h.le job hjob
      simp only at heq
      omega
  | popDueJob now =>
    show Sound (s.popDueJobSync time now).2
    rcases h.pop_cases time now with ⟨-, hpop⟩ | ⟨top, heap, hperm, -, hheap, hpop⟩
    · rwa [hpop]
    · rw [hpop]
      split
      · exact h.of_perm hheap hperm
      · exact h
  | clear => exact ⟨nofun, nofun, nodup_nil⟩

lemma sound_run (ops : List (SchedulerOp × Time)) : Sound (run ops) :=
  foldlRecOn ops PriorityJobScheduler.exec ⟨nofun, nofun, nodup_nil⟩ fun _ h op _ => h.exec op

/-- Jobs that are level in the order are one job: their sequence numbers differ otherwise. -/
lemma Sound.eq_of_le {a b : PriorityJob} (h : Sound s) (ha : a ∈ s.jobs) (hb : b ∈ s.jobs)
    (hab : a ≤ b) (hba : b ≤ a) : a = b := by
  have hkey : a.key = b.key := le_antisymm hab hba
  have hseq : a.sequence = b.sequence := by
    simp only [PriorityJob.key, EmbeddingLike.apply_eq_iff_eq, Prod.mk.injEq] at hkey
    exact hkey.2.2
  exact inj_on_of_nodup_map h.nodup ha hb hseq

/-! ## Jobs that are due -/

/-- The job is the least of the queued jobs that are due. -/
def LeastDue (s : PriorityJobScheduler) (now : Time) (job : PriorityJob) : Prop :=
  job ∈ s.jobs ∧ job.scheduledAt ≤ now ∧ ∀ other ∈ s.jobs, other.scheduledAt ≤ now → job ≤ other

/-- `pop_due_job_sync` serves the jobs that are due: it removes and returns the least of them, and
returns `None` only if there is none. -/
structure ServesDue (s : PriorityJobScheduler) (time : Time) (now : Option Time) : Prop where
  pops : (∃ job ∈ s.jobs, job.scheduledAt ≤ now.getD time) → ∃ job,
    s.LeastDue (now.getD time) job ∧ (s.popDueJobSync time now).1 = some job ∧
      s.jobs.Perm (job :: (s.popDueJobSync time now).2.jobs)
  none : (s.popDueJobSync time now).1 = none → ∀ job ∈ s.jobs, ¬ job.scheduledAt ≤ now.getD time

/-- The least of all queued jobs is due, or none of them is. -/
def Unblocked (s : PriorityJobScheduler) (now : Time) : Prop :=
  (∃ job ∈ s.jobs, (∀ other ∈ s.jobs, job ≤ other) ∧ job.scheduledAt ≤ now) ∨
    ∀ job ∈ s.jobs, ¬ job.scheduledAt ≤ now

lemma Sound.servesDue_iff (h : Sound s) (time : Time) (now : Option Time) :
    ServesDue s time now ↔ Unblocked s (now.getD time) := by
  rcases h.pop_cases time now with ⟨hnil, hpop⟩ | ⟨top, heap, hperm, hle, -, hpop⟩
  · exact iff_of_true ⟨by simp [hnil], by simp [hnil]⟩ (.inr (by simp [hnil]))
  have hmem : top ∈ s.jobs := hperm.mem_iff.mpr mem_cons_self
  by_cases hdue : top.scheduledAt ≤ now.getD time
  · refine iff_of_true ⟨fun _ => ⟨top, ⟨hmem, hdue, fun job hjob _ => hle job hjob⟩, ?_⟩, ?_⟩
      (.inl ⟨top, hmem, hle, hdue⟩)
    · rw [hpop, if_pos hdue]
      exact ⟨rfl, hperm⟩
    · rw [hpop, if_pos hdue]
      exact nofun
  · -- the least job is not due, so nothing is popped
    have hnone : (s.popDueJobSync time now).1 = .none := by rw [hpop, if_neg hdue]
    refine ⟨fun hs => .inr (hs.none hnone), ?_⟩
    rintro (⟨job, hjob, hleast, hjobDue⟩ | hnot)
    · exact absurd (h.eq_of_le hjob hmem (hleast top hmem) (hle job hjob) ▸ hjobDue) hdue
    · exact ⟨fun ⟨job, hjob, hd⟩ => absurd hd (hnot job hjob), fun _ => hnot⟩

lemma Sound.rounds_eq {queue : List PriorityJob} {n : Nat} (clock : Nat → Time)
    (service : JobService) (h : Sound service.scheduler)
    (hperm : queue.Perm service.scheduler.jobs) (hsorted : queue.Pairwise (· ≤ ·)) :
    (service.rounds clock n).1 = (dueInTurn clock n queue).map PriorityJob.result := by
  induction n generalizing clock service queue with
  | zero => rfl
  | succ n ih =>
    rcases h.pop_cases (clock 0) none with ⟨hnil, hpop⟩ | ⟨top, heap, htop, hle, hheap, hpop⟩
    · rw [hnil] at hperm
      cases hperm.eq_nil
      simp [JobService.rounds, hpop, dueInTurn]
    · cases queue with
      | nil => cases (hperm.trans htop).length_eq
      | cons job queue =>
        -- the first of an ordered queue is the least job
        obtain rfl : job = top := by
          have hjob := hperm.mem_iff.mp mem_cons_self
          have hmem := htop.mem_iff.mpr mem_cons_self
          refine h.eq_of_le hjob hmem ?_ (hle job hjob)
          rcases mem_cons.mp (hperm.mem_iff.mpr hmem) with rfl | hin
          · exact le_rfl
          · exact (pairwise_cons.mp hsorted).1 _ hin
        by_cases hdue : job.scheduledAt ≤ clock 0
        · have := ih (fun i => clock (i + 1)) ⟨_, service.processedHistory ++ [job.result]⟩
            (h.of_perm hheap htop) (hperm.trans htop).cons_inv (pairwise_cons.mp hsorted).2
          simp [JobService.rounds, hpop, dueInTurn, hdue, this]
        · simp [JobService.rounds, hpop, dueInTurn, hdue]

section OneReading

variable (time : Time)

/-- The jobs that are due at `time`. -/
def dueAt (queue : List PriorityJob) : List PriorityJob := queue.filter (·.scheduledAt ≤ time)

lemma dueInTurn_sublist (n : Nat) (queue : List PriorityJob) :
    (dueInTurn (fun _ => time) n queue).Sublist (dueAt time queue) := by
  induction queue generalizing n with
  | nil => cases n <;> exact .slnil
  | cons job queue ih =>
    cases n with
    | zero => exact nil_sublist _
    | succ n =>
      by_cases hdue : job.scheduledAt ≤ time
      · simpa [dueInTurn, dueAt, hdue] using ih n
      · simp [dueInTurn, hdue]

lemma dueInTurn_eq_iff {n : Nat} (queue : List PriorityJob) (hn : (dueAt time queue).length ≤ n) :
    dueInTurn (fun _ => time) n queue = dueAt time queue ↔
      queue.Pairwise fun a b => b.scheduledAt ≤ time → a.scheduledAt ≤ time := by
  induction queue generalizing n with
  | nil => cases n <;> simp [dueInTurn, dueAt]
  | cons job queue ih =>
    by_cases hdue : job.scheduledAt ≤ time
    · simp only [dueAt, filter_cons, hdue, decide_true, if_true, length_cons] at hn ⊢
      obtain ⟨n, rfl⟩ : ∃ m, n = m + 1 := ⟨n - 1, by omega⟩
      simpa [dueInTurn, hdue, dueAt] using ih (by simpa [dueAt] using hn)
    · have hnil : dueInTurn (fun _ => time) n (job :: queue) = [] := by
        cases n <;> simp [dueInTurn, hdue]
      rw [hnil, dueAt, filter_cons_of_neg (by simpa using hdue), pairwise_cons, eq_comm,
        filter_eq_nil_iff]
      simp only [decide_eq_true_eq]
      refine ⟨fun h => ⟨fun b hb hb' => absurd hb' (h b hb), ?_⟩, fun h b hb hb' =>
        hdue (h.1 b hb hb')⟩
      exact List.pairwise_of_forall_mem_list fun a ha b hb hb' => absurd hb' (h b hb)

end OneReading

/-- **After any history of calls**, a call pops the least of the jobs that are due exactly if the
least of all jobs is due or none is; and at one reading of the clock, `process_due_jobs` executes
all jobs that are due, in their order, exactly if none of them comes after a job that is not. -/
theorem due_job_service_iff (ops : List (SchedulerOp × Time)) (time : Time) (now : Option Time) :
    (ServesDue (run ops) time now ↔ Unblocked (run ops) (now.getD time)) ∧
    ∀ queue : List PriorityJob, queue.Perm (run ops).jobs → queue.Pairwise (· ≤ ·) →
      ∀ history, ∀ maxJobs : Int, (dueAt time queue).length ≤ maxJobs →
        ((JobService.processDueJobs ⟨run ops, history⟩ (fun _ => time) maxJobs).1 =
            (dueAt time queue).map PriorityJob.result ↔
          queue.Pairwise fun a b => b.scheduledAt ≤ time → a.scheduledAt ≤ time) := by
  have h := sound_run ops
  refine ⟨h.servesDue_iff time now, fun queue hperm hsorted history maxJobs hmax => ?_⟩
  rw [← dueInTurn_eq_iff time queue (n := maxJobs.toNat) (by omega), JobService.processDueJobs,
    Sound.rounds_eq _ ⟨run ops, history⟩ h hperm hsorted]
  refine ⟨fun heq => ?_, fun heq => by rw [heq]⟩
  have hlen := congrArg length heq
  rw [length_map, length_map] at hlen
  exact (dueInTurn_sublist time _ queue).eq_of_length hlen

/-! ## No job is lost -/

/-- A call, with the jobs that were popped since the last `clear`. -/
def execPopped (x : PriorityJobScheduler × List PriorityJob) (op : SchedulerOp × Time) :
    PriorityJobScheduler × List PriorityJob :=
  (x.1.exec op, match op.1 with
    | .schedule .. => x.2
    | .popDueJob now => (x.1.popDueJobSync op.2 now).1.toList ++ x.2
    | .clear => [])

/-- Every number that was given out is that of one job, queued or popped. -/
def Conserved (x : PriorityJobScheduler × List PriorityJob) : Prop :=
  ((x.1.jobs ++ x.2).map (·.sequence)).Perm (range' 1 x.1.sequenceCounter)

lemma Sound.conserved (hs : Sound x.1) (h : Conserved x) (op : SchedulerOp × Time) :
    Conserved (execPopped x op) := by
  obtain ⟨op, time⟩ := op
  unfold Conserved execPopped PriorityJobScheduler.exec
  cases op with
  | schedule =>
    refine (((heappush_perm _ _).append_right x.2).map _).trans ((h.cons _).trans ?_)
    simp only [scheduleSync, range'_1_concat, Nat.add_comm 1]
    exact (perm_append_singleton _ _).symm
  | popDueJob now =>
    rcases hs.pop_cases time now with ⟨-, hpop⟩ | ⟨top, heap, hperm, -, -, hpop⟩
    · simp only [hpop]
      exact h
    · simp only [hpop]
      split
      · exact ((perm_middle.trans (hperm.symm.append_right x.2)).map _).trans h
      · exact h
  | clear => exact .nil

/-- **No job is lost, and none is popped twice**, over any history of calls. -/
theorem jobs_conserved (ops : List (SchedulerOp × Time)) :
    (ops.foldl execPopped ({}, [])).1 = run ops ∧ Conserved (ops.foldl execPopped ({}, [])) := by
  refine ⟨(foldl_hom Prod.fst fun _ _ => rfl).symm, ?_⟩
  refine (foldlRecOn (motive := fun x => Sound x.1 ∧ Conserved x) ops execPopped ?_ ?_).2
  · exact ⟨sound_run [], .nil⟩
  · exact fun x hx op _ => ⟨hx.1.exec op, hx.1.conserved hx.2 op⟩

end PriorityJobScheduler

/-- An urgent job that is not due keeps an ordinary job waiting that is. -/
theorem urgent_job_blocks :
    let s := PriorityJobScheduler.run
      [(.schedule "report" "" .critical 10 none, 0), (.schedule "mail" "" .normal 0 none, 0)]
    (∃ job ∈ s.jobs, job.scheduledAt ≤ 5) ∧ (s.popDueJobSync 0 (some 5)).1 = none ∧
      (JobService.processDueJobs ⟨s, []⟩ (fun _ => 5) 10).1 = [] := by
  decide +kernel

end CleanArch
