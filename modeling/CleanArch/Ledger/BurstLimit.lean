import CleanArch.Ledger.BurstPhases
import CleanArch.Ledger.DoubleSpend
import Mathlib.Data.List.Perm.Subperm

/-!
# The burst limit of concurrent transfers

`transfer_funds` screens a transfer before it takes the locks of the accounts, and records it after
it has released them. `Serial` is what keeps the limit: a call reads the velocity only when every
committed transfer is recorded, and commits only if none was committed since.
-/

namespace CleanArch

open Async Function LedgerCmd List Sys

/-! ## Histories -/

structure BurstCommit where
  call : Tid
  time : Time
  isFlagged : Bool
  deriving DecidableEq

structure BurstHistory where
  clock : Time
  /-- How many transfers were committed when the call read the velocity. -/
  seen : Tid → Nat := fun _ => 0
  commits : List BurstCommit := []
  records : List (Tid × Time) := []

/-- The commits in the window that ends at `now`. -/
def recentCommits (now : Time) (commits : List BurstCommit) : List BurstCommit :=
  commits.filter fun x => now - defaultVelocityWindowSeconds < x.time

def BurstLimited (commits : List BurstCommit) : Prop :=
  ∀ before x after, commits = before ++ x :: after → x.isFlagged = false →
    (recentCommits x.time before).length < burstCountThreshold

def LedgerCmd.isScreening : LedgerCmd → Bool
  | .redis (.zrange _) => true
  | _ => false

def LedgerCmd.isRedis : LedgerCmd → Bool
  | .redis _ => true
  | _ => false

def LedgerCmd.recordedScore? : LedgerCmd → Option Time
  | .redis (.zadd _ e) => some e.score
  | _ => none

/-- Call `t` took the request `c` at the time `now`, which committed `entries`. -/
def BurstHistory.observe (h : BurstHistory) (t : Tid) (now : Time) (c : LedgerCmd)
    (entries : List JournalEntryEntity) : BurstHistory where
  clock := now
  seen := if c.isScreening then update h.seen t h.commits.length else h.seen
  commits := h.commits ++ entries.map fun e => ⟨t, now, e.isFlagged⟩
  records := h.records ++ c.recordedScore?.toList.map fun score => (t, score)

section System

variable [PyStr] (calls : Tid → TransferCall)

def committedEntries (c : (transferSys calls).Config) (e : (transferSys calls).Event) :
    List JournalEntryEntity :=
  (step c e).sh.db.entries.drop c.sh.db.entries.length

def burstStep (x : (transferSys calls).Config × BurstHistory) (e : (transferSys calls).Event) :
    (transferSys calls).Config × BurstHistory :=
  (step x.1 e,
    match e with
    | .turn t o =>
      match (x.1.thr t).2.next? with
      | some c => x.2.observe t o.now c (committedEntries calls x.1 e)
      | none => x.2
    | .world _ => x.2)

/-- The clock does not go back, Redis answers, and a set is removed only when its TTL has passed
since the last record. -/
def BurstExact (source : UUID) (x : (transferSys calls).Config × BurstHistory) :
    (transferSys calls).Event → Prop
  | .turn t o => x.2.clock ≤ o.now ∧
    ((x.1.thr t).2.next?.any (·.isRedis) = true → o.fault = none)
  | .world (.expireVelocity account) => account = source →
    ∀ p ∈ x.2.records, p.2 + 600 ≤ x.2.clock
  | .world _ => True

/-- A call reads the velocity when every committed transfer is recorded, and commits when none was
committed since. -/
def Serial (x : (transferSys calls).Config × BurstHistory) : (transferSys calls).Event → Prop
  | .turn t _ =>
    ((x.1.thr t).2.next?.any (·.isScreening) = true →
      ∀ y ∈ x.2.commits, y.call ∈ x.2.records.map (·.1)) ∧
    ((x.1.thr t).2.next?.any (·.isCommit) = true → x.2.seen t = x.2.commits.length)
  | .world _ => True

instance (source : UUID) (x : (transferSys calls).Config × BurstHistory)
    (e : (transferSys calls).Event) : Decidable (BurstExact calls source x e) :=
  match e with
  | .turn _ _ => inferInstanceAs (Decidable (_ ∧ (_ → _)))
  | .world (.expireVelocity _) => inferInstanceAs (Decidable (_ → ∀ p ∈ x.2.records, _ ≤ _))
  | .world (.expireLock _) => .isTrue trivial
  | .world (.expireIdem _) => .isTrue trivial

instance (x : (transferSys calls).Config × BurstHistory) (e : (transferSys calls).Event) :
    Decidable (Serial calls x e) :=
  match e with
  | .turn _ _ => inferInstanceAs (Decidable ((_ → ∀ y ∈ x.2.commits, _ ∈ _) ∧ (_ → _ = _)))
  | .world _ => .isTrue trivial

end System

/-! ## What the phases and the history say -/

def BurstPhase.isDone : BurstPhase → Bool
  | .committed | .timed _ | .recorded => true
  | _ => false

/-- What a phase of call `t` says about the history. -/
def BurstPhase.Says (h : BurstHistory) (t : Tid) : BurstPhase → Prop
  | .looking now => now ≤ h.clock
  | .timed now => ∀ x ∈ h.commits, x.call = t → x.time ≤ now
  | .screened few | .drafted few => few = true → h.seen t = h.commits.length →
    (recentCommits h.clock h.commits).length < burstCountThreshold
  | _ => True

/-- The invariant of a run: the set of the account, the history, and the phases of the calls. -/
structure BurstInv (es : List VelocityEntry) (h : BurstHistory) (phase : Tid → BurstPhase) :
    Prop where
  stored : ∀ w, h.clock - defaultVelocityWindowSeconds ≤ w →
    ((h.records.map (·.2)).filter (w < ·)).Sublist ((redisWindow w es).map (·.score))
  phases : ∀ t, (phase t).Says h t
  recorded : ∀ p ∈ h.records, phase p.1 = .recorded ∧ ∀ x ∈ h.commits, x.call = p.1 → x.time ≤ p.2
  committed : ∀ x ∈ h.commits, (phase x.call).isDone = true ∧ x.time ≤ h.clock
  once : (h.commits.map (·.call)).Nodup
  seen : ∀ t, h.seen t ≤ h.commits.length
  limited : BurstLimited h.commits

lemma recentCommits_le (hle : now ≤ now') :
    (recentCommits now' commits).length ≤ (recentCommits now commits).length := by
  unfold recentCommits
  rw [← countP_eq_length_filter, ← countP_eq_length_filter]
  refine countP_mono_left fun x _ hx => ?_
  simp only [decide_eq_true_eq] at hx ⊢
  linarith

namespace BurstPhase.Says

variable {h : BurstHistory} {t : Tid} {q : BurstPhase} (hq : q.Says h t)

include hq

lemma tick (hle : h.clock ≤ now) : q.Says { h with clock := now } t := by
  cases q with
  | looking => exact hq.trans hle
  | screened | drafted =>
    exact fun hfew hseen => (recentCommits_le hle).trans_lt (hq hfew hseen)
  | _ => exact hq

lemma reseen {seen : Tid → Nat} (hseen : seen t = h.seen t) : q.Says { h with seen := seen } t := by
  cases q with
  | screened | drafted => exact fun hfew hlen => hq hfew (hseen.symm.trans hlen)
  | _ => exact hq

/-- A call that has seen the new commit was not screened before it. -/
lemma commit (hseen : h.seen t ≤ h.commits.length) (hx : x.call ≠ t) :
    q.Says { h with commits := h.commits ++ [x] } t := by
  cases q with
  | timed now =>
    intro y hy hcall
    rcases mem_append.mp hy with hy | hy
    · exact hq y hy hcall
    · exact absurd (mem_singleton.mp hy ▸ hcall) hx
  | screened | drafted =>
    intro _ hlen
    change h.seen t = (h.commits ++ [x]).length at hlen
    rw [length_append, length_singleton] at hlen
    omega
  | _ => exact hq

end BurstPhase.Says

lemma update_keeps {P : BurstPhase → Prop} {phase : Tid → BurstPhase} (hq : P (phase t) → P q)
    (hu : P (phase u)) : P (update phase t q u) := by
  by_cases hut : u = t
  · subst hut
    rw [update_self]
    exact hq hu
  · rwa [update_of_ne hut]

namespace BurstInv

variable {es : List VelocityEntry} {h : BurstHistory} {phase : Tid → BurstPhase}
  (hi : BurstInv es h phase)

include hi

lemma tick (hle : h.clock ≤ now) : BurstInv es { h with clock := now } phase :=
  { hi with
    stored := fun w hw => hi.stored w ((sub_le_sub_right hle _).trans hw)
    phases := fun t => (hi.phases t).tick hle
    committed := fun x hx => ⟨(hi.committed x hx).1, (hi.committed x hx).2.trans hle⟩ }

lemma move (hq : q.Says h t) (hrecorded : phase t = .recorded → q = .recorded)
    (hdone : (phase t).isDone = true → q.isDone = true) : BurstInv es h (update phase t q) :=
  { hi with
    phases := (forall_update_iff phase fun u q => q.Says h u).mpr ⟨hq, fun u _ => hi.phases u⟩
    recorded := fun p hp =>
      ⟨update_keeps (P := (· = .recorded)) hrecorded (hi.recorded p hp).1, (hi.recorded p hp).2⟩
    committed := fun x hx =>
      ⟨update_keeps (P := (·.isDone = true)) hdone (hi.committed x hx).1, (hi.committed x hx).2⟩ }

lemma move_open (hq : q.Says h t) (hopen : (phase t).isDone = false) :
    BurstInv es h (update phase t q) := by
  refine hi.move hq (fun hphase => ?_) fun hdone => ?_
  · rw [hphase] at hopen
    cases hopen
  · rw [hdone] at hopen
    cases hopen

lemma prune {max : Time} (hmax : max ≤ h.clock - defaultVelocityWindowSeconds) :
    BurstInv (redisWindow max es) h phase := by
  refine { hi with stored := fun w hw => ?_ }
  rw [redisWindow_of_le (hmax.trans hw)]
  exact hi.stored w hw

lemma recentCommits_le_length (hall : ∀ x ∈ h.commits, x.call ∈ h.records.map (·.1)) :
    (recentCommits h.clock h.commits).length ≤ es.length := by
  have hsub : (recentCommits h.clock h.commits).map (·.call) ⊆
      (h.records.filter fun p => h.clock - defaultVelocityWindowSeconds < p.2).map (·.1) := by
    intro u hu
    obtain ⟨x, hx, rfl⟩ := mem_map.mp hu
    obtain ⟨hx, hrecent⟩ := mem_filter.mp hx
    obtain ⟨p, hp, hcall⟩ := mem_map.mp (hall x hx)
    refine mem_map.mpr ⟨p, mem_filter.mpr ⟨hp, ?_⟩, hcall⟩
    have htime := (hi.recorded p hp).2 x hx hcall.symm
    simp only [decide_eq_true_eq] at hrecent ⊢
    exact hrecent.trans_le htime
  have hnodup : ((recentCommits h.clock h.commits).map (·.call)).Nodup :=
    hi.once.sublist (filter_sublist.map _)
  have hrecords := (hnodup.subperm hsub).length_le
  have hset := (hi.stored _ le_rfl).length_le
  have hwindow : (redisWindow (h.clock - defaultVelocityWindowSeconds) es).length ≤ es.length :=
    length_filter_le _ _
  rw [length_map, length_map] at hrecords
  rw [length_map, filter_map, length_map] at hset
  exact hrecords.trans (hset.trans hwindow)

lemma screen (hopen : (phase t).isDone = false)
    (hall : ∀ x ∈ h.commits, x.call ∈ h.records.map (·.1)) :
    BurstInv es { h with seen := update h.seen t h.commits.length }
      (update phase t (.screened (es.length < burstCountThreshold))) := by
  have hseen : BurstInv es { h with seen := update h.seen t h.commits.length }
      (update phase t .unscreened) :=
    { hi.move_open (q := .unscreened) trivial hopen with
      phases := (forall_update_iff phase fun u q => q.Says _ u).mpr
        ⟨trivial, fun u hu => (hi.phases u).reseen (update_of_ne hu _ _)⟩
      seen := (forall_update_iff h.seen fun _ n => n ≤ h.commits.length).mpr
        ⟨le_rfl, fun u _ => hi.seen u⟩ }
  have hmove := hseen.move_open (t := t) (q := .screened (es.length < burstCountThreshold))
    (fun hfew _ => (hi.recentCommits_le_length hall).trans_lt (of_decide_eq_true hfew))
    (by rw [update_self]; rfl)
  rwa [update_idem] at hmove

lemma draft (ht : phase t = .screened few) : BurstInv es h (update phase t (.drafted few)) := by
  have hsays := hi.phases t
  rw [ht] at hsays
  exact hi.move_open hsays (by rw [ht]; rfl)

lemma commit (ht : phase t = .drafted few) (hseen : h.seen t = h.commits.length)
    (hflag : flagged = false → few = true) :
    BurstInv es { h with commits := h.commits ++ [⟨t, h.clock, flagged⟩] }
      (update phase t .committed) := by
  have hmove := hi.move_open (t := t) (q := .committed) trivial (by rw [ht]; rfl)
  have hnew : t ∉ h.commits.map (·.call) := by
    rintro hmem
    obtain ⟨x, hx, rfl⟩ := mem_map.mp hmem
    have hdone := (hi.committed x hx).1
    rw [ht] at hdone
    cases hdone
  refine { hmove with
    phases := (forall_update_iff phase fun u q => q.Says _ u).mpr
      ⟨trivial, fun u hu => (hi.phases u).commit (hi.seen u) hu.symm⟩
    recorded := fun p hp => ⟨(hmove.recorded p hp).1, ?_⟩
    committed := forall_mem_append.mpr ⟨hmove.committed, forall_mem_singleton.mpr ⟨?_, le_rfl⟩⟩
    once := ?_
    seen := fun u => (hi.seen u).trans (by simp)
    limited := Steps.each_snoc hi.limited fun hf => ?_ }
  · refine forall_mem_append.mpr ⟨(hi.recorded p hp).2, forall_mem_singleton.mpr fun hcall => ?_⟩
    have hphase := (hi.recorded p hp).1
    rw [← hcall, ht] at hphase
    cases hphase
  · rw [update_self]
    rfl
  · rw [map_append, map_singleton]
    exact nodup_append.mpr ⟨hi.once, nodup_singleton t, by simpa using hnew⟩
  · have hsays := hi.phases t
    rw [ht] at hsays
    exact hsays (hflag hf) hseen

lemma record (ht : phase t = .timed e.score) :
    BurstInv (es ++ [e]) { h with records := h.records ++ [(t, e.score)] }
      (update phase t .recorded) := by
  have hmove := hi.move (t := t) (q := .recorded) trivial (fun _ => rfl) fun _ => rfl
  have htimed := hi.phases t
  rw [ht] at htimed
  refine { hmove with
    stored := fun w hw => ?_
    recorded := forall_mem_append.mpr ⟨hmove.recorded, forall_mem_singleton.mpr ⟨?_, htimed⟩⟩ }
  · rw [map_append, filter_append, redisWindow_append, map_append]
    refine (hi.stored w hw).append ?_
    by_cases hlt : w < e.score <;> simp [redisWindow, hlt]
  · rw [update_self]

lemma expire (hold : ∀ p ∈ h.records, p.2 + 600 ≤ h.clock) : BurstInv [] h phase := by
  refine { hi with stored := fun w hw => ?_ }
  have hnone : (h.records.map (·.2)).filter (w < ·) = [] := by
    rw [filter_eq_nil_iff]
    intro time htime hlt
    obtain ⟨p, hp, rfl⟩ := mem_map.mp htime
    have := hold p hp
    simp only [decide_eq_true_eq, defaultVelocityWindowSeconds] at hlt hw
    linarith
  rw [hnone]
  exact nil_sublist _

end BurstInv

/-! ## Runs -/

def Drafts : BurstPhase → List JournalEntryEntity → Prop
  | .unscreened, es | .looking _, es | .screened _, es => es = []
  | .drafted few, es => es.length ≤ 1 ∧ ∀ e ∈ es, e.isFlagged = false → few = true
  | _, _ => True

lemma drafts_nil : Drafts q [] := by
  cases q with
  | drafted => exact ⟨Nat.zero_le _, fun _ he => by cases he⟩
  | _ => first | rfl | trivial

lemma DbCmd.exec_entries {c : DbCmd} (hc : c ≠ .commit)
    (hentry : ∀ r d ps f, c ≠ .createJournalEntry r d ps f) (o : Answer) (l : Session)
    (db : Ledger) : (c.exec o l db).2.1.staged.entries = l.staged.entries ∨
      (c.exec o l db).2.1.staged.entries = [] := by
  cases c with
  | commit => exact absurd rfl hc
  | createJournalEntry r d ps f => exact absurd rfl (hentry r d ps f)
  | openSession | closeSession | rollback => exact .inr rfl
  | createAccount | createOutboxEvent | createBatch =>
    left
    simp only [DbCmd.exec, insert]
    split
    · rfl
    · simp
  | _ => exact .inl rfl

lemma exec_createJournalEntry_entries (r d : String) (ps : List PostingCreateDTO) (flagged : Bool)
    (o : Answer) (l : Session) (s : World) :
    let l' := (exec o l s (.db (.createJournalEntry r d ps flagged))).2.1
    l'.staged.entries = l.staged.entries ∨
      ∃ e, e.isFlagged = flagged ∧ l'.staged.entries = l.staged.entries ++ [e] := by
  simp only [exec, DbCmd.exec, insert]
  split
  · rcases withFault_cases LedgerError.databaseError (l, s)
      ((.error .integrityError : Except LedgerError JournalEntryEntity), l, s) with he | he | he
    all_goals rw [he]; exact .inl rfl
  · generalize hrow : (JournalEntryEntity.mk _ _ _ _ _ _) = e
    have hflag : e.isFlagged = flagged := by rw [← hrow]
    rcases withFault_cases LedgerError.databaseError (l, s)
      (.ok e, l.stage { entries := [e] }, s) with he | he | he
    · rw [he]; exact .inr ⟨e, hflag, rfl⟩
    · rw [he]; exact .inl rfl
    · rw [he]; exact .inr ⟨e, hflag, rfl⟩

variable {c : LedgerCmd}

lemma redisAnswers_exec (h : ∀ r, c = .redis r → o.fault = none) :
    RedisAnswers c (c.exec o l s).1 := by
  cases c with
  | redis r =>
    refine ⟨(r.exec s).1, ?_⟩
    simp only [exec, withFault, h r rfl]
  | proc => exact ⟨_, rfl⟩
  | _ => trivial

lemma exec_redis_eq (h : o.fault = none) :
    exec o l s (.redis r) = (.ok (r.exec s).1, l, (r.exec s).2) := by
  simp only [exec, withFault, h]

lemma Neutral.velocity (h : Neutral c) (o : Answer) (l : Session) (s : World) :
    (c.exec o l s).2.2.velocity = s.velocity := by
  cases c with
  | db c =>
    have hc : c ≠ .commit := by
      rintro rfl
      exact h
    rw [exec_eq hc]
  | redis c =>
    have hc : (c.exec s).2.velocity = s.velocity := by
      cases c with
      | zremrangebyscore | zrange | zadd => exact h.elim
      | setNx | lockSetNx | lockRelease =>
        simp only [RedisCmd.exec]
        split <;> rfl
      | _ => rfl
    rcases exec_redis with he | he
    · rw [he, hc]
    · rw [he]
  | proc c => cases c <;> rfl
  | processCharge => exact h.elim

lemma Neutral.entries (h : Neutral c) (o : Answer) (l : Session) (s : World) :
    (c.exec o l s).2.1.staged.entries = l.staged.entries ∨
      (c.exec o l s).2.1.staged.entries = [] := by
  cases c with
  | db c =>
    have hexec := DbCmd.exec_entries (c := c) (by rintro rfl; exact h)
      (by rintro r d ps f rfl; exact h) o l s.db
    simp only [exec]
    rcases withFault_cases LedgerError.databaseError (l, s)
      ((c.exec o l s.db).1, (c.exec o l s.db).2.1, { s with db := (c.exec o l s.db).2.2 })
      with he | he | he
    · rw [he]; exact hexec
    · rw [he]; exact .inl rfl
    · rw [he]; exact hexec
  | redis c =>
    rcases exec_redis_cases c o l s with he | he | he
    all_goals rw [he]; exact .inl rfl
  | proc => exact .inl rfl
  | processCharge => exact h.elim

lemma Neutral.quiet (h : Neutral c) :
    c.isScreening = false ∧ c.recordedScore? = none ∧ c ≠ .db .commit := by
  refine ⟨?_, ?_, ?_⟩
  · cases c with
    | redis c =>
      cases c with
      | zrange => exact h.elim
      | _ => rfl
    | _ => rfl
  · cases c with
    | redis c =>
      cases c with
      | zadd => exact h.elim
      | _ => rfl
    | _ => rfl
  · rintro rfl
    exact h

lemma BurstHistory.observe_quiet {h : BurstHistory} (hscreening : c.isScreening = false)
    (hrecord : c.recordedScore? = none) : h.observe t now c [] = { h with clock := now } := by
  simp [BurstHistory.observe, hscreening, hrecord]

section Runs

variable [PyStr] {calls : Tid → TransferCall} {source : UUID}

structure BurstSafe (source : UUID) (x : (transferSys calls).Config × BurstHistory)
    (phase : Tid → BurstPhase) : Prop where
  follows : ∀ t, (burstPhases source).Follows (x.1.thr t).2 (fun _ _ => True) (phase t)
  drafts : ∀ t, Drafts (phase t) (x.1.thr t).1.staged.entries
  inv : BurstInv (x.1.sh.velocity source) x.2 phase

def BurstKept (source : UUID) (x : (transferSys calls).Config × BurstHistory) : Prop :=
  ∃ phase, BurstSafe source x phase

namespace BurstSafe

variable {x : (transferSys calls).Config × BurstHistory} {phase : Tid → BurstPhase}

lemma committedEntries_eq (hp : (x.1.thr t).2.next? = some c) (hc : c ≠ .db .commit) :
    committedEntries calls x.1 (.turn t o) = [] := by
  obtain ⟨k, hp⟩ := Prog.awaits_of_next hp
  unfold committedEntries
  rw [step_await hp, exec_db_eq hc, drop_length]

variable (hs : BurstSafe source x phase)

include hs

lemma allowed (hp : (x.1.thr t).2.next? = some c) : (phase t).allowed source c := by
  obtain ⟨k, hp⟩ := Prog.awaits_of_next hp
  have hfollows := hs.follows t
  rw [hp] at hfollows
  exact hfollows.1

lemma turn (hp : (x.1.thr t).2.next? = some c) (hfault : ∀ r, c = .redis r → o.fault = none)
    (hdraft : Drafts ((phase t).next c (c.exec o (x.1.thr t).1 x.1.sh).1)
      (c.exec o (x.1.thr t).1 x.1.sh).2.1.staged.entries)
    (hinv : BurstInv ((c.exec o (x.1.thr t).1 x.1.sh).2.2.velocity source)
      (x.2.observe t o.now c (committedEntries calls x.1 (.turn t o)))
      (update phase t ((phase t).next c (c.exec o (x.1.thr t).1 x.1.sh).1))) :
    BurstKept source (burstStep calls x (.turn t o)) := by
  obtain ⟨k, hp⟩ := Prog.awaits_of_next hp
  have hfollows := hs.follows t
  rw [hp] at hfollows
  have hstep : burstStep calls x (.turn t o) =
      (⟨(c.exec o (x.1.thr t).1 x.1.sh).2.2, update x.1.thr t
        ((c.exec o (x.1.thr t).1 x.1.sh).2.1, k (c.exec o (x.1.thr t).1 x.1.sh).1)⟩,
        x.2.observe t o.now c (committedEntries calls x.1 (.turn t o))) := by
    unfold burstStep
    rw [step_await hp]
    simp only [hp, Prog.next?]
  refine ⟨update phase t ((phase t).next c (c.exec o (x.1.thr t).1 x.1.sh).1), ?_⟩
  rw [hstep]
  refine ⟨fun u => ?_, fun u => ?_, hinv⟩
  · rcases eq_or_ne u t with rfl | hut
    · simpa only [update_self] using hfollows.step (redisAnswers_exec hfault)
    · simpa only [update_of_ne hut] using hs.follows u
  · rcases eq_or_ne u t with rfl | hut
    · simpa only [update_self] using hdraft
    · simpa only [update_of_ne hut] using hs.drafts u

section Turns

variable {o : Answer} (hclock : x.2.clock ≤ o.now)

include hclock

lemma neutral (hp : (x.1.thr t).2.next? = some c) (hc : Neutral c)
    (hfault : ∀ r, c = .redis r → o.fault = none) :
    BurstKept source (burstStep calls x (.turn t o)) := by
  obtain ⟨hscreening, hrecord, hcommit⟩ := hc.quiet
  refine hs.turn hp hfault ?_ ?_
  · rw [(hc.phase source (phase t)).2]
    rcases hc.entries o (x.1.thr t).1 x.1.sh with he | he
    · rw [he]
      exact hs.drafts t
    · rw [he]
      exact drafts_nil
  · rw [(hc.phase source (phase t)).2, hc.velocity, committedEntries_eq hp hcommit,
      BurstHistory.observe_quiet hscreening hrecord, update_eq_self]
    exact hs.inv.tick hclock

lemma time (hp : (x.1.thr t).2.next? = some (.proc .time)) :
    BurstKept source (burstStep calls x (.turn t o)) := by
  have hdrafts := hs.drafts t
  have htick := hs.inv.tick hclock
  refine hs.turn hp (fun _ hr => by cases hr) ?_ ?_
  · cases hq : phase t with
    | committed => trivial
    | _ => rw [hq] at hdrafts; exact hdrafts
  · rw [committedEntries_eq hp (by nofun), BurstHistory.observe_quiet rfl rfl]
    show BurstInv (x.1.sh.velocity source) { x.2 with clock := o.now }
      (update phase t ((phase t).next (.proc .time) (.ok o.now)))
    have hlook : (BurstPhase.looking o.now).Says { x.2 with clock := o.now } t := le_refl o.now
    cases hq : phase t with
    | unscreened | looking => exact htick.move_open hlook (by rw [hq]; rfl)
    | committed =>
      refine htick.move (fun y hy _ => (htick.committed y hy).2) (fun hq' => ?_) fun _ => rfl
      rw [hq] at hq'
      cases hq'
    | _ =>
      simp only [BurstPhase.next]
      rw [← hq, update_eq_self]
      exact htick

lemma prune {max : Time} (hp : (x.1.thr t).2.next? = some (.redis (.zremrangebyscore account max)))
    (hfault : o.fault = none) :
    BurstKept source (burstStep calls x (.turn t o)) := by
  obtain ⟨rfl, now, hq, rfl⟩ := hs.allowed hp
  have htick := hs.inv.tick hclock
  have hlook := htick.phases t
  rw [hq] at hlook
  refine hs.turn hp (fun _ _ => hfault) ?_ ?_
  · rw [exec_redis_eq hfault]
    exact hs.drafts t
  · rw [committedEntries_eq hp (by nofun), BurstHistory.observe_quiet rfl rfl,
      exec_redis_eq hfault]
    simp only [BurstPhase.next, update_eq_self, RedisCmd.exec, update_self]
    exact htick.prune (sub_le_sub_right hlook _)

lemma screen (hp : (x.1.thr t).2.next? = some (.redis (.zrange account)))
    (hfault : o.fault = none) (hall : ∀ y ∈ x.2.commits, y.call ∈ x.2.records.map (·.1)) :
    BurstKept source (burstStep calls x (.turn t o)) := by
  obtain ⟨rfl, now, hq⟩ := hs.allowed hp
  have hdrafts := hs.drafts t
  rw [hq] at hdrafts
  refine hs.turn hp (fun _ _ => hfault) ?_ ?_
  · rw [exec_redis_eq hfault]
    exact hdrafts
  · have hobserve : x.2.observe t o.now (.redis (.zrange account)) [] =
        { x.2 with clock := o.now, seen := update x.2.seen t x.2.commits.length } := by
      simp [BurstHistory.observe, isScreening, recordedScore?]
    rw [committedEntries_eq hp (by nofun), exec_redis_eq hfault, hobserve]
    exact (hs.inv.tick hclock).screen (by rw [hq]; rfl) hall

lemma record (hp : (x.1.thr t).2.next? = some (.redis (.zadd account e)))
    (hfault : o.fault = none) : BurstKept source (burstStep calls x (.turn t o)) := by
  obtain ⟨rfl, hq⟩ := hs.allowed hp
  refine hs.turn hp (fun _ _ => hfault) trivial ?_
  have hrecord := (hs.inv.tick hclock).record hq
  rw [committedEntries_eq hp (by nofun), exec_redis_eq hfault]
  simpa [BurstHistory.observe, isScreening, recordedScore?, RedisCmd.exec,
    BurstPhase.next] using hrecord

lemma draft (hp : (x.1.thr t).2.next? = some (.db (.createJournalEntry r d ps flagged))) :
    BurstKept source (burstStep calls x (.turn t o)) := by
  obtain ⟨few, hq, hflag⟩ := hs.allowed hp
  have hdrafts := hs.drafts t
  rw [hq] at hdrafts
  refine hs.turn hp (fun _ hr => by cases hr) ?_ ?_
  · simp only [BurstPhase.next, hq]
    rcases exec_createJournalEntry_entries r d ps flagged o (x.1.thr t).1 x.1.sh
      with he | ⟨e, hef, he⟩
    · rw [he, hdrafts]
      exact drafts_nil
    · rw [he, hdrafts]
      refine ⟨le_rfl, fun y hy hyf => hflag ?_⟩
      rw [← hef, ← mem_singleton.mp hy, hyf]
  · rw [committedEntries_eq hp (by nofun), BurstHistory.observe_quiet rfl rfl,
      exec_eq (by nofun)]
    simp only [BurstPhase.next, hq]
    exact (hs.inv.tick hclock).draft hq

lemma commit (hp : (x.1.thr t).2.next? = some (.db .commit))
    (hseen : x.2.seen t = x.2.commits.length) :
    BurstKept source (burstStep calls x (.turn t o)) := by
  obtain ⟨few, hq⟩ := hs.allowed hp
  have hdrafts := hs.drafts t
  rw [hq] at hdrafts
  have htick := hs.inv.tick hclock
  -- nothing is committed, or one entry
  have hnone : BurstInv (x.1.sh.velocity source) { x.2 with clock := o.now }
      (update phase t .committed) :=
    htick.move_open trivial (by rw [hq]; rfl)
  refine hs.turn hp (fun _ hr => by cases hr) trivial ?_
  show BurstInv _ _ (update phase t .committed)
  have hentries : committedEntries calls x.1 (.turn t o) =
      (exec o (x.1.thr t).1 x.1.sh (.db .commit)).2.2.db.entries.drop x.1.sh.db.entries.length := by
    obtain ⟨k, hp⟩ := Prog.awaits_of_next hp
    unfold committedEntries
    rw [step_await hp]
  rw [hentries]
  rcases exec_commit with he | ⟨-, he⟩
  · rw [he, drop_length, BurstHistory.observe_quiet rfl rfl]
    exact hnone
  · rw [he]
    simp only [Ledger.entries_append, drop_left]
    obtain ⟨hlen, hflag⟩ := hdrafts
    match hes : (x.1.thr t).1.staged.entries, hlen with
    | [], _ =>
      rw [BurstHistory.observe_quiet rfl rfl]
      exact hnone
    | [e], _ =>
      rw [hes] at hflag
      have hcommit := htick.commit hq hseen (hflag e (mem_singleton_self e))
      simpa [BurstHistory.observe, isScreening, recordedScore?] using hcommit

end Turns

lemma step {e : (transferSys calls).Event} (hexact : BurstExact calls source x e)
    (hserial : Serial calls x e) :
    BurstKept source (burstStep calls x e) := by
  cases e with
  | world e =>
    refine ⟨phase, hs.follows, hs.drafts, ?_⟩
    cases e with
    | expireVelocity account =>
      show BurstInv (update x.1.sh.velocity account [] source) x.2 phase
      by_cases ha : account = source
      · rw [ha, update_self]
        exact hs.inv.expire (hexact ha)
      · rw [update_of_ne (Ne.symm ha)]
        exact hs.inv
    | _ => exact hs.inv
  | turn t o =>
    obtain ⟨hclock, hfault⟩ := hexact
    obtain ⟨hscreen, hcommit⟩ := hserial
    cases hp : (x.1.thr t).2.next? with
    | none =>
      have hsame : burstStep calls x (.turn t o) = x := by
        unfold burstStep
        simp only [step_ended hp, hp]
      rw [hsame]
      exact ⟨phase, hs⟩
    | some c =>
      rw [hp] at hscreen hcommit hfault
      have hredis : ∀ r, c = .redis r → o.fault = none := by
        rintro r rfl
        exact hfault rfl
      by_cases hneutral : Neutral c
      · exact hs.neutral hclock hp hneutral hredis
      cases c with
      | db c =>
        cases c with
        | createJournalEntry => exact hs.draft hclock hp
        | commit => exact hs.commit hclock hp (hcommit rfl)
        | _ => exact absurd trivial hneutral
      | redis c =>
        cases c with
        | zremrangebyscore => exact hs.prune hclock hp (hredis _ rfl)
        | zrange => exact hs.screen hclock hp (hredis _ rfl) (hscreen rfl)
        | zadd => exact hs.record hclock hp (hredis _ rfl)
        | _ => exact absurd trivial hneutral
      | proc c =>
        cases c with
        | time => exact hs.time hclock hp
        | _ => exact absurd trivial hneutral
      | processCharge => exact (hs.allowed hp).elim

omit hs in
lemma start (hsource : ∀ t, (calls t).args.sourceAccountId = source)
    (hdeps : ∀ t, (calls t).deps.fraudRedis = true) (s : World) (clock : Time) :
    BurstSafe source ((start s : (transferSys calls).Config), { clock := clock })
      fun _ => .unscreened where
  follows t := transferFunds_follows (calls t).deps (hdeps t) (hsource t)
  drafts t := rfl
  inv := by
    refine ⟨fun w _ => nil_sublist _, fun _ => trivial, nofun, nofun, nodup_nil,
      fun _ => le_rfl, ?_⟩
    intro before y after h
    cases before <;> cases h

end BurstSafe

/-- In every run with an exact clock and a working Redis in which each call reads the velocity when
every committed transfer is recorded, and commits when none was committed since, no entry without a
flag is committed after three others of the last 300 seconds. -/
theorem burst_limited (hsource : ∀ t, (calls t).args.sourceAccountId = source)
    (hdeps : ∀ t, (calls t).deps.fraudRedis = true) (s : World) (clock : Time)
    (es : List (transferSys calls).Event)
    (h : Steps.Along (burstStep calls) (fun x e => BurstExact calls source x e ∧ Serial calls x e)
      (start s, { clock := clock }) es) :
    Steps.Always (burstStep calls) (fun x => BurstLimited x.2.commits)
      (start s, { clock := clock }) es := by
  have halways := Steps.Along.invariant (P := BurstKept source)
    (fun x e ⟨phase, hs⟩ ⟨hexact, hserial⟩ => hs.step hexact hserial)
    ⟨_, BurstSafe.start hsource hdeps s clock⟩ h
  intro before hbefore
  obtain ⟨phase, hs⟩ := halways before hbefore
  exact hs.inv.limited

end Runs

/-! ## Four transfers -/

def burstCalls (t : Tid) : TransferCall :=
  { args := { sourceAccountId := 1, destinationAccountId := 2, amount := 10,
              referenceId := "t-" ++ Nat.repr t, description := "Transfer" } }

/-- `n` turns of call `t`, with ids from `i` on. -/
def burstTurns (t : Tid) (i n : Nat) : List (@transferSys asciiStr burstCalls).Event :=
  (range' i n).map fun j => .turn t (freshIds j)

def burstStart : (@transferSys asciiStr burstCalls).Config × BurstHistory :=
  (start cashWorld, { clock := 0 })

def burstInTurn : List (@transferSys asciiStr burstCalls).Event :=
  burstTurns 0 0 28 ++ burstTurns 1 100 28 ++ burstTurns 2 200 28 ++ burstTurns 3 300 28

/-- The fourth entry has a flag. -/
theorem burst_limited_in_turn :
    (burstInTurn.foldl (@burstStep asciiStr burstCalls) burstStart).2.commits =
        [⟨0, 0, false⟩, ⟨1, 0, false⟩, ⟨2, 0, false⟩, ⟨3, 0, true⟩] ∧
      Steps.Always (@burstStep asciiStr burstCalls) (fun x => BurstLimited x.2.commits) burstStart
        burstInTurn :=
  ⟨by decide +kernel,
    @burst_limited asciiStr burstCalls 1 (fun _ => rfl) (fun _ => rfl) cashWorld 0 burstInTurn
      (by decide +kernel)⟩

def burstOverlapping : List (@transferSys asciiStr burstCalls).Event :=
  burstTurns 0 0 7 ++ burstTurns 1 100 7 ++ burstTurns 2 200 7 ++ burstTurns 3 300 7 ++
    burstTurns 0 20 21 ++ burstTurns 1 120 21 ++ burstTurns 2 220 21 ++ burstTurns 3 320 21

/-- No key expires, and the fourth entry has no flag. -/
theorem burst_overlap :
    Steps.Along (@burstStep asciiStr burstCalls) (@BurstExact asciiStr burstCalls 1) burstStart
        burstOverlapping ∧
      (∀ e ∈ burstOverlapping, ∃ t o, e = .turn t o) ∧
      (burstOverlapping.foldl (@burstStep asciiStr burstCalls) burstStart).2.commits =
        [⟨0, 0, false⟩, ⟨1, 0, false⟩, ⟨2, 0, false⟩, ⟨3, 0, false⟩] ∧
      ¬ BurstLimited
        (burstOverlapping.foldl (@burstStep asciiStr burstCalls) burstStart).2.commits := by
  have hcommits : (burstOverlapping.foldl (@burstStep asciiStr burstCalls) burstStart).2.commits =
      [⟨0, 0, false⟩, ⟨1, 0, false⟩, ⟨2, 0, false⟩, ⟨3, 0, false⟩] := by decide +kernel
  refine ⟨by decide +kernel, ?_, hcommits, fun h => ?_⟩
  · intro e he
    simp only [burstOverlapping, burstTurns, mem_append, mem_map] at he
    rcases he with ((((((h | h) | h) | h) | h) | h) | h) | h <;>
      obtain ⟨j, -, rfl⟩ := h <;> exact ⟨_, _, rfl⟩
  · rw [hcommits] at h
    exact absurd (h [⟨0, 0, false⟩, ⟨1, 0, false⟩, ⟨2, 0, false⟩] ⟨3, 0, false⟩ [] rfl rfl)
      (by decide +kernel)

end CleanArch
