import CleanArch.Async.Commit
import CleanArch.Ledger.Footprint
import CleanArch.Ledger.Movement

/-!
# A transfer that raises

A call of `transfer_funds` in which any request may raise, and a request that raises has no effect.
What is committed stays committed if a request after the commit raises (`LedgerCmd.afterCommit`).
-/

namespace CleanArch

open Async LedgerCmd Phases Prog

/-! ## After the commit -/

def LedgerCmd.afterCommit : LedgerCmd → Bool
  | .db (.getAccountBalanceAggregates _) => true
  | .db .closeSession => true
  | .redis (.set ..) => true
  | _ => false

lemma LedgerCmd.answered_iff {c : LedgerCmd} (hc : c.afterCommit = true) (o : Answer)
    (l : Session) (s : World) : (∃ a, (c.exec o l s).1 = .ok a) ↔ o.fault = none := by
  have hfault : ∀ {α σ : Type} (e : LedgerError) (before : σ) (a : α) (st : σ),
      (∃ b, (withFault o e before (.ok a, st)).1 = .ok b) ↔ o.fault = none := by
    intro α σ e before a st
    unfold withFault
    split
    all_goals simp_all
  cases c with
  | db c =>
    cases c with
    | getAccountBalanceAggregates | closeSession => exact hfault _ _ _ _
    | _ => cases hc
  | redis c =>
    cases c with
    | set => exact hfault _ _ _ _
    | _ => cases hc
  | _ => cases hc

/-! ## The phases of a transfer -/

def ProcAnswers : (c : LedgerCmd) → Except LedgerError c.Res → Prop
  | .proc _, r => ∃ a, r = .ok a
  | _, _ => True

/-- The transfer ends as its phase says. -/
abbrev TransferSettles {α : Type} (p : LedgerProg α) (q : CommitPhase) : Prop :=
  Settles LedgerCmd.afterCommit LedgerCmd.isCommit ProcAnswers p q

/-- A part that returns, and leaves the transfer in its phase. -/
abbrev TransferPasses {α : Type} (p : LedgerProg α) (q : CommitPhase) : Prop :=
  (commitment LedgerCmd.afterCommit LedgerCmd.isCommit ProcAnswers).Follows p
    (fun r q' => (∃ a, r = .ok a) ∧ q' = q) q

/-- No request that the phases are about. -/
def Apart (c : LedgerCmd) : Prop := c.isCommit = false ∧ c.afterCommit = false

lemma Aside.apart (h : Aside token c) : Apart c := by
  unfold Aside at h
  split at h
  all_goals first | exact h.elim | exact ⟨rfl, rfl⟩

lemma OfRecord.apart (h : OfRecord reference c) : Apart c := by
  unfold OfRecord at h
  split at h
  all_goals first | exact h.elim | exact ⟨rfl, rfl⟩

lemma OfAccounts.apart (h : OfAccounts c) : Apart c := by
  unfold OfAccounts at h
  split at h
  all_goals first | exact h.elim | exact ⟨rfl, rfl⟩

section Parts

variable (a : TransferArgs) {α β : Type}

lemma TransferPasses.bind {p : LedgerProg β} {k : β → LedgerProg α} (hp : TransferPasses p q)
    (hk : ∀ b, TransferSettles (k b) q) : TransferSettles (p.bind k) q := by
  refine follows_bind (Phases.Follows.mono hp ?_)
  rintro _ _ ⟨⟨b, rfl⟩, rfl⟩
  exact hk b

lemma apart_of_aside {t : Token} {p : LedgerProg β} (hp : p.Only (Aside t)) : p.Only Apart :=
  hp.mono fun _ h => h.apart

lemma settles_postTransfer [PyStr] :
    TransferSettles (postTransfer a flagged source dest quote legs) .before := by
  refine settles_apart (within_ofExcept fun _ _ => trivial) fun postings => ?_
  refine settles_apart (within_ofExcept fun _ _ => trivial) fun _ => ?_
  refine settles_apart (within_call ⟨rfl, rfl⟩) fun entry => ?_
  refine settles_apart (within_call ⟨rfl, rfl⟩) fun eventId => ?_
  refine settles_apart (within_call ⟨rfl, rfl⟩) fun _ => ?_
  refine settles_commit rfl fun _ => ?_
  exact settles_need rfl rfl fun _ => settles_need rfl rfl fun _ => ⟨_, rfl⟩

lemma settles_executeTransferInUow [PyStr] (flagged : Bool) :
    TransferSettles (executeTransferInUow a flagged) .before := by
  have haccounts : ∀ {β : Type} {p : LedgerProg β}, p.Only OfAccounts → p.Only Apart :=
    fun h => h.mono fun _ hc => hc.apart
  refine settles_apart (within_call ⟨rfl, rfl⟩) fun existing => ?_
  refine settles_apart (within_raiseIf trivial) fun _ => ?_
  refine settles_apart (haccounts (loadAccount_only _)) fun source => ?_
  refine settles_apart (haccounts (loadAccount_only _)) fun dest => ?_
  refine settles_apart (haccounts (loadFeeAccount_only a)) fun _ => ?_
  refine settles_apart (within_ofExcept fun _ _ => trivial) fun quote => ?_
  refine settles_need rfl rfl fun aggregates => ?_
  refine settles_apart (within_raiseIf trivial) fun _ => ?_
  refine settles_apart (haccounts (transferLegs_only a)) fun legs => ?_
  exact settles_postTransfer a

lemma settles_asyncWithUow {body : LedgerProg α} (hbody : TransferSettles body .before) :
    TransferSettles (asyncWithUow body) .before := by
  have hclose : (db .closeSession).Only (·.isCommit = false) := within_call rfl
  refine settles_apart (within_call ⟨rfl, rfl⟩) fun _ => ?_
  refine (hbody.handle fun e q hq => ?_).bind fun r q hq => settles_need rfl rfl fun _ => hq
  refine settles_failing (within_handle (within_call rfl) fun e' _ => ?_) hq fun _ q hq => ?_
  · exact within_bind hclose fun _ => trivial
  · exact settles_failing hclose hq fun _ _ hq => CommitPhase.ends_error hq e

lemma passes_releaseAll : TransferPasses (releaseAll token ks) q := by
  induction ks with
  | nil => exact ⟨⟨(), rfl⟩, rfl⟩
  | cons k ks ih =>
    refine follows_bind (follows_handle (follows_call nofun fun r _ => ?_))
    cases r with
    | ok | error => exact ih

variable (deps : TransferDeps)

lemma settles_withAccountLocks (token : Token) (tries : Nat) (a : TransferArgs)
    {body : LedgerProg α} (hbody : TransferSettles body .before) :
    TransferSettles (withAccountLocks deps token tries a body) .before := by
  unfold withAccountLocks
  split
  · refine settles_apart (apart_of_aside (acquireAll_within (fun _ => trivial)))
      fun acquired => ?_
    refine (hbody.handle fun e q hq => ?_).bind fun r q hq =>
      (passes_releaseAll).bind fun _ => hq
    exact settles_failing ((apart_of_aside (releaseAll_within)).mono fun _ h => h.1) hq
      fun _ _ hq => CommitPhase.ends_error hq e
  · exact hbody

lemma passes_recordSuccessfulTransfer :
    TransferPasses (recordSuccessfulTransfer useRedis a.sourceAccountId a.amount) q := by
  have hproc : ∀ {γ : Type} {c : ProcCmd} {k : c.Res → LedgerProg γ},
      (∀ b, TransferPasses (k b) q) → TransferPasses ((proc c).bind k) q := by
    intro _ _ _ hk
    refine follows_call_bind nofun (fun b _ => hk b) ?_
    rintro _ ⟨_, h⟩
    cases h
  refine hproc fun now => hproc fun nonce => ?_
  have hmem : TransferPasses ((proc (.memVelocity a.sourceAccountId)).bind fun entries =>
      proc (.setMemVelocity a.sourceAccountId (entries ++ [(now, a.amount)]))) q := by
    refine hproc fun _ => follows_call nofun ?_
    rintro _ ⟨b, rfl⟩
    exact ⟨⟨b, rfl⟩, rfl⟩
  split
  · refine follows_handle (follows_call nofun fun r _ => ?_)
    cases r with
    | ok => exact ⟨⟨_, rfl⟩, rfl⟩
    | error => exact hmem
  · exact hmem

lemma settles_screenedTransfer [PyStr] (token : Token) (tries : Nat) (a : TransferArgs) :
    TransferSettles (screenedTransfer deps token tries a) .before := by
  refine settles_apart (apart_of_aside (t := token) (evaluateTransfer_within _))
    fun assessment => ?_
  refine settles_apart (within_raiseIf trivial) fun _ => ?_
  refine (settles_withAccountLocks deps token tries a
    (settles_asyncWithUow (settles_executeTransferInUow a _))).bind fun response q hq => ?_
  refine (passes_recordSuccessfulTransfer a).bind fun _ => ?_
  unfold recordCompleted
  split
  · exact settles_need rfl rfl fun _ => hq
  · exact hq

lemma settles_transferFunds [PyStr] (token : Token) (tries : Nat) (a : TransferArgs) :
    TransferSettles (transferFunds deps token tries a) .before := by
  have hrecord : ∀ {β : Type} {p : LedgerProg β}, p.Only (OfRecord a.referenceId) →
      p.Only Apart := fun h => h.mono fun _ hc => hc.apart
  refine settles_apart (within_ofExcept fun _ _ => trivial) fun _ => ?_
  split
  · refine settles_apart (hrecord (claimReference_only)) fun stored => ?_
    cases stored with
    | some response => trivial
    | none =>
      refine (settles_screenedTransfer deps token tries a).handle fun e q hq => ?_
      exact settles_failing ((hrecord (releaseReference_only)).mono fun _ h => h.1) hq
        fun _ _ hq => CommitPhase.ends_error hq e
  · exact settles_screenedTransfer deps token tries a

end Parts

/-! ## The rows -/

/-- There are more journal entries or outbox events than in `d0`. -/
def Ledger.Added (d0 d : Ledger) : Prop :=
  d0.entries.length < d.entries.length ∨ d0.outbox.length < d.outbox.length

instance (d0 d : Ledger) : Decidable (d0.Added d) := inferInstanceAs (Decidable (_ ∨ _))

lemma Ledger.added_append {d0 d : Ledger} (h : d0.Added d) : d0.Added (d ++ rows) := by
  rcases h with h | h
  · exact Or.inl (by simp; omega)
  · exact Or.inr (by simp; omega)

lemma Ledger.not_added_append {d0 rows : Ledger} : ¬ d0.Added (d0 ++ rows) ↔
      (d0 ++ rows).entries = d0.entries ∧ (d0 ++ rows).outbox = d0.outbox := by
  simp [Ledger.Added]

lemma LedgerCmd.exec_added {d0 : Ledger} {c : LedgerCmd}
    (hc : c = .db .commit → o.fault ≠ some .lostReply ∧ ∃ e, (c.exec o l s).1 = .error e)
    (h : d0.Added (c.exec o l s).2.2.db) : d0.Added s.db := by
  by_cases hcommit : c = .db .commit
  · obtain ⟨ho, e, he⟩ := hc hcommit
    subst hcommit
    revert h he
    simp only [exec, DbCmd.exec, withFault]
    split
    · split
      · exact fun h _ => h
      · rintro - he
        cases he
    · exact fun h _ => h
    · exact absurd ‹_› ho
  · rwa [exec_db_eq hcommit] at h

lemma LedgerCmd.exec_stays {d0 : Ledger} (c : LedgerCmd) (o : Answer) (l : Session)
    (h : d0.Added s.db) : d0.Added (c.exec o l s).2.2.db := by
  by_cases hcommit : c = .db .commit
  · subst hcommit
    rcases exec_commit with he | ⟨-, he⟩
    · rwa [he]
    · rw [he]
      exact Ledger.added_append h
  · rwa [exec_db_eq hcommit]

/-! ## The call -/

/-- Once there are more rows than in `d0`, no request of `afterCommit` raises. -/
def AnsweredAfterCommit (d0 : Ledger) (c : LedgerCmd) (o : Answer) (_ : Session) (s : World) :
    Prop :=
  d0.Added s.db → c.afterCommit = true → o.fault = none

instance (d0 : Ledger) (c : LedgerCmd) (o : Answer) (l : Session) (s : World) :
    Decidable (AnsweredAfterCommit d0 c o l s) :=
  inferInstanceAs (Decidable (_ → _ → _))

/-- **A transfer that raises has no effect**, exactly when the requests after its commit are
answered. -/
theorem failed_transfer_iff [PyStr] (deps : TransferDeps) (token : Token) (tries : Nat)
    (a : TransferArgs) (t : Tid) (o : Nat → Answer) (l : Session) (s : World)
    (ho : ∀ n, (o n).fault ≠ some .lostReply) :
    (∀ e, (ledgerMachine.run t (transferFunds deps token tries a) o l s).1 = .error e →
      (ledgerMachine.run t (transferFunds deps token tries a) o l s).2.2.db.entries = s.db.entries ∧
        (ledgerMachine.run t (transferFunds deps token tries a) o l s).2.2.db.outbox =
          s.db.outbox) ↔
      ledgerMachine.Along (AnsweredAfterCommit s.db) t (transferFunds deps token tries a) o l
        s := by
  have hrows : ∃ rows, (ledgerMachine.run t (transferFunds deps token tries a) o l s).2.2.db =
      s.db ++ rows := by
    rcases transferFunds_committed deps a token tries t o l s with h | ⟨plan, h⟩
    · exact ⟨Ledger.empty, by rw [h, Ledger.append_empty]⟩
    · obtain ⟨rows, h, -⟩ := h.rows
      exact ⟨rows, h⟩
  obtain ⟨rows, hrows⟩ := hrows
  have hstart : ¬ s.db.Added s.db := by simp [Ledger.Added]
  have hproc : ∀ (c : LedgerCmd) o l (w : World), ProcAnswers c (c.exec o l w).1 := by
    intro c o l w
    cases c with
    | proc => exact ⟨_, rfl⟩
    | _ => trivial
  have hneed : ∀ c : LedgerCmd, c.afterCommit = true → c.isCommit = false := by
    intro c hc
    unfold isCommit
    split
    · cases hc
    · rfl
  have hiff := Machine.unchanged_iff (M := ledgerMachine) (t := t) (l := l) (o := o)
    (fun w : World => s.db.Added w.db) hproc (settles_transferFunds deps token tries a) hneed
    (fun c o l w hc => exec_added fun h => by rw [h] at hc; cases hc)
    (fun c o l w h => c.exec_stays o l h)
    (fun n c l w e _ he => exec_added fun _ => ⟨ho n, e, he⟩) hstart
  rw [hrows] at hiff ⊢
  rw [← Ledger.not_added_append, hiff]
  constructor
  · exact Machine.Along.mono fun c o l w h hadded hc =>
      (answered_iff hc o l w).mp (h hadded hc)
  · exact Machine.Along.mono fun c o l w h hadded hc =>
      (answered_iff hc o l w).mpr (h hadded hc)

/-! ### Faults before and after the commit -/

/-- Request `k` raises, the others are answered. -/
def refusedAt (k n : Nat) : Answer :=
  { freshIds n with fault := if n = k then some .refused else none }

lemma refusedAt_fault (k n : Nat) : (refusedAt k n).fault ≠ some .lostReply := by
  unfold refusedAt
  split
  all_goals exact nofun

/-- A transfer whose request `k` raises. -/
def refusedRun (k : Nat) : Except LedgerError FundTransferResponse × Session × World :=
  ledgerMachine.run 0 (@transferFunds asciiStr {} 0 1 (cashTransfer 2)) (refusedAt k) {} cashWorld

/-- The commit raises: the call raises, and has no effect. -/
theorem failed_transfer_iff_commit : (refusedRun 17).1 = .error .databaseError ∧
      (refusedRun 17).2.2.db.entries = [openingEntry] := by
  have hraises : (refusedRun 17).1 = .error .databaseError := by decide +kernel
  exact ⟨hraises, ((@failed_transfer_iff asciiStr {} 0 1 (cashTransfer 2) 0 (refusedAt 17) {}
    cashWorld (refusedAt_fault 17)).mpr (by decide +kernel) _ hraises).1⟩

/-- The read of the first new balance raises, or the completion record does: the call raises, and
its entry and its event are committed. -/
theorem failed_transfer_committed : ((refusedRun 18).1 = .error .databaseError ∧
        (refusedRun 18).2.2.db.entries.map (·.referenceId) = ["opening", "t-1"] ∧
        (refusedRun 18).2.2.db.outbox.map (·.payload.referenceId) = ["t-1"]) ∧
      (refusedRun 26).1 = .error .redisError ∧
        (refusedRun 26).2.2.db.entries.map (·.referenceId) = ["opening", "t-1"] ∧
        (refusedRun 26).2.2.db.outbox.map (·.payload.referenceId) = ["t-1"] := by
  decide +kernel

end CleanArch
