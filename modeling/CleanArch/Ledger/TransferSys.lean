import CleanArch.Ledger.TransferSpec

/-!
# Concurrent transfers

The system of concurrent `transfer_funds` calls: call `t` has the lock token `t`, which is its own
(`uuid4().hex`), and any arguments. Keys reach their TTL at any time (`LedgerEnv`).
-/

namespace CleanArch

open Async Function LedgerCmd Protocol

structure TransferCall where
  deps : TransferDeps := {}
  tries : Nat := 0
  args : TransferArgs

@[reducible] def transferSys [PyStr] (calls : Tid → TransferCall) : Sys where
  toMachine := ledgerMachine
  Env := LedgerEnv
  env e s := e.exec s
  A := FundTransferResponse
  prog t := transferFunds (calls t).deps t (calls t).tries (calls t).args
  loc _ := {}

def LedgerCmd.isCommit : LedgerCmd → Bool
  | .db .commit => true
  | _ => false

/-! ## What a request changes in Redis -/

lemma LedgerCmd.exec_redis :
    (exec o l s (.redis c)).2.2 = (c.exec s).2 ∨ (exec o l s (.redis c)).2.2 = s := by
  rcases exec_redis_cases c o l s with h | h | h
  · rw [h]; exact .inl rfl
  · rw [h]; exact .inr rfl
  · rw [h]; exact .inl rfl

lemma LedgerCmd.exec_db_redis :
    (exec o l s (.db c)).2.2.locks = s.locks ∧ (exec o l s (.db c)).2.2.idem = s.idem := by
  simp only [exec]
  rcases withFault_cases LedgerError.databaseError (l, s)
    ((c.exec o l s.db).1, (c.exec o l s.db).2.1, { s with db := (c.exec o l s.db).2.2 })
    with h | h | h
  all_goals rw [h]; exact ⟨rfl, rfl⟩

lemma LedgerCmd.exec_commit : (exec o l s (.db .commit)).2.2 = s ∨ s.db.Free l.staged ∧
        (exec o l s (.db .commit)).2.2 = { s with db := s.db ++ l.staged } := by
  simp only [exec, DbCmd.exec]
  by_cases hcf : s.db.conflicts l.staged = true
  · simp only [if_pos hcf]
    rcases withFault_cases LedgerError.databaseError (l, s)
      ((.error .integrityError : Except LedgerError Unit), l, s) with h | h | h
    all_goals rw [h]; exact .inl rfl
  · simp only [if_neg hcf]
    have hf := Ledger.conflicts_eq_false.mp (by simpa using hcf)
    rcases withFault_cases LedgerError.databaseError (l, s)
      ((.ok () : Except LedgerError Unit), ({} : Session), { s with db := s.db ++ l.staged })
      with h | h | h
    · rw [h]; exact .inr ⟨hf, rfl⟩
    · rw [h]; exact .inl rfl
    · rw [h]; exact .inr ⟨hf, rfl⟩

lemma TransferQuiet.locks (hq : TransferQuiet a token c) (hu : u ≠ token)
    (h : (c.exec o l s).2.2.locks k = some u) : s.locks k = some u := by
  cases c with
  | db c => rwa [(exec_db_redis).1] at h
  | proc c => cases c <;> exact h
  | processCharge => exact hq.elim
  | redis c =>
    rcases exec_redis with he | he
    · rw [he] at h
      cases c with
      | lockSetNx k' tok =>
        cases (hq : tok = token)
        simp only [RedisCmd.exec] at h
        split at h
        · exact h
        · by_cases hk : k = k'
          · subst hk
            simp only [update_self, Option.some.injEq] at h
            exact absurd h.symm hu
          · simpa only [update_of_ne hk] using h
      | lockRelease k' =>
        simp only [RedisCmd.exec] at h
        split at h
        · by_cases hk : k = k'
          · subst hk
            simp at h
          · simpa only [update_of_ne hk] using h
        · exact h
      | setNx =>
        simp only [RedisCmd.exec] at h
        split at h <;> exact h
      | _ => exact h
    · rwa [he] at h

lemma TransferQuiet.idem (hq : TransferQuiet a token c) (r : String) :
    (c.exec o l s).2.2.idem r = s.idem r ∨ storedResponse ((c.exec o l s).2.2.idem r) = none := by
  cases c with
  | db c => exact .inl (by rw [(exec_db_redis).2])
  | proc c => cases c <;> exact .inl rfl
  | processCharge => exact hq.elim
  | redis c =>
    rcases exec_redis with he | he
    · rw [he]
      cases c with
      | setNx =>
        obtain ⟨rfl, rfl⟩ := hq
        simp only [RedisCmd.exec]
        split
        · exact .inl rfl
        · by_cases hr : r = a.referenceId
          · subst hr
            exact .inr (by simp [storedResponse, IdempotencyDoc.processing])
          · exact .inl (by simp only [update_of_ne hr])
      | delete r' =>
        by_cases hr : r = r'
        · subst hr
          exact .inr (by simp [RedisCmd.exec, storedResponse])
        · exact .inl (by simp only [RedisCmd.exec, update_of_ne hr])
      | set => exact hq.elim
      | lockSetNx | lockRelease =>
        simp only [RedisCmd.exec]
        split <;> exact .inl rfl
      | _ => exact .inl rfl
    · exact .inl (by rw [he])

/-!
## A transfer alone

What one call does to the database when nothing happens between its requests, for every answer of
the world (faults, ids, times).
-/

/-- The commit of a plan over the rows `d0`. -/
structure Committed [PyStr] (a : TransferArgs) (plan : TransferPlan) (d0 d : Ledger) : Prop where
  funds : a.totalRequired ≤ normalBalance plan.source.accountType
    (d0.getAccountBalanceAggregates a.sourceAccountId)
  rows : ∃ rows, d = d0 ++ rows ∧ Ready a plan rows d0 ∧ d0.Free rows

def Replays (deps : TransferDeps) (a : TransferArgs) (s : World) : Prop :=
  deps.redis = true ∧ storedResponse (s.idem a.referenceId) ≠ none

/-- What is known at each point of a call alone from `s0`. -/
def aloneFacts [PyStr] (deps : TransferDeps) (a : TransferArgs) (s0 : World) : TransferFacts where
  start s := s = s0
  before d := d = s0.db ∧ ¬ Replays deps a s0
  funded acc s := (s.db = s0.db ∧ ¬ Replays deps a s0) ∧ a.totalRequired ≤
    normalBalance acc.accountType (s0.db.getAccountBalanceAggregates a.sourceAccountId)
  committed plan d := Committed a plan s0.db d ∧ ¬ Replays deps a s0
  replayed r d := d = s0.db ∧ Preflight a ∧ deps.redis = true ∧
    storedResponse (s0.idem a.referenceId) = some r
  failed d := d = s0.db ∨ ∃ plan, Committed a plan s0.db d

variable (deps : TransferDeps) (a : TransferArgs)

lemma aloneFacts_lawful [PyStr] :
    (aloneFacts deps a s0).Lawful (alone ledgerMachine t) t token deps a where
  grows s s' hr := by rw [hr rfl]; exact .refl _
  start_stable s s' h hr := by rw [hr.rely rfl]; exact h
  before_stable s s' h hr := by rw [hr.rely rfl]; exact h
  funded_stable acc s s' h hr := by rw [hr.rely rfl]; exact h
  committed_stable plan s s' h hr := by rw [hr.rely rfl]; exact h
  replayed_stable r s s' h hr := by rw [hr.rely rfl]; exact h
  failed_stable s s' h hr := by rw [hr.rely rfl]; exact h
  failed_of_start s h := .inl (by rw [show s = s0 from h])
  failed_of_before d h := .inl h.1
  failed_of_committed plan d h := .inr ⟨plan, h.1⟩
  before_of_funded acc s h := h.1
  quiet c o l s _ _ _ := alone_keeps ..
  replay r s _ h hp hredis hr := by
    cases (h : s = s0)
    exact ⟨rfl, hp, hredis, hr⟩
  fresh s _ h hnone := by
    cases (h : s = s0)
    exact ⟨rfl, fun hrep => hrep.2 (hnone hrep.1)⟩
  check acc s _ h hacc hfunds := ⟨h, by rw [← h.1]; exact hfunds⟩
  commit plan o l s _ h hready _ := by
    refine ⟨alone_keeps .., fun hfree => ⟨⟨h.2, l.staged, ?_, ?_, ?_⟩, h.1.2⟩⟩
    · rw [h.1.1]
    · rw [← h.1.1]; exact hready
    · rw [← h.1.1]; exact hfree
  complete plan r o l s _ _ _ _ := alone_keeps ..

/-- **A transfer alone.** A call that returns has committed a plan over the rows it started from, or
replays a stored response; one that raises has committed nothing, or a plan. -/
theorem transferFunds_alone [PyStr] (token : Token) (tries : Nat) (t : Tid) (o : Nat → Answer)
    (l : Session) (s : World) : (aloneFacts deps a s).Outcome a
      (ledgerMachine.run t (transferFunds deps token tries a) o l s).1
      (ledgerMachine.run t (transferFunds deps token tries a) o l s).2.2.db :=
  run_of_wp ((aloneFacts_lawful deps a).transferFunds_wp tries trivial rfl) o

lemma transferFunds_committed [PyStr] (token : Token) (tries : Nat) (t : Tid) (o : Nat → Answer)
    (l : Session) (s : World) :
    (ledgerMachine.run t (transferFunds deps token tries a) o l s).2.2.db = s.db ∨
      ∃ plan, Committed a plan s.db
        (ledgerMachine.run t (transferFunds deps token tries a) o l s).2.2.db := by
  have hout := transferFunds_alone deps a token tries t o l s
  cases hr : (ledgerMachine.run t (transferFunds deps token tries a) o l s).1 with
  | ok =>
    rw [hr] at hout
    rcases hout with ⟨plan, ⟨hc, -⟩, -⟩ | ⟨hd, -⟩
    · exact .inr ⟨plan, hc⟩
    · exact .inl hd
  | error =>
    rw [hr] at hout
    exact hout.1

end CleanArch
