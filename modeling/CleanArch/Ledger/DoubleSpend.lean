import CleanArch.Ledger.Movement

/-!
# Double spending

Concurrent transfers check the funds of their source and commit later. `lockProtocol` is what the
locks give while they last: as long as `t` has the lock of an account that is no clearing account,
the others do not change its balance, if each commits only while it has the locks of its accounts
(`LocksHeld`).
-/

namespace CleanArch

open Async LedgerCmd Protocol Sys TransferArgs

def Ledger.NonTreasury (d : Ledger) (id : UUID) : Prop :=
  ∀ acc ∈ d.accounts, acc.id = id → acc.isTreasury = false

lemma Ledger.NonTreasury.of_grows {d e : Ledger} {id : UUID} (h : e.NonTreasury id)
    (hg : d.Grows e) : d.NonTreasury id :=
  fun acc hm => h acc (hg.mem_accounts hm)

/-- Call `t` still has the locks that it took. -/
def TransferCall.HoldsLocks (call : TransferCall) (t : Tid) (s : World) : Prop :=
  ∀ k ∈ call.args.accountLockKeys, s.locks k = some t

instance (call : TransferCall) (t : Tid) (s : World) : Decidable (call.HoldsLocks t s) :=
  inferInstanceAs (Decidable (∀ k ∈ _, _))

instance (d : Ledger) (id : UUID) : Decidable (d.NonTreasury id) :=
  inferInstanceAs (Decidable (∀ acc ∈ _, _))

def lockProtocol (calls : Tid → TransferCall) : Protocol ledgerMachine where
  inv s := s.db.Keyed
  rely t s s' := s.db.Grows s'.db ∧ ∀ k, s'.locks k = some t → s.locks k = some t ∧
    (s'.db.NonTreasury k → Books.balance k s'.db.book = Books.balance k s.db.book)
  ok t c _ s _ := c.isCommit = true →
    (calls t).HoldsLocks t s ∧ s.db.NonTreasury (calls t).args.sourceAccountId
  good t c l s o := ∀ acc, s.db.getAccountById (calls t).args.sourceAccountId = some acc →
    (c.exec o l s).2.2.db ≠ s.db → 0 ≤ (c.exec o l s).2.2.db.normalBalanceOf acc
  refl _ _ := ⟨.refl _, fun _ h => ⟨h, fun _ => rfl⟩⟩
  trans _ _ _ _ h1 h2 := by
    refine ⟨h1.1.trans h2.1, fun k hk => ?_⟩
    obtain ⟨hk2, hb2⟩ := h2.2 k hk
    obtain ⟨hk1, hb1⟩ := h1.2 k hk2
    exact ⟨hk1, fun hn => (hb2 hn).trans (hb1 (hn.of_grows h2.1))⟩

/-- What a call knows under the locks: after the funds check the source is covered, as long as the
call has its lock. -/
def lockFacts (calls : Tid → TransferCall) (t : Tid) : TransferFacts where
  start _ := True
  before _ := True
  funded acc s := s.locks (calls t).args.sourceAccountId = some t →
    s.db.NonTreasury (calls t).args.sourceAccountId →
    (calls t).args.totalRequired ≤ s.db.normalBalanceOf acc ∧
      acc.id = (calls t).args.sourceAccountId
  committed _ _ := True
  replayed _ _ := True
  failed _ := True

lemma Ledger.normalBalanceOf_eq (d : Ledger) :
    d.normalBalanceOf acc = acc.accountType.sided (Books.balance acc.id d.book) :=
  normalBalance_aggregates ..

section Protocol

variable {calls : Tid → TransferCall}

lemma lockProtocol_keeps (hi : (lockProtocol calls).inv s) (hdb : (c.exec o l s).2.2.db = s.db)
    (hlocks : ∀ u, u ≠ t → ∀ k, (c.exec o l s).2.2.locks k = some u → s.locks k = some u) :
    (lockProtocol calls).Keeps t c o l s where
  good _ _ hne := absurd hdb hne
  inv := by
    show (c.exec o l s).2.2.db.Keyed
    rw [hdb]
    exact hi
  rely u hu := by
    refine ⟨by rw [hdb]; exact .refl _, fun k hk => ⟨hlocks u hu k hk, fun _ => ?_⟩⟩
    rw [hdb]

variable [PyStr]

lemma Ready.balance_eq_zero (h : Ready (calls t).args plan rows d)
    (hlocks : (calls t).HoldsLocks t s) (hu : u ≠ t) (hk : s.locks k = some u)
    (hn : (d ++ rows).NonTreasury k) : Books.balance k rows.book = 0 := by
  -- an account of the request is locked by `t`
  have hne : ∀ k' ∈ (calls t).args.accountLockKeys, k' ≠ k := by
    rintro k' hk' rfl
    rw [hlocks k' hk'] at hk
    exact hu (Option.some.inj hk).symm
  rw [h.book]
  refine Books.net_eq_zero _ fun p hp => ?_
  obtain ⟨g, hg, rfl⟩ := List.mem_map.mp hp
  show g.accountId ≠ k
  rcases h.legs.account hg with hs | hs | hs | ⟨c, fx, hc, hs⟩
  · rw [hs]
    exact hne _ (by simp [accountLockKeys])
  · rw [hs]
    exact hne _ (by simp [accountLockKeys])
  · refine hne _ ?_
    simp [accountLockKeys, (feeAccount_some.mp hs).2]
  · rw [hs]
    intro hfx
    obtain ⟨hm, htr⟩ := hc.treasury
    rw [hn fx hm hfx] at htr
    cases htr

lemma lockProtocol_commit (hi : (lockProtocol calls).inv s)
    (hf : (lockFacts calls t).funded plan.source s) (hr : Ready (calls t).args plan l.staged s.db)
    (ho : (lockProtocol calls).ok t (.db .commit) l s o) :
    (lockProtocol calls).Keeps t (.db .commit) o l s := by
  obtain ⟨hlocks, hnt⟩ := ho rfl
  rcases exec_commit with h | ⟨hfree, h⟩
  · refine lockProtocol_keeps hi (by rw [h]) fun u _ k hk => ?_
    rwa [h] at hk
  · refine ⟨fun acc hacc _ => ?_, ?_, fun u hu => ?_⟩
    · obtain ⟨hfunds, -⟩ := hf (hlocks _ (by simp [accountLockKeys])) hnt
      obtain ⟨hmem, hid⟩ := Ledger.getAccountById_some hr.loaded.source
      rw [hr.loaded.source] at hacc
      cases hacc
      have hc : Committed (calls t).args plan s.db (s.db ++ l.staged) :=
        ⟨by rw [← hid]; exact hfunds, l.staged, rfl, hr, hfree⟩
      have hfalls := hc.source_falls hi (hnt _ hmem hid)
      rw [totalRequired] at hfunds
      rw [h, hfalls]
      linarith
    · rw [h]
      exact (show s.db.Keyed from hi).append hr.keyed hfree
    · rw [h]
      refine ⟨.append _ _, fun k hk => ⟨hk, fun hn => ?_⟩⟩
      rw [Ledger.book_append, Books.balance, Books.net_append,
        ← Books.balance, ← Books.balance, hr.balance_eq_zero hlocks hu hk hn, add_zero]

lemma lockFacts_lawful (calls : Tid → TransferCall) :
    (lockFacts calls t).Lawful (lockProtocol calls) t t (calls t).deps (calls t).args where
  grows s s' hr := hr.1
  funded_stable acc s s' h hr hlock hn := by
    obtain ⟨hlock0, hb⟩ := hr.rely.2 _ hlock
    obtain ⟨hfunds, hid⟩ := h hlock0 (hn.of_grows hr.rely.1)
    refine ⟨?_, hid⟩
    rw [Ledger.normalBalanceOf_eq, hid, hb hn, ← hid, ← Ledger.normalBalanceOf_eq]
    exact hfunds
  quiet c o l s hq hi _ :=
    lockProtocol_keeps hi (exec_db_eq hq.ne_commit o l s) fun _ hu _ => hq.locks hu
  replay _ _ _ _ _ _ _ := trivial
  fresh _ _ _ _ := trivial
  check acc s _ _ hacc hfunds _ _ := by
    obtain ⟨-, hid⟩ := Ledger.getAccountById_some hacc
    exact ⟨by rw [Ledger.normalBalanceOf, hid]; exact hfunds, hid⟩
  commit plan o l s hi hf hr ho := ⟨lockProtocol_commit hi hf hr ho, fun _ => trivial⟩
  complete plan r o l s hi _ _ _ := by
    have hne : LedgerCmd.redis (.set (calls t).args.referenceId (.completed r) 86400) ≠
        .db .commit := by rintro ⟨⟩
    refine lockProtocol_keeps hi (exec_db_eq hne o l s) fun u _ k hk => ?_
    rcases exec_redis with he | he
    all_goals rw [he] at hk; exact hk

end Protocol

/-! ## Runs -/

section Runs

variable [PyStr]

/-- A commit of a call is made while the call still has the locks of its accounts, and its source
is no clearing account. -/
abbrev LocksHeld (calls : Tid → TransferCall) :
    (transferSys calls).Config → (transferSys calls).Event → Prop :=
  Asks (fun t r _ s _ => r.isCommit = true →
    (calls t).HoldsLocks t s ∧ s.db.NonTreasury (calls t).args.sourceAccountId) fun _ _ => True

omit [PyStr] in
lemma lockProtocol_env (calls : Tid → TransferCall) (e : LedgerEnv)
    (hi : (lockProtocol calls).inv s) :
    (lockProtocol calls).inv (e.exec s) ∧ ∀ t, (lockProtocol calls).rely t s (e.exec s) := by
  have hdb : (e.exec s).db = s.db := by cases e <;> rfl
  have hlocks : ∀ k t, (e.exec s).locks k = some t → s.locks k = some t := by
    intro k t h
    cases e with
    | expireLock k' =>
      by_cases hk : k = k'
      · subst hk
        simp [LedgerEnv.exec] at h
      · simpa only [LedgerEnv.exec, Function.update_of_ne hk] using h
    | expireIdem | expireVelocity => exact h
  refine ⟨?_, fun t => ⟨by rw [hdb]; exact .refl _, fun k hk => ⟨hlocks k t hk, fun _ => ?_⟩⟩⟩
  · show (e.exec s).db.Keyed
    rw [hdb]
    exact hi
  · rw [hdb]

lemma lockProtocol_holds (hk : s.db.Keyed)
    {es : List (transferSys calls).Event} (hes : RunOk (LocksHeld calls) (start s) es) :
    Holds (S := transferSys calls) (P := lockProtocol calls)
      (Q := fun _ _ _ _ => True) (run (start s) es) := by
  refine sound (fun e s hi _ => lockProtocol_env calls e hi) ?_ hes
  refine Holds.start hk fun t => ?_
  exact wp_mono ((lockFacts_lawful calls).transferFunds_wp (calls t).tries hk trivial)
    fun _ _ _ _ _ => trivial

/-- **No double spending** while the locks last. In every run whose commits are made under their
locks, a step that changes the database leaves its source with a balance that is not negative. -/
theorem transfer_no_double_spend (calls : Tid → TransferCall) (s : World) (hk : s.db.Keyed)
    (es es' : List (transferSys calls).Event) (t : Tid) (o : Answer)
    (hes : RunOk (LocksHeld calls) (start s) (es ++ .turn t o :: es'))
    (hdb : (step (run (start s) es) (.turn t o)).sh.db ≠
      (run (start s) es).sh.db) (acc : LedgerAccountEntity)
    (hacc : (run (start s) es).sh.db.getAccountById (calls t).args.sourceAccountId = some acc) :
    0 ≤ (step (run (start s) es) (.turn t o)).sh.db.normalBalanceOf acc := by
  obtain ⟨hes1, hok, -⟩ := hes.append
  have hh := lockProtocol_holds hk hes1
  rw [← run] at hok
  generalize run (start s) es = c at *
  rcases (c.thr t).2.ended_or_awaits with hn | ⟨r, k, hp⟩
  · rw [step_ended hn] at hdb
    exact absurd rfl hdb
  · have hr : (c.thr t).2.next? = some r := by
      rw [hp]
      rfl
    have hgood := hh.good (t := t) (o := o) hr (hok r hr)
    rw [step_await hp] at hdb ⊢
    exact hgood acc hacc hdb

end Runs

/-! ### Two transfers of the same 100 -/

/-- Each call transfers the whole balance of the first account, with a reference of its own. -/
def spendAll (t : Tid) : TransferCall :=
  { args := { sourceAccountId := 1, destinationAccountId := 2, amount := 100,
              referenceId := "t-" ++ Nat.repr t, description := "Transfer" } }

/-- `n` turns of call `t`, with ids from `i` on. -/
def spendTurns (t : Tid) (i n : Nat) : List (@transferSys asciiStr spendAll).Event :=
  (List.range' i n).map fun j => .turn t (freshIds j)

def spendRun (es : List (@transferSys asciiStr spendAll).Event) :
    (@transferSys asciiStr spendAll).Config :=
  run (start cashWorld) es

/-- Call 0 is at its commit with its locks, while call 1 waits for them. -/
theorem transfer_no_double_spend_waiting :
    0 ≤ (step (spendRun (spendTurns 0 0 17 ++ spendTurns 1 100 8))
      (.turn 0 (freshIds 17))).sh.db.normalBalanceOf cashAccount :=
  @transfer_no_double_spend asciiStr spendAll cashWorld cashWorld_keyed
    (spendTurns 0 0 17 ++ spendTurns 1 100 8) [] 0 (freshIds 17) (by decide +kernel)
    (fun h => absurd (congrArg (·.entries.length) h) (by decide +kernel)) cashAccount
    (by decide +kernel)

/-- Call 0 is at its commit when its locks expire; call 1 takes them, finds the same 100 and
commits. -/
def spendTwice : List (@transferSys asciiStr spendAll).Event :=
  spendTurns 0 0 17 ++ [.world (.expireLock 1), .world (.expireLock 2)] ++ spendTurns 1 100 18

/-- Then the commit of call 0 leaves its source with -100. -/
theorem transfer_double_spend_expired :
    cashWorld.db.Keyed ∧ (∀ acc ∈ cashWorld.db.accounts, 0 ≤ cashWorld.db.normalBalanceOf acc) ∧
      (spendAll 0).args.referenceId ≠ (spendAll 1).args.referenceId ∧
      (step (spendRun spendTwice) (.turn 0 (freshIds 17))).sh.db ≠ (spendRun spendTwice).sh.db ∧
      (spendRun spendTwice).sh.db.getAccountById (spendAll 0).args.sourceAccountId =
        some cashAccount ∧
      (step (spendRun spendTwice) (.turn 0 (freshIds 17))).sh.db.normalBalanceOf cashAccount =
        -100 := by
  refine ⟨cashWorld_keyed, by decide +kernel, by decide +kernel, fun h => ?_, by decide +kernel,
    by decide +kernel⟩
  exact absurd (congrArg (·.entries.length) h) (by decide +kernel)

end CleanArch
