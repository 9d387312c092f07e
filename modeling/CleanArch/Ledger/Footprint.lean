import CleanArch.Ledger.TransferSys

/-!
# The footprint of a transfer

What a call of `transfer_funds` can touch: the database, the locks, the memory and the Redis sets of
the fraud service, and of the idempotency records only the one of its own reference.
-/

namespace CleanArch

open Async Prog

def OfTransfer (own : String → Prop) : LedgerCmd → Prop
  | .redis (.get r) | .redis (.setNx r ..) | .redis (.set r ..) => own r
  | .redis (.delete r) => own r
  | .processCharge .. => False
  | _ => True

def TransferArgs.Claims (a : TransferArgs) (deps : TransferDeps) (r : String) : Prop :=
  deps.redis = true ∧ preflight a = .ok () ∧ r = a.referenceId

lemma Aside.ofTransfer (h : Aside token c) : OfTransfer own c := by
  unfold Aside at h
  split at h <;> trivial

def OfRecord (reference : String) : LedgerCmd → Prop
  | .redis (.get r) | .redis (.setNx r ..) | .redis (.delete r) => r = reference
  | _ => False

def OfAccounts : LedgerCmd → Prop
  | .db (.getAccountById _) | .db (.getAccountByNumber _) | .db (.createAccount ..) => True
  | _ => False

lemma OfRecord.ofTransfer (hown : own reference) (h : OfRecord reference c) : OfTransfer own c := by
  unfold OfRecord at h
  split at h
  case h_4 => exact h.elim
  all_goals exact h ▸ hown

lemma OfAccounts.ofTransfer (h : OfAccounts c) : OfTransfer own c := by
  unfold OfAccounts at h
  split at h <;> trivial

/-! ## The parts -/

section Parts

lemma claimReference_only : (claimReference reference).Only (OfRecord reference) := by
  refine within_call_bind rfl fun cached => ?_
  split
  · trivial
  · trivial
  · refine within_call_bind rfl fun won => ?_
    exact within_ite (fun _ => trivial) fun _ => trivial

lemma releaseReference_only : (releaseReference reference).Only (OfRecord reference) := by
  refine within_handle (within_call_bind rfl fun doc => ?_) fun _ _ => trivial
  exact within_ite (fun _ => within_call rfl) fun _ => trivial

lemma loadAccount_only (id : UUID) : (loadAccount role id).Only OfAccounts := by
  refine within_call_bind trivial fun acc => ?_
  cases acc with
  | none => trivial
  | some => exact within_ite (fun _ => trivial) fun _ => trivial

variable (a : TransferArgs)

lemma loadFeeAccount_only : (loadFeeAccount a).Only OfAccounts := by
  unfold loadFeeAccount
  split
  · exact within_bind (loadAccount_only _) fun _ => trivial
  · trivial

lemma getOrCreateAccount_only [PyStr] :
    (getOrCreateAccount number name type currency).Only OfAccounts := by
  refine within_call_bind trivial fun acc => ?_
  cases acc with
  | none => exact within_call trivial
  | some => trivial

lemma transferLegs_only [PyStr] : (transferLegs a source dest destAmount).Only OfAccounts := by
  unfold transferLegs
  split
  · trivial
  · exact within_bind (getOrCreateAccount_only) fun _ =>
      within_bind (getOrCreateAccount_only) fun _ => trivial

lemma asyncWithUow_only {α : Type} {body : LedgerProg α} (hbody : body.Only (OfTransfer own)) :
    (asyncWithUow body).Only (OfTransfer own) := by
  have hclose : (db .closeSession).Only (OfTransfer own) := within_call trivial
  refine within_call_bind trivial fun _ => ?_
  refine within_bind (within_handle hbody fun e _ => ?_) fun r =>
    within_bind hclose fun _ => trivial
  refine within_bind (within_handle (within_call trivial) fun e' _ => ?_) fun _ => ?_
  all_goals exact within_bind hclose fun _ => trivial

lemma withAccountLocks_only (deps : TransferDeps) (token : Token) (tries : Nat)
    (a : TransferArgs) {α : Type} {body : LedgerProg α} (hbody : body.Only (OfTransfer own)) :
    (withAccountLocks deps token tries a body).Only (OfTransfer own) := by
  have haside : ∀ {β : Type} {p : LedgerProg β}, p.Only (Aside token) →
      p.Only (OfTransfer own) := fun h => h.mono fun _ hc => hc.ofTransfer
  unfold withAccountLocks
  split
  · refine within_bind (haside (acquireAll_within (fun _ => trivial))) fun acquired => ?_
    have hrelease : (releaseAll token acquired).Only (OfTransfer own) :=
      haside (releaseAll_within)
    refine within_bind (within_handle hbody fun e _ => ?_) fun r => ?_
    all_goals exact within_bind hrelease fun _ => trivial
  · exact hbody

variable [PyStr]

lemma postTransfer_only :
    (postTransfer a flagged source dest quote legs).Only (OfTransfer own) := by
  refine within_bind (within_ofExcept fun _ _ => trivial) fun postings => ?_
  refine within_bind (within_ofExcept fun _ _ => trivial) fun _ => ?_
  refine within_call_bind trivial fun entry => ?_
  refine within_call_bind trivial fun eventId => ?_
  refine within_call_bind trivial fun _ => ?_
  refine within_call_bind trivial fun _ => ?_
  exact within_call_bind trivial fun _ =>
    within_call_bind trivial fun _ => trivial

lemma executeTransferInUow_only (flagged : Bool) :
    (executeTransferInUow a flagged).Only (OfTransfer own) := by
  have haccounts : ∀ {β : Type} {p : LedgerProg β}, p.Only OfAccounts →
      p.Only (OfTransfer own) := fun h => h.mono fun _ hc => hc.ofTransfer
  refine within_call_bind trivial fun existing => ?_
  refine within_bind (within_raiseIf trivial) fun _ => ?_
  refine within_bind (haccounts (loadAccount_only _)) fun source => ?_
  refine within_bind (haccounts (loadAccount_only _)) fun dest => ?_
  refine within_bind (haccounts (loadFeeAccount_only a)) fun _ => ?_
  refine within_bind (within_ofExcept fun _ _ => trivial) fun quote => ?_
  refine within_call_bind trivial fun aggregates => ?_
  refine within_bind (within_raiseIf trivial) fun _ => ?_
  exact within_bind (haccounts (transferLegs_only a)) fun legs =>
    postTransfer_only a

end Parts

/-! ## The call -/

section Call

variable [PyStr]

lemma screenedTransfer_only (deps : TransferDeps) (token : Token) (tries : Nat)
    (h : deps.redis = true → own a.referenceId) :
    (screenedTransfer deps token tries a).Only (OfTransfer own) := by
  have haside : ∀ {β : Type} {p : LedgerProg β}, p.Only (Aside token) →
      p.Only (OfTransfer own) := fun h => h.mono fun _ hc => hc.ofTransfer
  refine within_bind (haside (evaluateTransfer_within _)) fun assessment => ?_
  refine within_bind (within_raiseIf trivial) fun _ => ?_
  refine within_bind (withAccountLocks_only deps token tries a
    (asyncWithUow_only (executeTransferInUow_only a _))) fun response => ?_
  refine within_bind (haside (recordSuccessfulTransfer_within _)) fun _ => ?_
  refine within_bind ?_ fun _ => trivial
  exact within_ite (fun hredis => within_call (h hredis)) fun _ => trivial

/-- **The footprint of a transfer.** Of the records it has its own only, and it makes no charge. -/
theorem transferFunds_only :
    (transferFunds deps token tries a).Only (OfTransfer (a.Claims deps)) := by
  unfold transferFunds
  cases hpre : preflight a with
  | error => trivial
  | ok =>
    have hown : deps.redis = true → a.Claims deps a.referenceId := fun h => ⟨h, hpre, rfl⟩
    have htransfer := screenedTransfer_only deps token tries hown
    refine within_ite (fun hredis => ?_) fun _ => htransfer
    have hrecord : ∀ {β : Type} {p : LedgerProg β}, p.Only (OfRecord a.referenceId) →
        p.Only (OfTransfer (a.Claims deps)) :=
      fun h => h.mono fun _ hc => hc.ofTransfer (hown hredis)
    refine within_bind (hrecord (claimReference_only)) fun stored => ?_
    cases stored with
    | some => trivial
    | none =>
      exact within_handle htransfer fun e _ =>
        within_bind (hrecord (releaseReference_only)) fun _ => trivial

lemma transferFunds_claims (hredis : d.redis = true) (hpre : preflight a = .ok ()) :
    transferFunds d token tries a = (claimReference a.referenceId).bind fun
      | some response => .ret response
      | none => (screenedTransfer d token tries a).handle fun e =>
          (releaseReference a.referenceId).bind fun _ => .raise e := by
  simp [transferFunds, hredis, hpre, Prog.ofExcept, Prog.bind]
  rfl

end Call

lemma OfTransfer.idem (h : OfTransfer own c) (hr : ¬ own r) (o : Answer) (l : Session) (s : World) :
    (c.exec o l s).2.2.idem r = s.idem r := by
  have hne : ∀ {r'}, own r' → r ≠ r' := fun h' heq => hr (heq ▸ h')
  cases c with
  | db c => rw [(LedgerCmd.exec_db_redis).2]
  | proc c => cases c <;> rfl
  | processCharge => exact h.elim
  | redis c =>
    rcases LedgerCmd.exec_redis with he | he
    · rw [he]
      cases c with
      | set | delete => exact Function.update_of_ne (hne h) _ _
      | setNx =>
        simp only [RedisCmd.exec]
        split
        · rfl
        · exact Function.update_of_ne (hne h) _ _
      | lockSetNx | lockRelease =>
        simp only [RedisCmd.exec]
        split <;> rfl
      | _ => rfl
    · rw [he]

end CleanArch
