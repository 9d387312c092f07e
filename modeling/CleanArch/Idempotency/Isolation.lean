import CleanArch.Async.Separate
import CleanArch.Idempotency.Charge
import CleanArch.Ledger.Footprint
import CleanArch.Ledger.Movement

/-!
# Transfers and charges on one Redis

The transfer service and the payment endpoint keep their records under the same keys
`idempotency:{…}`. The two kinds are isolated (`Isolated`) if every request ends in the same way
when all requests of the other kind are taken out of the schedule. Besides these records they share
nothing (`TransferView`, `ChargeView`).
-/

namespace CleanArch

open Async Function LedgerCmd Prog Sys

/-! ## The system -/

inductive SharedRequest where
  | transfer (c : TransferCall)
  | charge (key : String) (request : ChargeRequest)

def SharedRequest.isCharge : SharedRequest → Bool
  | .transfer _ => false
  | .charge .. => true

def SharedRequest.prog [PyStr] (deps : PaymentDeps) (t : Tid) :
    SharedRequest → LedgerProg (FundTransferResponse ⊕ JSONResponse)
  | .transfer c => do
    let response ← transferFunds c.deps t c.tries c.args
    return .inl response
  | .charge key request => do
    let response ← processPaymentChargeEndpoint deps key request
    return .inr response

@[reducible] def sharedSys [PyStr] (deps : PaymentDeps) (calls : Tid → SharedRequest) : Sys where
  toMachine := ledgerMachine
  Env := LedgerEnv
  env e s := e.exec s
  A := FundTransferResponse ⊕ JSONResponse
  prog t := (calls t).prog deps t
  loc _ := {}

/-! ## The footprint of a charge -/

def OfCharge (key : String) : LedgerCmd → Prop
  | .redis (.get r) | .redis (.setNx r ..) | .redis (.set r ..) => r = key
  | .redis (.delete r) => r = key
  | .processCharge .. => True
  | _ => False

lemma OfCharge.of_manager (h : ManagerCmd key c) : OfCharge key c := by
  cases c with
  | redis c =>
    cases c with
    | get | set => exact h
    | setNx => exact h.1
    | _ => cases h
  | _ => cases h

lemma processPaymentChargeEndpoint_only [PyStr] (request : ChargeRequest) :
    (processPaymentChargeEndpoint deps key request).Only (OfCharge key) := by
  refine within_bind ((checkOrAcquire_within _).mono fun _ => OfCharge.of_manager) fun acquired => ?_
  split
  · trivial
  · refine within_handle ?_ fun exc _ => ?_
    · exact within_call_bind trivial fun charge =>
        within_call_bind rfl fun _ => trivial
    · exact within_call_bind rfl fun _ => trivial

def SharedRequest.Own : SharedRequest → LedgerCmd → Prop
  | .transfer c => OfTransfer (c.args.Claims c.deps)
  | .charge key _ => OfCharge key

lemma SharedRequest.prog_only [PyStr] (deps : PaymentDeps) (t : Tid) (r : SharedRequest) :
    (r.prog deps t).Only r.Own := by
  cases r with
  | transfer => exact within_bind (transferFunds_only ..) fun _ => trivial
  | charge =>
    exact within_bind (processPaymentChargeEndpoint_only ..) fun _ => trivial

/-! ## What the kinds see -/

/-- The command uses the record of `r`. -/
def RedisCmd.OnRecord (r : String) : RedisCmd → Prop
  | .get r' | .setNx r' .. | .set r' .. | .delete r' => r' = r
  | _ => False

lemma RedisCmd.exec_onRecord {c : RedisCmd} (hc : c.OnRecord r) (s s' : World)
    (hr : s'.idem r = s.idem r) : (c.exec s).1 = (c.exec s').1 ∧ ∃ doc,
      (c.exec s).2 = { s with idem := update s.idem r doc } ∧
      (c.exec s').2 = { s' with idem := update s'.idem r doc } := by
  cases c with
  | get r' =>
    cases (hc : r' = r)
    refine ⟨hr.symm, s.idem r, ?_, ?_⟩
    · rw [update_eq_self]; rfl
    · rw [← hr, update_eq_self]; rfl
  | setNx r' doc =>
    cases (hc : r' = r)
    simp only [RedisCmd.exec, hr]
    cases h : s.idem r with
    | none => exact ⟨rfl, some doc, rfl, rfl⟩
    | some =>
      refine ⟨rfl, s.idem r, ?_, ?_⟩
      · rw [update_eq_self]
      · rw [← hr, update_eq_self]
  | set r' doc =>
    cases (hc : r' = r)
    exact ⟨rfl, some doc, rfl, rfl⟩
  | delete r' =>
    cases (hc : r' = r)
    exact ⟨rfl, none, rfl, rfl⟩
  | _ => exact hc.elim

def TransferView (hidden : String → Prop) (s s' : World) : Prop :=
  ∃ idem charges, s' = { s with idem := idem, charges := charges } ∧
    ∀ r, ¬ hidden r → idem r = s.idem r

def ChargeView (hidden : String → Prop) (s s' : World) : Prop :=
  s'.charges = s.charges ∧ ∀ r, ¬ hidden r → s'.idem r = s.idem r

lemma update_agree {hidden : String → Prop} (h : ∀ r, ¬ hidden r → f r = g r) :
    ∀ r, ¬ hidden r → update f k doc r = update g k doc r := by
  intro r hr
  by_cases hk : r = k
  · subst hk
    simp
  · simpa only [update_of_ne hk] using h r hr

lemma withFault_same {α : Type}
    {x y : Except LedgerError α × Session × World} (h : R s s') (hxy : SameAnswer R x y) :
    SameAnswer R (withFault o e (l, s) x) (withFault o e (l, s') y) := by
  unfold withFault
  split
  · exact hxy
  · exact ⟨rfl, rfl, h⟩
  · exact ⟨rfl, hxy.loc, hxy.sh⟩

section Views

variable {hidden : String → Prop}

lemma TransferView.record (h : TransferView hidden s s') (hr : ¬ hidden r) {c : RedisCmd}
    (hc : c.OnRecord r) : SameAnswer (TransferView hidden) (exec o l s (.redis c))
      (exec o l s' (.redis c)) := by
  refine withFault_same h ?_
  obtain ⟨idem, charges, rfl, hidem⟩ := h
  obtain ⟨hres, doc, hs, hs'⟩ := RedisCmd.exec_onRecord hc s
    { s with idem := idem, charges := charges } (hidem r hr)
  refine ⟨congrArg Except.ok hres, rfl, ?_⟩
  rw [hs, hs']
  exact ⟨_, charges, rfl, update_agree hidem⟩

lemma TransferView.same (hc : OfTransfer own c) (hown : ∀ r, own r → ¬ hidden r)
    (h : TransferView hidden s s') :
    SameAnswer (TransferView hidden) (c.exec o l s) (c.exec o l s') := by
  cases c with
  | processCharge => exact hc.elim
  | db =>
    refine withFault_same h ?_
    obtain ⟨idem, charges, rfl, hidem⟩ := h
    exact ⟨rfl, rfl, idem, charges, rfl, hidem⟩
  | proc c =>
    obtain ⟨idem, charges, rfl, hidem⟩ := h
    cases c <;> exact ⟨rfl, rfl, idem, charges, rfl, hidem⟩
  | redis c =>
    cases c with
    | get r | setNx r | set r | delete r => exact h.record (hown r hc) rfl
    | lockSetNx k =>
      refine withFault_same h ?_
      obtain ⟨idem, charges, rfl, hidem⟩ := h
      cases hk : s.locks k with
      | none | some =>
        simp only [RedisCmd.exec, hk]
        exact ⟨rfl, rfl, idem, charges, rfl, hidem⟩
    | lockRelease k token =>
      refine withFault_same h ?_
      obtain ⟨idem, charges, rfl, hidem⟩ := h
      by_cases hk : s.locks k = some token
      · simp only [RedisCmd.exec, if_pos hk]
        exact ⟨rfl, rfl, idem, charges, rfl, hidem⟩
      · simp only [RedisCmd.exec, if_neg hk]
        exact ⟨rfl, rfl, idem, charges, rfl, hidem⟩
    | sismember | zremrangebyscore | zrange | zadd =>
      refine withFault_same h ?_
      obtain ⟨idem, charges, rfl, hidem⟩ := h
      exact ⟨rfl, rfl, idem, charges, rfl, hidem⟩

lemma ChargeView.same (hc : OfCharge key c) (hkey : ¬ hidden key) (h : ChargeView hidden s s') :
    SameAnswer (ChargeView hidden) (c.exec o l s) (c.exec o l s') := by
  cases c with
  | processCharge =>
    refine withFault_same h ⟨rfl, rfl, ?_, h.2⟩
    rw [h.1]
  | redis c =>
    have hrecord : c.OnRecord key := by
      cases c <;> exact hc
    refine withFault_same h ?_
    obtain ⟨hres, doc, hs, hs'⟩ := RedisCmd.exec_onRecord hrecord s s' (h.2 key hkey)
    refine ⟨congrArg Except.ok hres, rfl, ?_⟩
    rw [hs, hs']
    exact ⟨h.1, update_agree h.2⟩
  | _ => exact hc.elim

lemma TransferView.of_charge (hc : OfCharge key c) (hkey : hidden key)
    (h : TransferView hidden s s') : TransferView hidden (c.exec o l s).2.2 s' := by
  obtain ⟨idem, charges, rfl, hidem⟩ := h
  cases c with
  | processCharge =>
    simp only [exec, withFault]
    split <;> exact ⟨idem, charges, rfl, hidem⟩
  | redis c =>
    have hrecord : c.OnRecord key := by
      cases c <;> exact hc
    obtain ⟨-, doc, hs, -⟩ := RedisCmd.exec_onRecord hrecord s s rfl
    rcases exec_redis with he | he
    · rw [he, hs]
      refine ⟨idem, charges, rfl, fun r hr => ?_⟩
      have hne : r ≠ key := fun heq => hr (heq ▸ hkey)
      rw [hidem r hr]
      exact (update_of_ne hne _ _).symm
    · rw [he]
      exact ⟨idem, charges, rfl, hidem⟩
  | _ => exact hc.elim

lemma LedgerCmd.exec_charges (hc : OfTransfer own c) : (c.exec o l s).2.2.charges = s.charges := by
  cases c with
  | processCharge => exact hc.elim
  | proc c => cases c <;> rfl
  | db =>
    simp only [exec, withFault]
    split <;> rfl
  | redis c =>
    rcases exec_redis with he | he
    · rw [he]
      cases c with
      | setNx | lockSetNx | lockRelease => simp only [RedisCmd.exec]; split <;> rfl
      | _ => rfl
    · rw [he]

lemma ChargeView.of_transfer (hc : OfTransfer own c) (hown : ∀ r, own r → hidden r)
    (h : ChargeView hidden s s') : ChargeView hidden (c.exec o l s).2.2 s' := by
  refine ⟨h.1.trans (exec_charges hc).symm, fun r hr => ?_⟩
  rw [hc.idem fun hr' => hr (hown r hr')]
  exact h.2 r hr

lemma TransferView.env (h : TransferView hidden s s') (e : LedgerEnv) :
    TransferView hidden (e.exec s) (e.exec s') := by
  obtain ⟨idem, charges, rfl, hidem⟩ := h
  cases e with
  | expireIdem k => exact ⟨_, charges, rfl, update_agree hidem⟩
  | expireLock | expireVelocity => exact ⟨idem, charges, rfl, hidem⟩

lemma ChargeView.env (h : ChargeView hidden s s') (e : LedgerEnv) :
    ChargeView hidden (e.exec s) (e.exec s') := by
  cases e with
  | expireIdem k => exact ⟨h.1, update_agree h.2⟩
  | expireLock | expireVelocity => exact h

end Views

/-! ## Isolation -/

section Isolation

variable [PyStr] (deps : PaymentDeps) (calls : Tid → SharedRequest)

/-- How request `t` has ended after a schedule from `w`, if it has. -/
def sharedOutcome (w : World) (es : List (sharedSys deps calls).Event) (t : Tid) :
    Option (Except LedgerError (FundTransferResponse ⊕ JSONResponse)) :=
  ((run (S := sharedSys deps calls) (start w) es).thr t).2.result?

structure Isolated : Prop where
  transfers : ∀ w es t, (calls t).isCharge = false →
    sharedOutcome deps calls w es t =
      sharedOutcome deps calls w (without (fun u => (calls u).isCharge) es) t
  charges : ∀ w es t, (calls t).isCharge = true →
    sharedOutcome deps calls w es t =
      sharedOutcome deps calls w (without (fun u => !(calls u).isCharge) es) t

def NoSharedKeys : Prop :=
  ∀ t u c key request, calls t = .transfer c → calls u = .charge key request →
    ¬ c.args.Claims c.deps key

variable {calls}

lemma separates_charges (h : NoSharedKeys calls) :
    Separates (sharedSys deps calls) (fun t => (calls t).isCharge) (fun t => (calls t).Own)
      (TransferView fun r => ∃ u request, calls u = .charge r request) where
  hidden t c o l s s' ht hc hs := by
    cases hcall : calls t with
    | transfer => rw [hcall] at ht; cases ht
    | charge key request =>
      rw [hcall] at hc
      exact hs.of_charge hc ⟨t, request, hcall⟩
  same t c o l s s' ht hc hs := by
    cases hcall : calls t with
    | charge => rw [hcall] at ht; cases ht
    | transfer call =>
      rw [hcall] at hc
      refine hs.same hc fun r hr => ?_
      rintro ⟨u, request, hu⟩
      exact h t u call r request hcall hu hr
  env e s s' hs := hs.env e

lemma separates_transfers (h : NoSharedKeys calls) :
    Separates (sharedSys deps calls) (fun t => !(calls t).isCharge) (fun t => (calls t).Own)
      (ChargeView fun r => ∃ t c, calls t = .transfer c ∧ c.args.Claims c.deps r) where
  hidden t c o l s s' ht hc hs := by
    cases hcall : calls t with
    | charge => rw [hcall] at ht; cases ht
    | transfer call =>
      rw [hcall] at hc
      exact hs.of_transfer hc fun r hr => ⟨t, call, hcall, hr⟩
  same t c o l s s' ht hc hs := by
    cases hcall : calls t with
    | transfer => rw [hcall] at ht; cases ht
    | charge key request =>
      rw [hcall] at hc
      refine hs.same hc ?_
      rintro ⟨u, call, hu, hr⟩
      exact h u t call key request hu hcall hr
  env e s s' hs := hs.env e

lemma isolated_of_noSharedKeys (h : NoSharedKeys calls) : Isolated deps calls := by
  have honly : ∀ t, ((sharedSys deps calls).prog t).Only (calls t).Own :=
    fun t => SharedRequest.prog_only deps t _
  constructor
  · intro w es t ht
    have hview : TransferView (fun r => ∃ u request, calls u = .charge r request) w w :=
      ⟨w.idem, w.charges, rfl, fun _ _ => rfl⟩
    have hrun := run_without (separates_charges deps h)
      (Alike.start (S := sharedSys deps calls) honly hview) es
    exact congrArg (fun p => p.2.result?) (hrun.thr t ht)
  · intro w es t ht
    have hview : ChargeView
        (fun r => ∃ t c, calls t = .transfer c ∧ c.args.Claims c.deps r) w w :=
      ⟨rfl, fun _ _ => rfl⟩
    have hrun := run_without (separates_transfers deps h)
      (Alike.start (S := sharedSys deps calls) honly hview) es
    exact congrArg (fun p => p.2.result?) (hrun.thr t (by rw [ht]; rfl))

/-! ### A shared key -/

section SharedKey

variable {request : ChargeRequest}

lemma outcome_after_charge (ht : calls t = .transfer c) (hu : calls u = .charge key request)
    (hc : c.args.Claims c.deps key) :
    sharedOutcome deps calls {} [.turn u {}, .turn t {}, .turn t {}] t =
      some (.error (.concurrentTransferInProgress key)) := by
  have hne : t ≠ u := by
    rintro rfl
    rw [ht] at hu
    cases hu
  obtain ⟨hredis, hpre, rfl⟩ := hc
  simp [sharedOutcome, run, start, step, SharedRequest.prog, ht, hu, hne,
    transferFunds_claims hredis hpre, processPaymentChargeEndpoint, checkOrAcquire, claimReference,
    redis, call, Prog.bind, Prog.ofExcept, exec, withFault, RedisCmd.exec,
    IdempotencyDoc.inProgress, result?]

lemma outcome_without_charge (ht : calls t = .transfer c) (hu : calls u = .charge key request)
    (hc : c.args.Claims c.deps key) :
    sharedOutcome deps calls {}
      (without (fun u => (calls u).isCharge) [.turn u {}, .turn t {}, .turn t {}]) t =
      none := by
  obtain ⟨hredis, hpre, rfl⟩ := hc
  simp [sharedOutcome, without, SharedRequest.isCharge, run, start, step,
    SharedRequest.prog, ht, hu, transferFunds_claims hredis hpre, claimReference, redis, proc,
    call, Prog.bind, Prog.ofExcept, Prog.handle, exec, withFault, RedisCmd.exec,
    screenedTransfer, evaluateTransfer, isAccountBlacklisted, result?]

end SharedKey

/-- **Transfers and charges are isolated** exactly when no reference that a transfer claims is the
key of a charge. -/
theorem isolated_iff : Isolated deps calls ↔ NoSharedKeys calls := by
  refine ⟨fun h t u c key request ht hu hc => ?_, isolated_of_noSharedKeys deps⟩
  have hsame := h.transfers {} [.turn u {}, .turn t {}, .turn t {}] t (by rw [ht]; rfl)
  rw [outcome_after_charge deps ht hu hc, outcome_without_charge deps ht hu hc] at hsame
  cases hsame

end Isolation

/-! ### One string for an order and its transfer -/

/-- A charge with the key `order-0001`, and a transfer with this reference. -/
def orderRequests : Tid → SharedRequest
  | 0 => .charge "order-0001" orderCharge
  | _ => .transfer { tries := 1, args := { cashTransfer 2 with referenceId := "order-0001" } }

def textDeps : PaymentDeps := ⟨id, fun _ => "error"⟩

def orderSchedule : List (@sharedSys asciiStr textDeps orderRequests).Event :=
  .turn 0 {} :: (List.range 27).map fun n => .turn 1 (freshIds n)

/-- The charge has taken the record: the transfer raises that a transfer of this reference is in
progress. Without the charge it returns its response. -/
theorem charge_blocks_transfer :
    @sharedOutcome asciiStr textDeps orderRequests cashWorld orderSchedule 1 =
        some (.error (.concurrentTransferInProgress "order-0001")) ∧
      (@sharedOutcome asciiStr textDeps orderRequests cashWorld
        (without (fun u => (orderRequests u).isCharge) orderSchedule) 1).map Except.isOk =
          some true ∧
      ¬ @Isolated asciiStr textDeps orderRequests := by
  have hwith : @sharedOutcome asciiStr textDeps orderRequests cashWorld orderSchedule 1 =
      some (.error (.concurrentTransferInProgress "order-0001")) := by decide +kernel
  have hwithout : (@sharedOutcome asciiStr textDeps orderRequests cashWorld
      (without (fun u => (orderRequests u).isCharge) orderSchedule) 1).map Except.isOk =
        some true := by decide +kernel
  refine ⟨hwith, hwithout, fun h => ?_⟩
  rw [← @Isolated.transfers asciiStr textDeps orderRequests h cashWorld orderSchedule 1 rfl,
    hwith] at hwithout
  cases hwithout

end CleanArch
