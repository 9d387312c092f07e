import CleanArch.Idempotency.Exclusion

/-!
# What a key is bound to

A history of calls of the idempotency manager on one key, one after another, with a Redis that
works; between two calls the record may expire. A key is bound (`PayloadBound`) to the hash of the
first `check_or_acquire` since there is a record. The hash in the record need not be that one:
`record_failure` writes none.
-/

namespace CleanArch

open Async Function IdempotencyDoc ManagerCall Option

def tamperingError : LedgerError :=
  .httpException 422 "Idempotency key reused with different payload parameters."

/-! ## One call -/

def ManagerCall.run (key : String) (c : ManagerCall) (answers : Nat → Answer) (w : World) :
    Except LedgerError Unit × Session × World :=
  redisUp.run 0 (c.prog key) answers {} w

def ManagerCall.after : ManagerCall → Option IdempotencyDoc → Option IdempotencyDoc
  | .recordSuccess hash code body _, _ => some (.completedRecord hash code body)
  | .recordFailure error _, _ => some (.failedRecord error)
  | .checkOrAcquire hash _, none => some (.inProgress hash)
  | .checkOrAcquire hash _, some record =>
    if record.tampered hash then some record
    else
      match record.state with
      | some .inProgress | some .completed => some record
      | _ => some (.inProgress hash)

section Call

variable (key : String) (answers : Nat → Answer) (w : World)

lemma ManagerCall.run_check (hash : String) :
    (ManagerCall.checkOrAcquire hash ttl).run key answers w = (match w.idem key with
        | some record =>
          if record.tampered hash then .error tamperingError
          else if record.state = some .inProgress then
            .error (.httpException 409
              "A request with this idempotency key is currently in progress. Please wait.")
          else .ok ()
        | none => .ok (), {},
        { w with
          idem := update w.idem key
            ((ManagerCall.checkOrAcquire hash ttl).after (w.idem key)) }) := by
  simp only [run, prog, CleanArch.checkOrAcquire, Prog.bind_eq, Prog.bind_assoc]
  cases hw : w.idem key with
  | none =>
    rw [run_redis, exec_setNx_free hw]
    rfl
  | some record =>
    -- a record that stays is written back as it was
    have hsame : update w.idem key (some record) = w.idem := by
      rw [← hw, update_eq_self]
    rw [run_redis, exec_setNx_taken hw, if_neg Bool.false_ne_true, Prog.bind_assoc, run_redis,
      RedisCmd.exec, hw]
    by_cases ht : record.tampered hash = true
    · simp only [ManagerCall.after, if_pos ht, hsame]
      rfl
    · simp only [ManagerCall.after, if_neg ht]
      cases hst : record.state with
      | none => rfl
      | some state =>
        cases state with
        | inProgress | completed => rw [hsame]; rfl
        | failed => rfl

lemma ManagerCall.run_idem (c : ManagerCall) :
    (c.run key answers w).2.2.idem key = c.after (w.idem key) := by
  cases c with
  | checkOrAcquire =>
    rw [run_check]
    exact update_self ..
  | recordSuccess | recordFailure => exact update_self ..

lemma raises_tampering_iff (hash : String) :
    ((ManagerCall.checkOrAcquire hash ttl).run key answers w).1 = .error tamperingError ↔
      ∃ record, w.idem key = some record ∧ record.tampered hash = true := by
  rw [run_check]
  cases hw : w.idem key with
  | none => simp
  | some record =>
    by_cases ht : record.tampered hash = true
    · simp [ht]
    · by_cases hst : record.state = some .inProgress
      · simp [ht, hst, tamperingError]
      · simp [ht, hst]

end Call

lemma IdempotencyDoc.tampered_forall_iff (record : IdempotencyDoc) (h : String) :
    (∀ g, g ≠ h → record.tampered g = true) ↔ h ≠ "" ∧ record.requestHash = some h := by
  unfold tampered
  cases hr : record.requestHash with
  | none =>
    simp only [Bool.false_eq_true, imp_false, reduceCtorEq, and_false, iff_false, not_forall,
      not_not]
    refine ⟨h ++ "x", fun heq => ?_⟩
    have := congrArg String.length heq
    simp at this
  | some k =>
    simp only [ne_eq, decide_not, Bool.and_eq_true, Bool.not_eq_eq_eq_not, Bool.not_true,
      decide_eq_false_iff_not, Option.some.injEq]
    constructor
    · intro hall
      have hk : k = h := by
        by_contra hne
        exact (hall k hne).2 rfl
      subst hk
      refine ⟨?_, rfl⟩
      rintro rfl
      exact (hall "x" (by decide)).1 rfl
    · rintro ⟨hne, rfl⟩ g hg
      exact ⟨hne, fun heq => hg heq.symm⟩

/-! ## Histories -/

inductive PayloadOp where
  | call (c : ManagerCall) (answers : Nat → Answer)
  | world (e : LedgerEnv)

/-- The world, and the hash of the first `check_or_acquire` since there is a record. -/
structure PayloadState where
  world : World
  first : Option String := none

def ManagerCall.checked : ManagerCall → Option String
  | .checkOrAcquire hash _ => some hash
  | _ => none

/-- After an operation that leads to `w`: without a record the history starts anew. -/
def PayloadState.note (key : String) (s : PayloadState) (checked : Option String) (w : World) :
    PayloadState where
  world := w
  first := if w.idem key = none then none else s.first.or checked

def PayloadState.step (key : String) (s : PayloadState) : PayloadOp → PayloadState
  | .call c answers => s.note key c.checked (c.run key answers s.world).2.2
  | .world e => s.note key none (e.exec s.world)

/-- Every `check_or_acquire` with a hash other than the first one raises the exception of status
422. -/
def PayloadBound (key : String) (s : PayloadState) : Prop :=
  ∀ h, s.first = some h → ∀ g ttl answers, g ≠ h →
    ((ManagerCall.checkOrAcquire g ttl).run key answers s.world).1 = .error tamperingError

/-- What an operation needs to keep the key bound, in the state before it:
- the first `check_or_acquire` has a hash that is not empty, and if there is a record in progress
  or completed by then, it has the same hash;
- after it, `record_success` is given this hash, and there is no `record_failure`. -/
def PayloadOp.KeepsHash (key : String) (s : PayloadState) : PayloadOp → Prop
  | .call (.checkOrAcquire g _) _ => s.first = none → g ≠ "" ∧
      ∀ record, s.world.idem key = some record →
        record.state = some .inProgress ∨ record.state = some .completed →
          record.requestHash = some g
  | .call (.recordSuccess g ..) _ => ∀ h, s.first = some h → g = h
  | .call (.recordFailure ..) _ => s.first = none
  | .world _ => True

inductive Written : IdempotencyDoc → Prop
  | inProgress (hash : String) : Written (.inProgress hash)
  | completed (hash : String) (code : Nat) (body : PaymentChargeResponse) :
      Written (.completedRecord hash code body)
  | failed (error : Option String) : Written (.failedRecord error)

structure PayloadState.Ok (key : String) (s : PayloadState) : Prop where
  written : ∀ record, s.world.idem key = some record → Written record
  first : s.world.idem key = none → s.first = none

section Step

variable {key : String} {s : PayloadState}

lemma ManagerCall.written_after (c : ManagerCall)
    (h : ∀ record, old = some record → Written record) :
    ∃ record, c.after old = some record ∧ Written record := by
  cases c with
  | recordSuccess hash code body => exact ⟨_, rfl, .completed hash code body⟩
  | recordFailure error => exact ⟨_, rfl, .failed error⟩
  | checkOrAcquire hash =>
    cases old with
    | none => exact ⟨_, rfl, .inProgress hash⟩
    | some record =>
      have hrecord := h record rfl
      simp only [ManagerCall.after]
      split
      · exact ⟨record, rfl, hrecord⟩
      · split
        · exact ⟨record, rfl, hrecord⟩
        · exact ⟨record, rfl, hrecord⟩
        · exact ⟨_, rfl, .inProgress hash⟩

lemma PayloadState.note_ok {checked : Option String}
    (hw : ∀ record, w.idem key = some record → Written record) : (s.note key checked w).Ok key :=
  ⟨hw, fun hn => if_pos hn⟩

lemma PayloadState.Ok.step (h : s.Ok key) (op : PayloadOp) : (s.step key op).Ok key := by
  cases op with
  | call c =>
    refine PayloadState.note_ok fun record hr => ?_
    obtain ⟨record', hr', hw⟩ := c.written_after h.written
    rw [c.run_idem, hr'] at hr
    cases hr
    exact hw
  | world e =>
    refine PayloadState.note_ok fun record hr => ?_
    cases e with
    | expireIdem k =>
      by_cases hk : key = k
      · subst hk
        simp [LedgerEnv.exec] at hr
      · exact h.written record (by simpa only [LedgerEnv.exec, update_of_ne hk] using hr)
    | expireLock | expireVelocity => exact h.written record hr

lemma payloadBound_iff (h : s.Ok key) : PayloadBound key s ↔
      ∀ g, s.first = some g → g ≠ "" ∧ (s.world.idem key).bind (·.requestHash) = some g := by
  refine forall_congr' fun g => imp_congr_right fun hg => ?_
  have hrecord : ∃ record, s.world.idem key = some record := by
    cases hr : s.world.idem key with
    | some record => exact ⟨record, rfl⟩
    | none =>
      rw [h.first hr] at hg
      cases hg
  obtain ⟨record, hr⟩ := hrecord
  rw [hr, bind_some, ← record.tampered_forall_iff]
  simp only [raises_tampering_iff, hr, Option.some.injEq, exists_eq_left']
  exact ⟨fun hall k hk => hall k 0 (fun _ => {}) hk, fun hall k _ _ hk => hall k hk⟩

lemma payloadBound_call_iff (h : s.Ok key) :
    PayloadBound key (s.step key (.call c answers)) ↔ ∀ g, s.first.or c.checked = some g →
      g ≠ "" ∧ (c.after (s.world.idem key)).bind (·.requestHash) = some g := by
  obtain ⟨record, hr, -⟩ := c.written_after h.written
  have hidem : (s.step key (.call c answers)).world.idem key = some record :=
    (c.run_idem key answers s.world).trans hr
  have hfirst : (s.step key (.call c answers)).first = s.first.or c.checked := by
    refine if_neg ?_
    rw [c.run_idem, hr]
    nofun
  rw [payloadBound_iff (h.step _), hidem, hfirst, hr]

lemma Written.after_check (hw : Written record) (hk : record.requestHash = some k) :
    (ManagerCall.checkOrAcquire g ttl).after (some record) = some record := by
  simp only [ManagerCall.after]
  split
  · rfl
  · cases hw with
    | inProgress | completed => rfl
    | failed => cases hk

lemma check_keeps_iff (h : s.Ok key) (hb : PayloadBound key s) :
    PayloadBound key (s.step key (.call (.checkOrAcquire g ttl) answers)) ↔
      PayloadOp.KeepsHash key s (.call (.checkOrAcquire g ttl) answers) := by
  rw [payloadBound_iff h] at hb
  rw [payloadBound_call_iff h]
  simp only [PayloadOp.KeepsHash]
  cases hf : s.first with
  | some k =>
    -- the record has the first hash, so it stays
    obtain ⟨hne, hhash⟩ := hb k hf
    obtain ⟨record, hr, hk⟩ := bind_eq_some_iff.mp hhash
    rw [hr, (h.written record hr).after_check hk]
    simp [hne, hk]
  | none =>
    simp only [none_or, checked, Option.some.injEq, forall_eq', true_imp_iff]
    refine and_congr_right fun _ => ?_
    cases hr : s.world.idem key with
    | none => simp [ManagerCall.after, inProgress]
    | some record =>
      cases h.written record hr with
      | inProgress k =>
        rw [(Written.inProgress k).after_check rfl]
        simp [inProgress]
      | completed k code body =>
        rw [(Written.completed k code body).after_check rfl]
        simp [completedRecord]
      | failed =>
        simp [ManagerCall.after, tampered, failedRecord,
          inProgress]

lemma payload_keeps_iff (h : s.Ok key) (hb : PayloadBound key s) :
    PayloadBound key (s.step key op) ↔ op.KeepsHash key s := by
  cases op with
  | call c answers =>
    cases c with
    | checkOrAcquire g ttl => exact check_keeps_iff h hb
    | recordSuccess =>
      rw [payloadBound_iff h] at hb
      rw [payloadBound_call_iff h]
      simp only [PayloadOp.KeepsHash, checked, or_none, ManagerCall.after,
        completedRecord, bind_some, Option.some.injEq]
      exact forall_congr' fun k => imp_congr_right fun hk => and_iff_right (hb k hk).1
    | recordFailure =>
      rw [payloadBound_call_iff h]
      simp [PayloadOp.KeepsHash, checked, ManagerCall.after,
        failedRecord, eq_none_iff_forall_ne_some]
  | world e =>
    refine iff_of_true ?_ trivial
    rw [payloadBound_iff (h.step _)]
    rw [payloadBound_iff h] at hb
    intro g hg
    simp only [PayloadState.step, PayloadState.note, or_none] at hg ⊢
    split at hg
    · cases hg
    · rename_i hrecord
      have hsame : (e.exec s.world).idem key = s.world.idem key := by
        cases e with
        | expireIdem k =>
          have hk : key ≠ k := by
            rintro rfl
            exact hrecord (by simp [LedgerEnv.exec])
          simp only [LedgerEnv.exec, update_of_ne hk]
        | expireLock | expireVelocity => rfl
      rw [hsame]
      exact hb g hg

end Step

/-- **A key is bound to the payload of its first request** in every state of a history, exactly
when every operation keeps the hash (`PayloadOp.KeepsHash`). -/
theorem payload_bound_iff (key : String) (w : World) (hw : w.idem key = none)
    (ops : List PayloadOp) :
    Steps.Always (PayloadState.step key) (PayloadBound key) { world := w } ops ↔
      Steps.Along (PayloadState.step key) (PayloadOp.KeepsHash key) { world := w } ops := by
  refine Steps.always_iff_along (I := fun s => s.Ok key) (fun s op h _ => h.step op)
    (fun s op h hb => payload_keeps_iff h hb) ?_ ?_
  · refine ⟨fun record hr => ?_, fun _ => rfl⟩
    rw [hw] at hr
    cases hr
  · nofun

/-! ### A retry with another payload -/

/-- A request with the hash `a1`, and the record of its result. -/
def requestThen (result : ManagerCall) : List PayloadOp :=
  [.call (.checkOrAcquire "a1" 86400) fun _ => {}, .call result fun _ => {}]

/-- The request succeeds: the key stays bound to `a1`. -/
theorem payload_bound_success :
    Steps.Always (PayloadState.step "key-0001") (PayloadBound "key-0001") { world := {} }
      (requestThen (.recordSuccess "a1" 201 ⟨1, "order-1", 50, "BDT", "succeeded", 0⟩ 86400)) := by
  refine (payload_bound_iff "key-0001" {} rfl _).mpr ⟨fun _ => ⟨by decide, fun record hr => ?_⟩, ?_,
    trivial⟩
  · cases hr
  · intro h hh
    exact Option.some.inj hh

def failedRequest : PayloadState :=
  (requestThen (.recordFailure none 3600)).foldl (PayloadState.step "key-0001") { world := {} }

/-- The request fails: a `check_or_acquire` with the hash `b2` claims the key. -/
theorem payload_unbound_failure : failedRequest.first = some "a1" ∧
      ((ManagerCall.checkOrAcquire "b2" 86400).run "key-0001" (fun _ => {})
        failedRequest.world).1 = .ok () ∧
      ¬ Steps.Always (PayloadState.step "key-0001") (PayloadBound "key-0001") { world := {} }
        (requestThen (.recordFailure none 3600)) := by
  have hfirst : failedRequest.first = some "a1" := by decide +kernel
  have hrun : ((ManagerCall.checkOrAcquire "b2" 86400).run "key-0001" (fun _ => {})
      failedRequest.world).1 = .ok () := by decide +kernel
  refine ⟨hfirst, hrun, fun h => ?_⟩
  have hraises := h.last "a1" hfirst "b2" 86400 (fun _ => {}) (by decide)
  cases hraises

end CleanArch
