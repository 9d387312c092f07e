import CleanArch.Ledger.Calls
import CleanArch.Ledger.Plan

/-!
# The specification of a transfer

One proof of `transfer_funds` for all its uses: a call alone, and calls that interleave with others.
The protocol of a use is a parameter, and so is what the use wants to know at each point of the call
(`TransferFacts`). `TransferFacts.Lawful` has what a use must show.
-/

namespace CleanArch

open Async Prog Protocol

/-- The response that a record stores: `status == "COMPLETED"`, with its data. -/
def storedResponse (doc : Option IdempotencyDoc) : Option FundTransferResponse :=
  match doc.bind (·.status), doc.bind (·.data) with
  | some .completed, some r => some r
  | _, _ => none

def TransferQuiet (a : TransferArgs) (token : Token) : LedgerCmd → Prop
  | .db c => c ≠ .commit
  | .redis (.set ..) => False
  | .redis (.setNx r doc _) => r = a.referenceId ∧ doc = .processing
  | .redis (.delete r) => r = a.referenceId
  | .redis (.lockSetNx _ tok _) => tok = token
  | .redis (.lockRelease _ tok) => tok = token
  | .redis _ => True
  | .proc _ => True
  | .processCharge .. => False

variable {a : TransferArgs} {token : Token} {c : LedgerCmd}

lemma TransferQuiet.ne_commit (h : TransferQuiet a token c) : c ≠ .db .commit := by
  rintro rfl
  exact h rfl

def OffDb (a : TransferArgs) (token : Token) : LedgerCmd → Prop
  | .db _ => False
  | c => TransferQuiet a token c

lemma OffDb.quiet (h : OffDb a token c) : TransferQuiet a token c := by
  cases c with
  | db => exact h.elim
  | _ => exact h

def Aside (token : Token) : LedgerCmd → Prop
  | .redis (.lockSetNx _ tok _) => tok = token
  | .redis (.lockRelease _ tok) => tok = token
  | .redis (.sismember _) | .redis (.zremrangebyscore ..) | .redis (.zrange _) => True
  | .redis (.zadd ..) => True
  | .proc _ => True
  | _ => False

def LockRequest (token : Token) : LedgerCmd → Prop
  | .redis (.lockSetNx _ tok _) => tok = token
  | .redis (.lockRelease _ tok) => tok = token
  | _ => False

lemma LockRequest.aside (h : LockRequest token c) : Aside token c := by
  unfold LockRequest at h
  split at h <;> trivial

lemma Aside.offDb (h : Aside token c) : OffDb a token c := by
  unfold Aside at h
  split at h <;> trivial

structure TransferFacts where
  start : World → Prop
  before : Ledger → Prop
  funded : LedgerAccountEntity → World → Prop
  committed : TransferPlan → Ledger → Prop
  replayed : FundTransferResponse → Ledger → Prop
  failed : Ledger → Prop

/-- What a use must show; what it does not ask for, it need not prove. -/
structure TransferFacts.Lawful [PyStr] (F : TransferFacts) (P : Protocol ledgerMachine) (t : Tid)
    (token : Token) (deps : TransferDeps) (a : TransferArgs) : Prop where
  grows : ∀ s s', P.rely t s s' → s.db.Grows s'.db
  start_stable : ∀ s s', F.start s → P.Later t s s' → F.start s' := by intros; trivial
  before_stable : ∀ s s', F.before s.db → P.Later t s s' → F.before s'.db := by
    intros; trivial
  funded_stable : ∀ acc s s', F.funded acc s → P.Later t s s' → F.funded acc s' := by
    intros; trivial
  committed_stable : ∀ plan s s', F.committed plan s.db → P.Later t s s' →
    F.committed plan s'.db := by intros; trivial
  replayed_stable : ∀ r s s', F.replayed r s.db → P.Later t s s' →
    F.replayed r s'.db := by intros; trivial
  failed_stable : ∀ s s', F.failed s.db → P.Later t s s' → F.failed s'.db := by
    intros; trivial
  failed_of_start : ∀ s, F.start s → F.failed s.db := by intros; trivial
  failed_of_before : ∀ d, F.before d → F.failed d := by intros; trivial
  failed_of_committed : ∀ plan d, F.committed plan d → F.failed d := by intros; trivial
  before_of_funded : ∀ acc s, F.funded acc s → F.before s.db := by intros; trivial
  quiet : ∀ c o l s, TransferQuiet a token c → P.inv s → P.ok t c l s o → P.Keeps t c o l s
  replay : ∀ r s, P.inv s → F.start s → Preflight a → deps.redis = true →
    storedResponse (s.idem a.referenceId) = some r → F.replayed r s.db
  fresh : ∀ s, P.inv s → F.start s →
    (deps.redis = true → storedResponse (s.idem a.referenceId) = none) → F.before s.db
  check : ∀ acc s, P.inv s → F.before s.db → s.db.getAccountById a.sourceAccountId = some acc →
    a.totalRequired ≤ normalBalance acc.accountType
      (s.db.getAccountBalanceAggregates a.sourceAccountId) → F.funded acc s
  commit : ∀ plan o l s, P.inv s → F.funded plan.source s → Ready a plan l.staged s.db →
    P.ok t (.db .commit) l s o → P.Keeps t (.db .commit) o l s ∧
      (s.db.Free l.staged → F.committed plan (s.db ++ l.staged))
  complete : ∀ plan r o l s, P.inv s → F.committed plan s.db → Answers a plan r →
    P.ok t (.redis (.set a.referenceId (.completed r) 86400)) l s o →
    P.Keeps t (.redis (.set a.referenceId (.completed r) 86400)) o l s

/-! ## The requests of the parts -/

section Within

variable (useRedis : Bool)

lemma isAccountBlacklisted_within (id : UUID) :
    (isAccountBlacklisted useRedis id).Within (Aside token) okE := by
  refine within_call_bind trivial fun b => ?_
  refine within_ite (fun _ => trivial) fun _ => within_ite (fun _ => ?_) fun _ => trivial
  exact within_handle (within_call trivial) fun _ _ => trivial

lemma memoryVelocity_within (id : UUID) :
    (memoryVelocity id windowStart).Within (Aside token) okE :=
  within_call_bind trivial fun _ =>
    within_call_bind trivial fun _ => trivial

lemma getAccountVelocity_within (id : UUID) :
    (getAccountVelocity useRedis id lookback).Within (Aside token) okE := by
  refine within_call_bind trivial fun now => ?_
  refine within_ite (fun _ => ?_) fun _ => memoryVelocity_within id
  refine within_handle ?_ fun _ _ => memoryVelocity_within id
  exact within_call_bind trivial fun _ =>
    within_call_bind trivial fun _ => trivial

lemma evaluateTransfer_within :
    (evaluateTransfer useRedis source dest amount).Within (Aside token) okE :=
  within_bind (isAccountBlacklisted_within useRedis dest) fun _ =>
    within_bind (getAccountVelocity_within useRedis source) fun _ => trivial

lemma recordSuccessfulTransfer_within :
    (recordSuccessfulTransfer useRedis source amount).Within (Aside token) okE := by
  refine within_call_bind trivial fun now => ?_
  refine within_call_bind trivial fun nonce => ?_
  have hmem : ((proc (.memVelocity source)).bind fun entries =>
      proc (.setMemVelocity source (entries ++ [(now, amount)]))).Within (Aside token) okE :=
    within_call_bind trivial fun _ => within_call trivial
  exact within_ite (fun _ => within_handle (within_call trivial) fun _ _ => hmem) fun _ => hmem

lemma acquire_locks (hE : ∀ k, okE (.lockAcquisitionTimeout k)) :
    (acquire k token tries).Within (LockRequest token) okE := by
  induction tries with
  | zero =>
    exact within_call_bind rfl fun _ =>
      within_ite (fun _ => trivial) fun _ => hE k
  | succ n ih =>
    exact within_call_bind rfl fun _ =>
      within_ite (fun _ => trivial) fun _ => ih

lemma releaseAll_locks (ks : List UUID) : (releaseAll token ks).Within (LockRequest token) okE := by
  induction ks with
  | nil => trivial
  | cons k ks ih =>
    exact within_bind (within_handle (within_call rfl) fun _ _ => trivial) fun _ => ih

lemma acquireAll_locks (hE : ∀ k, okE (.lockAcquisitionTimeout k)) (tries : Nat)
    (ks acquired : List UUID) :
    (acquireAll token tries ks acquired).Within (LockRequest token) okE := by
  induction ks generalizing acquired with
  | nil => trivial
  | cons k ks ih =>
    refine within_bind (within_handle (acquire_locks hE) fun e he => ?_) fun _ => ih _
    exact within_bind (releaseAll_locks acquired) fun _ => he

lemma releaseAll_within : (releaseAll token ks).Within (Aside token) okE :=
  (releaseAll_locks ks).mono fun _ => LockRequest.aside

lemma acquireAll_within (hE : ∀ k, okE (.lockAcquisitionTimeout k)) :
    (acquireAll token tries ks acquired).Within (Aside token) okE :=
  (acquireAll_locks hE tries ks acquired).mono fun _ => LockRequest.aside

lemma releaseReference_within : (releaseReference a.referenceId).Within (OffDb a token) okE := by
  refine within_handle (within_call_bind trivial fun doc => ?_) fun _ _ => trivial
  exact within_ite (fun _ => within_call rfl) fun _ => trivial

end Within

/-! ## Clearing accounts -/

/-- An account that a call resolves by its number, in a session `l`, against the committed rows
`d`: the session sees it, or stages it. -/
inductive Resolved [PyStr] (d : Ledger) (l : Session) (number : String) (type : AccountType)
    (currency : String) (acc : LedgerAccountEntity) : Session → Prop
  | found (h : (l.view d).getAccountByNumber number = some acc) :
      Resolved d l number type currency acc l
  | created (hn : acc.accountNumber = number) (ht : acc.accountType = type)
      (hc : acc.currency = PyStr.upper currency)
      (hf : (l.view d).Free { accounts := [acc] }) :
      Resolved d l number type currency acc (l.stage { accounts := [acc] })

section Rules

variable {P : Protocol ledgerMachine} {α : Type}

lemma wp_getOrCreateAccount [PyStr] (hQ : P.Stable t Q) (hk : DbKeeps P t)
    {k : LedgerAccountEntity → LedgerProg α}
    (hok : ∀ acc l' s', P.Later t s s' → Resolved s'.db l number type currency acc l' →
      P.wp t (k acc) Q l' s')
    (herr : ∀ e l' s', e.isUnbalanced = false → P.Later t s s' → Q (.error e) l' s') :
    P.wp t ((getOrCreateAccount number name type currency).bind k) Q l s := by
  rw [getOrCreateAccount, bind_eq, bind_assoc]
  refine wp_read hQ hk (f := (·.getAccountByNumber number)) (fun s' hr => ?_)
    fun s' hr => herr _ _ _ rfl hr
  cases h : (l.view s'.db).getAccountByNumber number with
  | some acc => exact hok acc l s' hr (.found h)
  | none =>
    refine wp_insert hQ hk (fun o s'' hr' hf => ?_)
      fun e l' s'' he hr' => herr e l' s'' he (hr.trans hr')
    exact hok _ _ s'' (hr.trans hr') (.created rfl rfl rfl hf)

lemma wp_loadAccount (hQ : P.Stable t Q) (hk : DbKeeps P t) {id : UUID}
    {k : LedgerAccountEntity → LedgerProg α}
    (hok : ∀ acc s', P.Later t s s' → (l.view s'.db).getAccountById id = some acc →
      P.wp t (k acc) Q l s')
    (herr : ∀ e s', e.isUnbalanced = false → P.Later t s s' → Q (.error e) l s') :
    P.wp t ((loadAccount role id).bind k) Q l s := by
  rw [loadAccount, bind_eq, bind_assoc]
  refine wp_read hQ hk (f := (·.getAccountById id)) (fun s' hr => ?_)
    fun s' hr => herr _ _ rfl hr
  cases h : (l.view s'.db).getAccountById id with
  | none => exact hQ.raise (herr _ _ rfl hr)
  | some acc =>
    show P.wp t (Prog.bind (if acc.isActive = true then Prog.ret acc
      else Prog.raise (.inactiveLedgerAccount role id)) k) Q l s'
    split
    · exact hok acc s' hr h
    · exact hQ.raise (herr _ _ rfl hr)

end Rules

/-! ## The unit of work -/

/-- A unit of work: its body starts with no staged rows. An exception of the session itself can
replace any result of the body. -/
lemma wp_asyncWithUow {α : Type} (hq : Quiet P t okC) (hdb : ∀ c, c ≠ DbCmd.commit → okC (.db c))
    {R : Except LedgerError α → Ledger → Prop}
    (hR : ∀ r (s s' : World), R r s.db → P.Later t s s' → R r s'.db)
    (hweak : ∀ r e d, R r d → e.isUnbalanced = false → R (.error e) d) {body : LedgerProg α}
    (hbody : ∀ s', P.Later t s s' → P.wp t body (fun r _ s => R r s.db) {} s')
    (herr : ∀ s', P.Later t s s' → R (.error .databaseError) s'.db) :
    P.wp t (asyncWithUow body) (fun r _ s => R r s.db) l s := by
  have hQ : P.Stable t fun r (_ : Session) (s : World) => R r s.db := fun r _ => hR r
  have hclose : (db .closeSession).Within okC (·.isUnbalanced = false) :=
    within_call (hdb _ nofun)
  refine wp_reset hQ (fun c o l s hc => hq.keeps _ o l s (hdb c hc)) (fun s1 hr1 => ?_)
    fun l' s' hr => herr s' hr
  refine wp_bind (wp_handle (wp_mono (hbody s1 hr1) ?_))
  intro r l2 s2 hi2 hr2
  cases r with
  | ok a =>
    exact hq.seq hclose (hR (.ok a)) hr2 (fun _ _ s' _ h => hQ.ret h)
      fun e _ s' he h => hweak _ _ _ h he
  | error e =>
    have hroll : ((db .rollback).handle fun e' => (db .closeSession).bind fun _ => .raise e').Within
        okC (·.isUnbalanced = false) :=
      within_handle (within_call (hdb _ nofun)) fun e' he' =>
        within_bind hclose fun _ => he'
    refine hq.seq hroll (hR (.error e)) hr2 (fun _ l' s' _ h => ?_)
      fun e' _ s' he h => hweak _ _ _ h he
    exact hq.seq hclose (hR (.error e)) h (fun _ l' s' _ h => hQ.raise (l := l') h)
      fun e' _ s' he h => hweak _ _ _ h he

/-! ### The session that resolves clearing accounts -/

section Clearing

variable [PyStr]

lemma treasuryNumber_inj {c c' : String} (h : treasuryNumber c = treasuryNumber c') :
    clean c = clean c' :=
  (String.append_right_inj _).mp h

structure Clearings (staged : Ledger) : Prop where
  entries : staged.entries = []
  outbox : staged.outbox = []
  batches : staged.batches = []
  keyed : staged.Keyed
  fresh : ∀ x ∈ staged.accounts, ∃ c, x.accountNumber = treasuryNumber c ∧
    x.accountType = .liability ∧ x.currency = PyStr.upper (clean c)

lemma Clearings.empty : Clearings Ledger.empty :=
  ⟨rfl, rfl, rfl, .empty, fun _ h => nomatch h⟩

lemma Resolved.clearing (hl : Clearings l.staged)
    (h : Resolved d l (treasuryNumber currency) .liability (clean currency) fx l') :
    Clearings l'.staged ∧ Clearing d l'.staged currency fx ∧ l.staged.Grows l'.staged ∧
      ∀ x ∈ l'.staged.accounts, x ∈ l.staged.accounts ∨ x = fx := by
  cases h with
  | found h =>
    refine ⟨hl, ?_, .refl _, fun x hx => .inl hx⟩
    rw [Session.view, Ledger.getAccountByNumber_append] at h
    rcases Option.or_eq_some_iff.mp h with h | ⟨-, h⟩
    · exact .inl h
    · obtain ⟨hm, hn⟩ := Ledger.getAccountByNumber_some h
      obtain ⟨c, hc, ht, hcur⟩ := hl.fresh fx hm
      exact .inr ⟨h, ht, by rw [hcur, treasuryNumber_inj (hc.symm.trans hn)]⟩
  | created hn ht hc hf =>
    have hfree := hf.of_append.2
    have hnone : l.staged.getAccountByNumber (treasuryNumber currency) = none := by
      refine List.find?_eq_none.mpr fun x hx => ?_
      simpa [hn] using (hfree.accounts fx (List.mem_singleton.mpr rfl) x hx).2
    refine ⟨⟨?_, ?_, ?_, ?_, ?_⟩, .inr ⟨?_, ht, hc⟩, .append _ _, ?_⟩
    · simp [hl.entries]
    · simp [hl.outbox]
    · simp [hl.batches]
    · refine hl.keyed.append ?_ hfree
      constructor <;> simp
    · intro x hx
      rcases List.mem_append.mp hx with hx | hx
      · exact hl.fresh x hx
      · rw [List.mem_singleton.mp hx]
        exact ⟨currency, hn, ht, hc⟩
    · rw [Session.stage_staged, Ledger.getAccountByNumber_append, hnone, Option.none_or]
      simp [Ledger.getAccountByNumber, hn]
    · intro x hx
      exact (List.mem_append.mp hx).imp_right List.mem_singleton.mp

lemma Clearings.ready {l : Session} (hp : Preflight a) (hl : Clearings l.staged)
    (hload : Loaded a source dest d)
    (hq : destinationAmount a source.currency dest.currency = .ok quote)
    (hlegs : LegsReady a source dest quote.1 d l.staged legs) (hps : buildPostings legs = .ok ps)
    (he : e.referenceId = a.referenceId) (hrows : e.postings.map (·.leg) = ps.map (·.leg))
    (hx : x.payload = transferEvent a eventId source.currency e.postedAt) :
    Ready a ⟨source, dest, quote, legs, e, x⟩
      ((l.stage { entries := [e] }).stage { outbox := [x] }).staged d where
  preflight := hp
  loaded := hload
  quote := hq
  legs := hlegs.congr (by simp)
  valid _ hg := buildPostings_valid hps hg
  postings := hrows.trans (buildPostings_legs hps)
  reference := he
  event := ⟨eventId, hx⟩
  entries := by simp [hl.entries]
  outbox := by simp [hl.outbox]
  batches := by simp [hl.batches]
  keyed := by
    have h := hl.keyed
    constructor <;> simp [hl.entries, hl.outbox, hl.batches, h.accountIds, h.accountNumbers]

end Clearing

/-! ## Inside the unit of work -/

namespace TransferFacts

/-- How a call ends: it answers a committed plan, it replays a stored response, or it raises. -/
def Outcome (F : TransferFacts) (a : TransferArgs) :
    Except LedgerError FundTransferResponse → Ledger → Prop
  | .ok r, d => (∃ plan, F.committed plan d ∧ Answers a plan r) ∨ F.replayed r d
  | .error e, d => F.failed d ∧ e.isUnbalanced = false

def Done (F : TransferFacts) (a : TransferArgs) :
    Except LedgerError FundTransferResponse → Ledger → Prop
  | .ok r, d => ∃ plan, F.committed plan d ∧ Answers a plan r
  | .error e, d => F.failed d ∧ e.isUnbalanced = false

namespace Lawful

variable [PyStr] {F : TransferFacts} {P : Protocol ledgerMachine} {t : Tid} {token : Token}
  {deps : TransferDeps} {a : TransferArgs} (H : F.Lawful P t token deps a)

include H

lemma done_stable : P.Stable t fun r (_ : Session) (s : World) => F.Done a r s.db := by
  intro r l s s' h hr
  cases r with
  | ok =>
    obtain ⟨plan, hc, ha⟩ := h
    exact ⟨plan, H.committed_stable _ _ _ hc hr, ha⟩
  | error => exact ⟨H.failed_stable _ _ h.1 hr, h.2⟩

lemma db_keeps : DbKeeps P t := fun c o l s hc => H.quiet (.db c) o l s hc

lemma wp_transferLegs {α : Type} {Q : LedgerPost α} (hQ : P.Stable t Q)
    {k : List Leg → LedgerProg α} (hi : P.inv s)
    (hok : ∀ legs l' s', P.Later t s s' → Clearings l'.staged →
      LegsReady a source dest destAmount s'.db l'.staged legs → P.wp t (k legs) Q l' s')
    (herr : ∀ e l' s', e.isUnbalanced = false → P.Later t s s' → Q (.error e) l' s') :
    P.wp t ((transferLegs a source dest destAmount).bind k) Q {} s := by
  unfold transferLegs
  split
  · rename_i hc
    exact hok _ _ _ (.refl hi) .empty (.single hc rfl)
  · rename_i hc
    rw [bind_eq, bind_assoc]
    refine wp_getOrCreateAccount hQ H.db_keeps (fun fx1 l1 s1 hr1 h1 => ?_) herr
    obtain ⟨hl1, hc1, -, hx1⟩ := h1.clearing .empty
    rw [bind_eq, bind_assoc]
    refine wp_getOrCreateAccount hQ H.db_keeps (fun fx2 l2 s2 hr2 h2 => ?_)
      fun e l' s' he hr => herr e l' s' he (hr1.trans hr)
    obtain ⟨hl2, hc2, hg2, hx2⟩ := h2.clearing hl1
    refine hok _ _ _ (hr1.trans hr2) hl2 (.cross hc fx1 fx2 ?_ hc2 fun x hx => ?_)
    · exact (hc1.mono (H.grows _ _ hr2.rely)).stage hg2
    · exact (hx2 x hx).imp_left fun h => (hx1 x h).resolve_left nofun

lemma postTransfer_wp (hp : Preflight a) (hi : P.inv s) (hf : F.funded source s)
    (hl : Clearings l.staged) (hload : Loaded a source dest s.db)
    (hq : destinationAmount a source.currency dest.currency = .ok quote)
    (hlegs : LegsReady a source dest quote.1 s.db l.staged legs) :
    P.wp t (postTransfer a flagged source dest quote legs) (fun r _ s => F.Done a r s.db) l s := by
  have hQ := H.done_stable
  have hfail : ∀ s', P.Later t s s' → F.failed s'.db := fun s' hr =>
    H.failed_of_before _ (H.before_of_funded _ _ (H.funded_stable _ _ _ hf hr))
  refine hQ.ofExcept_bind (fun ps hps => ?_) fun e he =>
    ⟨hfail s (.refl hi), by rw [buildPostings_error he]; rfl⟩
  refine hQ.ofExcept_bind (fun _ _ => ?_) fun e he => ?_
  swap
  · -- the legs of both paths balance
    rw [checkZeroSum_ok hps (hlegs.balanced hp)] at he
    cases he
  refine wp_insert hQ H.db_keeps (fun o1 s1 hr1 _ => ?_) fun e l' s' he hr => ⟨hfail s' hr, he⟩
  refine wp_uuid hQ (fun o s => H.quiet _ o _ s trivial) fun eventId s2 hr2 => ?_
  have hr2 := hr1.trans hr2
  refine wp_insert hQ H.db_keeps (fun o3 s3 hr3 _ => ?_)
    fun e l' s' he hr => ⟨hfail s' (hr2.trans hr), he⟩
  have hr3 := hr2.trans hr3
  -- everything is decided: the plan is the one that the session has staged
  let e : JournalEntryEntity := ⟨o1.ids 0, a.referenceId, a.description, o1.now,
    postingRows (o1.ids 0) o1.now (fun n => o1.ids (n + 1)) ps, flagged⟩
  let x : OutboxEventModel := ⟨o3.ids 0, "ledger.transfers.v1", "ledger.transfer.completed.v1",
    a.sourceAccountId, transferEvent a eventId source.currency e.postedAt, .pending⟩
  have hready : ∀ s', P.Later t s s' → Ready a ⟨source, dest, quote, legs, e, x⟩
      ((l.stage { entries := [e] }).stage { outbox := [x] }).staged s'.db := fun s' hr =>
    (hl.ready hp hload hq hlegs hps rfl (postingRows_legs _ _ _) rfl).mono
      (H.grows _ _ hr.rely)
  have hcommit := fun o s' (hr : P.Later t s s') ho => H.commit ⟨source, dest, quote, legs, e, x⟩ o
    ((l.stage { entries := [e] }).stage { outbox := [x] }) s' hr.inv
    (H.funded_stable _ _ _ hf hr) (hready s' hr) ho
  refine wp_commit hQ (fun o s' hr ho => (hcommit o s' (hr3.trans hr) ho).1)
    (fun o s' hr ho hfree => ?_) fun e s' he hr => ⟨hfail s' (hr3.trans hr), he⟩
  have hc := (hcommit o s' (hr3.trans hr) ho).2 hfree
  refine ⟨?_, H.failed_of_committed _ _ hc, rfl⟩
  -- the new balances
  refine wp_read hQ H.db_keeps (f := (·.getAccountBalanceAggregates a.sourceAccountId))
    (fun s4 hr4 => ?_) fun s4 hr4 =>
    ⟨H.failed_of_committed _ _ (H.committed_stable _ _ s4 hc hr4), rfl⟩
  have hc4 := H.committed_stable _ _ s4 hc hr4
  refine wp_read hQ H.db_keeps (f := (·.getAccountBalanceAggregates a.destinationAccountId))
    (fun s5 hr5 => ?_)
    fun s5 hr5 => ⟨H.failed_of_committed _ _ (H.committed_stable _ _ s5 hc4 hr5), rfl⟩
  exact hQ.ret ⟨_, H.committed_stable _ _ s5 hc4 hr5, _, _, rfl⟩

lemma wp_loadFeeAccount {α : Type} {Q : LedgerPost α} (hQ : P.Stable t Q)
    {k : Unit → LedgerProg α} (hi : P.inv s)
    (hok : ∀ s', P.Later t s s' →
      (∀ id, a.feeAccount = some id → ∃ acc, s'.db.getAccountById id = some acc) →
      P.wp t (k ()) Q {} s')
    (herr : ∀ e s', e.isUnbalanced = false → P.Later t s s' → Q (.error e) {} s') :
    P.wp t ((loadFeeAccount a).bind k) Q {} s := by
  unfold loadFeeAccount
  cases hf : a.feeAccount with
  | none => exact hok s (.refl hi) fun id hid => by rw [hf] at hid; cases hid
  | some id =>
    show P.wp t (((loadAccount .fee id).bind fun _ => Prog.ret ()).bind k) Q {} s
    rw [bind_assoc]
    refine wp_loadAccount hQ H.db_keeps (fun acc s' hr hacc => ?_) herr
    refine hok s' hr fun id' hid => ⟨acc, ?_⟩
    rw [hf] at hid
    cases hid
    rwa [Session.view_empty] at hacc

lemma executeTransferInUow_wp (hp : Preflight a) (hb : F.before s.db) :
    P.wp t (executeTransferInUow a flagged) (fun r _ s => F.Done a r s.db) {} s := by
  have hQ := H.done_stable
  have hfail : ∀ {s s' : World}, F.before s.db → P.Later t s s' → F.failed s'.db :=
    fun hb hr => H.failed_of_before _ (H.before_stable _ _ hb hr)
  refine wp_read hQ H.db_keeps (f := (·.getJournalEntryByReference a.referenceId))
    (fun s1 hr1 => ?_) fun s' hr => ⟨hfail hb hr, rfl⟩
  have hb1 := H.before_stable _ _ hb hr1
  refine hQ.raiseIf_bind (fun _ => ?_) fun _ => ⟨H.failed_of_before _ hb1, rfl⟩
  refine wp_loadAccount hQ H.db_keeps (fun source s2 hr2 hsource => ?_)
    fun e s' he hr => ⟨hfail hb1 hr, he⟩
  have hb2 := H.before_stable _ _ hb1 hr2
  refine wp_loadAccount hQ H.db_keeps (fun dest s3 hr3 hdest => ?_)
    fun e s' he hr => ⟨hfail hb2 hr, he⟩
  have hb3 := H.before_stable _ _ hb2 hr3
  refine H.wp_loadFeeAccount hQ hr3.inv (fun s4 hr4 hfee => ?_)
    fun e s' he hr => ⟨hfail hb3 hr, he⟩
  have hb4 := H.before_stable _ _ hb3 hr4
  rw [Session.view_empty] at hsource hdest
  have hload : Loaded a source dest s4.db :=
    ⟨(H.grows _ _ (hr3.trans hr4).rely).getAccountById hsource,
      (H.grows _ _ hr4.rely).getAccountById hdest, hfee⟩
  refine hQ.ofExcept_bind (fun quote hquote => ?_) fun e he => ⟨H.failed_of_before _ hb4, ?_⟩
  swap
  · rcases destinationAmount_error he with rfl | harith
    · rfl
    · exact LedgerError.isUnbalanced_of_isArithmetic harith
  refine wp_read hQ H.db_keeps (f := (·.getAccountBalanceAggregates a.sourceAccountId))
    (fun s5 hr5 => ?_) fun s' hr => ⟨hfail hb4 hr, rfl⟩
  have hb5 := H.before_stable _ _ hb4 hr5
  have hload := hload.mono (H.grows _ _ hr5.rely)
  refine hQ.raiseIf_bind (fun hfunds => ?_) fun _ => ⟨H.failed_of_before _ hb5, rfl⟩
  rw [Session.view_empty, not_lt] at hfunds
  have hf5 := H.check source s5 hr5.inv hb5 hload.source hfunds
  refine H.wp_transferLegs hQ hr5.inv (fun legs l6 s6 hr6 hl6 hlegs => ?_)
    fun e l' s' he hr => ⟨hfail hb5 hr, he⟩
  exact H.postTransfer_wp hp hr6.inv (H.funded_stable _ _ _ hf5 hr6) hl6
    (hload.mono (H.grows _ _ hr6.rely)) hquote hlegs

/-! ## The call -/

lemma quiet_set : Quiet P t (TransferQuiet a token) :=
  ⟨H.quiet, fun _ => TransferQuiet.ne_commit⟩

lemma quiet_offDb : Quiet P t (OffDb a token) :=
  ⟨fun c o l s h => H.quiet c o l s h.quiet, fun _ h => h.quiet.ne_commit⟩

lemma quiet_aside : Quiet P t (Aside token) :=
  ⟨fun c o l s h => H.quiet_offDb.keeps c o l s h.offDb,
    fun c h => H.quiet_offDb.ne_commit c h.offDb⟩

lemma done_weak (h : F.Done a r d) (he : e.isUnbalanced = false) : F.Done a (.error e) d := by
  cases r with
  | ok =>
    obtain ⟨plan, hc, -⟩ := h
    exact ⟨H.failed_of_committed _ _ hc, he⟩
  | error => exact ⟨h.1, he⟩

lemma done_of_before (h : F.before d) (he : e.isUnbalanced = false) : F.Done a (.error e) d :=
  ⟨H.failed_of_before _ h, he⟩

lemma uow_wp (hp : Preflight a) (hb : F.before s.db) :
    P.wp t (asyncWithUow (executeTransferInUow a flagged)) (fun r _ s => F.Done a r s.db) l s :=
  wp_asyncWithUow H.quiet_set (fun _ h => h) (fun r => H.done_stable r {})
    (fun _ _ _ => H.done_weak)
    (fun _ hr => H.executeTransferInUow_wp hp (H.before_stable _ _ hb hr))
    fun _ hr => H.done_of_before (H.before_stable _ _ hb hr) rfl

lemma withAccountLocks_wp
    (hbody : ∀ l s, P.inv s → F.before s.db → P.wp t body (fun r _ s => F.Done a r s.db) l s)
    (hi : P.inv s) (hb : F.before s.db) :
    P.wp t (withAccountLocks deps token tries a body) (fun r _ s => F.Done a r s.db) l s := by
  have hQ := H.done_stable
  unfold withAccountLocks
  split
  · refine H.quiet_aside.seq (acquireAll_within (fun _ => rfl)) H.before_stable hb
      (fun acquired l1 s1 hi1 hb1 => ?_) fun e _ s' he hb' => H.done_of_before hb' he
    refine wp_bind (wp_handle (wp_mono (hbody l1 s1 hi1 hb1) ?_))
    intro r l2 s2 hi2 hr2
    cases r with
    | ok r =>
      exact H.quiet_aside.seq (releaseAll_within) (hQ (.ok r) {}) hr2
        (fun _ l' _ _ h => hQ.ret (l := l') h) fun e _ _ he h => H.done_weak h he
    | error e =>
      exact H.quiet_aside.seq (releaseAll_within) (hQ (.error e) {}) hr2
        (fun _ l' _ _ h => hQ.raise (l := l') h) fun e _ _ he h => H.done_weak h he
  · exact hbody l s hi hb

lemma screenedTransfer_wp (hp : Preflight a) (hb : F.before s.db) :
    P.wp t (screenedTransfer deps token tries a) (fun r _ s => F.Done a r s.db) l s := by
  have hQ := H.done_stable
  refine H.quiet_aside.seq (evaluateTransfer_within _) H.before_stable hb
    (fun assessment l1 s1 hi1 hb1 => ?_) fun e _ s' he hb' => H.done_of_before hb' he
  refine hQ.raiseIf_bind (fun _ => ?_) fun _ => H.done_of_before hb1 rfl
  refine wp_bind (wp_mono
    (H.withAccountLocks_wp (fun _ _ _ hb => H.uow_wp hp hb) hi1 hb1) ?_)
  intro r l2 s2 hi2 hr2
  cases r with
  | error => exact hr2
  | ok r =>
    refine H.quiet_aside.seq (recordSuccessfulTransfer_within _)
      (hQ (.ok r) {}) hr2 (fun _ l3 s3 hi3 hr3 => ?_)
      fun e _ s' he h => H.done_weak h he
    unfold recordCompleted
    split
    · -- the completion record names the committed plan
      refine wp_redis hQ (fun o s' hr ho => ?_) (fun s' hr => hQ.ret ?_) fun s' hr => ?_
      · obtain ⟨plan, hc, ha⟩ := hQ (.ok r) {} _ s' hr3 hr
        exact H.complete plan r o l3 s' hr.inv hc ha ho
      · exact hQ (.ok r) {} _ s' hr3 hr
      · exact ⟨H.done_weak (hQ (.ok r) {} _ s' hr3 hr) rfl,
          H.done_weak (hQ (.ok r) {} _ s' hr3 hr) rfl⟩
    · exact hQ.ret hr3

lemma outcome_stable : P.Stable t fun r (_ : Session) (s : World) => F.Outcome a r s.db := by
  intro r l s s' h hr
  cases r with
  | ok =>
    rcases h with ⟨plan, hc, ha⟩ | h
    · exact .inl ⟨plan, H.committed_stable _ _ _ hc hr, ha⟩
    · exact .inr (H.replayed_stable _ _ _ h hr)
  | error => exact ⟨H.failed_stable _ _ h.1 hr, h.2⟩

lemma wp_claimReference (hp : Preflight a) (hredis : deps.redis = true) (hs : F.start s)
    (hnew : ∀ l s', F.before s'.db → P.wp t (k none) (fun r _ s => F.Outcome a r s.db) l s')
    (hold : ∀ r s', F.replayed r s'.db →
      P.wp t (k (some r)) (fun r _ s => F.Outcome a r s.db) l s') :
    P.wp t ((claimReference a.referenceId).bind k) (fun r _ s => F.Outcome a r s.db) l s := by
  have hQ := H.outcome_stable
  have hfail : ∀ s', P.Later t s s' → F.failed s'.db := fun s' hr =>
    H.failed_of_start _ (H.start_stable _ _ hs hr)
  rw [claimReference, bind_eq, bind_assoc]
  refine wp_redis hQ (fun o s' hr => H.quiet _ o _ s' trivial hr.inv) (fun s' hr => ?_)
    fun s' hr => ⟨⟨hfail s' hr, rfl⟩, hfail s' hr, rfl⟩
  have hs' := H.start_stable _ _ hs hr
  -- without a stored response, the call claims the reference
  have hclaim : storedResponse (s'.idem a.referenceId) = none →
      P.wp t (((redis (.setNx a.referenceId .processing 60)).bind fun won =>
        if won = true then Prog.ret none
        else Prog.raise (.concurrentTransferInProgress a.referenceId)).bind k)
        (fun r _ s => F.Outcome a r s.db) l s' := by
    intro hnone
    have hb := H.fresh s' hr.inv hs' fun _ => hnone
    rw [bind_assoc]
    have hset : (redis (.setNx a.referenceId .processing 60)).Within (TransferQuiet a token)
        (·.isUnbalanced = false) := within_call ⟨rfl, rfl⟩
    refine H.quiet_set.seq hset H.before_stable hb
      (fun won l1 s1 hi1 hb1 => ?_) fun e _ _ he hb' => ⟨H.failed_of_before _ hb', he⟩
    split
    · exact hnew l1 s1 hb1
    · exact hQ.raise ⟨H.failed_of_before _ hb1, rfl⟩
  simp only [RedisCmd.exec]
  cases hst : (s'.idem a.referenceId).bind (·.status) with
  | none => exact hclaim (by simp only [storedResponse, hst])
  | some st =>
    cases st with
    | processing => exact hQ.raise ⟨H.failed_of_start _ hs', rfl⟩
    | completed =>
      cases hdata : (s'.idem a.referenceId).bind (·.data) with
      | none => exact hclaim (by simp only [storedResponse, hst, hdata])
      | some r =>
        exact hold r s'
          (H.replay r s' hr.inv hs' hp hredis (by simp only [storedResponse, hst, hdata]))

/-- **A transfer.** Whatever the others do: a call that returns has committed a plan and answers
it, or replays a stored response; an exception is never the one of the zero-sum check. -/
theorem transferFunds_wp (tries : Nat) (hi : P.inv s) (hs : F.start s) :
    P.wp t (transferFunds deps token tries a) (fun r _ s => F.Outcome a r s.db) l s := by
  have hQ := H.outcome_stable
  have hdone : ∀ r d, F.Done a r d → F.Outcome a r d := by
    intro r d h
    cases r with
    | ok => exact .inl h
    | error => exact h
  refine hQ.ofExcept_bind (fun _ hp => ?_) fun e he => ⟨H.failed_of_start _ hs, ?_⟩
  swap
  · rcases preflight_error he with rfl | ⟨m, rfl⟩ <;> rfl
  have hp := preflight_ok hp
  split
  · rename_i hredis
    refine H.wp_claimReference hp hredis hs (fun l1 s1 hb1 => ?_) fun r s1 h => hQ.ret (.inr h)
    refine wp_handle (wp_mono (H.screenedTransfer_wp hp hb1) ?_)
    intro r l2 s2 hi2 h2
    cases r with
    | ok => exact hdone _ _ h2
    | error e =>
      exact H.quiet_offDb.seq releaseReference_within (hQ (.error e) {})
        (hdone _ _ h2) (fun _ l' _ _ h => hQ.raise (l := l') h) fun e' _ _ he h => ⟨h.1, he⟩
  · rename_i hredis
    have hb := H.fresh s hi hs fun h => absurd h hredis
    exact wp_mono (H.screenedTransfer_wp hp hb) fun r _ s _ => hdone r s.db

end Lawful

end TransferFacts

end CleanArch
