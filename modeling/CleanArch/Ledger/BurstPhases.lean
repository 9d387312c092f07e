import CleanArch.Async.Phases
import CleanArch.Ledger.Footprint
import CleanArch.Ledger.Velocity

/-!
# The order of screening, commit and record

Where a transfer is with respect to the velocity of its source. The automaton `burstPhases` reads
this off the requests, while Redis answers every one of them.
-/

namespace CleanArch

open Async Phases Prog

inductive BurstPhase where
  | unscreened
  | looking (now : Time)
  /-- The set was read; it had `few` members if they were less than the threshold. -/
  | screened (few : Bool)
  | drafted (few : Bool)
  | committed
  | timed (now : Time)
  | recorded
  deriving DecidableEq

namespace BurstPhase

/-- The requests that a transfer of `source` may make. -/
def allowed (source : UUID) (q : BurstPhase) : LedgerCmd → Prop
  | .redis (.zremrangebyscore account max) =>
    account = source ∧ ∃ now, q = .looking now ∧ max = now - defaultVelocityWindowSeconds
  | .redis (.zrange account) => account = source ∧ ∃ now, q = .looking now
  | .db (.createJournalEntry _ _ _ isFlagged) =>
    ∃ few, q = .screened few ∧ (isFlagged = false → few = true)
  | .db .commit => ∃ few, q = .drafted few
  | .redis (.zadd account e) => account = source ∧ q = .timed e.score
  | .processCharge .. => False
  | _ => True

def next (q : BurstPhase) : (c : LedgerCmd) → Except LedgerError c.Res → BurstPhase
  | .proc .time, .ok now =>
    match q with
    | .unscreened | .looking _ => .looking now
    | .committed => .timed now
    | q => q
  | .redis (.zrange _), .ok es => .screened (es.length < burstCountThreshold)
  | .db (.createJournalEntry ..), _ =>
    match q with
    | .screened few => .drafted few
    | q => q
  | .db .commit, _ => .committed
  | .redis (.zadd ..), _ => .recorded
  | _, _ => q

end BurstPhase

def RedisAnswers : (c : LedgerCmd) → Except LedgerError c.Res → Prop
  | .redis _, r => ∃ a, r = .ok a
  | .proc _, r => ∃ a, r = .ok a
  | _, _ => True

@[reducible] def burstPhases (source : UUID) : Phases LedgerCmd LedgerCmd.Res LedgerError where
  Phase := BurstPhase
  possible := RedisAnswers
  allowed := BurstPhase.allowed source
  next := BurstPhase.next

def Neutral : LedgerCmd → Prop
  | .redis (.zremrangebyscore ..) | .redis (.zrange _) | .redis (.zadd ..) => False
  | .db (.createJournalEntry ..) | .db .commit | .proc .time | .processCharge .. => False
  | _ => True

lemma Neutral.phase (source : UUID) (q : BurstPhase) (h : Neutral c) :
    q.allowed source c ∧ ∀ r, q.next c r = q := by
  rcases c with c | c | c | _
  case processCharge => exact h.elim
  all_goals cases c
  all_goals first | exact h.elim | exact ⟨trivial, fun _ => rfl⟩

/-! ## Neutral parts -/

lemma LockRequest.neutral (h : LockRequest token c) : Neutral c := by
  unfold LockRequest at h
  split at h <;> trivial

lemma OfRecord.neutral (h : OfRecord reference c) : Neutral c := by
  unfold OfRecord at h
  split at h <;> trivial

lemma OfAccounts.neutral (h : OfAccounts c) : Neutral c := by
  unfold OfAccounts at h
  split at h <;> trivial

lemma isAccountBlacklisted_neutral (id : UUID) :
    (isAccountBlacklisted useRedis id).Only Neutral := by
  refine within_call_bind trivial fun b => ?_
  refine within_ite (fun _ => trivial) fun _ => within_ite (fun _ => ?_) fun _ => trivial
  exact within_handle (within_call trivial) fun _ _ => trivial

lemma recordCompleted_neutral : (recordCompleted deps a response).Only Neutral :=
  within_ite (fun _ => within_call trivial) fun _ => trivial

/-! ## The phases of a transfer -/

section Rules

variable {α β : Type}

lemma follows_neutral {p : LedgerProg β} {k : β → LedgerProg α} (hp : p.Only Neutral)
    (hok : ∀ b, (burstPhases source).Follows (k b) Q q) (herr : ∀ e, Q (.error e) q) :
    (burstPhases source).Follows (p.bind k) Q q :=
  follows_within_bind (fun _ hc => hc.phase source q) hp hok herr

end Rules

lemma approved_few
    (h : fraudDecision (((fraudRules isBlacklisted (burstCountThreshold ≤ count) hasVolumeBurst
      isSpike).map (·.1)).sum) = .approved) : count < burstCountThreshold := by
  by_contra hle
  have hburst : decide (burstCountThreshold ≤ count) = true := decide_eq_true (not_lt.mp hle)
  rw [hburst] at h
  revert h
  cases isBlacklisted <;> cases hasVolumeBurst <;> cases isSpike <;> decide

section Phases

lemma getAccountVelocity_follows :
    (burstPhases source).Follows (getAccountVelocity true source defaultVelocityWindowSeconds)
      (fun r q => ∀ v, r = .ok v → q = .screened (v.1 < burstCountThreshold)) .unscreened := by
  refine follows_call_bind trivial (fun now _ => ?_) fun e _ _ he => ?_
  · refine follows_handle (follows_call_bind ?_ (fun _ _ => ?_) ?_)
    · exact ⟨rfl, now, rfl, rfl⟩
    · refine follows_call_bind ⟨rfl, now, rfl⟩ (fun es _ => ?_) ?_
      · intro v hv
        cases hv
        rfl
      · rintro e ⟨a, ha⟩
        cases ha
    · rintro e ⟨a, ha⟩
      cases ha
  · cases he

lemma evaluateTransfer_follows :
    (burstPhases source).Follows (evaluateTransfer true source destination amount)
      (fun r q => ∀ a, r = .ok a →
        ∃ few, q = .screened few ∧ (a.decision = .approved → few = true)) .unscreened := by
  refine follows_neutral (isAccountBlacklisted_neutral destination) (fun b => ?_) ?_
  · refine follows_bind (getAccountVelocity_follows.mono fun r q hq => ?_)
    cases r with
    | error => intro a ha; cases ha
    | ok v =>
      intro a ha
      cases ha
      exact ⟨_, hq v rfl, fun h => decide_eq_true (approved_few h)⟩
  · intro e a ha
    cases ha

lemma recordSuccessfulTransfer_follows :
    (burstPhases source).Follows (recordSuccessfulTransfer true source amount)
      (fun _ _ => True) .committed := by
  refine follows_call_bind trivial (fun now _ => ?_) fun _ _ => trivial
  refine follows_call_bind trivial (fun nonce _ => ?_) fun _ _ => trivial
  refine follows_handle (follows_call ⟨rfl, rfl⟩ ?_)
  rintro r ⟨a, rfl⟩
  trivial

def Commits {α : Type} (r : Except LedgerError α) (q : BurstPhase) : Prop :=
  r.isOk = true → q = .committed

lemma commits_error {α : Type} (e : LedgerError) :
    Commits (.error e : Except LedgerError α) q := nofun

lemma follows_commits {α β : Type} {p : LedgerProg β} {k : β → LedgerProg α} (hp : p.Only Neutral)
    (hok : ∀ b, (burstPhases source).Follows (k b) Commits q) :
    (burstPhases source).Follows (p.bind k) Commits q :=
  follows_neutral hp hok fun e => commits_error e

lemma asyncWithUow_follows {α : Type} {body : LedgerProg α}
    (h : (burstPhases source).Follows body Commits q) :
    (burstPhases source).Follows (asyncWithUow body) Commits q := by
  have hclose : (db .closeSession).Only Neutral := within_call trivial
  refine follows_commits (within_call trivial) fun _ => ?_
  refine follows_bind (follows_handle (h.mono fun r q hq => ?_))
  cases r with
  | ok => exact follows_commits hclose fun _ => hq
  | error e =>
    -- the session is rolled back and closed, and an exception leaves the block
    refine follows_bind (follows_handle (follows_call trivial fun r _ => ?_))
    cases r with
    | ok => exact follows_neutral hclose (fun _ => commits_error e) fun e => commits_error e
    | error e' =>
      exact follows_neutral hclose (fun _ => commits_error e') fun e => commits_error e

variable (deps : TransferDeps)

lemma withAccountLocks_follows {α : Type}
    {body : LedgerProg α} (h : (burstPhases source).Follows body Commits q) :
    (burstPhases source).Follows (withAccountLocks deps token tries a body) Commits q := by
  have hlocks : ∀ {β : Type} {p : LedgerProg β}, p.Only (LockRequest token) → p.Only Neutral :=
    fun hp => hp.mono fun _ => LockRequest.neutral
  unfold withAccountLocks
  split
  · refine follows_commits (hlocks (acquireAll_locks (fun _ => trivial) tries _ []))
      fun acquired => ?_
    refine follows_bind (follows_handle (h.mono fun r q hq => ?_))
    have hrelease := hlocks (releaseAll_locks acquired)
    cases r with
    | ok => exact follows_commits hrelease fun _ => hq
    | error e => exact follows_neutral hrelease (fun _ => commits_error e) fun e =>
      commits_error e
  · exact h

variable [PyStr]

lemma postTransfer_follows (hflag : flagged = false → few = true) :
    (burstPhases source).Follows (postTransfer a flagged src dst quote legs) Commits
      (.screened few) := by
  refine follows_bind (follows_ofExcept ?_)
  split
  · refine follows_bind (follows_ofExcept ?_)
    split
    · refine follows_call_bind ⟨few, rfl, hflag⟩ (fun entry _ => ?_) fun e _ =>
        commits_error e
      refine follows_commits (within_call trivial) fun eventId => ?_
      refine follows_commits (within_call trivial) fun _ => ?_
      refine follows_call_bind ⟨few, rfl⟩ (fun _ _ => ?_) fun e _ => commits_error e
      refine follows_commits (within_call trivial) fun _ => ?_
      exact follows_commits (within_call trivial) fun _ _ => rfl
    · exact commits_error _
  · exact commits_error _

lemma executeTransferInUow_follows (hflag : flagged = false → few = true) :
    (burstPhases source).Follows (executeTransferInUow a flagged) Commits (.screened few) := by
  have haccounts : ∀ {β : Type} {p : LedgerProg β}, p.Only OfAccounts → p.Only Neutral :=
    fun h => h.mono fun _ hc => hc.neutral
  refine follows_commits (within_call trivial) fun existing => ?_
  refine follows_commits (within_raiseIf trivial) fun _ => ?_
  refine follows_commits (haccounts (loadAccount_only _)) fun src => ?_
  refine follows_commits (haccounts (loadAccount_only _)) fun dst => ?_
  refine follows_commits (haccounts (loadFeeAccount_only a)) fun _ => ?_
  refine follows_commits (within_ofExcept fun _ _ => trivial) fun quote => ?_
  refine follows_commits (within_call trivial) fun aggregates => ?_
  refine follows_commits (within_raiseIf trivial) fun _ => ?_
  refine follows_commits (haccounts (transferLegs_only a)) fun legs => ?_
  exact postTransfer_follows hflag

lemma screenedTransfer_follows (hdeps : deps.fraudRedis = true) (token : Token) (tries : Nat)
    (ha : a.sourceAccountId = source) :
    (burstPhases source).Follows (screenedTransfer deps token tries a) (fun _ _ => True)
      .unscreened := by
  subst ha
  unfold screenedTransfer
  rw [hdeps]
  refine follows_bind ((evaluateTransfer_follows).mono
    fun r q hq => ?_)
  cases r with
  | error => trivial
  | ok assessment =>
    obtain ⟨few, rfl, happroved⟩ := hq assessment rfl
    refine follows_bind ?_
    unfold raiseIf
    split
    · trivial
    · next hrejected =>
      -- an entry without a flag is one of an approved transfer
      have hflag : decide (assessment.decision = .flaggedForReview) = false → few = true := by
        intro h
        refine happroved ?_
        cases hd : assessment.decision with
        | approved => rfl
        | flaggedForReview => rw [hd] at h; simp at h
        | rejected => exact absurd hd hrejected
      refine follows_bind ((withAccountLocks_follows deps
        (asyncWithUow_follows (executeTransferInUow_follows hflag))).mono fun r q hq => ?_)
      cases r with
      | error => trivial
      | ok response =>
        obtain rfl := hq rfl
        refine follows_bind ((recordSuccessfulTransfer_follows).mono fun r q _ => ?_)
        cases r with
        | error => trivial
        | ok =>
          exact follows_neutral (recordCompleted_neutral) (fun _ => trivial)
            fun _ => trivial

/-- **Every transfer goes through the phases**, with a fraud service that has a Redis. -/
theorem transferFunds_follows (hdeps : deps.fraudRedis = true) (ha : a.sourceAccountId = source) :
    (burstPhases source).Follows (transferFunds deps token tries a) (fun _ _ => True)
      .unscreened := by
  have hscreened := screenedTransfer_follows deps hdeps token tries ha
  have hrecord : ∀ {β : Type} {p : LedgerProg β}, p.Only (OfRecord a.referenceId) →
      p.Only Neutral := fun h => h.mono fun _ hc => hc.neutral
  refine follows_neutral (within_ofExcept fun _ _ => trivial) (fun _ => ?_) fun _ => trivial
  split
  · refine follows_neutral (hrecord (claimReference_only)) (fun claimed => ?_) fun _ => trivial
    cases claimed with
    | some => trivial
    | none =>
      refine follows_handle (hscreened.mono fun r q _ => ?_)
      cases r with
      | ok => trivial
      | error =>
        exact follows_neutral (hrecord (releaseReference_only)) (fun _ => trivial)
          fun _ => trivial
  · exact hscreened

end Phases

end CleanArch
