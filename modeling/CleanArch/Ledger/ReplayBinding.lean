import CleanArch.Async.Alone
import CleanArch.Ledger.Footprint
import CleanArch.Ledger.Movement

/-!
# What a replayed response is bound to

A history of `transfer_funds` calls, one after another, with a Redis that works; between two calls
keys may reach their TTL. The state of a history remembers, for each reference, which call produced
the response that its record stores (`ReplayState.producer`). The record has nothing of the request,
so a call replays whatever its parameters are.
-/

namespace CleanArch

open Async

def TransferArgs.SameTransfer (a b : TransferArgs) : Prop :=
  a.sourceAccountId = b.sourceAccountId ∧ a.destinationAccountId = b.destinationAccountId ∧
    a.amount = b.amount ∧ a.feeAmount = b.feeAmount ∧ a.feeAccountId = b.feeAccountId ∧
    a.exchangeRate = b.exchangeRate

instance (a b : TransferArgs) : Decidable (a.SameTransfer b) :=
  inferInstanceAs (Decidable (_ ∧ _))

/-! ## Histories -/

/-- One call alone, with a Redis that works; `token` is its lock token. -/
def TransferCall.run [PyStr] (c : TransferCall) (token : Token) (answers : Nat → Answer)
    (w : World) : Except LedgerError FundTransferResponse × Session × World :=
  redisUp.run token (transferFunds { c.deps with redis := true } token c.tries c.args) answers {} w

inductive ReplayOp where
  | call (c : TransferCall) (token : Token) (answers : Nat → Answer)
  | world (e : LedgerEnv)

structure ReplayState where
  world : World
  producer : String → Option TransferArgs := fun _ => none

/-- After an operation of `who` that leads to `w`: a record whose stored response has changed is
its work. -/
def ReplayState.note (s : ReplayState) (who : Option TransferArgs) (w : World) : ReplayState where
  world := w
  producer r :=
    if storedResponse (w.idem r) = storedResponse (s.world.idem r) then s.producer r
    else (storedResponse (w.idem r)).bind fun _ => who

def ReplayState.step [PyStr] (s : ReplayState) : ReplayOp → ReplayState
  | .call c token answers => s.note (some c.args) (c.run token answers s.world).2.2
  | .world e => s.note none (e.exec s.world)

/-- Every stored response has a producer, which is a call with its reference; a record without a
response has none. -/
structure ReplayState.Attributed (s : ReplayState) : Prop where
  stored : ∀ r, storedResponse (s.world.idem r) ≠ none →
    ∃ p, s.producer r = some p ∧ p.referenceId = r
  unstored : ∀ r, storedResponse (s.world.idem r) = none → s.producer r = none

lemma ReplayState.Attributed.note {s : ReplayState} (h : s.Attributed)
    (hw : ∀ r, storedResponse (w.idem r) ≠ none →
      storedResponse (w.idem r) = storedResponse (s.world.idem r) ∨
        ∃ p, who = some p ∧ p.referenceId = r) : (s.note who w).Attributed := by
  constructor
  · intro r (hr : storedResponse (w.idem r) ≠ none)
    show ∃ p, (if storedResponse (w.idem r) = storedResponse (s.world.idem r) then s.producer r
      else (storedResponse (w.idem r)).bind fun _ => who) = some p ∧ _
    by_cases hsame : storedResponse (w.idem r) = storedResponse (s.world.idem r)
    · rw [if_pos hsame]
      exact h.stored r (hsame ▸ hr)
    · obtain ⟨p, rfl, hp⟩ := (hw r hr).resolve_left hsame
      obtain ⟨resp, hresp⟩ := Option.ne_none_iff_exists'.mp hr
      exact ⟨p, by rw [if_neg hsame, hresp]; rfl, hp⟩
  · intro r (hr : storedResponse (w.idem r) = none)
    show (if storedResponse (w.idem r) = storedResponse (s.world.idem r) then s.producer r
      else (storedResponse (w.idem r)).bind fun _ => who) = none
    split
    · rename_i hsame
      exact h.unstored r (hsame ▸ hr)
    · rw [hr]
      rfl

section Runs

variable [PyStr] (c : TransferCall) (token : Token) (answers : Nat → Answer)

lemma TransferCall.run_idem (w : World) (hr : r ≠ c.args.referenceId) :
    (c.run token answers w).2.2.idem r = w.idem r := by
  have hends : redisUp.Ends (fun _ => True) token
      (transferFunds { c.deps with redis := true } token c.tries c.args)
      (fun _ _ s => s.idem r = w.idem r) {} w := by
    refine Machine.ends_within (M := redisUp) (F := fun _ s => s.idem r = w.idem r)
      (fun q o l s hq hs => ⟨?_, fun _ _ => trivial⟩)
      (transferFunds_only) rfl
    exact (OfTransfer.idem hq (fun h => hr h.2.2) _ l s).trans hs
  exact Machine.run_of_ends hends fun _ => trivial

lemma ReplayState.Attributed.step {s : ReplayState} (h : s.Attributed) (op : ReplayOp) :
    (s.step op).Attributed := by
  cases op with
  | call c token answers =>
    refine h.note fun r _ => ?_
    by_cases hr : r = c.args.referenceId
    · exact .inr ⟨c.args, rfl, hr.symm⟩
    · exact .inl (by rw [c.run_idem token answers s.world hr])
  | world e =>
    refine h.note fun r hr => .inl ?_
    cases e with
    | expireIdem k =>
      by_cases hk : r = k
      · subst hk
        exact absurd (by simp [LedgerEnv.exec, storedResponse]) hr
      · simp only [LedgerEnv.exec, Function.update_of_ne hk]
    | expireLock | expireVelocity => rfl

lemma ReplayState.attributed (hw : ∀ r, storedResponse (w.idem r) = none) (ops : List ReplayOp) :
    (ops.foldl ReplayState.step { world := w }).Attributed := by
  have hstart : ReplayState.Attributed { world := w } :=
    ⟨fun r hr => absurd (hw r) hr, fun _ _ => rfl⟩
  generalize ({ world := w } : ReplayState) = s at hstart
  induction ops generalizing s with
  | nil => exact hstart
  | cons op ops ih => exact ih _ (hstart.step op)

/-! ## The replay -/

lemma TransferCall.run_invalid (h : preflight c.args = .error e) (w : World) :
    (c.run token answers w).1 = .error e := by
  simp [TransferCall.run, transferFunds, h, Prog.ofExcept, Prog.bind, Machine.run]

lemma TransferCall.run_stored (h : preflight c.args = .ok ())
    (hs : storedResponse (w.idem c.args.referenceId) = some resp) :
    (c.run token answers w).1 = .ok resp := by
  rw [TransferCall.run, transferFunds_claims rfl h, claimReference, Prog.bind_eq, Prog.bind_assoc,
    run_redis, RedisCmd.exec]
  unfold storedResponse at hs
  split at hs
  · rename_i hstatus hdata
    cases hs
    simp only [hstatus, hdata]
    rfl
  · cases hs

end Runs

/-! ## Bound replays -/

/-- The next call of a history returns the stored response of its reference only if it repeats the
parameters of the producer, and raises if it does not repeat them. -/
structure ReplayBound [PyStr] (s : ReplayState) (c : TransferCall) (token : Token)
    (answers : Nat → Answer) : Prop where
  replays : ∀ resp, storedResponse (s.world.idem c.args.referenceId) = some resp →
    (c.run token answers s.world).1 = .ok resp →
      ∃ p, s.producer c.args.referenceId = some p ∧ p.referenceId = c.args.referenceId ∧
        c.args.SameTransfer p
  raises : ∀ p, s.producer c.args.referenceId = some p → ¬ c.args.SameTransfer p →
    ∃ e, (c.run token answers s.world).1 = .error e

/-- **Replays are bound to their parameters** exactly when the caller repeats them. After every
history of calls and expiries that starts without stored responses, the next call is bound if and
only if its reference has no producer, or the call repeats the producer's parameters, or it does
not pass the pre-flight validation. -/
theorem replay_bound_iff [PyStr] (w : World) (hw : ∀ r, storedResponse (w.idem r) = none)
    (ops : List ReplayOp) (c : TransferCall) (token : Token) (answers : Nat → Answer) :
    ReplayBound (ops.foldl ReplayState.step { world := w }) c token answers ↔
      ∀ p, (ops.foldl ReplayState.step { world := w }).producer c.args.referenceId = some p →
        preflight c.args = .ok () → c.args.SameTransfer p := by
  have hattr := ReplayState.attributed hw ops
  generalize ops.foldl ReplayState.step { world := w } = s at hattr
  constructor
  · intro h p hp hpre
    have hstored : storedResponse (s.world.idem c.args.referenceId) ≠ none := fun hn => by
      rw [hattr.unstored _ hn] at hp
      cases hp
    obtain ⟨resp, hresp⟩ := Option.ne_none_iff_exists'.mp hstored
    obtain ⟨p', hp', -, hsame⟩ := h.replays resp hresp (c.run_stored token answers hpre hresp)
    rw [hp] at hp'
    cases hp'
    exact hsame
  · intro h
    constructor
    · intro resp hresp hrun
      obtain ⟨p, hp, href⟩ := hattr.stored c.args.referenceId (by rw [hresp]; nofun)
      refine ⟨p, hp, href, h p hp ?_⟩
      cases hpre : preflight c.args with
      | ok => rfl
      | error =>
        rw [c.run_invalid token answers hpre] at hrun
        cases hrun
    · intro p hp hdiff
      cases hpre : preflight c.args with
      | ok => exact absurd (h p hp hpre) hdiff
      | error e => exact ⟨e, c.run_invalid token answers hpre s.world⟩

/-! ### The same reference with another amount -/

/-- The history of one transfer of 30 USD, with the reference `t-1`. -/
def cashHistory : List ReplayOp := [.call { tries := 1, args := cashTransfer 2 } 0 freshIds]

def cashReplay : ReplayState :=
  cashHistory.foldl (@ReplayState.step asciiStr) { world := cashWorld }

/-- The transfer is sent again: the call is bound to it. -/
theorem replay_bound_again :
    @ReplayBound asciiStr cashReplay { args := cashTransfer 2 } 1 freshIds := by
  refine (@replay_bound_iff asciiStr cashWorld (fun _ => rfl) cashHistory { args := cashTransfer 2 }
    1 freshIds).mpr fun p hp _ => ?_
  have hproducer : (cashReplay.producer "t-1").map
      (fun p => decide ((cashTransfer 2).SameTransfer p)) = some true := by decide +kernel
  rw [show cashReplay.producer "t-1" = some p from hp] at hproducer
  simpa using hproducer

/-- 55 USD to another account, with the reference of the first transfer. -/
def otherTransfer : TransferCall := { args := { cashTransfer 3 with amount := 55 } }

/-- The call returns the response of the first transfer. -/
theorem replay_unbound : (@TransferCall.run asciiStr otherTransfer 1 freshIds cashReplay.world).1 =
        .ok (cashResponse 30) ∧
      (cashReplay.producer "t-1").map (fun p => (p.destinationAccountId, p.amount)) =
        some (2, 30) ∧
      ¬ @ReplayBound asciiStr cashReplay otherTransfer 1 freshIds := by
  have hrun : (@TransferCall.run asciiStr otherTransfer 1 freshIds cashReplay.world).1 =
      .ok (cashResponse 30) := by decide +kernel
  have hproducer : (cashReplay.producer "t-1").map (fun p => (p.destinationAccountId, p.amount)) =
      some (2, 30) := by decide +kernel
  refine ⟨hrun, hproducer, fun h => ?_⟩
  obtain ⟨p, hp, hfields⟩ := Option.map_eq_some_iff.mp hproducer
  let := asciiStr
  obtain ⟨e, he⟩ := h.raises p hp fun hsame => by
    have hamount : (55 : Decimal) = p.amount := hsame.2.2.1
    rw [(Prod.mk.inj hfields).2] at hamount
    exact absurd hamount (by decide +kernel)
  rw [hrun] at he
  cases he

end CleanArch
