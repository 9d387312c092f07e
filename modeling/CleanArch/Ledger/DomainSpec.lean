import CleanArch.Ledger.TransferSpec

/-!
# The specification of the domain service

What `create_account` and `record_journal_entry` commit, for a request alone: nothing, or one
sound transaction (`Wrote`). An exception can come after the commit.
-/

namespace CleanArch

open Async List Prog Protocol

/-!
## The double-entry domain service

`LedgerDomainService` (`app/services/ledger_domain_service.py`). Its repository works on the session
of the request (`get_db_session`, `app/core/database.py`): the request commits when the service
returns, and rolls back when it raises.
-/

/-- The session of a request: commit after `body`, roll back on an exception, close at the end. -/
def withDbSession {α : Type} (body : LedgerProg α) : LedgerProg α :=
  asyncWithUow do
    let r ← body
    db .commit
    return r

def createAccount [PyStr] (dto : LedgerAccountCreate) : LedgerProg LedgerAccountEntity := do
  let existing ← db (.getAccountByNumber dto.accountNumber)
  Prog.raiseIf (existing.isSome = true) (.entityConflict dto.accountNumber)
  db (.createAccount dto.accountNumber dto.name dto.accountType (PyStr.upper dto.currency))

def aggregatePostings : List PostingCreateDTO → Decimal × Decimal →
    Except LedgerError (Decimal × Decimal)
  | [], totals => .ok totals
  | p :: ps, totals =>
    if p.amount ≤ 0 then .error (.unbalancedJournalEntry none none none)
    else
      match p.direction with
      | .debit => aggregatePostings ps (totals.1 + p.amount, totals.2)
      | .credit => aggregatePostings ps (totals.1, totals.2 + p.amount)

def verifyAccounts : List PostingCreateDTO → List UUID → LedgerProg Unit
  | [], _ => return ()
  | p :: ps, seenAccounts =>
    if p.accountId ∈ seenAccounts then verifyAccounts ps seenAccounts
    else do
      let _ ← loadAccount .posting p.accountId
      verifyAccounts ps (p.accountId :: seenAccounts)

def recordJournalEntry (dto : JournalEntryCreateDTO) : LedgerProg JournalEntryEntity := do
  let existing ← db (.getJournalEntryByReference dto.referenceId)
  Prog.raiseIf (existing.isSome = true) (.duplicateReference dto.referenceId)
  Prog.raiseIf (dto.postings.length < 2) (.unbalancedJournalEntry (some 0) (some 0) (some 0))
  let totals ← Prog.ofExcept (aggregatePostings dto.postings (0, 0))
  Prog.raiseIf (totals.1 ≠ totals.2)
    (.unbalancedJournalEntry (some totals.1) (some totals.2) (some |totals.1 - totals.2|))
  verifyAccounts dto.postings []
  db (.createJournalEntry dto.referenceId dto.description dto.postings false)

/-- How a request alone ends, over the rows `d0` it started from: a result `a` has committed rows
in `G a`; an exception has committed nothing, or such rows. -/
def Wrote {α : Type} (G : α → Ledger → Prop) (d0 : Ledger) : Except LedgerError α → Ledger → Prop
  | .ok a, d => ∃ rows, G a rows ∧ d0.Free rows ∧ d = d0 ++ rows
  | .error _, d => d = d0 ∨ ∃ a rows, G a rows ∧ d0.Free rows ∧ d = d0 ++ rows

lemma Wrote.weaken {α : Type} {G : α → Ledger → Prop} {r : Except LedgerError α}
    (h : Wrote G d0 r d) : Wrote G d0 (.error e) d := by
  cases r with
  | ok a =>
    obtain ⟨rows, h⟩ := h
    exact .inr ⟨a, rows, h⟩
  | error => exact h

lemma Wrote.sound {α : Type} {G : α → Ledger → Prop} {r : Except LedgerError α}
    (h : Wrote G d0 r d) (hG : ∀ a rows, G a rows → d0.SoundRows rows) (h0 : d0.Sound) :
    d.Sound := by
  cases r with
  | ok a =>
    obtain ⟨rows, hr, hf, rfl⟩ := h
    exact h0.append (hG a rows hr) hf
  | error =>
    rcases h with rfl | ⟨a, rows, hr, hf, rfl⟩
    · exact h0
    · exact h0.append (hG a rows hr) hf

section Alone

variable {α : Type}

lemma eq_of_alone (h : (alone ledgerMachine t).Later t s s') : s' = s := h.rely rfl

lemma stable_alone {Q : LedgerPost α} : (alone ledgerMachine t).Stable t Q := by
  intro r l s s' h hr
  rw [eq_of_alone hr]
  exact h

lemma keeps_alone : DbKeeps (alone ledgerMachine t) t := fun _ _ _ _ _ _ _ => alone_keeps ..

lemma uow_alone {body : LedgerProg α} (hbody : (alone ledgerMachine t).wp t body
      (fun r _ s' => Wrote G s.db r s'.db) {} s) : (alone ledgerMachine t).wp t (asyncWithUow body)
      (fun r _ s' => Wrote G s.db r s'.db) l s := by
  refine wp_asyncWithUow (.alone t) (fun c hc h => hc (by cases h; rfl))
    (fun r s s' h hr => by rw [eq_of_alone hr]; exact h) (fun r e d h _ => h.weaken)
    (fun s' hr => by rw [eq_of_alone hr]; exact hbody) fun s' hr => ?_
  rw [eq_of_alone hr]
  exact .inl rfl

lemma wp_commit_alone {a : α} (h : G a l.staged) :
    (alone ledgerMachine t).wp t ((db .commit).bind fun _ => ret a)
      (fun r _ s' => Wrote G s.db r s'.db) l s := by
  refine wp_commit stable_alone (fun _ _ _ _ => alone_keeps ..) (fun o s' hr _ hf => ?_)
    fun e s' _ hr => ?_
  · rw [eq_of_alone hr] at hf ⊢
    exact ⟨stable_alone.ret ⟨l.staged, h, hf, rfl⟩, .inr ⟨a, l.staged, h, hf, rfl⟩⟩
  · rw [eq_of_alone hr]
    exact .inl rfl

lemma withDbSession_alone {body : LedgerProg α} (hbody : (alone ledgerMachine t).wp t body
      (fun r l' s' => s' = s ∧ ∀ a, r = .ok a → G a l'.staged) {} s) :
    (alone ledgerMachine t).wp t (withDbSession body) (fun r _ s' => Wrote G s.db r s'.db) l s := by
  refine uow_alone (wp_bind (wp_mono hbody ?_))
  rintro r l' s' - ⟨rfl, hr⟩
  cases r with
  | ok a => exact wp_commit_alone (hr a rfl)
  | error => exact .inl rfl

end Alone

/-! ## Accounts -/

def AccountRows [PyStr] (dto : LedgerAccountCreate) (acc : LedgerAccountEntity) (rows : Ledger) :
    Prop :=
  rows = { accounts := [acc] } ∧ acc.accountNumber = dto.accountNumber ∧
    acc.accountType = dto.accountType ∧ acc.currency = PyStr.upper dto.currency

lemma createAccount_alone [PyStr] :
    Wrote (AccountRows dto) s.db (ledgerMachine.run t (withDbSession (createAccount dto)) o l s).1
      (ledgerMachine.run t (withDbSession (createAccount dto)) o l s).2.2.db := by
  refine run_of_wp (withDbSession_alone ?_) o
  refine wp_read stable_alone keeps_alone (f := (·.getAccountByNumber dto.accountNumber))
    (fun s1 hr1 => ?_) fun s' hr => ⟨eq_of_alone hr, nofun⟩
  rw [eq_of_alone hr1]
  refine stable_alone.raiseIf_bind (fun _ => ?_) fun _ => ⟨rfl, nofun⟩
  rw [← bind_ret (db _)]
  refine wp_insert stable_alone keeps_alone (fun o s2 hr2 _ => ?_)
    fun e l' s' _ hr => ⟨eq_of_alone hr, nofun⟩
  refine stable_alone.ret ⟨eq_of_alone hr2, fun a ha => ?_⟩
  cases ha
  exact ⟨rfl, rfl, rfl, rfl⟩

/-! ## Journal entries -/

lemma aggregatePostings_ok {acc totals : Decimal × Decimal}
    (h : aggregatePostings ps acc = .ok totals) :
    totals = (acc.1 + legTotal .debit ps, acc.2 + legTotal .credit ps) := by
  induction ps generalizing acc with
  | nil => cases h; simp [legTotal]
  | cons p ps ih =>
    rw [aggregatePostings, if_neg (not_le.mpr p.gt)] at h
    cases hd : p.direction with
    | debit | credit =>
      rw [hd] at h
      rw [ih h]
      simp [legTotal, hd, add_assoc]

lemma wp_verifyAccounts {α : Type} {Q : LedgerPost α} {k : Unit → LedgerProg α}
    (ps : List PostingCreateDTO) (seen : List UUID)
    (hseen : ∀ id ∈ seen, id ∈ s.db.accountIds) (hok : (∀ p ∈ ps, p.accountId ∈ s.db.accountIds) →
      (alone ledgerMachine t).wp t (k ()) Q {} s) (herr : ∀ e, Q (.error e) {} s) :
    (alone ledgerMachine t).wp t ((verifyAccounts ps seen).bind k) Q {} s := by
  induction ps generalizing seen with
  | nil => exact hok fun p hp => nomatch hp
  | cons p ps ih =>
    unfold verifyAccounts
    split
    · rename_i hmem
      refine ih seen hseen fun hps => hok fun q hq => ?_
      rcases mem_cons.mp hq with rfl | hq
      · exact hseen _ hmem
      · exact hps q hq
    · rw [bind_eq, bind_assoc]
      refine wp_loadAccount stable_alone keeps_alone (fun acc s' hr hacc => ?_)
        fun e s' _ hr => by rw [eq_of_alone hr]; exact herr e
      rw [eq_of_alone hr] at hacc ⊢
      rw [Session.view_empty] at hacc
      have hp := Ledger.mem_accountIds hacc
      refine ih _ (fun id hid => ?_) fun hps => hok fun q hq => ?_
      · rcases mem_cons.mp hid with rfl | hid
        · exact hp
        · exact hseen id hid
      · rcases mem_cons.mp hq with rfl | hq
        · exact hp
        · exact hps q hq

/-- The rows of a new entry: it has the legs of the request, it balances, and its accounts are
there. -/
def EntryRows (dto : JournalEntryCreateDTO) (d0 : Ledger) (e : JournalEntryEntity)
    (rows : Ledger) : Prop :=
  rows = { entries := [e] } ∧ e.referenceId = dto.referenceId ∧
    e.postings.map (·.leg) = dto.postings.map (·.leg) ∧ e.Balanced ∧
    ∀ p ∈ e.postings, p.accountId ∈ d0.accountIds

lemma recordJournalEntry_alone : Wrote (EntryRows dto s.db) s.db
      (ledgerMachine.run t (withDbSession (recordJournalEntry dto)) o l s).1
      (ledgerMachine.run t (withDbSession (recordJournalEntry dto)) o l s).2.2.db := by
  refine run_of_wp (withDbSession_alone ?_) o
  refine wp_read stable_alone keeps_alone (f := (·.getJournalEntryByReference dto.referenceId))
    (fun s1 hr1 => ?_) fun s' hr => ⟨eq_of_alone hr, nofun⟩
  rw [eq_of_alone hr1]
  refine stable_alone.raiseIf_bind (fun _ => ?_) fun _ => ⟨rfl, nofun⟩
  refine stable_alone.raiseIf_bind (fun hlen => ?_) fun _ => ⟨rfl, nofun⟩
  refine stable_alone.ofExcept_bind (fun totals htotals => ?_) fun e _ => ⟨rfl, nofun⟩
  refine stable_alone.raiseIf_bind (fun hzero => ?_) fun _ => ⟨rfl, nofun⟩
  have h0 : Books.total ((dto.postings.map (·.leg)).map (·.signed)) = 0 := by
    rw [not_not, aggregatePostings_ok htotals] at hzero
    simpa only [zero_add, legTotal_eq_iff] using hzero
  refine wp_verifyAccounts dto.postings [] (fun id h => nomatch h) (fun hacc => ?_)
    fun e => ⟨rfl, nofun⟩
  rw [← bind_ret (db _)]
  refine wp_insert stable_alone keeps_alone (fun o s2 hr2 _ => ?_)
    fun e l' s' _ hr => ⟨eq_of_alone hr, nofun⟩
  refine stable_alone.ret ⟨eq_of_alone hr2, fun e he => ?_⟩
  have hrows : e.postings.map (·.leg) = dto.postings.map (·.leg) := by
    cases he
    exact postingRows_legs _ _ _
  have hpos : ∀ g ∈ dto.postings.map (·.leg), 0 < g.amount := by
    intro g hg
    obtain ⟨p, -, rfl⟩ := mem_map.mp hg
    exact p.gt
  have htwo : 2 ≤ (dto.postings.map (·.leg)).length := by
    rw [length_map]
    omega
  refine ⟨by cases he; rfl, by cases he; rfl, hrows,
    balanced_of_legs hrows htwo hpos h0, fun p hp => ?_⟩
  have hleg : p.leg ∈ dto.postings.map (·.leg) := by
    rw [← hrows]
    exact mem_map_of_mem hp
  obtain ⟨q, hq, hqp⟩ := mem_map.mp hleg
  have hid : q.accountId = p.accountId := congrArg Leg.accountId hqp
  rw [← hid]
  exact hacc q hq

end CleanArch
