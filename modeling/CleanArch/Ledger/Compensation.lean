import CleanArch.Ledger.ReconciliationSpec
import CleanArch.Ledger.TransferSys

/-!
# Compensations

The reference of a compensating entry is `comp-{reference}-` and 8 hexadecimal digits, so it tells
which external reference the entry is for (`isCompensation`). A call adds one such entry for every
item of its feed that had no entry before the loop (`ReconcileArgs.missing`): a feed with one
missing reference twice has two.
-/

namespace CleanArch

open Async List

/-!
## Histories of the ledger

A history is any list of calls, one after another, each with its own answers of the world (faults,
ids, times), and of Redis keys that expire between two calls.
-/

inductive LedgerCall where
  | createAccount (dto : LedgerAccountCreate)
  | recordJournalEntry (dto : JournalEntryCreateDTO)
  | transferFunds (deps : TransferDeps) (token : Token) (tries : Nat) (a : TransferArgs)
  | reconcileSettlementFeed (a : ReconcileArgs)

def LedgerCall.exec [PyStr] (c : LedgerCall) (o : Nat → Answer) (s : World) : World :=
  match c with
  | .createAccount dto =>
    (ledgerMachine.run 0 (withDbSession (CleanArch.createAccount dto)) o {} s).2.2
  | .recordJournalEntry dto =>
    (ledgerMachine.run 0 (withDbSession (CleanArch.recordJournalEntry dto)) o {} s).2.2
  | .transferFunds deps token tries a =>
    (ledgerMachine.run 0 (CleanArch.transferFunds deps token tries a) o {} s).2.2
  | .reconcileSettlementFeed a =>
    (ledgerMachine.run 0 (CleanArch.reconcileSettlementFeed a) o {} s).2.2

inductive LedgerOp where
  | call (c : LedgerCall) (o : Nat → Answer)
  | world (e : LedgerEnv)

def LedgerOp.exec [PyStr] (s : World) : LedgerOp → World
  | .call c o => c.exec o s
  | .world e => e.exec s

def history [PyStr] (s : World) (ops : List LedgerOp) : World := ops.foldl LedgerOp.exec s

/-! ## Sound transactions -/

section Sound

variable [PyStr]

lemma Clearing.mem_accountIds (h : Clearing d staged c fx) : fx.id ∈ (d ++ staged).accountIds := by
  rw [Ledger.accountIds_append, mem_append]
  exact h.imp (fun h => mem_map_of_mem (Ledger.getAccountByNumber_some h).1)
    fun h => mem_map_of_mem (Ledger.getAccountByNumber_some h.1).1

lemma Ready.sound (h : Ready a plan staged d) : d.SoundRows staged where
  keyed := h.keyed
  balanced e he := by
    rw [h.entries] at he
    rw [mem_singleton.mp he]
    exact balanced_of_legs h.postings h.legs.two_le_length (fun g hg => (h.valid g hg).1)
      (h.legs.balanced h.preflight)
  posted e he p hp := by
    rw [h.entries] at he
    rw [mem_singleton.mp he] at hp
    have hg := Ledger.Grows.append d staged
    have hleg : p.leg ∈ plan.legs := by
      rw [← h.postings]
      exact mem_map_of_mem hp
    show p.leg.accountId ∈ _
    rcases h.legs.account hleg with hs | hs | hs | ⟨c, fx, hc, hs⟩
    · rw [hs]
      exact Ledger.mem_accountIds (hg.getAccountById h.loaded.source)
    · rw [hs]
      exact Ledger.mem_accountIds (hg.getAccountById h.loaded.dest)
    · obtain ⟨acc, hacc⟩ := h.loaded.fee _ hs
      exact Ledger.mem_accountIds (hg.getAccountById hacc)
    · rw [hs]
      exact hc.mem_accountIds

lemma Committed.sound (h : Committed a plan d0 d) (h0 : d0.Sound) : d.Sound := by
  obtain ⟨rows, rfl, hr, hf⟩ := h.rows
  exact h0.append hr.sound hf

lemma transferFunds_sound (h : s.db.Sound) :
    (ledgerMachine.run 0 (transferFunds deps token tries a) o {} s).2.2.db.Sound := by
  rcases transferFunds_committed deps a token tries 0 o {} s with hd | ⟨plan, hc⟩
  · rw [hd]; exact h
  · exact hc.sound h

lemma LedgerCall.sound (c : LedgerCall) (o : Nat → Answer) (h : s.db.Sound) :
    (c.exec o s).db.Sound := by
  cases c with
  | createAccount dto =>
    refine (createAccount_alone).sound (fun acc rows hr => ?_) h
    rw [hr.1]
    exact .account _ acc
  | recordJournalEntry dto =>
    refine (recordJournalEntry_alone).sound (fun e rows hr => ?_) h
    obtain ⟨rfl, -, -, hb, hp⟩ := hr
    exact .entry hb hp
  | transferFunds deps token tries a => exact transferFunds_sound h
  | reconcileSettlementFeed a =>
    exact (reconcileSettlementFeed_alone a 0 o {} s).sound (fun r rows hr => hr.sound) h

lemma history_sound (ops : List LedgerOp) (h : s.db.Sound) : (history s ops).db.Sound := by
  induction ops generalizing s with
  | nil => exact h
  | cons op ops ih =>
    cases op with
    | call c o => exact ih (c.sound o h)
    | world e =>
      refine ih ?_
      cases e <;> exact h

/-- **The books always balance.** From a ledger without rows, after any history: every entry has
at least two legs, all positive, with equal debits and credits; both sides of the books are equal;
and the zero-sum check of a transfer never fires, from any world. -/
theorem history_balanced (ops : List LedgerOp) (s : World) :
    (∀ e ∈ (history { s with db := Ledger.empty } ops).db.entries, e.Balanced) ∧
    (history { s with db := Ledger.empty } ops).db.sideTotal true =
      (history { s with db := Ledger.empty } ops).db.sideTotal false ∧
    ∀ (deps : TransferDeps) (token : Token) (tries : Nat) (a : TransferArgs) (o : Nat → Answer)
      (w : World) (e : LedgerError),
      (ledgerMachine.run 0 (transferFunds deps token tries a) o {} w).1 = .error e →
      ∀ debits credits imbalance, e ≠ .unbalancedJournalEntry debits credits imbalance := by
  have hs := history_sound ops (s := { s with db := Ledger.empty }) Ledger.Sound.empty
  refine ⟨hs.balanced, hs.equation, fun deps token tries a o w e he d c i hec => ?_⟩
  have hout := transferFunds_alone deps a token tries 0 o {} w
  rw [he] at hout
  rw [hec] at hout
  exact absurd hout.2 (by simp [LedgerError.isUnbalanced])

end Sound

def JournalEntryEntity.isCompensation (reference : String) (e : JournalEntryEntity) : Bool :=
  e.referenceId.toList.take (e.referenceId.toList.length - 8) =
    "comp-".toList ++ reference.toList ++ "-".toList

def Ledger.compensations (d : Ledger) (reference : String) : List JournalEntryEntity :=
  d.entries.filter (·.isCompensation reference)

/-- The references of the feed that the call compensates, in a ledger `d`. -/
def ReconcileArgs.missing (a : ReconcileArgs) (d : Ledger) : List String :=
  (a.settlementItems.filter (needsCompensation
    (d.getJournalEntriesByReferences (a.settlementItems.map (·.referenceId)))
    a.autoCompensate)).map (·.referenceId)

structure ReconcileArgs.New (a : ReconcileArgs) (d : Ledger) : Prop where
  nodup : (a.missing d).Nodup
  uncompensated : ∀ r ∈ a.missing d, d.compensations r = []

/-! ## The references -/

lemma hexDigits_length : (hexDigits width n).length = width := by
  induction width generalizing n with
  | zero => rfl
  | succ w ih => rw [hexDigits, length_append, ih]; rfl

lemma isCompensation_comp {e : JournalEntryEntity} (h : e.referenceId = compReference reference u) :
    e.isCompensation r = true ↔ r = reference := by
  have htake : e.referenceId.toList.take (e.referenceId.toList.length - 8) =
      "comp-".toList ++ reference.toList ++ "-".toList := by
    rw [h, compReference, hex8]
    simp only [String.toList_append, String.toList_ofList, length_append, hexDigits_length,
      Nat.add_sub_cancel]
    refine take_left' ?_
    simp only [length_append]
  rw [JournalEntryEntity.isCompensation, decide_eq_true_eq, htake, append_left_inj,
    append_right_inj, String.toList_inj]
  exact eq_comm

lemma compensations_length (h : List.Forall₂ Compensates items es) :
    (es.filter (·.isCompensation r)).length = (items.map (·.referenceId)).count r := by
  induction h with
  | nil => rfl
  | @cons item e _ _ hc _ ih =>
    obtain ⟨⟨u, hu⟩, -⟩ := hc
    rw [map_cons, count_cons, ← ih, filter_cons]
    by_cases hr : r = item.referenceId
    · rw [if_pos ((isCompensation_comp hu).mpr hr), hr]
      simp
    · rw [if_neg fun hi => hr ((isCompensation_comp hu).mp hi)]
      simp [Ne.symm hr]

/-! ## Calls -/

lemma BatchRows.compensations (h : BatchRows a d res rows) (r : String) :
    (rows.compensations r).length = (a.missing d).count r := by
  obtain ⟨st, staged, hl, rfl, -⟩ := h.loop
  rw [ReconcileArgs.missing, ← compensations_length hl.compensated]
  simp [Ledger.compensations]

lemma Ledger.compensations_append (d e : Ledger) :
    (d ++ e).compensations r = d.compensations r ++ e.compensations r := filter_append ..

lemma BatchRows.once (h : BatchRows a d res rows) (hnew : a.New d)
    (hd : (d.compensations r).length ≤ 1) : ((d ++ rows).compensations r).length ≤ 1 := by
  rw [Ledger.compensations_append, length_append, h.compensations]
  by_cases hr : r ∈ a.missing d
  · rw [hnew.uncompensated r hr, length_nil, zero_add]
    exact nodup_iff_count_le_one.mp hnew.nodup r
  · rw [count_eq_zero_of_not_mem hr, add_zero]
    exact hd

section Calls

variable [PyStr]

lemma reconcile_once (hnew : a.New s.db) (hd : (s.db.compensations r).length ≤ 1) :
    (((LedgerCall.reconcileSettlementFeed a).exec o s).db.compensations r).length ≤ 1 := by
  have hw := reconcileSettlementFeed_alone a 0 o {} s
  unfold Wrote at hw
  split at hw
  · obtain ⟨rows, hr, -, he⟩ := hw
    rw [LedgerCall.exec, he]
    exact hr.once hnew hd
  · rcases hw with he | ⟨res, rows, hr, -, he⟩
    · rw [LedgerCall.exec, he]
      exact hd
    · rw [LedgerCall.exec, he]
      exact hr.once hnew hd

def reconcileAll (s : World) (feeds : List (ReconcileArgs × (Nat → Answer))) : World :=
  history s (feeds.map fun f => .call (.reconcileSettlementFeed f.1) f.2)

def AllNew : World → List (ReconcileArgs × (Nat → Answer)) → Prop
  | _, [] => True
  | s, f :: fs => f.1.New s.db ∧ AllNew ((LedgerCall.reconcileSettlementFeed f.1).exec f.2 s) fs

/-- **At most one compensation per reference.** Calls run one after the other, with any batch
references, feeds and faults. If the missing references of every feed are new, every reference has
at most one compensating entry. -/
theorem compensated_once (feeds : List (ReconcileArgs × (Nat → Answer))) (s : World)
    (hs : ∀ r, (s.db.compensations r).length ≤ 1) (hnew : AllNew s feeds) (r : String) :
    ((reconcileAll s feeds).db.compensations r).length ≤ 1 := by
  induction feeds generalizing s with
  | nil => exact hs r
  | cons f fs ih =>
    obtain ⟨hf, hfs⟩ := hnew
    exact ih _ (fun r => reconcile_once hf (hs r)) hfs

end Calls

/-! ### One missing reference -/

def spreadIds (n : Nat) : Answer := { ids := fun k => (1000 * (n + 1) + k) * 2 ^ 96 }

def settlementFeed (references : List String) : ReconcileArgs where
  batchReference := "batch-1"
  gatewayName := "Stripe"
  settlementItems := references.map fun r => { referenceId := r, amount := 10 }

/-- Two references that the ledger does not have: each has one compensation. -/
theorem compensated_once_feed :
    ((@reconcileAll asciiStr {} [(settlementFeed ["ext-1", "ext-2"], spreadIds)]).db.compensations
      "ext-1").length ≤ 1 := by
  have hnew : (settlementFeed ["ext-1", "ext-2"]).New ({} : World).db :=
    ⟨by decide +kernel, fun _ _ => rfl⟩
  exact @compensated_once asciiStr [(settlementFeed ["ext-1", "ext-2"], spreadIds)] {}
    (fun _ => Nat.zero_le _) ⟨hnew, trivial⟩ "ext-1"

/-- One such reference twice in the feed: it has two compensations. -/
theorem compensated_twice :
    ((@reconcileAll asciiStr {} [(settlementFeed ["ext-1", "ext-1"], spreadIds)]).db.compensations
      "ext-1").length = 2 := by
  decide +kernel

end CleanArch
