import CleanArch.Ledger.DomainSpec
import Mathlib.Data.List.Forall2

/-!
# The specification of reconciliation

What one call of `reconcile_settlement_feed` commits when it runs alone: the loop over the feed has
the invariant `Reconciled`.
-/

namespace CleanArch

open Async List Prog Protocol

/-!
## Reconciliation

`LedgerReconciliationService` (`app/services/ledger_reconciliation_service.py`): a settlement feed
is compared with the journal entries of its references, and a reference that has no entry gets a
compensating entry.
-/

/-- `n` in hexadecimal, with `width` digits. -/
def hexDigits : Nat → Nat → List Char
  | 0, _ => []
  | width + 1, n => hexDigits width (n / 16) ++ [Nat.digitChar (n % 16)]

/-- `uuid4().hex[:8]`. -/
def hex8 (u : UUID) : String := String.ofList (hexDigits 8 (u / 2 ^ 96))

def compReference (reference : String) (u : UUID) : String :=
  "comp-" ++ reference ++ "-" ++ hex8 u

def extractInternalAmount (entry : JournalEntryEntity) (externalTarget : Decimal) : Decimal :=
  let debitAmounts := (entry.postings.filter fun p => p.direction = .debit).map (·.amount)
  if externalTarget ∈ debitAmounts then externalTarget
  else
    match debitAmounts with
    | [] => 0
    | [amount] => amount
    | _ => debitAmounts.sum

def compLegs (userAcc gatewayAcc : UUID) (amount : Decimal) : List Leg :=
  [⟨userAcc, amount, .debit⟩, ⟨gatewayAcc, amount, .credit⟩]

def createCompensatingEntry [PyStr] (gatewayName referenceId : String) (amount : Decimal)
    (currency : String) : LedgerProg JournalEntryEntity := do
  let userAcc ← getOrCreateAccount ("SETTLEMENT-USER-" ++ clean currency)
    ("User Settlement Clearing (" ++ clean currency ++ ")") .asset (clean currency)
  let gatewayAcc ← getOrCreateAccount
    ("GATEWAY-CLEARING-" ++ clean gatewayName ++ "-" ++ clean currency)
    (clean gatewayName ++ " Gateway Clearing (" ++ clean currency ++ ")") .liability
    (clean currency)
  let postings ← Prog.ofExcept (buildPostings (compLegs userAcc.id gatewayAcc.id amount))
  let suffix ← proc .uuid
  db (.createJournalEntry (compReference referenceId suffix)
    ("Automated drift recovery compensating entry for external " ++ clean gatewayName ++
      " settlement " ++ referenceId) postings false)

structure ReconciliationState where
  matchedCount : Nat := 0
  discrepancyCount : Nat := 0
  autoCompensatedCount : Nat := 0
  items : List ReconciliationItemEntity := []

/-- The last entry with the reference: `{entry.reference_id: entry for entry in …}`. -/
def entryByRef (entries : List JournalEntryEntity) (reference : String) :
    Option JournalEntryEntity :=
  entries.reverse.find? fun e => e.referenceId = reference

def ReconciliationState.add (st : ReconciliationState) (rec : ReconciliationItemEntity) :
    ReconciliationState where
  matchedCount := st.matchedCount + (if rec.discrepancyType = .matched then 1 else 0)
  discrepancyCount := st.discrepancyCount + (if rec.discrepancyType = .matched then 0 else 1)
  autoCompensatedCount :=
    st.autoCompensatedCount + (if rec.resolutionStatus = .autoCompensated then 1 else 0)
  items := st.items ++ [rec]

def recordItem (st : ReconciliationState) (item : SettlementItemDTO)
    (internalAmount : Option Decimal) (discrepancy : DiscrepancyType)
    (resolution : ResolutionStatus) (compensating : Option UUID) :
    LedgerProg ReconciliationState := do
  let id ← proc .uuid
  let batchId ← proc .uuid
  return st.add ⟨id, batchId, item.referenceId, item.amount, internalAmount, discrepancy,
    resolution, compensating⟩

def reconcileItem [PyStr] (gatewayName : String) (autoCompensate : Bool)
    (entries : List JournalEntryEntity) (st : ReconciliationState) (item : SettlementItemDTO) :
    LedgerProg ReconciliationState :=
  match entryByRef entries item.referenceId with
  | some internalEntry =>
    let intAmount := extractInternalAmount internalEntry item.amount
    if |item.amount - intAmount| = 0 then
      recordItem st item (some intAmount) .matched .resolved none
    else
      recordItem st item (some intAmount) .amountMismatch .manualReview none
  | none =>
    if autoCompensate then do
      let entry ← createCompensatingEntry gatewayName item.referenceId item.amount item.currency
      recordItem st item none .missingInLedger .autoCompensated (some entry.id)
    else
      recordItem st item none .missingInLedger .unresolved none

def reconcileItems [PyStr] (gatewayName : String) (autoCompensate : Bool)
    (entries : List JournalEntryEntity) :
    List SettlementItemDTO → ReconciliationState → LedgerProg ReconciliationState
  | [], st => return st
  | item :: rest, st => do
    let st ← reconcileItem gatewayName autoCompensate entries st item
    reconcileItems gatewayName autoCompensate entries rest st

/-- The arguments of `reconcile_settlement_feed`. -/
structure ReconcileArgs where
  batchReference : String
  gatewayName : String
  settlementItems : List SettlementItemDTO
  autoCompensate : Bool := true

structure ReconciliationSummary where
  batch : ReconciliationBatchEntity
  autoCompensatedRecords : Nat
  deriving DecidableEq

def reconcileInUow [PyStr] (a : ReconcileArgs) : LedgerProg ReconciliationSummary := do
  let existing ← db (.getBatchByReference a.batchReference)
  Prog.raiseIf (existing.isSome = true) (.duplicateReference a.batchReference)
  let entries ← db (.getJournalEntriesByReferences (a.settlementItems.map (·.referenceId)))
  let st ← reconcileItems a.gatewayName a.autoCompensate entries a.settlementItems {}
  let batch ← db (.createBatch a.batchReference (clean a.gatewayName) a.settlementItems.length
    st.matchedCount st.discrepancyCount "COMPLETED" st.items)
  db .commit
  return ⟨batch, st.autoCompensatedCount⟩

def reconcileSettlementFeed [PyStr] (a : ReconcileArgs) : LedgerProg ReconciliationSummary :=
  asyncWithUow (reconcileInUow a)

/-- How an item of the feed is recorded, against the entries that were read before the loop. -/
def Classified (entries : List JournalEntryEntity) (autoCompensate : Bool)
    (item : SettlementItemDTO) (rec : ReconciliationItemEntity) : Prop :=
  rec.referenceId = item.referenceId ∧ rec.externalAmount = item.amount ∧
    match entryByRef entries item.referenceId with
    | some e =>
      rec.internalAmount = some (extractInternalAmount e item.amount) ∧
      rec.compensatingJournalEntryId = none ∧
      (if |item.amount - extractInternalAmount e item.amount| = 0 then
        rec.discrepancyType = .matched ∧ rec.resolutionStatus = .resolved
      else rec.discrepancyType = .amountMismatch ∧ rec.resolutionStatus = .manualReview)
    | none =>
      rec.internalAmount = none ∧ rec.discrepancyType = .missingInLedger ∧
      (if autoCompensate then rec.resolutionStatus = .autoCompensated
      else rec.resolutionStatus = .unresolved)

def needsCompensation (entries : List JournalEntryEntity) (autoCompensate : Bool)
    (item : SettlementItemDTO) : Bool :=
  autoCompensate && (entryByRef entries item.referenceId).isNone

def Compensates (item : SettlementItemDTO) (e : JournalEntryEntity) : Prop :=
  (∃ u, e.referenceId = compReference item.referenceId u) ∧
    ∃ userAcc gatewayAcc, e.postings.map (·.leg) = compLegs userAcc gatewayAcc item.amount

structure FeedRecorded (entries : List JournalEntryEntity) (autoCompensate : Bool)
    (items : List SettlementItemDTO) (st : ReconciliationState) (added : List JournalEntryEntity) :
    Prop where
  classified : List.Forall₂ (Classified entries autoCompensate) items st.items
  compensated : List.Forall₂ Compensates
    (items.filter (needsCompensation entries autoCompensate)) added
  links : st.items.filterMap (·.compensatingJournalEntryId) = added.map (·.id)
  matchedCount : st.matchedCount = st.items.countP (·.discrepancyType = .matched)
  discrepancyCount : st.discrepancyCount = st.items.countP (·.discrepancyType ≠ .matched)
  autoCompensatedCount :
    st.autoCompensatedCount = st.items.countP (·.resolutionStatus = .autoCompensated)

namespace FeedRecorded

lemma nil (entries : List JournalEntryEntity) (autoCompensate : Bool) :
    FeedRecorded entries autoCompensate [] {} [] :=
  ⟨.nil, .nil, rfl, rfl, rfl, rfl⟩

lemma add (h : FeedRecorded entries autoCompensate items st added)
    {rec : ReconciliationItemEntity} (hc : Classified entries autoCompensate item rec)
    (es : List JournalEntryEntity) (hcomp : List.Forall₂ Compensates
      ([item].filter (needsCompensation entries autoCompensate)) es)
    (hlink : rec.compensatingJournalEntryId.toList = es.map (·.id)) :
    FeedRecorded entries autoCompensate (items ++ [item]) (st.add rec) (added ++ es) where
  classified := rel_append h.classified (.cons hc .nil)
  compensated := by
    rw [filter_append]
    exact rel_append h.compensated hcomp
  links := by
    rw [map_append, ← h.links, ← hlink]
    cases hid : rec.compensatingJournalEntryId <;> simp [ReconciliationState.add, hid]
  matchedCount := by
    simp [ReconciliationState.add, h.matchedCount, countP_cons]
  discrepancyCount := by
    by_cases hd : rec.discrepancyType = .matched <;>
      simp [ReconciliationState.add, h.discrepancyCount, hd]
  autoCompensatedCount := by
    simp [ReconciliationState.add, h.autoCompensatedCount, countP_cons]

end FeedRecorded

/-- The invariant of the loop: the rows that the session has staged, over the ledger `d0`. -/
structure Reconciled (d0 : Ledger) (entries : List JournalEntryEntity) (autoCompensate : Bool)
    (items : List SettlementItemDTO) (st : ReconciliationState) (staged : Ledger) : Prop extends
    FeedRecorded entries autoCompensate items st staged.entries where
  rows : d0.SoundRows staged
  outbox : staged.outbox = []
  batches : staged.batches = []

namespace Reconciled

lemma nil (d0 : Ledger) (entries : List JournalEntryEntity) (autoCompensate : Bool) :
    Reconciled d0 entries autoCompensate [] {} Ledger.empty :=
  ⟨.nil _ _, .empty d0, rfl, rfl⟩

lemma add (h : Reconciled d0 entries autoCompensate items st staged)
    {rec : ReconciliationItemEntity} (hc : Classified entries autoCompensate item rec)
    (es : List JournalEntryEntity) (he : staged'.entries = staged.entries ++ es)
    (hcomp : List.Forall₂ Compensates ([item].filter (needsCompensation entries autoCompensate)) es)
    (hlink : rec.compensatingJournalEntryId.toList = es.map (·.id)) (hrows : d0.SoundRows staged')
    (ho : staged'.outbox = []) (hb : staged'.batches = []) :
    Reconciled d0 entries autoCompensate (items ++ [item]) (st.add rec) staged' := by
  refine ⟨?_, hrows, ho, hb⟩
  rw [he]
  exact h.toFeedRecorded.add hc es hcomp hlink

end Reconciled

/-! ## Compensating entries -/

lemma Resolved.sound [PyStr] (h : Resolved d l number type currency acc l')
    (hl : d.SoundRows l.staged) : d.SoundRows l'.staged ∧ acc.id ∈ (d ++ l'.staged).accountIds ∧
      ∃ accounts, l'.staged = l.staged ++ { accounts := accounts } := by
  cases h with
  | found h =>
    obtain ⟨hm, -⟩ := Ledger.getAccountByNumber_some h
    exact ⟨hl, mem_map_of_mem hm, [], (Ledger.append_empty _).symm⟩
  | created hn ht hc hf =>
    refine ⟨hl.append (.account _ acc) hf.of_append.2, ?_, [acc], rfl⟩
    rw [Session.stage_staged, ← Ledger.append_assoc, Ledger.accountIds_append]
    exact mem_append_right _ (mem_singleton.mpr rfl)

lemma compLegs_total : Books.total ((compLegs userAcc gatewayAcc amount).map (·.signed)) = 0 := by
  simp [compLegs, Leg.signed, PostingDirection.signed]

lemma wp_createCompensatingEntry [PyStr] {α : Type} {Q : LedgerPost α}
    {k : JournalEntryEntity → LedgerProg α} (hl : s.db.SoundRows l.staged)
    (hok : ∀ e accounts l', s.db.SoundRows l'.staged → Compensates item e →
      l'.staged = l.staged ++ ⟨accounts, [e], [], []⟩ →
      (alone ledgerMachine t).wp t (k e) Q l' s) (herr : ∀ e l', Q (.error e) l' s) :
    (alone ledgerMachine t).wp t
      ((createCompensatingEntry gateway item.referenceId item.amount item.currency).bind k) Q l
      s := by
  simp only [createCompensatingEntry, bind_eq, bind_assoc]
  refine wp_getOrCreateAccount stable_alone keeps_alone (fun user l1 s1 hr1 h1 => ?_)
    fun e l' s' _ hr => by rw [eq_of_alone hr]; exact herr e l'
  rw [eq_of_alone hr1] at h1 ⊢
  obtain ⟨hl1, hu, as1, he1⟩ := h1.sound hl
  refine wp_getOrCreateAccount stable_alone keeps_alone (fun gate l2 s2 hr2 h2 => ?_)
    fun e l' s' _ hr => by rw [eq_of_alone hr]; exact herr e l'
  rw [eq_of_alone hr2] at h2 ⊢
  obtain ⟨hl2, hg, as2, he2⟩ := h2.sound hl1
  refine stable_alone.ofExcept_bind (fun ps hps => ?_) fun e _ => herr e _
  refine wp_uuid stable_alone (fun _ _ _ _ => alone_keeps ..) fun u s3 hr3 => ?_
  rw [eq_of_alone hr3]
  refine wp_insert stable_alone keeps_alone (fun o s4 hr4 hf => ?_)
    fun e l' s' _ hr => by rw [eq_of_alone hr]; exact herr e l'
  rw [eq_of_alone hr4] at hf ⊢
  have hlegs := (postingRows_legs (o.ids 0) o.now (fun n => o.ids (n + 1))).trans
    (buildPostings_legs hps)
  have hu2 : user.id ∈ (s.db ++ l2.staged).accountIds := by
    rw [he2, ← Ledger.append_assoc, Ledger.accountIds_append]
    exact mem_append_left _ hu
  have hposted : ∀ p ∈ postingRows (o.ids 0) o.now (fun n => o.ids (n + 1)) ps,
      p.accountId ∈ (s.db ++ l2.staged).accountIds := by
    intro p hp
    have hleg : p.leg ∈ compLegs user.id gate.id item.amount := by
      rw [← hlegs]
      exact mem_map_of_mem hp
    rcases mem_cons.mp hleg with h | h
    · rw [show p.accountId = user.id from congrArg Leg.accountId h]
      exact hu2
    · rw [show p.accountId = gate.id from congrArg Leg.accountId (mem_singleton.mp h)]
      exact hg
  refine hok _ (as1 ++ as2) _ (hl2.append (.entry ?_ hposted) hf.of_append.2)
    ⟨⟨u, rfl⟩, _, _, hlegs⟩ ?_
  · exact balanced_of_legs hlegs (by simp [compLegs])
      (fun g hg => (buildPostings_valid hps hg).1) (compLegs_total ..)
  · rw [Session.stage_staged, he2, he1]
    ext1 <;> simp

/-! ## The loop -/

section Loop

variable [PyStr]

omit [PyStr] in
lemma wp_recordItem (hok : ∀ id batchId, (alone ledgerMachine t).wp t
      (k (st.add ⟨id, batchId, item.referenceId, item.amount, internal, discrepancy, resolution,
        compensating⟩)) Q l s) : (alone ledgerMachine t).wp t
      ((recordItem st item internal discrepancy resolution compensating).bind k) Q l s := by
  simp only [recordItem, bind_eq, bind_assoc]
  refine wp_uuid stable_alone (fun _ _ _ _ => alone_keeps ..) fun id s1 hr1 => ?_
  refine wp_uuid stable_alone (fun _ _ _ _ => alone_keeps ..) fun batchId s2 hr2 => ?_
  rw [eq_of_alone hr2, eq_of_alone hr1]
  exact hok id batchId

lemma wp_reconcileItem (h : Reconciled s.db entries autoCompensate items st l.staged)
    (hok : ∀ st' l', Reconciled s.db entries autoCompensate (items ++ [item]) st' l'.staged →
      (alone ledgerMachine t).wp t (k st') Q l' s) (herr : ∀ e l', Q (.error e) l' s) :
    (alone ledgerMachine t).wp t
      ((reconcileItem gateway autoCompensate entries st item).bind k) Q l s := by
  -- an item that needs no compensation leaves the session as it is
  have hkeep : ∀ {rec : ReconciliationItemEntity}, Classified entries autoCompensate item rec →
      needsCompensation entries autoCompensate item = false →
      rec.compensatingJournalEntryId = none →
      (alone ledgerMachine t).wp t (k (st.add rec)) Q l s := by
    intro rec hc hn hid
    refine hok _ l (h.add hc [] (append_nil _).symm ?_ ?_ h.rows h.outbox h.batches)
    · rw [filter_cons_of_neg (by simp [hn])]
      exact .nil
    · rw [hid]; rfl
  unfold reconcileItem
  cases hent : entryByRef entries item.referenceId with
  | some e =>
    have hn : needsCompensation entries autoCompensate item = false := by
      simp [needsCompensation, hent]
    show (alone ledgerMachine t).wp t (Prog.bind (if |item.amount -
      extractInternalAmount e item.amount| = 0 then _ else _) k) Q l s
    split
    · rename_i hz
      refine wp_recordItem fun id batchId => hkeep ⟨rfl, rfl, ?_⟩ hn rfl
      simp only [hent, if_pos hz, and_self]
    · rename_i hz
      refine wp_recordItem fun id batchId => hkeep ⟨rfl, rfl, ?_⟩ hn rfl
      simp only [hent, if_neg hz, and_self]
  | none =>
    cases autoCompensate with
    | false =>
      refine wp_recordItem fun id batchId => hkeep ⟨rfl, rfl, ?_⟩ (by simp [needsCompensation]) rfl
      simp [hent]
    | true =>
      have hn : needsCompensation entries true item = true := by simp [needsCompensation, hent]
      simp only [if_true, bind_eq, bind_assoc]
      refine wp_createCompensatingEntry h.rows
        (fun e accounts l' hl' he hst => ?_) herr
      refine wp_recordItem fun id batchId => hok _ l' (h.add ⟨rfl, rfl, ?_⟩ [e] ?_ ?_ rfl hl' ?_ ?_)
      · simp [hent]
      · rw [hst]; rfl
      · rw [filter_cons_of_pos (by simpa using hn)]
        exact .cons he .nil
      · rw [hst]; simp [h.outbox]
      · rw [hst]; simp [h.batches]

lemma wp_reconcileItems (h : Reconciled s.db entries autoCompensate items st l.staged)
    (hok : ∀ st' l', Reconciled s.db entries autoCompensate (items ++ feed) st' l'.staged →
      (alone ledgerMachine t).wp t (k st') Q l' s) (herr : ∀ e l', Q (.error e) l' s) :
    (alone ledgerMachine t).wp t
      ((reconcileItems gateway autoCompensate entries feed st).bind k) Q l s := by
  induction feed generalizing items st l with
  | nil => exact hok st l (by rw [append_nil]; exact h)
  | cons item rest ih =>
    simp only [reconcileItems, bind_eq, bind_assoc]
    refine wp_reconcileItem h (fun st' l' h' => ih h' fun st'' l'' h'' => ?_) herr
    exact hok st'' l'' (by rwa [append_assoc, singleton_append] at h'')

end Loop

/-! ## The call -/

structure BatchRows (a : ReconcileArgs) (d0 : Ledger) (r : ReconciliationSummary) (rows : Ledger) :
    Prop where
  loop : ∃ st staged, Reconciled d0
    (d0.getJournalEntriesByReferences (a.settlementItems.map (·.referenceId)))
    a.autoCompensate a.settlementItems st staged ∧ rows = staged ++ { batches := [r.batch] } ∧
    r.autoCompensatedRecords = st.autoCompensatedCount ∧
    r.batch.matchedRecords = st.matchedCount ∧ r.batch.discrepancyRecords = st.discrepancyCount ∧
    r.batch.items = st.items.map fun i => { i with batchId := r.batch.id }
  reference : r.batch.batchReference = a.batchReference
  totalRecords : r.batch.totalRecords = a.settlementItems.length

lemma BatchRows.sound {d0 rows : Ledger} (h : BatchRows a d0 r rows) : d0.SoundRows rows := by
  obtain ⟨st, staged, hl, rfl, -⟩ := h.loop
  refine hl.rows.append (.other (by constructor <;> simp) rfl) ⟨?_, ?_, ?_, ?_⟩
  · exact fun _ hx => nomatch hx
  · exact fun _ hx => nomatch hx
  · exact fun _ hx => nomatch hx
  · intro _ _ b hb
    rw [hl.batches] at hb
    cases hb

lemma reconcileSettlementFeed_alone [PyStr] (a : ReconcileArgs) (t : Tid) (o : Nat → Answer)
    (l : Session) (s : World) :
    Wrote (BatchRows a s.db) s.db (ledgerMachine.run t (reconcileSettlementFeed a) o l s).1
      (ledgerMachine.run t (reconcileSettlementFeed a) o l s).2.2.db := by
  refine run_of_wp (uow_alone ?_) o
  refine wp_read stable_alone keeps_alone (f := (·.getBatchByReference a.batchReference))
    (fun s1 hr1 => ?_) fun s' hr => .inl (by rw [eq_of_alone hr])
  rw [eq_of_alone hr1]
  refine stable_alone.raiseIf_bind (fun _ => ?_) fun _ => .inl rfl
  refine wp_read stable_alone keeps_alone
    (f := (·.getJournalEntriesByReferences (a.settlementItems.map (·.referenceId))))
    (fun s2 hr2 => ?_) fun s' hr => .inl (by rw [eq_of_alone hr])
  rw [eq_of_alone hr2, Session.view_empty]
  refine wp_reconcileItems (.nil s.db _ _) (fun st l1 h1 => ?_) fun _ _ => .inl rfl
  refine wp_insert stable_alone keeps_alone (fun o s3 hr3 _ => ?_)
    fun e l' s' _ hr => .inl (by rw [eq_of_alone hr])
  rw [eq_of_alone hr3]
  exact wp_commit_alone ⟨⟨st, l1.staged, h1, rfl, rfl, rfl, rfl, rfl⟩, rfl, rfl⟩

end CleanArch
