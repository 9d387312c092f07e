import CleanArch.Ledger.Movement
import CleanArch.Ledger.ReconciliationSpec

/-!
# What a matched item agrees with

The debits of a transfer (`TransferArgs.debitAmounts`) are its amount and its fee, or their total,
depending on the side of the source, and the converted amount of a transfer between two currencies.
An item is matched exactly if its amount is one of these or their sum (`Debited`).
-/

namespace CleanArch

open Async LedgerCmd List Protocol Sys

/-!
## Which transfer wrote an entry

Concurrent transfers in a ledger that other services write to as well: between two requests of the
transfers, others commit any rows that keep the keys of the tables unique (`JournalEnv`).
`CommittedBy calls s es t x`: in the run, a step of call `t` has committed the entry `x`.
-/

instance (d : Ledger) : Decidable d.Keyed :=
  decidable_of_iff ((d.accounts.map (·.id)).Nodup ∧ (d.accounts.map (·.accountNumber)).Nodup ∧
      (d.entries.map (·.id)).Nodup ∧ (d.entries.map (·.referenceId)).Nodup ∧
      (d.outbox.map (·.id)).Nodup ∧ (d.batches.map (·.id)).Nodup ∧
      (d.batches.map (·.batchReference)).Nodup)
    ⟨fun ⟨h1, h2, h3, h4, h5, h6, h7⟩ => ⟨h1, h2, h3, h4, h5, h6, h7⟩,
      fun ⟨h1, h2, h3, h4, h5, h6, h7⟩ => ⟨h1, h2, h3, h4, h5, h6, h7⟩⟩

inductive JournalEnv where
  | expire (e : LedgerEnv)
  /-- Another service commits these rows; the database refuses rows that break a key. -/
  | commit (rows : Ledger)

def JournalEnv.exec (s : World) : JournalEnv → World
  | .expire e => e.exec s
  | .commit rows => if (s.db ++ rows).Keyed then { s with db := s.db ++ rows } else s

@[reducible] def journalSys [PyStr] (calls : Tid → TransferCall) : Sys where
  toMachine := ledgerMachine
  Env := JournalEnv
  env e s := e.exec s
  A := FundTransferResponse
  prog t := transferFunds (calls t).deps t (calls t).tries (calls t).args
  loc _ := {}

lemma journal_refl (_ : Tid) (s : World) : s.db.Grows s.db := .refl s.db

lemma journal_trans (_ : Tid) (s1 s2 s3 : World) (h1 : s1.db.Grows s2.db)
    (h2 : s2.db.Grows s3.db) : s1.db.Grows s3.db :=
  h1.trans h2

def planProtocol [PyStr] (calls : Tid → TransferCall) : Protocol ledgerMachine where
  inv s := s.db.Keyed
  rely _ s s' := s.db.Grows s'.db
  good t c l s o := (c.exec o l s).2.2.db = s.db ∨
    ∃ plan, Ready (calls t).args plan l.staged s.db ∧ (c.exec o l s).2.2.db = s.db ++ l.staged
  refl := journal_refl
  trans := journal_trans

def noFacts : TransferFacts where
  start _ := True
  before _ := True
  funded _ _ := True
  committed _ _ := True
  replayed _ _ := True
  failed _ := True

variable (e : JournalEnv)

lemma JournalEnv.exec_db (s : World) : (e.exec s).db = s.db ∨
      ∃ rows, (s.db ++ rows).Keyed ∧ (e.exec s).db = s.db ++ rows := by
  cases e with
  | expire e => exact .inl (by cases e <;> rfl)
  | commit rows =>
    simp only [JournalEnv.exec]
    split
    · exact .inr ⟨rows, ‹_›, rfl⟩
    · exact .inl rfl

lemma JournalEnv.exec_keyed (h : s.db.Keyed) : (e.exec s).db.Keyed := by
  rcases e.exec_db s with hdb | ⟨rows, hrows, hdb⟩
  · rw [hdb]
    exact h
  · rw [hdb]
    exact hrows

lemma JournalEnv.exec_grows (s : World) : s.db.Grows (e.exec s).db := by
  rcases e.exec_db s with hdb | ⟨rows, -, hdb⟩
  · rw [hdb]
    exact .refl _
  · rw [hdb]
    exact .append _ _

section Protocol

variable [PyStr]

lemma planProtocol_keeps (hi : s.db.Keyed) (hdb : (c.exec o l s).2.2.db = s.db) :
    (planProtocol calls).Keeps t c o l s where
  good := .inl hdb
  inv := by
    show (c.exec o l s).2.2.db.Keyed
    rw [hdb]
    exact hi
  rely u _ := by
    show s.db.Grows (c.exec o l s).2.2.db
    rw [hdb]
    exact .refl _

lemma planProtocol_commit (hi : s.db.Keyed) (hr : Ready (calls t).args plan l.staged s.db) :
    (planProtocol calls).Keeps t (.db .commit) o l s := by
  rcases exec_commit with h | ⟨hfree, h⟩
  · exact planProtocol_keeps hi (by rw [h])
  · refine ⟨.inr ⟨plan, hr, by rw [h]⟩, ?_, fun u _ => ?_⟩
    · rw [h]
      exact hi.append hr.keyed hfree
    · rw [h]
      exact .append _ _

lemma noFacts_lawful : noFacts.Lawful (planProtocol calls) t t (calls t).deps (calls t).args where
  grows _ _ hr := hr
  quiet c o l s hq hi _ := planProtocol_keeps hi (exec_db_eq hq.ne_commit o l s)
  replay _ _ _ _ _ _ _ := trivial
  fresh _ _ _ _ := trivial
  check _ _ _ _ _ _ := trivial
  commit plan o l s hi _ hr _ := ⟨planProtocol_commit hi hr, fun _ => trivial⟩
  complete plan r o l s hi _ _ _ := by
    refine planProtocol_keeps hi (exec_db_eq ?_ o l s)
    intro heq
    cases heq

end Protocol

/-! ## Runs -/

section Runs

variable [PyStr] (calls : Tid → TransferCall)

def newEntries (c : (journalSys calls).Config) (e : (journalSys calls).Event) :
    List JournalEntryEntity :=
  (step c e).sh.db.entries.drop c.sh.db.entries.length

/-- Call `t` has committed the entry `x` in the run. -/
def CommittedBy (s : World) (es : List (journalSys calls).Event) (t : Tid)
    (x : JournalEntryEntity) : Prop :=
  ∃ before o after, es = before ++ .turn t o :: after ∧
    x ∈ newEntries calls (run (start s) before) (.turn t o)

variable {calls}

lemma planProtocol_holds (hk : s.db.Keyed) (es : List (journalSys calls).Event) :
    Holds (S := journalSys calls) (P := planProtocol calls)
      (Q := fun _ _ _ _ => True) (run (start s) es) := by
  refine sound_of_forall (fun _ _ _ _ _ => trivial) (fun e s hi => ?_) ?_ es
  · exact ⟨e.exec_keyed hi, fun _ => e.exec_grows s⟩
  · refine Holds.start hk fun t => ?_
    exact wp_mono ((noFacts_lawful).transferFunds_wp (calls t).tries hk trivial)
      fun _ _ _ _ _ => trivial

lemma journal_keyed (hk : s.db.Keyed) (es : List (journalSys calls).Event) :
    (run (start s) es : (journalSys calls).Config).sh.db.Keyed :=
  (planProtocol_holds hk es).1

lemma journal_step_grows (c : (journalSys calls).Config) (e : (journalSys calls).Event) :
    c.sh.db.Grows (step c e).sh.db := by
  cases e with
  | world e => exact e.exec_grows c.sh
  | turn t o =>
    rcases (c.thr t).2.ended_or_awaits with hn | ⟨r, k, hp⟩
    · rw [step_ended hn]
      exact .refl _
    · rw [step_await hp]
      by_cases hc : r = .db .commit
      · subst hc
        rcases exec_commit with h | ⟨-, h⟩
        · rw [h]
          exact .refl _
        · rw [h]
          exact .append _ _
      · rw [exec_db_eq hc]
        exact .refl _

lemma journal_grows (c : (journalSys calls).Config) (es : List (journalSys calls).Event) :
    c.sh.db.Grows (run c es).sh.db := by
  induction es generalizing c with
  | nil => exact .refl _
  | cons e es ih => exact (journal_step_grows c e).trans (ih (step c e))

lemma CommittedBy.ready (hk : s.db.Keyed) (h : CommittedBy calls s es t x) :
    ∃ plan rows d, Ready (calls t).args plan rows d ∧ x = plan.entry ∧
      (d ++ rows).Grows (run (start s) es).sh.db := by
  obtain ⟨before, o, after, rfl, hx⟩ := h
  have hh := planProtocol_holds hk before
  have hrun : run (start s) (before ++ .turn t o :: after) =
      run (step (run (start s) before) (.turn t o)) after :=
    List.foldl_append
  rw [hrun]
  generalize run (start s) before = c at *
  have hgrows := journal_grows (step c (.turn t o)) after
  unfold newEntries at hx
  rcases (c.thr t).2.ended_or_awaits with hn | ⟨r, k, hp⟩
  · rw [step_ended hn, List.drop_length] at hx
    cases hx
  · have hr : (c.thr t).2.next? = some r := by
      rw [hp]
      rfl
    have hgood := hh.good (t := t) (o := o) hr trivial
    rw [step_await hp] at hx hgrows ⊢
    rcases hgood with hdb | ⟨plan, hready, hdb⟩
    · simp only [hdb, List.drop_length] at hx
      cases hx
    · simp only [hdb, Ledger.entries_append, List.drop_left, hready.entries] at hx hgrows
      exact ⟨plan, _, c.sh.db, hready, List.mem_singleton.mp hx, hgrows⟩

end Runs

structure Agrees (d : Ledger) (a : TransferArgs) (item : SettlementItemDTO) : Prop where
  amount : item.amount = a.amount
  currency : ∃ acc, d.getAccountById a.sourceAccountId = some acc ∧ item.currency = acc.currency

def TransferArgs.debitAmounts (a : TransferArgs) (source dest : LedgerAccountEntity)
    (destAmount : Decimal) : List Decimal :=
  (if source.accountType.debitNormal then
    a.amount :: (a.feeAccount.map fun _ => a.feeAmount).toList
  else [a.totalRequired]) ++
  if source.currency = dest.currency then [] else [destAmount]

def Debited [PyStr] (d : Ledger) (a : TransferArgs) (amount : Decimal) : Prop :=
  ∃ source dest quote, d.getAccountById a.sourceAccountId = some source ∧
    d.getAccountById a.destinationAccountId = some dest ∧
    destinationAmount a source.currency dest.currency = .ok quote ∧
    (amount ∈ a.debitAmounts source dest quote.1 ∨
      amount = (a.debitAmounts source dest quote.1).sum)

/-! ## The amount of an entry -/

def debitsOf (legs : List Leg) : List Decimal :=
  (legs.filter fun g => g.direction = .debit).map (·.amount)

lemma debitsOf_append : debitsOf (gs ++ gs') = debitsOf gs ++ debitsOf gs' := by
  simp [debitsOf]

lemma extractInternalAmount_eq_iff (e : JournalEntryEntity) :
    |amount - extractInternalAmount e amount| = 0 ↔ amount ∈ debitsOf (e.postings.map (·.leg)) ∨
        amount = (debitsOf (e.postings.map (·.leg))).sum := by
  have hdebits : debitsOf (e.postings.map (·.leg)) =
      (e.postings.filter fun p => p.direction = .debit).map (·.amount) := by
    simp only [debitsOf, filter_map, map_map]
    rfl
  rw [abs_eq_zero, sub_eq_zero, hdebits]
  unfold extractInternalAmount
  generalize (e.postings.filter fun p => p.direction = .debit).map (·.amount) = debits
  by_cases hmem : amount ∈ debits
  · simp [hmem]
  · simp only [hmem, if_false, false_or]
    match debits with
    | [] => simp
    | [x] => simp
    | _ :: _ :: _ => rfl

/-! ## The debits of a transfer -/

lemma debitsOf_feeLeg_debit : debitsOf (feeLeg a .debit) =
    (a.feeAccount.map fun _ => a.feeAmount).toList := by
  unfold feeLeg
  cases a.feeAccount <;> rfl

lemma debitsOf_feeLeg_credit : debitsOf (feeLeg a .credit) = [] := by
  unfold feeLeg
  cases a.feeAccount <;> rfl

lemma debitsOf_singleCurrencyLegs (hc : source.currency = dest.currency) :
    (debitsOf (singleCurrencyLegs a source.accountType)).Perm
      (a.debitAmounts source dest destAmount) := by
  unfold singleCurrencyLegs TransferArgs.debitAmounts
  rw [if_pos hc, append_nil]
  split
  · rw [debitsOf_append, debitsOf_feeLeg_debit]
    rfl
  · rw [debitsOf_append, debitsOf_feeLeg_credit]
    rfl

lemma debitsOf_crossCurrencyLegs (hc : source.currency ≠ dest.currency) :
    (debitsOf (crossCurrencyLegs a source.accountType dest.accountType sourceFx destFx
      destAmount)).Perm (a.debitAmounts source dest destAmount) := by
  unfold crossCurrencyLegs TransferArgs.debitAmounts
  rw [if_neg hc, debitsOf_append, debitsOf_append]
  -- the converted amount has one debit leg, whatever the side of the destination
  have hdest : debitsOf (if dest.accountType.debitNormal then
      [⟨destFx, destAmount, .credit⟩, ⟨a.destinationAccountId, destAmount, .debit⟩]
    else [⟨destFx, destAmount, .debit⟩, ⟨a.destinationAccountId, destAmount, .credit⟩]) =
      [destAmount] := by
    split <;> rfl
  rw [hdest]
  split
  · rw [debitsOf_feeLeg_debit]
    exact List.Perm.cons _ perm_append_comm
  · rw [debitsOf_feeLeg_credit]
    rfl

lemma Ready.debits [PyStr] (h : Ready a plan rows d) :
    (debitsOf (plan.entry.postings.map (·.leg))).Perm
      (a.debitAmounts plan.source plan.dest plan.quote.1) := by
  have hlegs := h.legs
  rw [h.postings]
  generalize plan.legs = legs at hlegs
  cases hlegs with
  | single hc => exact debitsOf_singleCurrencyLegs hc
  | cross hc => exact debitsOf_crossCurrencyLegs hc

lemma Ready.debited_iff [PyStr] (h : Ready a plan rows d) (hg : d.Grows d') (amount : Decimal) :
    Debited d' a amount ↔ |amount - extractInternalAmount plan.entry amount| = 0 := by
  rw [extractInternalAmount_eq_iff, h.debits.mem_iff, h.debits.sum_eq]
  have hsource := hg.getAccountById h.loaded.source
  have hdest := hg.getAccountById h.loaded.dest
  constructor
  · rintro ⟨source, dest, quote, hs, hd, hq, hor⟩
    rw [hsource] at hs
    rw [hdest] at hd
    cases hs
    cases hd
    rw [h.quote] at hq
    cases hq
    exact hor
  · intro hor
    exact ⟨_, _, _, hsource, hdest, h.quote, hor⟩

/-! ## Feeds -/

lemma Ledger.Keyed.entryByRef {d : Ledger} (h : d.Keyed) {x : JournalEntryEntity}
    (hx : x ∈ d.entries) {references : List String} (href : x.referenceId ∈ references) :
    entryByRef (d.getJournalEntriesByReferences references) x.referenceId = some x := by
  unfold CleanArch.entryByRef
  have hmem : x ∈ (d.getJournalEntriesByReferences references).reverse :=
    mem_reverse.mpr (mem_filter.mpr ⟨hx, by simpa using href⟩)
  obtain ⟨y, hy⟩ : ∃ y, (d.getJournalEntriesByReferences references).reverse.find?
      (fun e => e.referenceId = x.referenceId) = some y :=
    Option.isSome_iff_exists.mp (List.find?_isSome.mpr ⟨x, hmem, by simp⟩)
  have hyref : y.referenceId = x.referenceId := by simpa using List.find?_some hy
  have hyd : y ∈ d.entries :=
    (mem_filter.mp (mem_reverse.mp (mem_of_find?_eq_some hy))).1
  rw [hy, inj_on_of_nodup_map h.entryReferences hyd hx hyref]

lemma entryByRef_some {d : Ledger}
    (h : entryByRef (d.getJournalEntriesByReferences references) reference = some x) :
    x ∈ d.entries ∧ x.referenceId = reference := by
  refine ⟨?_, by simpa using List.find?_some h⟩
  exact (mem_filter.mp (mem_reverse.mp (mem_of_find?_eq_some h))).1

lemma Classified.matched_iff {rec : ReconciliationItemEntity}
    (h : Classified entries autoCompensate item rec) : rec.discrepancyType = .matched ↔
      ∃ x, entryByRef entries item.referenceId = some x ∧
        |item.amount - extractInternalAmount x item.amount| = 0 := by
  obtain ⟨-, -, h⟩ := h
  cases hent : entryByRef entries item.referenceId with
  | none =>
    rw [hent] at h
    simp [h.2.1]
  | some x =>
    rw [hent] at h
    obtain ⟨-, -, h⟩ := h
    split at h
    · rename_i hz
      exact ⟨fun _ => ⟨x, rfl, hz⟩, fun _ => h.1⟩
    · rename_i hz
      rw [h.1]
      refine iff_of_false nofun ?_
      rintro ⟨y, hy, hzero⟩
      cases hy
      exact hz hzero

section Feed

variable [PyStr] (calls : Tid → TransferCall) (s : World) (es : List (journalSys calls).Event)

def journalAfter : World := (Sys.run (Sys.start s) es : (journalSys calls).Config).sh

/-- A transfer has committed an entry with the reference of the item, and the item agrees with the
transfer. -/
structure AgreesWithTransfer (item : SettlementItemDTO) : Prop where
  entry : ∃ t x, CommittedBy calls s es t x ∧ x.referenceId = item.referenceId
  transfer : ∀ t x, CommittedBy calls s es t x → x.referenceId = item.referenceId →
    Agrees (journalAfter calls s es).db (calls t).args item

def FromTransfers (feed : List SettlementItemDTO) : Prop :=
  ∀ item ∈ feed, ∀ x ∈ (journalAfter calls s es).db.entries, x.referenceId = item.referenceId →
    ∃ t, CommittedBy calls s es t x

variable {calls s es}

/-- A run with unique keys: the entry of a transfer is the entry of its reference, and it matches
what the transfer has debited. -/
lemma CommittedBy.matches_iff (hk : s.db.Keyed) (h : CommittedBy calls s es t x)
    (href : x.referenceId ∈ references) (amount : Decimal) :
    entryByRef ((journalAfter calls s es).db.getJournalEntriesByReferences references)
        x.referenceId = some x ∧
      (Debited (journalAfter calls s es).db (calls t).args amount ↔
        |amount - extractInternalAmount x amount| = 0) := by
  obtain ⟨plan, rows, d, hready, rfl, hgrows⟩ := h.ready hk
  constructor
  · refine (journal_keyed hk es).entryByRef (hgrows.mem_entries ?_) href
    simp [hready.entries]
  · exact hready.debited_iff ((Ledger.Grows.append d rows).trans hgrows) amount

/-- A call of `reconcile_settlement_feed` that returns: all the items that it has matched agree with
their transfers exactly if every item whose amount the transfer of its reference has debited, in one
leg or in all of them, agrees with it. -/
theorem matched_agrees_iff (hk : s.db.Keyed) (a : ReconcileArgs) (o : Nat → Answer)
    (hfeed : FromTransfers calls s es a.settlementItems) {r : ReconciliationSummary}
    (hr : (ledgerMachine.run 0 (reconcileSettlementFeed a) o {} (journalAfter calls s es)).1 =
      .ok r) :
    (∀ p ∈ a.settlementItems.zip r.batch.items, p.2.discrepancyType = .matched →
        AgreesWithTransfer calls s es p.1) ↔
      ∀ item ∈ a.settlementItems, ∀ t x, CommittedBy calls s es t x →
        x.referenceId = item.referenceId →
        Debited (journalAfter calls s es).db (calls t).args item.amount →
        Agrees (journalAfter calls s es).db (calls t).args item := by
  have hwrote := reconcileSettlementFeed_alone a 0 o {} (journalAfter calls s es)
  rw [hr] at hwrote
  obtain ⟨rows, hbatch, -⟩ := hwrote
  obtain ⟨st, staged, hloop, -, -, -, -, hitems⟩ := hbatch.loop
  have hmatched : List.Forall₂ (fun item rec => rec.discrepancyType = .matched ↔
      ∃ x, entryByRef ((journalAfter calls s es).db.getJournalEntriesByReferences
        (a.settlementItems.map (·.referenceId))) item.referenceId = some x ∧
          |item.amount - extractInternalAmount x item.amount| = 0)
      a.settlementItems r.batch.items := by
    rw [hitems, forall₂_map_right_iff]
    exact hloop.classified.imp fun _ _ h => h.matched_iff
  constructor
  · intro hagree item hitem t x hx href hdebited
    obtain ⟨i, hi, rfl⟩ := getElem_of_mem hitem
    have hlen := hmatched.length_eq
    have hzip : (a.settlementItems[i], r.batch.items[i]) ∈
        a.settlementItems.zip r.batch.items :=
      mem_iff_getElem.mpr ⟨i, by simpa using ⟨hi, hlen ▸ hi⟩, by simp⟩
    have hrefs : x.referenceId ∈ a.settlementItems.map (·.referenceId) :=
      mem_map.mpr ⟨_, hitem, href.symm⟩
    obtain ⟨hentry, hiff⟩ := hx.matches_iff hk hrefs a.settlementItems[i].amount
    have hrec := (forall₂_zip hmatched hzip).mpr
      ⟨x, by rw [← href]; exact hentry, hiff.mp hdebited⟩
    exact (hagree _ hzip hrec).transfer t x hx href
  · rintro hcond ⟨item, rec⟩ hzip hrec
    have hitem : item ∈ a.settlementItems := (of_mem_zip hzip).1
    obtain ⟨y, hy, hzero⟩ := (forall₂_zip hmatched hzip).mp hrec
    obtain ⟨hyd, hyref⟩ := entryByRef_some hy
    obtain ⟨u, hu⟩ := hfeed item hitem y hyd hyref
    refine ⟨⟨u, y, hu, hyref⟩, fun t x hx href => hcond item hitem t x hx href ?_⟩
    have hrefs : x.referenceId ∈ a.settlementItems.map (·.referenceId) :=
      mem_map.mpr ⟨_, hitem, href.symm⟩
    obtain ⟨hentry, hiff⟩ := hx.matches_iff hk hrefs item.amount
    -- the entry of the reference is the one that was found
    rw [href, hy] at hentry
    cases hentry
    exact hiff.mpr hzero

end Feed

/-! ### A transfer with a fee -/

def feeCalls (_ : Tid) : TransferCall :=
  { args := { sourceAccountId := 1, destinationAccountId := 2, amount := 30, feeAmount := 1,
              feeAccountId := some 3, referenceId := "t-1", description := "Transfer" } }

def feeRun : List (@journalSys asciiStr feeCalls).Event :=
  (List.range 30).map fun j => .turn 0 (freshIds j)

def oneItem (amount : Decimal) (currency : String) : ReconcileArgs where
  batchReference := "batch-1"
  gatewayName := "Stripe"
  settlementItems := [{ referenceId := "t-1", amount := amount, currency := currency }]

def matchedSummary (amount : Decimal) : ReconciliationSummary where
  batch := ⟨6000, "batch-1", "STRIPE", 1, 1, 0, "COMPLETED", 0,
    [⟨4000, 6000, "t-1", amount, some amount, .matched, .resolved, none⟩]⟩
  autoCompensatedRecords := 0

lemma feeRun_fromTransfers (amount : Decimal) (currency : String) :
    @FromTransfers asciiStr feeCalls cashWorld feeRun
      (oneItem amount currency).settlementItems := by
  intro item hitem x hx href
  refine ⟨0, (List.range 19).map fun j => .turn 0 (freshIds j), freshIds 19,
    (range' 20 10).map fun j => .turn 0 (freshIds j), rfl, ?_⟩
  rw [mem_singleton.mp hitem] at href
  have hall : ∀ x ∈ (@journalAfter asciiStr feeCalls cashWorld feeRun).db.entries,
      x.referenceId = "t-1" → x ∈ @newEntries asciiStr feeCalls
        (Sys.run (Sys.start cashWorld) ((List.range 19).map fun j => .turn 0 (freshIds j)))
        (.turn 0 (freshIds 19)) := by
    decide +kernel
  exact hall x hx href

/-- An item with the amount and the currency of the transfer. -/
theorem matched_agrees_transfer :
    (ledgerMachine.run 0 (@reconcileSettlementFeed asciiStr (oneItem 30 "USD")) freshIds {}
        (@journalAfter asciiStr feeCalls cashWorld feeRun)).1 = .ok (matchedSummary 30) ∧
      ∀ p ∈ (oneItem 30 "USD").settlementItems.zip (matchedSummary 30).batch.items,
        p.2.discrepancyType = .matched →
          @AgreesWithTransfer asciiStr feeCalls cashWorld feeRun p.1 := by
  refine (and_iff_left_of_imp fun hrun => ?_).mpr (by decide +kernel)
  refine (@matched_agrees_iff asciiStr feeCalls cashWorld feeRun cashWorld_keyed
    (oneItem 30 "USD") freshIds (feeRun_fromTransfers 30 "USD") (matchedSummary 30) hrun).mpr ?_
  intro item hitem t x _ _ _
  have hsource : (@journalAfter asciiStr feeCalls cashWorld feeRun).db.getAccountById 1 =
      some cashAccount := by decide +kernel
  rw [mem_singleton.mp hitem]
  exact ⟨rfl, cashAccount, hsource, rfl⟩

/-- An item with the amount of the fee, in another currency, is matched. -/
theorem matched_fee :
    (ledgerMachine.run 0 (@reconcileSettlementFeed asciiStr (oneItem 1 "EUR")) freshIds {}
        (@journalAfter asciiStr feeCalls cashWorld feeRun)).1 = .ok (matchedSummary 1) ∧
      (∀ rec ∈ (matchedSummary 1).batch.items, rec.discrepancyType = .matched) ∧
      @FromTransfers asciiStr feeCalls cashWorld feeRun (oneItem 1 "EUR").settlementItems ∧
      ∀ item ∈ (oneItem 1 "EUR").settlementItems,
        ¬ @AgreesWithTransfer asciiStr feeCalls cashWorld feeRun item := by
  refine ⟨by decide +kernel, by decide +kernel, feeRun_fromTransfers 1 "EUR", ?_⟩
  rintro item hitem ⟨⟨t, x, hx, href⟩, htransfer⟩
  have hamount : item.amount = 30 := (htransfer t x hx href).amount
  rw [mem_singleton.mp hitem] at hamount
  exact absurd hamount (by decide)

end CleanArch
