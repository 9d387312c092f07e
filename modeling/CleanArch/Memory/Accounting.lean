import CleanArch.Ledger.ReconciliationSpec
import CleanArch.Memory.LedgerServices

/-!
# Reconciliation in memory

`reconcile_settlement_feed` over the in-memory repositories. A dictionary replaces the value of a
key that it has, so the generated ids have to be new (`FreshIds`). The loop keeps `Accounting`.
-/

namespace CleanArch

open Assoc Async LedgerRepository List Prog

/-! ## New ids -/

def Memory.keys (m : Memory) : List UUID :=
  m.ledger.accounts.map (·.1) ++ m.ledger.entries.map (·.1) ++ m.reconciliation.batches.map (·.1)

structure FreshIds (m : Memory) (o : Nat → Answer) : Prop where
  new : ∀ n, (o n).ids 0 ∉ m.keys
  distinct : Function.Injective fun n => (o n).ids 0

def working (m : Memory) (ledger : LedgerRepository) : InMemoryUnitOfWork :=
  ⟨{ m with ledger := ledger }, some m.snapshot⟩

namespace FreshIds

variable {m : Memory}

lemma tail (h : FreshIds m o) (hkeys : m'.keys ⊆ (o 0).ids 0 :: m.keys) : FreshIds m' (tail o) where
  new n hn := by
    rcases mem_cons.mp (hkeys hn) with heq | hmem
    · exact absurd (h.distinct heq) (Nat.succ_ne_zero n)
    · exact h.new (n + 1) hmem
  distinct i j hij := Nat.succ.inj (h.distinct hij)

lemma tail_same (h : FreshIds m o) : FreshIds m (CleanArch.tail o) :=
  h.tail (subset_cons_self _ _)

lemma absent (h : FreshIds m o) {V : Type} {l : List (UUID × V)} (hl : l.map (·.1) ⊆ m.keys) :
    ∀ p ∈ l, (p.1 == (o 0).ids 0) = false := by
  intro p hp
  rw [beq_eq_false_iff_ne]
  intro heq
  exact h.new 0 (heq ▸ hl (mem_map_of_mem hp))

lemma account (h : FreshIds m o) : ∀ p ∈ m.ledger.accounts, (p.1 == (o 0).ids 0) = false :=
  h.absent fun _ hx => mem_append_left _ (mem_append_left _ hx)

lemma entry (h : FreshIds m o) : ∀ p ∈ m.ledger.entries, (p.1 == (o 0).ids 0) = false :=
  h.absent fun _ hx => mem_append_left _ (mem_append_right _ hx)

lemma batch (h : FreshIds m o) : ∀ p ∈ m.reconciliation.batches, (p.1 == (o 0).ids 0) = false :=
  h.absent fun _ hx => mem_append_right _ hx

lemma tail_account (h : FreshIds { m with ledger := s } o) (hid : entity.id = (o 0).ids 0) :
    FreshIds { m with ledger := s.addAccount entity } (CleanArch.tail o) := by
  refine h.tail fun x hx => ?_
  simp only [Memory.keys, addAccount, hid, set_of_absent h.account, map_append, map_cons, map_nil,
    mem_append, mem_cons, not_mem_nil] at hx ⊢
  tauto

lemma tail_entry (h : FreshIds { m with ledger := s } o) (dto : JournalEntryCreateDTO)
    (isFlagged : Bool) :
    FreshIds { m with
      ledger := (s.createJournalEntry (o 0).now (o 0).ids dto none none isFlagged).2 }
      (CleanArch.tail o) := by
  refine h.tail fun x hx => ?_
  simp only [Memory.keys, createJournalEntry, Option.getD_none,
    set_of_absent h.entry, map_append, map_cons, map_nil, mem_append,
    mem_cons, not_mem_nil] at hx ⊢
  tauto

end FreshIds

/-! ## Growth of the ledger -/

/-- `s'` is `s` with some accounts and the entries `added`. Every number that had an account still
has it. -/
structure LedgerGrown (s : LedgerRepository) (added : List JournalEntryEntity)
    (s' : LedgerRepository) : Prop where
  accounts : ∃ new, s'.accounts = s.accounts ++ new
  resolves : ∀ number acc, s.getAccountByNumber number = some acc →
    s'.getAccountByNumber number = some acc
  entries : s'.entries = s.entries ++ added.map fun e => (e.id, e)
  postings : s'.postings = s.postings ++ added.flatMap (·.postings)
  new : ∀ e ∈ added, e.id ∉ s.entries.map (·.1)
  own : (added.map (·.id)).Nodup

namespace LedgerGrown

lemma refl (s : LedgerRepository) : LedgerGrown s [] s where
  accounts := ⟨[], (append_nil _).symm⟩
  resolves _ _ h := h
  entries := (append_nil _).symm
  postings := (append_nil _).symm
  new _ he := by cases he
  own := nodup_nil

lemma trans (h : LedgerGrown s added s') (h' : LedgerGrown s' added' s'') :
    LedgerGrown s (added ++ added') s'' where
  accounts := by
    obtain ⟨new, hnew⟩ := h.accounts
    obtain ⟨new', hnew'⟩ := h'.accounts
    exact ⟨new ++ new', by rw [hnew', hnew, append_assoc]⟩
  resolves number acc hacc := h'.resolves _ _ (h.resolves _ _ hacc)
  entries := by rw [h'.entries, h.entries, append_assoc, map_append]
  postings := by rw [h'.postings, h.postings, append_assoc, flatMap_append]
  new e he := by
    rcases mem_append.mp he with he | he
    · exact h.new e he
    · intro hmem
      refine h'.new e he ?_
      rw [h.entries, map_append]
      exact mem_append_left _ hmem
  own := by
    rw [map_append]
    refine h.own.append h'.own fun id hid hid' => ?_
    obtain ⟨e, he, rfl⟩ := mem_map.mp hid'
    refine h'.new e he ?_
    rw [h.entries, map_append, map_map]
    exact mem_append_right _ hid

lemma account (hid : ∀ p ∈ s.accounts, (p.1 == entity.id) = false)
    (hnumber : s.getAccountByNumber entity.accountNumber = none) :
    LedgerGrown s [] (s.addAccount entity) where
  accounts := ⟨[(entity.id, entity)], set_of_absent hid⟩
  resolves number acc hacc := by
    obtain ⟨id, hindex, hfind⟩ := Option.bind_eq_some_iff.mp hacc
    have hne : number ≠ entity.accountNumber := by
      rintro rfl
      rw [hacc] at hnumber
      cases hnumber
    have hne' : id ≠ entity.id := by
      rintro rfl
      have := hid _ (mem_of_find hfind)
      simp at this
    refine Option.bind_eq_some_iff.mpr ⟨id, ?_, ?_⟩
    · exact (find_set_of_ne _ hne).trans hindex
    · exact (find_set_of_ne _ hne').trans hfind
  entries := (append_nil _).symm
  postings := (append_nil _).symm
  new _ he := by cases he
  own := nodup_nil

lemma entry (now : Time) (fresh : Nat → UUID) (dto : JournalEntryCreateDTO) (isFlagged : Bool)
    (hid : ∀ p ∈ s.entries, (p.1 == fresh 0) = false) :
    LedgerGrown s [(s.createJournalEntry now fresh dto none none isFlagged).1]
      (s.createJournalEntry now fresh dto none none isFlagged).2 where
  accounts := ⟨[], (append_nil _).symm⟩
  resolves _ _ h := h
  entries := set_of_absent hid
  postings := by
    rw [flatMap_singleton]
    rfl
  new e he hmem := by
    obtain ⟨p, hp, hpid⟩ := mem_map.mp hmem
    rw [mem_singleton.mp he] at hpid
    have := hid p hp
    rw [hpid] at this
    simp [createJournalEntry] at this
  own := nodup_singleton _

lemma balance (h : LedgerGrown s added s')
    (hlegs : ∀ e ∈ added, ∀ p ∈ e.postings, p.accountId ≠ accountId) :
    s'.getAccountBalanceAggregates accountId = s.getAccountBalanceAggregates accountId := by
  have hpostings : s'.getPostingsByAccountId accountId = s.getPostingsByAccountId accountId := by
    unfold getPostingsByAccountId
    rw [h.postings, filter_append, append_right_eq_self, filter_eq_nil_iff]
    intro p hp
    obtain ⟨e, he, hpe⟩ := mem_flatMap.mp hp
    simpa using hlegs e he p hpe
  unfold getAccountBalanceAggregates
  rw [hpostings]

end LedgerGrown

lemma getAccountByNumber_addAccount (s : LedgerRepository) :
    (s.addAccount entity).getAccountByNumber entity.accountNumber = some entity :=
  Option.bind_eq_some_iff.mpr ⟨entity.id, find_set_self _ _, find_set_self _ _⟩

/-! ## Compensating entries -/

def settlementNumber [PyStr] (currency : String) : String := "SETTLEMENT-USER-" ++ clean currency

def gatewayNumber [PyStr] (gatewayName currency : String) : String :=
  "GATEWAY-CLEARING-" ++ clean gatewayName ++ "-" ++ clean currency

/-- The entry moves the item's amount between the two accounts that its numbers resolve to. -/
def ClearedBy [PyStr] (gatewayName : String) (s : LedgerRepository) (item : SettlementItemDTO)
    (e : JournalEntryEntity) : Prop :=
  ∃ userAcc gatewayAcc, s.getAccountByNumber (settlementNumber item.currency) = some userAcc ∧
    s.getAccountByNumber (gatewayNumber gatewayName item.currency) = some gatewayAcc ∧
    e.postings.map (·.leg) = compLegs userAcc.id gatewayAcc.id item.amount

lemma ClearedBy.grown [PyStr] (h : LedgerGrown s added s') (hc : ClearedBy gatewayName s item e) :
    ClearedBy gatewayName s' item e := by
  obtain ⟨userAcc, gatewayAcc, huser, hgateway, hlegs⟩ := hc
  exact ⟨userAcc, gatewayAcc, h.resolves _ _ huser, h.resolves _ _ hgateway, hlegs⟩

lemma ClearedBy.account [PyStr] (h : ClearedBy gatewayName s item e) (hp : p ∈ e.postings) :
    ∃ number ∈ [settlementNumber item.currency, gatewayNumber gatewayName item.currency],
      ∃ acc, s.getAccountByNumber number = some acc ∧ acc.id = p.accountId := by
  obtain ⟨userAcc, gatewayAcc, huser, hgateway, hlegs⟩ := h
  have hleg : p.leg ∈ compLegs userAcc.id gatewayAcc.id item.amount := by
    rw [← hlegs]
    exact mem_map_of_mem hp
  rcases mem_cons.mp hleg with heq | heq
  · exact ⟨_, mem_cons_self, userAcc, huser, (congrArg Leg.accountId heq).symm⟩
  · refine ⟨_, mem_cons_of_mem _ (mem_singleton.mpr rfl), gatewayAcc, hgateway, ?_⟩
    exact (congrArg Leg.accountId (mem_singleton.mp heq)).symm

lemma forall₂_mem_right {α β : Type} {R : α → β → Prop} {l : List α} {l' : List β}
    (h : List.Forall₂ R l l') {b : β} (hb : b ∈ l') : ∃ a ∈ l, R a b := by
  induction h with
  | nil => cases hb
  | cons hab _ ih =>
    rcases mem_cons.mp hb with rfl | hb
    · exact ⟨_, mem_cons_self, hab⟩
    · obtain ⟨a, ha, hR⟩ := ih hb
      exact ⟨a, mem_cons_of_mem _ ha, hR⟩

lemma newPostings_legs (now : Time) (entryId : UUID) (fresh : Nat → UUID) :
    (newPostings now entryId fresh ps).map (·.leg) = ps.map (·.leg) := by
  unfold newPostings
  induction ps generalizing fresh with
  | nil => rfl
  | cons p ps ih =>
    rw [mapIdx_cons, map_cons, map_cons, ih fun n => fresh (n + 1)]
    rfl

section Block

variable [PyStr] {α : Type}

lemma ends_getOrCreateAccount {k : LedgerAccountEntity → LedgerProg α}
    (hfresh : FreshIds { m with ledger := s } o)
    (hok : ∀ acc s' o', FreshIds { m with ledger := s' } o' → LedgerGrown s [] s' →
      s'.getAccountByNumber number = some acc → MemoryEnds (k acc) Q (working m s') o')
    (herr : ∀ e s' o', Q (.error e) () (working m s', o')) :
    MemoryEnds ((getOrCreateAccount number name type currency).bind k) Q (working m s) o := by
  simp only [getOrCreateAccount, bind_eq, bind_assoc]
  refine ends_repo rfl ?_ (fun e => herr e s _) fun e => herr e s _
  cases hnumber : (working m s).memory.ledger.getAccountByNumber number with
  | some acc => exact hok acc s _ hfresh.tail_same (.refl s) hnumber
  | none =>
    refine ends_repo rfl ?_ (fun e => herr e _ _) fun e => herr e (s.addAccount _) _
    exact hok _ (s.addAccount _) _ (hfresh.tail_same.tail_account rfl)
      (.account hfresh.tail_same.account hnumber) (getAccountByNumber_addAccount s)

lemma ends_createCompensatingEntry {k : JournalEntryEntity → LedgerProg α}
    (hfresh : FreshIds { m with ledger := s } o)
    (hok : ∀ e s' o', FreshIds { m with ledger := s' } o' → LedgerGrown s [e] s' →
      Compensates item e → ClearedBy gatewayName s' item e → MemoryEnds (k e) Q (working m s') o')
    (herr : ∀ e s' o', Q (.error e) () (working m s', o')) :
    MemoryEnds ((createCompensatingEntry gatewayName item.referenceId item.amount
      item.currency).bind k) Q (working m s) o := by
  simp only [createCompensatingEntry, bind_eq, bind_assoc]
  refine ends_getOrCreateAccount hfresh (fun user s1 o1 hfresh1 hgrown1 huser => ?_) herr
  refine ends_getOrCreateAccount hfresh1 (fun gate s2 o2 hfresh2 hgrown2 hgate => ?_) herr
  cases hps : buildPostings (compLegs user.id gate.id item.amount) with
  | error e => exact herr e _ _
  | ok ps =>
    refine ends_uuid ?_
    refine ends_repo rfl ?_ (fun e => herr e _ _) fun e =>
      herr e (s2.createJournalEntry _ _ _ none none false).2 _
    have hlegs := (newPostings_legs ((tail o2) 0).now (((tail o2) 0).ids 0)
      (fun n => ((tail o2) 0).ids (n + 1))).trans (buildPostings_legs hps)
    refine hok _ (s2.createJournalEntry _ _ _ none none false).2 _
      (hfresh2.tail_same.tail_entry _ _)
      ((hgrown1.trans hgrown2).trans (.entry _ _ _ _ hfresh2.tail_same.entry))
      ⟨⟨_, rfl⟩, _, _, hlegs⟩ ⟨user, gate, ?_, hgate, hlegs⟩
    exact hgrown2.resolves _ _ huser

end Block

/-! ## The loop -/

/-- Is the item marked `AUTO_COMPENSATED`? -/
def ReconciliationItemEntity.marked (rec : ReconciliationItemEntity) : Bool :=
  rec.resolutionStatus = .autoCompensated

def PointsTo (rec : ReconciliationItemEntity) (e : JournalEntryEntity) : Prop :=
  rec.compensatingJournalEntryId = some e.id ∧
    e.postings.map (fun p => (p.amount, p.direction)) =
      [(rec.externalAmount, .debit), (rec.externalAmount, .credit)]

def ReconcileArgs.known (a : ReconcileArgs) (m : Memory) : List JournalEntryEntity :=
  m.ledger.getJournalEntriesByReferences (a.settlementItems.map (·.referenceId))

/-- The item gets a compensating entry, in a call that starts with the memory `m`. -/
abbrev ReconcileArgs.needs (a : ReconcileArgs) (m : Memory) : SettlementItemDTO → Bool :=
  needsCompensation (a.known m) a.autoCompensate

/-- The invariant of the loop: `m` is the memory before it, `s` the ledger now. -/
structure Accounting [PyStr] (a : ReconcileArgs) (m : Memory) (items : List SettlementItemDTO)
    (st : ReconciliationState) (s : LedgerRepository) (added : List JournalEntryEntity) : Prop where
  recorded : FeedRecorded (a.known m) a.autoCompensate items st added
  grown : LedgerGrown m.ledger added s
  cleared : List.Forall₂ (ClearedBy a.gatewayName s) (items.filter (a.needs m)) added
  points : List.Forall₂ PointsTo (st.items.filter (·.marked)) added

namespace Accounting

variable [PyStr] {a : ReconcileArgs} {m : Memory} {rec : ReconciliationItemEntity}

lemma nil : Accounting a m [] {} m.ledger [] :=
  ⟨.nil _ _, .refl _, .nil, .nil⟩

lemma add (h : Accounting a m items st s added)
    (hc : Classified (a.known m) a.autoCompensate item rec) (hgrown : LedgerGrown s es s')
    (hcomp : List.Forall₂ Compensates ([item].filter (a.needs m)) es)
    (hclear : List.Forall₂ (ClearedBy a.gatewayName s') ([item].filter (a.needs m)) es)
    (hlink : rec.compensatingJournalEntryId.toList = es.map (·.id))
    (hpoints : List.Forall₂ PointsTo ([rec].filter (·.marked)) es) :
    Accounting a m (items ++ [item]) (st.add rec) s' (added ++ es) where
  recorded := h.recorded.add hc es hcomp hlink
  grown := h.grown.trans hgrown
  cleared := by
    rw [filter_append]
    exact rel_append (h.cleared.imp fun _ _ => ClearedBy.grown hgrown) hclear
  points := by
    rw [show (st.add rec).items = st.items ++ [rec] from rfl, filter_append]
    exact rel_append h.points hpoints

lemma keep (h : Accounting a m items st s added)
    (hc : Classified (a.known m) a.autoCompensate item rec)
    (hneeds : a.needs m item = false)
    (hlink : rec.compensatingJournalEntryId = none) (hmarked : rec.marked = false) :
    Accounting a m (items ++ [item]) (st.add rec) s added := by
  have hitem : [item].filter (a.needs m) = [] := by simp [hneeds]
  have hrec : [rec].filter (·.marked) = [] := by simp [hmarked]
  rw [← append_nil added]
  refine h.add hc (.refl s) ?_ ?_ ?_ ?_
  · rw [hitem]; exact .nil
  · rw [hitem]; exact .nil
  · rw [hlink]; rfl
  · rw [hrec]; exact .nil

lemma compensate (h : Accounting a m items st s added)
    (hc : Classified (a.known m) a.autoCompensate item rec)
    (hneeds : a.needs m item = true) (hgrown : LedgerGrown s [e] s') (hcomp : Compensates item e)
    (hclear : ClearedBy a.gatewayName s' item e)
    (hlink : rec.compensatingJournalEntryId = some e.id) (hmarked : rec.marked = true) :
    Accounting a m (items ++ [item]) (st.add rec) s' (added ++ [e]) := by
  have hitem : [item].filter (a.needs m) = [item] := by simp [hneeds]
  have hrec : [rec].filter (·.marked) = [rec] := by simp [hmarked]
  refine h.add hc hgrown ?_ ?_ ?_ ?_
  · rw [hitem]; exact .cons hcomp .nil
  · rw [hitem]; exact .cons hclear .nil
  · rw [hlink]; rfl
  · rw [hrec]
    refine .cons ⟨hlink, ?_⟩ .nil
    obtain ⟨-, userAcc, gatewayAcc, hlegs⟩ := hcomp
    have hpairs := congrArg (List.map fun g : Leg => (g.amount, g.direction)) hlegs
    rw [map_map] at hpairs
    rw [hc.2.1]
    exact hpairs

end Accounting

section Loop

variable [PyStr] {a : ReconcileArgs} {m : Memory}

omit [PyStr] in
lemma ends_recordItem (hfresh : FreshIds { m with ledger := s } o)
    (hok : ∀ id batchId o', FreshIds { m with ledger := s } o' → MemoryEnds
      (k (st.add ⟨id, batchId, item.referenceId, item.amount, internal, discrepancy, resolution,
        compensating⟩)) Q (working m s) o') :
    MemoryEnds ((recordItem st item internal discrepancy resolution compensating).bind k) Q
      (working m s) o := by
  simp only [recordItem, bind_eq, bind_assoc]
  exact ends_uuid (ends_uuid (hok _ _ _ hfresh.tail_same.tail_same))

lemma ends_reconcileItem (hfresh : FreshIds { m with ledger := s } o)
    (h : Accounting a m items st s added)
    (hok : ∀ st' s' added' o', FreshIds { m with ledger := s' } o' →
      Accounting a m (items ++ [item]) st' s' added' →
      MemoryEnds (k st') Q (working m s') o')
    (herr : ∀ e s' o', Q (.error e) () (working m s', o')) :
    MemoryEnds ((reconcileItem a.gatewayName a.autoCompensate (a.known m) st item).bind k) Q
      (working m s) o := by
  unfold reconcileItem
  cases hent : entryByRef (a.known m) item.referenceId with
  | some e =>
    have hneeds : a.needs m item = false := by simp [needsCompensation, hent]
    show MemoryEnds (Prog.bind (if |item.amount - extractInternalAmount e item.amount| = 0 then _
      else _) k) Q _ o
    split
    · rename_i hz
      refine ends_recordItem hfresh fun id batchId o' hfresh' =>
        hok _ _ _ _ hfresh' (h.keep ⟨rfl, rfl, ?_⟩ hneeds rfl rfl)
      simp only [hent, if_pos hz, and_self]
    · rename_i hz
      refine ends_recordItem hfresh fun id batchId o' hfresh' =>
        hok _ _ _ _ hfresh' (h.keep ⟨rfl, rfl, ?_⟩ hneeds rfl rfl)
      simp only [hent, if_neg hz, and_self]
  | none =>
    cases hauto : a.autoCompensate with
    | false =>
      have hneeds : a.needs m item = false := by simp [needsCompensation, hauto]
      refine ends_recordItem hfresh fun id batchId o' hfresh' =>
        hok _ _ _ _ hfresh' (h.keep ⟨rfl, rfl, ?_⟩ hneeds rfl rfl)
      simp [hent, hauto]
    | true =>
      have hneeds : a.needs m item = true := by simp [needsCompensation, hent, hauto]
      simp only [if_true, bind_eq, bind_assoc]
      refine ends_createCompensatingEntry hfresh
        (fun e s1 o1 hfresh1 hgrown hcomp hclear => ?_) herr
      refine ends_recordItem hfresh1 fun id batchId o' hfresh' => hok _ _ _ _ hfresh'
        (h.compensate ⟨rfl, rfl, ?_⟩ hneeds hgrown hcomp hclear rfl rfl)
      simp [hent, hauto]

lemma ends_reconcileItems (hfresh : FreshIds { m with ledger := s } o)
    (h : Accounting a m items st s added)
    (hok : ∀ st' s' added' o', FreshIds { m with ledger := s' } o' →
      Accounting a m (items ++ feed) st' s' added' →
      MemoryEnds (k st') Q (working m s') o')
    (herr : ∀ e s' o', Q (.error e) () (working m s', o')) :
    MemoryEnds ((reconcileItems a.gatewayName a.autoCompensate (a.known m) feed st).bind k) Q
      (working m s) o := by
  induction feed generalizing items st s added o with
  | nil => exact hok st s added o hfresh (by rw [append_nil]; exact h)
  | cons item rest ih =>
    simp only [reconcileItems, bind_eq, bind_assoc]
    refine ends_reconcileItem hfresh h (fun st' s' added' o' hfresh' h' => ?_) herr
    refine ih hfresh' h' fun st'' s'' added'' o'' hfresh'' h'' => ?_
    refine hok st'' s'' added'' o'' hfresh'' ?_
    rwa [append_assoc, singleton_append] at h''

end Loop

/-! ## The call -/

/-- The accounts that the call resolves: those of the clearing numbers of the items that need
compensation. -/
def ReconcileArgs.Resolves [PyStr] (a : ReconcileArgs) (m m' : Memory) (accountId : UUID) : Prop :=
  ∃ item ∈ a.settlementItems, needsCompensation (a.known m) a.autoCompensate item = true ∧
    ∃ number ∈ [settlementNumber item.currency, gatewayNumber a.gatewayName item.currency],
      ∃ acc, m'.ledger.getAccountByNumber number = some acc ∧ acc.id = accountId

/-- What a call that returns `r` has done: `m` is the memory before it, `m'` the one after it. -/
structure Accounted [PyStr] (a : ReconcileArgs) (m m' : Memory) (r : ReconciliationSummary) :
    Prop where
  items : List.Forall₂ (Classified (a.known m) a.autoCompensate) a.settlementItems r.batch.items
  total : r.batch.matchedRecords + r.batch.discrepancyRecords = r.batch.totalRecords
  totalRecords : r.batch.totalRecords = a.settlementItems.length
  marked : r.autoCompensatedRecords = r.batch.items.countP (·.marked)
  ledger : ∃ added, LedgerGrown m.ledger added m'.ledger ∧ r.autoCompensatedRecords = added.length ∧
    List.Forall₂ PointsTo (r.batch.items.filter (·.marked)) added
  balances : ∀ accountId, ¬ a.Resolves m m' accountId →
    m'.ledger.getAccountBalanceAggregates accountId =
      m.ledger.getAccountBalanceAggregates accountId
  batches : m'.reconciliation.batches = m.reconciliation.batches ++ [(r.batch.id, r.batch)]

lemma Accounting.accounted [PyStr] (h : Accounting a m a.settlementItems st m'.ledger added)
    (hitems : r.batch.items = st.items.map fun i => { i with batchId := r.batch.id })
    (hmatched : r.batch.matchedRecords = st.matchedCount)
    (hdiscrepancy : r.batch.discrepancyRecords = st.discrepancyCount)
    (htotal : r.batch.totalRecords = a.settlementItems.length)
    (hauto : r.autoCompensatedRecords = st.autoCompensatedCount)
    (hbatches : m'.reconciliation.batches =
      m.reconciliation.batches ++ [(r.batch.id, r.batch)]) : Accounted a m m' r where
  items := by
    rw [hitems, forall₂_map_right_iff]
    exact h.recorded.classified
  total := by
    rw [hmatched, hdiscrepancy, htotal, h.recorded.matchedCount, h.recorded.discrepancyCount,
      h.recorded.classified.length_eq]
    have hlength := length_eq_countP_add_countP (l := st.items)
      fun rec : ReconciliationItemEntity => decide (rec.discrepancyType = .matched)
    simpa using hlength.symm
  totalRecords := htotal
  marked := by
    rw [hauto, hitems, countP_map]
    exact h.recorded.autoCompensatedCount
  ledger := by
    refine ⟨added, h.grown, ?_, ?_⟩
    · rw [hauto, h.recorded.autoCompensatedCount, countP_eq_length_filter]
      exact h.points.length_eq
    · rw [hitems, filter_map, forall₂_map_left_iff]
      exact h.points
  balances accountId hnot := by
    refine h.grown.balance fun e he p hp heq => hnot ?_
    obtain ⟨item, hitem, hclear⟩ := forall₂_mem_right h.cleared he
    obtain ⟨hitem, hneeds⟩ := mem_filter.mp hitem
    obtain ⟨number, hnumber, acc, hacc, hid⟩ := hclear.account hp
    exact ⟨item, hitem, hneeds, number, hnumber, acc, hacc, hid.trans heq⟩
  batches := hbatches

def reconcileInMemory [PyStr] (a : ReconcileArgs) (m : Memory) (o : Nat → Answer) :
    Except LedgerError ReconciliationSummary × Memory :=
  let x := memoryMachine.run 0 (reconcileSettlementFeed a) o () ⟨m, none⟩
  (x.1, x.2.2.memory)

lemma ends_reconcileInUow [PyStr] (hfresh : FreshIds m o) :
    MemoryEnds (reconcileInUow a) (fun r _ s => Left (fun r m' =>
      m.reconciliation.getBatchByReference a.batchReference = none ∧ Accounted a m m' r)
      (Undoable m) r s.1) ⟨m, some m.snapshot⟩ o := by
  refine ends_repo rfl ?_ (fun _ => ⟨rfl, rfl⟩) fun _ => ⟨rfl, rfl⟩
  cases hused : m.reconciliation.getBatchByReference a.batchReference with
  | some => exact ⟨rfl, rfl⟩
  | none =>
    refine ends_repo rfl ?_ (fun _ => ⟨rfl, rfl⟩) fun _ => ⟨rfl, rfl⟩
    refine ends_reconcileItems (s := m.ledger) (m := m)
      hfresh.tail_same.tail_same .nil (fun st s added o' hfresh' h => ?_)
      fun _ _ _ => ⟨rfl, rfl⟩
    refine ends_repo rfl ?_ (fun _ => ⟨rfl, rfl⟩) fun _ => ⟨rfl, rfl⟩
    refine ends_uow rfl ?_
    refine ⟨rfl, h.accounted rfl rfl rfl rfl rfl ?_⟩
    exact set_of_absent hfresh'.batch

/-- **Reconciliation accounts for its feed.** A call that raises, as one with a used batch reference
does, leaves the memory as it was. A call that returns has done what `Accounted` says. -/
theorem reconciliation_accounted [PyStr] (a : ReconcileArgs) (m : Memory) (o : Nat → Answer)
    (hfresh : FreshIds m o) :
    (∀ e, (reconcileInMemory a m o).1 = .error e → (reconcileInMemory a m o).2 = m) ∧
    ((m.reconciliation.getBatchByReference a.batchReference).isSome →
      ∃ e, (reconcileInMemory a m o).1 = .error e) ∧
    ∀ r, (reconcileInMemory a m o).1 = .ok r → Accounted a m (reconcileInMemory a m o).2 r := by
  obtain ⟨o', h⟩ := Machine.run_of_taped
    (ends_asyncWithUow (ends_reconcileInUow (a := a) hfresh.tail_same))
  unfold reconcileInMemory reconcileSettlementFeed
  revert h
  cases (memoryMachine.run 0 (asyncWithUow (reconcileInUow a)) o () ⟨m, none⟩).1 with
  | error e =>
    intro hm
    refine ⟨fun _ _ => hm, fun _ => ⟨e, rfl⟩, fun r hr => ?_⟩
    cases hr
  | ok =>
    rintro ⟨hnew, hr⟩
    refine ⟨fun e he => ?_, fun hused => ?_, fun r' heq => ?_⟩
    · cases he
    · rw [hnew] at hused
      cases hused
    · cases heq
      exact hr

/-- Payment `pay-1` of 10 is in the ledger. -/
def paidMemory : Memory where
  ledger :=
    let postings : List JournalPostingEntity :=
      [⟨4, 3, 1, 10, .debit, 0⟩, ⟨5, 3, 2, 10, .credit, 0⟩]
    { accounts := [(1, ⟨1, "A", "", .asset, "USD", true, 0⟩),
        (2, ⟨2, "B", "", .liability, "USD", true, 0⟩)]
      accountsByNumber := [("A", 1), ("B", 2)]
      entries := [(3, ⟨3, "pay-1", "", 0, postings, false⟩)]
      entriesByRef := [("pay-1", 3)]
      postings := postings }

/-- The gateway settled `pay-1`, and twice `pay-2`. -/
def settledFeed : ReconcileArgs where
  batchReference := "batch-1"
  gatewayName := "stripe"
  settlementItems := [⟨"pay-1", 10, "USD"⟩, ⟨"pay-2", 20, "USD"⟩, ⟨"pay-2", 20, "USD"⟩]

def countingIds : Nat → Answer := fun n => { ids := fun k => 100 + 10 * n + k }

lemma countingIds_fresh : FreshIds paidMemory countingIds where
  new n hn := by
    have hkeys : 100 + 10 * n ∈ [1, 2, 3] := hn
    simp at hkeys
    omega
  distinct i j hij := by
    have heq : 100 + 10 * i = 100 + 10 * j := hij
    omega

/-- Both items of `pay-2` are compensated. -/
theorem reconciliation_accounted_settledFeed : FreshIds paidMemory countingIds ∧
    ∃ r, (@reconcileInMemory asciiStr settledFeed paidMemory countingIds).1 = .ok r ∧
      r.autoCompensatedRecords = 2 ∧
      @Accounted asciiStr settledFeed paidMemory
        (@reconcileInMemory asciiStr settledFeed paidMemory countingIds).2 r := by
  have hfresh := countingIds_fresh
  have hrun : (@reconcileInMemory asciiStr settledFeed paidMemory countingIds).1.map
      (·.autoCompensatedRecords) = .ok 2 := by decide +kernel
  refine ⟨hfresh, ?_⟩
  cases hr : (@reconcileInMemory asciiStr settledFeed paidMemory countingIds).1 with
  | error =>
    rw [hr] at hrun
    cases hrun
  | ok r =>
    rw [hr] at hrun
    refine ⟨r, rfl, Except.ok.inj hrun, ?_⟩
    exact (@reconciliation_accounted asciiStr settledFeed paidMemory countingIds hfresh).2.2 r hr

end CleanArch
