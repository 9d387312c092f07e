import CleanArch.Ledger.Movement

/-!
# One effect per reference

Calls that share a reference leave at most one journal entry and one outbox event for it, whatever
expires or fails: the unique constraint on the reference makes one commit win, and the event is in
the same transaction.
-/

namespace CleanArch

open Async Function LedgerCmd List Protocol Sys

def Ledger.entriesFor (d : Ledger) (r : String) : List JournalEntryEntity :=
  d.entries.filter fun e => e.referenceId = r

def Ledger.eventsFor (d : Ledger) (r : String) : List OutboxEventModel :=
  d.outbox.filter fun x => x.payload.referenceId = r

lemma Ledger.entriesFor_append (d e : Ledger) (r : String) :
    (d ++ e).entriesFor r = d.entriesFor r ++ e.entriesFor r := filter_append ..

lemma Ledger.eventsFor_append (d e : Ledger) (r : String) :
    (d ++ e).eventsFor r = d.eventsFor r ++ e.eventsFor r := filter_append ..

/-- The response names the entry and its event: the id, the amount, the fee and the destination
amount, each with the leg that posted it. -/
structure Names (resp : FundTransferResponse) (e : JournalEntryEntity) (x : OutboxEventModel) :
    Prop where
  id : resp.journalEntryId = e.id
  reference : resp.referenceId = e.referenceId
  amount : resp.transferredAmount = x.payload.amount
  fee : resp.feeDeducted = x.payload.feeAmount
  source : ∃ p ∈ e.postings, p.accountId = x.payload.sourceAccountId ∧
    p.amount = resp.transferredAmount + resp.feeDeducted
  dest : ∃ p ∈ e.postings, p.accountId = x.payload.destinationAccountId ∧
    p.amount = resp.destinationAmount
  feeLeg : 0 < resp.feeDeducted → ∃ p ∈ e.postings, p.accountId ≠ x.payload.sourceAccountId ∧
    p.accountId ≠ x.payload.destinationAccountId ∧ p.amount = resp.feeDeducted

/-- The state of a reference: unused, or one entry with its event, and a stored response names
them. -/
def Once (r : String) (s : World) : Prop :=
  (s.db.entriesFor r = [] ∧ s.db.eventsFor r = [] ∧ storedResponse (s.idem r) = none) ∨
    ∃ e x, s.db.entriesFor r = [e] ∧ s.db.eventsFor r = [x] ∧
      ∀ resp, storedResponse (s.idem r) = some resp → Names resp e x

/-! ## The entry of a plan -/

section Plan

variable [PyStr]

lemma Ready.posting (h : Ready a plan rows d) (hg : g ∈ plan.legs) :
    ∃ p ∈ plan.entry.postings, p.accountId = g.accountId ∧ p.amount = g.amount := by
  rw [← h.postings] at hg
  obtain ⟨p, hp, rfl⟩ := mem_map.mp hg
  exact ⟨p, hp, rfl, rfl⟩

lemma LegsReady.legs {legs : List Leg} (h : LegsReady a source dest D d rows legs)
    (hD : source.currency = dest.currency → D = a.amount) :
    (∃ dir, ⟨a.sourceAccountId, a.totalRequired, dir⟩ ∈ legs) ∧
      (∃ dir, ⟨a.destinationAccountId, D, dir⟩ ∈ legs) ∧
      (∃ id dir, ⟨id, a.amount, dir⟩ ∈ legs) ∧
      ∀ id, a.feeAccount = some id → ∃ dir, ⟨id, a.feeAmount, dir⟩ ∈ legs := by
  cases h with
  | single hc =>
    rw [hD hc]
    unfold singleCurrencyLegs
    split
    · exact ⟨⟨.credit, by simp⟩, ⟨.debit, by simp⟩, ⟨a.destinationAccountId, .debit, by simp⟩,
        fun id hid => ⟨.debit, by simp [feeLeg, hid]⟩⟩
    · exact ⟨⟨.debit, by simp⟩, ⟨.credit, by simp⟩, ⟨a.destinationAccountId, .credit, by simp⟩,
        fun id hid => ⟨.credit, by simp [feeLeg, hid]⟩⟩
  | cross hc sourceFx =>
    refine ⟨?_, ?_, ?_, fun id hid => ?_⟩
    · by_cases hd : source.accountType.debitNormal = true
      · exact ⟨.credit, by simp [crossCurrencyLegs, hd]⟩
      · exact ⟨.debit, by simp [crossCurrencyLegs, hd]⟩
    · by_cases hd : dest.accountType.debitNormal = true
      · exact ⟨.debit, by simp [crossCurrencyLegs, hd]⟩
      · exact ⟨.credit, by simp [crossCurrencyLegs, hd]⟩
    · by_cases hd : source.accountType.debitNormal = true
      · exact ⟨sourceFx.id, .debit, by simp [crossCurrencyLegs, hd]⟩
      · exact ⟨sourceFx.id, .credit, by simp [crossCurrencyLegs, hd]⟩
    · exact ⟨_, mem_append_right _ (by rw [feeLeg, hid]; exact mem_singleton.mpr rfl)⟩

lemma Ready.event_amounts (h : Ready a plan rows d) :
    plan.event.payload.amount = a.amount ∧ plan.event.payload.feeAmount = a.feeAmount := by
  obtain ⟨-, -, ⟨id, dir, hamount⟩, hfee⟩ :=
    h.legs.legs fun hc => by rw [h.quote_single hc]
  obtain ⟨eventId, he⟩ := h.event
  rw [he]
  refine ⟨quantize_of_decimalPlaces (h.valid _ hamount).2, ?_⟩
  show quantize a.feeAmount = a.feeAmount
  cases hf : a.feeAccount with
  | none =>
    rw [h.preflight.feeAccount_none hf]
    simp [quantize, Decimals.roundHalfEven]
  | some id =>
    obtain ⟨dir, hg⟩ := hfee id hf
    exact quantize_of_decimalPlaces (h.valid _ hg).2

lemma Ready.names (h : Ready a plan rows d) (hr : Answers a plan resp) :
    Names resp plan.entry plan.event := by
  obtain ⟨⟨dirS, hsource⟩, ⟨dirD, hdest⟩, -, hfee⟩ :=
    h.legs.legs fun hc => by rw [h.quote_single hc]
  obtain ⟨hamount, hfeeAmount⟩ := h.event_amounts
  obtain ⟨eventId, he⟩ := h.event
  have hs : plan.event.payload.sourceAccountId = a.sourceAccountId := by rw [he]; rfl
  have hd : plan.event.payload.destinationAccountId = a.destinationAccountId := by rw [he]; rfl
  obtain ⟨newSource, newDest, rfl⟩ := hr
  refine ⟨rfl, rfl, hamount.symm, hfeeAmount.symm, ?_, ?_, fun hpos => ?_⟩
  · rw [hs]
    exact h.posting hsource
  · rw [hd]
    exact h.posting hdest
  · rw [hs, hd]
    cases hf : a.feeAccount with
    | none => exact absurd (h.preflight.feeAccount_none hf) (ne_of_gt hpos)
    | some id =>
      obtain ⟨dir, hg⟩ := hfee id hf
      obtain ⟨p, hp, hid, hpa⟩ := h.posting hg
      refine ⟨p, hp, ?_, ?_, hpa⟩
      · rintro hsrc
        exact h.preflight.feeAccount_ne_source (by rw [hf, ← hsrc, hid])
      · rintro hdst
        exact h.preflight.feeAccount_ne_destination (by rw [hf, ← hdst, hid])

end Plan

/-! ## The protocol -/

def onceProtocol (r : String) : Protocol ledgerMachine where
  inv s := s.db.Keyed ∧ Once r s
  rely _ s s' := s.db.Grows s'.db
  refl _ _ := .refl _
  trans _ _ _ _ h1 h2 := h1.trans h2

def NamedIn (r : String) (resp : FundTransferResponse) (d : Ledger) : Prop :=
  ∃ e ∈ d.entriesFor r, ∃ x ∈ d.eventsFor r, Names resp e x

def onceFacts (r : String) (a : TransferArgs) : TransferFacts where
  start _ := True
  before _ := True
  funded _ _ := True
  committed plan d := a.referenceId = r → ∀ resp, Answers a plan resp → NamedIn r resp d
  replayed resp d := a.referenceId = r → NamedIn r resp d
  failed _ := True

section Protocol

lemma NamedIn.mono (h : NamedIn r resp d) (hg : d.Grows e) : NamedIn r resp e := by
  obtain ⟨j, hj, x, hx, hn⟩ := h
  obtain ⟨hj, hjr⟩ := mem_filter.mp hj
  obtain ⟨hx, hxr⟩ := mem_filter.mp hx
  exact ⟨j, mem_filter.mpr ⟨hg.mem_entries hj, hjr⟩, x, mem_filter.mpr ⟨hg.mem_outbox hx, hxr⟩, hn⟩

lemma Once.unique (h : Once r s) (hn : NamedIn r resp s.db) :
    ∃ e x, s.db.entriesFor r = [e] ∧ s.db.eventsFor r = [x] ∧ Names resp e x := by
  obtain ⟨e, he, x, hx, hn⟩ := hn
  rcases h with ⟨h0, -, -⟩ | ⟨e', x', he', hx', -⟩
  · rw [h0] at he
    cases he
  · rw [he', mem_singleton] at he
    rw [hx', mem_singleton] at hx
    subst he; subst hx
    exact ⟨e, x, he', hx', hn⟩

lemma Once.of_same (h : Once r s) (hdb : s'.db = s.db)
    (hidem : s'.idem r = s.idem r ∨ storedResponse (s'.idem r) = none) : Once r s' := by
  have hst : ∀ resp, storedResponse (s'.idem r) = some resp →
      storedResponse (s.idem r) = some resp := by
    intro resp hresp
    rcases hidem with hi | hi
    · rwa [hi] at hresp
    · rw [hi] at hresp
      cases hresp
  rcases h with ⟨h1, h2, h3⟩ | ⟨e, x, h1, h2, h3⟩
  · refine .inl ⟨by rw [hdb, h1], by rw [hdb, h2], ?_⟩
    rcases hidem with hi | hi
    · rw [hi, h3]
    · exact hi
  · exact .inr ⟨e, x, by rw [hdb, h1], by rw [hdb, h2], fun resp hresp => h3 resp (hst resp hresp)⟩

lemma Once.complete {a : TransferArgs} (h : Once r s)
    (hn : a.referenceId = r → NamedIn r resp s.db) (ex : Nat) :
    Once r ((RedisCmd.set a.referenceId (.completed resp) ex).exec s).2 := by
  by_cases hr : a.referenceId = r
  · obtain ⟨e, x, he, hx, hnames⟩ := h.unique (hn hr)
    refine .inr ⟨e, x, he, hx, fun resp' hresp' => ?_⟩
    simp only [RedisCmd.exec, hr, update_self, storedResponse, IdempotencyDoc.completed,
      Option.bind_some, Option.some.injEq] at hresp'
    subst hresp'
    exact hnames
  · refine h.of_same rfl (.inl ?_)
    simp only [RedisCmd.exec, update_of_ne (Ne.symm hr)]

lemma onceProtocol_keeps (hi : (onceProtocol r).inv s) (hdb : (c.exec o l s).2.2.db = s.db)
    (ho : Once r (c.exec o l s).2.2) : (onceProtocol r).Keeps t c o l s where
  good := trivial
  inv := by
    refine ⟨?_, ho⟩
    rw [hdb]
    exact hi.1
  rely u _ := by
    show s.db.Grows (c.exec o l s).2.2.db
    rw [hdb]
    exact .refl _

variable [PyStr]

lemma Ready.rowsFor (h : Ready a plan rows d) :
    rows.entriesFor r = (if a.referenceId = r then [plan.entry] else []) ∧
      rows.eventsFor r = if a.referenceId = r then [plan.event] else [] := by
  obtain ⟨eventId, he⟩ := h.event
  have hx : plan.event.payload.referenceId = a.referenceId := by rw [he]; rfl
  rw [Ledger.entriesFor, Ledger.eventsFor, h.entries, h.outbox]
  by_cases hr : a.referenceId = r
  all_goals simp [h.reference, hx, hr]

lemma Ready.once (h : Ready a plan rows s.db) (hf : s.db.Free rows) (ho : Once r s) :
    Once r { s with db := s.db ++ rows } := by
  obtain ⟨h1, h2⟩ := h.rowsFor (r := r)
  have he := Ledger.entriesFor_append s.db rows r
  have hx := Ledger.eventsFor_append s.db rows r
  by_cases hr : a.referenceId = r
  · rw [if_pos hr] at h1 h2
    rcases ho with ⟨h3, h4, h5⟩ | ⟨e, x, h3, -, -⟩
    · refine .inr ⟨plan.entry, plan.event, by rw [he, h3, h1]; rfl, by rw [hx, h4, h2]; rfl, ?_⟩
      intro resp hresp
      rw [show storedResponse (s.idem r) = none from h5] at hresp
      cases hresp
    · -- the reference is taken
      have hmem : e ∈ s.db.entriesFor r := by rw [h3]; exact mem_singleton.mpr rfl
      obtain ⟨hm, hre⟩ := mem_filter.mp hmem
      refine absurd ?_ (hf.entries plan.entry (by rw [h.entries]; simp) e hm).2
      rw [h.reference, hr]
      simpa using hre
  · rw [if_neg hr] at h1 h2
    rw [Once, he, hx, h1, h2, append_nil, append_nil]
    exact ho

lemma Ready.namedIn (h : Ready a plan rows d) (hr : a.referenceId = r)
    (hresp : Answers a plan resp) : NamedIn r resp (d ++ rows) := by
  obtain ⟨h1, h2⟩ := h.rowsFor (r := r)
  rw [if_pos hr] at h1 h2
  have hrows : NamedIn r resp rows :=
    ⟨plan.entry, by rw [h1]; simp, plan.event, by rw [h2]; simp, h.names hresp⟩
  obtain ⟨e, he, x, hx, hn⟩ := hrows
  refine ⟨e, ?_, x, ?_, hn⟩
  · rw [Ledger.entriesFor_append]
    exact mem_append_right _ he
  · rw [Ledger.eventsFor_append]
    exact mem_append_right _ hx

lemma onceFacts_lawful (r : String) (t : Tid) (token : Token) (deps : TransferDeps) :
    (onceFacts r a).Lawful (onceProtocol r) t token deps a where
  grows s s' hr := hr
  committed_stable plan s s' h hg hr resp hresp := (h hr resp hresp).mono hg.rely
  replayed_stable resp s s' h hg hr := (h hr).mono hg.rely
  quiet c o l s hq hi _ := by
    have hdb := exec_db_eq hq.ne_commit o l s
    exact onceProtocol_keeps hi hdb (hi.2.of_same hdb (hq.idem r))
  replay resp s hi _ _ _ hst hr := by
    subst hr
    rcases hi.2 with ⟨-, -, h⟩ | ⟨e, x, he, hx, hn⟩
    · rw [h] at hst
      cases hst
    · exact ⟨e, by rw [he]; simp, x, by rw [hx]; simp, hn resp hst⟩
  fresh _ _ _ _ := trivial
  check _ _ _ _ _ _ := trivial
  commit plan o l s hi _ hr _ := by
    refine ⟨?_, fun _ href resp hresp => hr.namedIn href hresp⟩
    rcases exec_commit with h | ⟨hfree, h⟩
    · exact onceProtocol_keeps hi (by rw [h]) (by rw [h]; exact hi.2)
    · refine ⟨trivial, ?_, fun u _ => ?_⟩
      · rw [h]
        exact ⟨hi.1.append hr.keyed hfree, hr.once hfree hi.2⟩
      · rw [h]
        exact .append _ _
  complete plan resp o l s hi hc hresp _ := by
    refine onceProtocol_keeps hi (exec_db_eq (c := .redis _) nofun o l s) ?_
    rcases exec_redis with he | he
    · rw [he]
      exact hi.2.complete (fun hr => hc hr resp hresp) 86400
    · rw [he]
      exact hi.2

end Protocol

/-! ## Runs -/

section Runs

variable [PyStr]

omit [PyStr] in
lemma onceProtocol_env (r : String) (e : LedgerEnv) (hi : (onceProtocol r).inv s) :
    (onceProtocol r).inv (e.exec s) ∧ ∀ t, (onceProtocol r).rely t s (e.exec s) := by
  have hdb : (e.exec s).db = s.db := by cases e <;> rfl
  have hidem : (e.exec s).idem r = s.idem r ∨ storedResponse ((e.exec s).idem r) = none := by
    cases e with
    | expireIdem r' =>
      by_cases hr : r = r'
      · subst hr
        exact .inr (by simp [LedgerEnv.exec, storedResponse])
      · exact .inl (by simp only [LedgerEnv.exec, update_of_ne hr])
    | expireLock | expireVelocity => exact .inl rfl
  refine ⟨⟨?_, hi.2.of_same hdb hidem⟩, fun _ => ?_⟩
  · rw [hdb]
    exact hi.1
  · show s.db.Grows (e.exec s).db
    rw [hdb]
    exact .refl _

/-- **Exactly one effect per reference.** Calls with any arguments run under any schedule, with
any faults and expired keys, from a state where the reference is unused. In every state, the
reference has at most one entry and one event, both or none of them, and every response that was
returned for it names them. -/
theorem transfer_exactly_once (calls : Tid → TransferCall) (r : String) (s : World)
    (hk : s.db.Keyed) (hentries : s.db.entriesFor r = []) (hevents : s.db.eventsFor r = [])
    (hidem : storedResponse (s.idem r) = none) (es : List (transferSys calls).Event) :
    let c := run (start s) es
    (c.sh.db.entriesFor r).length ≤ 1 ∧
      (c.sh.db.eventsFor r).length = (c.sh.db.entriesFor r).length ∧
      ∀ t resp, (calls t).args.referenceId = r → Returned c t resp →
        ∃ e x, c.sh.db.entriesFor r = [e] ∧ c.sh.db.eventsFor r = [x] ∧ Names resp e x := by
  intro c
  have hi : (onceProtocol r).inv s := ⟨hk, .inl ⟨hentries, hevents, hidem⟩⟩
  have hh : Holds (S := transferSys calls) (P := onceProtocol r)
      (Q := fun t res _ s => (onceFacts r (calls t).args).Outcome (calls t).args res s.db) c := by
    refine sound_of_forall (fun _ _ _ _ _ => trivial) (fun e s hi => onceProtocol_env r e hi)
      (Holds.start hi fun t => ?_) es
    exact (onceFacts_lawful r t t (calls t).deps).transferFunds_wp _ hi trivial
  obtain ⟨⟨-, honce⟩, -⟩ := id hh
  refine ⟨?_, ?_, fun t resp hr hret => honce.unique ?_⟩
  · rcases honce with ⟨h, -, -⟩ | ⟨e, x, h, -, -⟩
    all_goals simp [h]
  · rcases honce with ⟨h, h', -⟩ | ⟨e, x, h, h', -⟩
    all_goals simp [h, h']
  · rcases hh.returned hret with ⟨plan, hc, hresp⟩ | hrep
    · exact hc hr resp hresp
    · exact hrep hr

end Runs

/-! ### A transfer and its retry -/

def retryCalls (_ : Tid) : TransferCall := { args := cashTransfer 2 }

/-- `n` turns of call `t`, with ids from `i` on. -/
def retryTurns (t : Tid) (i n : Nat) : List (@transferSys asciiStr retryCalls).Event :=
  (range' i n).map fun j => .turn t (freshIds j)

def retryRun : (@transferSys asciiStr retryCalls).Config :=
  run (start cashWorld) (retryTurns 0 0 27 ++ retryTurns 1 100 1)

/-- The retry names the one entry. -/
theorem transfer_exactly_once_retry :
    ∃ e x, retryRun.sh.db.entriesFor "t-1" = [e] ∧ retryRun.sh.db.eventsFor "t-1" = [x] ∧
      Names (cashResponse 30) e x := by
  have h := @transfer_exactly_once asciiStr retryCalls "t-1" cashWorld cashWorld_keyed
    (by decide +kernel) (by decide +kernel) (by decide +kernel)
    (retryTurns 0 0 27 ++ retryTurns 1 100 1)
  refine h.2.2 1 (cashResponse 30) (by decide +kernel) ?_
  have hres : (retryRun.thr 1).2.result? = some (.ok (cashResponse 30)) := by decide +kernel
  exact returned_of_result hres

end CleanArch
