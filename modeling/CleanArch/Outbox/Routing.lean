import CleanArch.Async.Phases
import CleanArch.Ledger.Calls
import CleanArch.Outbox.Order

/-!
# The topics of concurrent relay runs

Orders and transfers store their events in one outbox, and both relay services poll it. Their runs
interleave at their awaits: the poll, each message, each mark and the commit. A run has a session of
its own (`RelaySession`): a mark loads the row and sets some of its columns, which the others see
after the commit. Neither filters what it polls.
-/

namespace CleanArch

open Async List Phases Steps

/-! ## The events of orders and transfers -/

/-- `a or b` of two texts. -/
def textOr (a : Option String) (b : String) : String := if a.getD "" = "" then b else a.getD ""

/-- `OutboxEventModel.__init__`. -/
def OutboxEventEntity.init (id : UUID) (eventType : String)
    (topic aggregateType partitionKey aggregateId : Option String) (payload : OutboxPayload)
    (now : Time) : OutboxEventEntity where
  id := id
  eventType := eventType
  aggregateType := textOr topic (textOr aggregateType "general")
  aggregateId := textOr partitionKey (textOr aggregateId "default")
  payload := payload
  createdAt := now

inductive NewEvent where
  /-- By `create_order_with_outbox`; `orderId` is the text of the id. -/
  | order (id : UUID) (orderId : String) (payload : OutboxPayload) (now : Time)
  /-- By `transfer_funds`. -/
  | transfer (id : UUID) (sourceAccountId : String) (payload : OutboxPayload) (now : Time)

def NewEvent.row : NewEvent → OutboxEventEntity
  | .order id orderId payload now =>
    .init id "order.created" none (some "order") none (some orderId) payload now
  | .transfer id sourceAccountId payload now =>
    .init id "ledger.transfer.completed.v1" (some "ledger.transfers.v1") none (some sourceAccountId)
      none payload now

inductive EventKind where
  | order
  | transfer
  deriving DecidableEq

namespace EventKind

def eventType : EventKind → String
  | .order => "order.created"
  | .transfer => "ledger.transfer.completed.v1"

def aggregateType : EventKind → String
  | .order => "order"
  | .transfer => "ledger.transfers.v1"

def topic : EventKind → String
  | .order => "orders.events"
  | .transfer => "ledger.transfers.v1"

end EventKind

structure OutboxEventEntity.OfKind (e : OutboxEventEntity) (kind : EventKind) : Prop where
  eventType : e.eventType = kind.eventType
  aggregateType : e.aggregateType = kind.aggregateType

def OutboxEventEntity.Known (e : OutboxEventEntity) : Prop := ∃ kind, e.OfKind kind

lemma OutboxEventEntity.Known.marked {e e' : OutboxEventEntity} (h : e.Known)
    (htype : e'.eventType = e.eventType) (haggregate : e'.aggregateType = e.aggregateType) :
    e'.Known := by
  obtain ⟨kind, hkind⟩ := h
  exact ⟨kind, htype.trans hkind.eventType, haggregate.trans hkind.aggregateType⟩

lemma NewEvent.row_known (event : NewEvent) : event.row.Known := by
  cases event with
  | order => exact ⟨.order, rfl, rfl⟩
  | transfer => exact ⟨.transfer, rfl, rfl⟩

def RelayService.kind : RelayService → EventKind
  | .outbox => .order
  | .ledger => .transfer

lemma EventKind.eventType_injective {k k' : EventKind} (h : k.eventType = k'.eventType) :
    k = k' := by
  cases k <;> cases k' <;> first | rfl | exact absurd h (by decide)

lemma topic_eq_iff (he : e.OfKind kind) (service : RelayService) :
    service.relay.topic e = kind.topic ↔ kind = service.kind := by
  have htype := he.aggregateType
  cases service with
  | outbox =>
    show resolveTopic e = _ ↔ _
    rw [resolveTopic, htype]
    cases kind <;> decide +kernel
  | ledger =>
    show (if mentions "." e.aggregateType then e.aggregateType else "ledger.transfers.v1") = _ ↔ _
    rw [htype]
    cases kind <;> decide +kernel

/-! ## Requests -/

inductive RelayError where
  | brokerError
  | databaseError
  deriving DecidableEq

structure SharedOutbox where
  rows : List OutboxEventEntity := []
  log : List (OutboxEventEntity × Message) := []

def SharedOutbox.Acked (s : SharedOutbox) (id : UUID) : Prop := ∃ p ∈ s.log, p.1.id = id

/-- What a mark sets in a row; `mark_failed` has loaded the row before. -/
inductive RowMark where
  | published (status : OutboxStatus) (now : Time)
  | failed (loaded : OutboxEventEntity)

/-- The third failure of an event. -/
def RowMark.givesUp : RowMark → Bool
  | .published .. => false
  | .failed loaded => maxRetries ≤ loaded.retryCount + 1

def RowMark.apply (m : RowMark) (e : OutboxEventEntity) : OutboxEventEntity :=
  match m with
  | .published status now => e.published status now
  | .failed loaded =>
    { e with
      retryCount := loaded.retryCount + 1
      status := if m.givesUp then .failed else e.status }

/-- The `UPDATE` statements of a session, with the ids of their rows. -/
structure RelaySession where
  statements : List (UUID × RowMark) := []

def RelaySession.apply (l : RelaySession) (e : OutboxEventEntity) : OutboxEventEntity :=
  l.statements.foldl (fun e x => if x.1 = e.id then x.2.apply e else e) e

def RelaySession.view (l : RelaySession) (rows : List OutboxEventEntity) : List OutboxEventEntity :=
  rows.map l.apply

/-- `session.get`, and the flush of the columns that the mark sets in the row that is found. -/
def RelaySession.update (l : RelaySession) (rows : List OutboxEventEntity) (id : UUID)
    (mark : OutboxEventEntity → RowMark) : RelaySession :=
  match (l.view rows).find? fun e => e.id = id with
  | none => l
  | some e => ⟨l.statements ++ [(id, mark e)]⟩

inductive RelayCmd where
  | getProducer
  | getPendingEvents (batchSize : Nat)
  /-- `send_and_wait`, with the event that the message is for. -/
  | send (event : OutboxEventEntity) (message : Message)
  | markPublished (id : UUID) (status : OutboxStatus)
  | markFailed (id : UUID)
  | commit

@[reducible] def RelayCmd.Res : RelayCmd → Type
  | .getPendingEvents _ => List OutboxEventEntity
  | _ => Unit

def RelayCmd.exec (o : Answer) (l : RelaySession) (s : SharedOutbox) :
    (c : RelayCmd) → Except RelayError c.Res × RelaySession × SharedOutbox
  | .getProducer => withFault o .brokerError (l, s) (.ok (), l, s)
  | .getPendingEvents batchSize =>
    withFault o .databaseError (l, s) (.ok (CleanArch.getPendingEvents batchSize (l.view s.rows)),
      l, s)
  | .send event message =>
    withFault o .brokerError (l, s) (.ok (), l, { s with log := s.log ++ [(event, message)] })
  | .markPublished id status =>
    withFault o .databaseError (l, s)
      (.ok (), l.update s.rows id fun _ => .published status o.now, s)
  | .markFailed id =>
    withFault o .databaseError (l, s) (.ok (), l.update s.rows id .failed, s)
  | .commit => withFault o .databaseError (l, s) (.ok (), {}, { s with rows := l.view s.rows })

@[reducible] def relayMachine : Machine where
  Cmd := RelayCmd
  Res := RelayCmd.Res
  Err := RelayError
  Loc := RelaySession
  Sh := SharedOutbox
  Out := Answer
  exec _ c o l s := c.exec o l s

abbrev RelayProg := Prog RelayCmd RelayCmd.Res RelayError

def request (c : RelayCmd) : RelayProg c.Res := Prog.call c

/-! ## The services -/

inductive RelayResult where
  | summary (summary : RelaySummary)
  | dispatched (count : Nat)

def relayEvents (status : OutboxStatus) (dispatch : OutboxEventEntity → RelayProg Unit) :
    List OutboxEventEntity → Nat × Nat → RelayProg (Nat × Nat)
  | [], counts => return counts
  | event :: rest, (published, failed) => do
    let relayed ← Prog.attempt do
      dispatch event
      request (.markPublished event.id status)
    match relayed with
    | .ok _ => relayEvents status dispatch rest (published + 1, failed)
    | .error _ =>
      request (.markFailed event.id)
      relayEvents status dispatch rest (published, failed + 1)

/-- `_dispatch_to_broker` of the message of an event. -/
def dispatchToBroker (event : OutboxEventEntity) : RelayProg Unit := do
  request .getProducer
  request (.send event (outboxRelay.message event))

/-- `poll_and_publish_pending_events`, at its awaits. -/
def pollAndPublish (batchSize : Nat) : RelayProg RelayResult := do
  let pendingEvents ← request (.getPendingEvents batchSize)
  if pendingEvents = [] then
    return .summary ⟨"IDLE", 0, 0, 0, "No pending outbox events found."⟩
  let counts ← relayEvents outboxRelay.status dispatchToBroker pendingEvents (0, 0)
  request .commit
  let message := s!"Polled {pendingEvents.length} events: {counts.1} published, " ++
    s!"{counts.2} failed."
  return .summary ⟨"COMPLETED", pendingEvents.length, counts.1, counts.2, message⟩

/-- `publish_pending_events`, at its awaits. -/
def publishPending (batchSize : Nat) : RelayProg RelayResult := do
  request .getProducer
  let pendingEvents ← request (.getPendingEvents batchSize)
  if pendingEvents = [] then
    return .dispatched 0
  let counts ← relayEvents ledgerRelay.status
    (fun event => request (.send event (ledgerRelay.message event))) pendingEvents (0, 0)
  request .commit
  return .dispatched counts.1

structure RelayCall where
  service : RelayService
  batchSize : Nat := 50

def RelayCall.prog (call : RelayCall) : RelayProg RelayResult :=
  match call.service with
  | .outbox => pollAndPublish call.batchSize
  | .ledger => publishPending call.batchSize

def SharedOutbox.store (s : SharedOutbox) (event : NewEvent) : SharedOutbox :=
  if s.rows.any fun e => e.id = event.row.id then s else { s with rows := s.rows ++ [event.row] }

@[reducible] def relaySys (calls : Tid → RelayCall) : Sys where
  toMachine := relayMachine
  Env := NewEvent
  env event s := s.store event
  A := RelayResult
  prog t := (calls t).prog
  loc _ := {}

/-! ## What a relay sends -/

/-- A relay sends the message that its service makes of a known event, and marks an event as
published after its message is acknowledged. The phase is the last event acknowledged. -/
@[reducible] def relayPhases (service : RelayService) :
    Phases RelayCmd RelayCmd.Res RelayError where
  Phase := Option UUID
  possible
    | .getPendingEvents _, .ok events => ∀ e ∈ events, e.Known
    | _, _ => True
  allowed q
    | .send event message => event.Known ∧ message = service.relay.message event
    | .markPublished id status => q = some id ∧ status = service.relay.status
    | _ => True
  next q
    | .send event _, .ok _ => some event.id
    | _, _ => q

section Programs

variable {service : RelayService} {q : Option UUID} {dispatch : OutboxEventEntity → RelayProg Unit}
  (hdispatch : ∀ e q, e.Known → (relayPhases service).Follows (dispatch e)
    (fun r q => r = .ok () → q = some e.id) q)
  {events : List OutboxEventEntity} (hknown : ∀ e ∈ events, e.Known)

include hdispatch hknown

lemma relayEvents_follows (counts : Nat × Nat) :
    (relayPhases service).Follows (relayEvents service.relay.status dispatch events counts)
      (fun _ _ => True) q := by
  induction events generalizing counts q with
  | nil => trivial
  | cons event rest ih =>
    have hrest : ∀ {q} counts, (relayPhases service).Follows
        (relayEvents service.relay.status dispatch rest counts) (fun _ _ => True) q :=
      fun counts => ih (fun e he => hknown e (mem_cons_of_mem _ he)) counts
    refine follows_bind (follows_attempt ?_)
    refine follows_bind ((hdispatch event q (hknown event mem_cons_self)).mono ?_)
    intro r q hq
    cases r with
    | error => exact follows_call_bind trivial (fun _ _ => hrest _) fun _ _ => trivial
    | ok =>
      refine follows_call ⟨hq rfl, rfl⟩ fun r _ => ?_
      cases r with
      | ok => exact hrest _
      | error => exact follows_call_bind trivial (fun _ _ => hrest _) fun _ _ => trivial

lemma relayBatch_follows (result : Nat × Nat → RelayResult) :
    (relayPhases service).Follows ((relayEvents service.relay.status dispatch events (0, 0)).bind
      fun counts => (request .commit).bind fun _ => .ret (result counts)) (fun _ _ => True) q := by
  refine follows_bind ((relayEvents_follows hdispatch hknown (0, 0)).mono ?_)
  intro r _ _
  cases r with
  | error => trivial
  | ok => exact follows_call_bind trivial (fun _ _ => trivial) fun _ _ => trivial

omit hdispatch hknown in
lemma send_follows (he : event.Known) (q : Option UUID) :
    (relayPhases service).Follows (request (.send event (service.relay.message event)))
      (fun r q => r = .ok () → q = some event.id) q := by
  refine follows_call ⟨he, rfl⟩ ?_
  rintro _ - rfl
  rfl

omit hdispatch hknown in
lemma relayCall_follows (call : RelayCall) :
    (relayPhases call.service).Follows call.prog (fun _ _ => True) none := by
  obtain ⟨service, batchSize⟩ := call
  cases service with
  | outbox =>
    refine follows_call_bind trivial (fun events hknown => ?_) fun _ _ => trivial
    refine follows_ite (fun _ => trivial) fun _ => ?_
    refine relayBatch_follows (fun e q he => ?_) hknown _
    exact follows_call_bind trivial (fun _ _ => send_follows he q) nofun
  | ledger =>
    refine follows_call_bind trivial (fun _ _ => ?_) fun _ _ => trivial
    refine follows_call_bind trivial (fun events hknown => ?_) fun _ _ => trivial
    refine follows_ite (fun _ => trivial) fun _ => ?_
    exact relayBatch_follows (fun e q he => send_follows he q) hknown _

end Programs

/-! ## Runs -/

def Routed (s : SharedOutbox) : Prop :=
  ∀ p ∈ s.log, ∀ kind : EventKind, p.1.eventType = kind.eventType → p.2.topic = kind.topic

def RelayCmd.sent? : RelayCmd → Option OutboxEventEntity
  | .send event _ => some event
  | _ => none

section Runs

variable {calls : Tid → RelayCall}

def OwnEvent (calls : Tid → RelayCall) (c : (relaySys calls).Config) : (relaySys calls).Event → Prop
  | .turn t o => ∀ event ∈ (c.thr t).2.next?.bind RelayCmd.sent?, o.fault ≠ some .refused →
    event.eventType = (calls t).service.kind.eventType
  | .world _ => True

def OutboxEventEntity.Settled (e : OutboxEventEntity) : Prop :=
  e.status = .published ∨ e.status = .processed

/-- `e'` is `e` after marks: settled ones if the event was acknowledged, and `FAILED` if one gave it
up. -/
structure MarkedFrom (acked gaveUp : Prop) (e e' : OutboxEventEntity) : Prop where
  id : e'.id = e.id
  eventType : e'.eventType = e.eventType
  aggregateType : e'.aggregateType = e.aggregateType
  status : e'.status = e.status ∨ e'.status = .failed ∧ gaveUp ∨ e'.Settled ∧ acked

lemma MarkedFrom.mono (h : MarkedFrom acked gaveUp e e') (ha : acked → acked')
    (hg : gaveUp → gaveUp') : MarkedFrom acked' gaveUp' e e' where
  id := h.id
  eventType := h.eventType
  aggregateType := h.aggregateType
  status := h.status.imp_right (.imp (.imp_right hg) (.imp_right ha))

lemma MarkedFrom.trans (h : MarkedFrom acked gaveUp e e') (h' : MarkedFrom acked gaveUp e' e'') :
    MarkedFrom acked gaveUp e e'' := by
  refine ⟨h'.id.trans h.id, h'.eventType.trans h.eventType, h'.aggregateType.trans h.aggregateType,
    ?_⟩
  rcases h'.status with hsame | hmarked
  · simpa [OutboxEventEntity.Settled, hsame] using h.status
  · exact .inr hmarked

variable {s : SharedOutbox} {l : RelaySession}

/-- The session has published acknowledged events only. -/
def RelaySession.Marks (l : RelaySession) (s : SharedOutbox) : Prop :=
  ∀ x ∈ l.statements, ∀ e, MarkedFrom (s.Acked x.1) (x.2.givesUp = true) e (x.2.apply e)

lemma RelaySession.Marks.mono (h : l.Marks s) (hs : ∀ id, s.Acked id → s'.Acked id) :
    l.Marks s' := fun x hx e => (h x hx e).mono (hs x.1) id

lemma RelaySession.Marks.apply (h : l.Marks s) (e : OutboxEventEntity) :
    MarkedFrom (s.Acked e.id) (∃ x ∈ l.statements, x.1 = e.id ∧ x.2.givesUp = true) e
      (l.apply e) := by
  obtain ⟨statements⟩ := l
  unfold RelaySession.apply
  induction statements generalizing e with
  | nil => exact ⟨rfl, rfl, rfl, .inl rfl⟩
  | cons x rest ih =>
    have hrest := fun e => ih e fun y hy => h y (mem_cons_of_mem _ hy)
    rw [foldl_cons]
    split
    · next hid =>
      have hx := h x mem_cons_self e
      rw [hid] at hx
      refine (hx.mono id fun hgave => ?_).trans ((hx.id ▸ hrest (x.2.apply e)).mono id ?_)
      · exact ⟨x, mem_cons_self, hid, hgave⟩
      · exact fun ⟨y, hy, hgave⟩ => ⟨y, mem_cons_of_mem x hy, hgave⟩
    · exact (hrest e).mono id fun ⟨y, hy, hgave⟩ => ⟨y, mem_cons_of_mem x hy, hgave⟩

lemma RelaySession.Marks.update {id : UUID} {mark : OutboxEventEntity → RowMark} (h : l.Marks s)
    (hf : ∀ loaded e, MarkedFrom (s.Acked id) ((mark loaded).givesUp = true) e
      ((mark loaded).apply e)) : (l.update rows id mark).Marks s := by
  unfold RelaySession.update
  split
  · exact h
  · intro x hx
    rcases mem_append.mp hx with hx | hx
    · exact h x hx
    · rw [mem_singleton.mp hx]
      exact hf _

/-- The invariant: the table has known events, of which only acknowledged ones are settled, and the
relays keep to their phases. -/
structure Relaying (c : (relaySys calls).Config) : Prop where
  rows : ∀ e ∈ c.sh.rows, e.Known ∧ (e.Settled → c.sh.Acked e.id)
  nodup : (c.sh.rows.map (·.id)).Nodup
  marks : ∀ t, (c.thr t).1.Marks c.sh
  follows : ∀ t, ∃ q, (∀ id ∈ q, c.sh.Acked id) ∧
    (relayPhases (calls t).service).Follows (c.thr t).2 (fun _ _ => True) q

def RelayCmd.commits : RelayCmd → Bool
  | .commit => true
  | _ => false

structure RelayCmd.Does (service : RelayService) (q : Option UUID) (c : RelayCmd) (o : Answer)
    (l : RelaySession) (s : SharedOutbox)
    (x : Except RelayError c.Res × RelaySession × SharedOutbox) : Prop where
  possible : (relayPhases service).possible c x.1
  log : s.log <+: x.2.2.log
  rows : x.2.2.rows = if c.commits ∧ o.fault ≠ some .refused then l.view s.rows else s.rows
  marks : x.2.1.Marks s
  acked : ∀ id ∈ (relayPhases service).next q c x.1, x.2.2.Acked id

lemma RelayCmd.does (o : Answer) (hc : (relayPhases service).allowed q c)
    (hrows : ∀ e ∈ s.rows, e.Known) (hl : l.Marks s) (hq : ∀ id ∈ q, s.Acked id) :
    c.Does service q o l s (c.exec o l s) := by
  cases c with
  | getProducer =>
    simp only [RelayCmd.exec, withFault]
    split <;> exact ⟨trivial, prefix_rfl, rfl, hl, hq⟩
  | getPendingEvents n =>
    have hview : ∀ e ∈ l.view s.rows, e.Known := fun e he => by
      obtain ⟨row, hrow, rfl⟩ := mem_map.mp he
      exact (hrows row hrow).marked (hl.apply row).eventType (hl.apply row).aggregateType
    simp only [RelayCmd.exec, withFault]
    split
    · exact ⟨fun e he => hview e (mem_of_mem_batch he).1, prefix_rfl, rfl, hl, hq⟩
    all_goals exact ⟨trivial, prefix_rfl, rfl, hl, hq⟩
  | send event message =>
    have hacked : ∀ id, s.Acked id →
        SharedOutbox.Acked ⟨s.rows, s.log ++ [(event, message)]⟩ id := by
      rintro id ⟨p, hp, hid⟩
      exact ⟨p, mem_append_left _ hp, hid⟩
    simp only [RelayCmd.exec, withFault]
    split
    · refine ⟨trivial, prefix_append _ _, rfl, hl, fun id hid => ?_⟩
      exact ⟨_, mem_append_right _ (mem_singleton_self _), Option.some.inj hid⟩
    · exact ⟨trivial, prefix_rfl, rfl, hl, hq⟩
    · exact ⟨trivial, prefix_append _ _, rfl, hl, fun id hid => hacked id (hq id hid)⟩
  | markPublished id status =>
    have hmark : (l.update s.rows id fun _ => .published status o.now).Marks s :=
      hl.update fun _ e => ⟨rfl, rfl, rfl, .inr (.inr ⟨?_, hq id hc.1⟩)⟩
    · simp only [RelayCmd.exec, withFault]
      split
      · exact ⟨trivial, prefix_rfl, rfl, hmark, hq⟩
      · exact ⟨trivial, prefix_rfl, rfl, hl, hq⟩
      · exact ⟨trivial, prefix_rfl, rfl, hmark, hq⟩
    · rw [hc.2]
      cases service with
      | outbox => exact .inl rfl
      | ledger => exact .inr rfl
  | markFailed id =>
    have hmark : (l.update s.rows id .failed).Marks s := hl.update fun loaded e => by
      refine ⟨rfl, rfl, rfl, ?_⟩
      unfold RowMark.apply
      dsimp only
      split
      · next hgave => exact .inr (.inl ⟨rfl, hgave⟩)
      · exact .inl rfl
    simp only [RelayCmd.exec, withFault]
    split
    · exact ⟨trivial, prefix_rfl, rfl, hmark, hq⟩
    · exact ⟨trivial, prefix_rfl, rfl, hl, hq⟩
    · exact ⟨trivial, prefix_rfl, rfl, hmark, hq⟩
  | commit =>
    have hempty : ({} : RelaySession).Marks s := by
      intro _ hm
      cases hm
    simp only [RelayCmd.exec, withFault]
    split
    · next ho => exact ⟨trivial, prefix_rfl, by simp [ho, RelayCmd.commits], hempty, hq⟩
    · next ho => exact ⟨trivial, prefix_rfl, by simp [ho], hl, hq⟩
    · next ho => exact ⟨trivial, prefix_rfl, by simp [ho, RelayCmd.commits], hempty, hq⟩

lemma exec_send_log (l : RelaySession) (s : SharedOutbox) :
    (RelayCmd.exec o l s (.send event message)).2.2.log =
      if o.fault = some .refused then s.log else s.log ++ [(event, message)] := by
  simp only [RelayCmd.exec, withFault]
  split <;> simp_all

lemma exec_log_eq {c : RelayCmd} (hc : c.sent? = none) (l : RelaySession)
    (s : SharedOutbox) : (c.exec o l s).2.2.log = s.log := by
  cases c with
  | send => cases hc
  | _ =>
    simp only [RelayCmd.exec, withFault]
    split <;> rfl

lemma Relaying.step {c : (relaySys calls).Config} (h : Relaying c)
    (e : (relaySys calls).Event) : Relaying (Sys.step c e) := by
  cases e with
  | world event =>
    have hpending : ¬ event.row.Settled := by
      cases event <;> simp [OutboxEventEntity.Settled, NewEvent.row, OutboxEventEntity.init]
    change Relaying ⟨c.sh.store event, c.thr⟩
    unfold SharedOutbox.store
    split
    · exact h
    · next hfresh =>
      refine ⟨fun e he => ?_, ?_, h.marks, h.follows⟩
      · rcases mem_append.mp he with he | he
        · exact h.rows e he
        · rw [mem_singleton.mp he]
          exact ⟨event.row_known, fun hs => absurd hs hpending⟩
      · simp only [map_append, map_cons, map_nil]
        refine nodup_append_comm.mp (h.nodup.cons fun hmem => hfresh ?_)
        simpa using hmem
  | turn t o =>
    rcases (c.thr t).2.ended_or_awaits with hn | ⟨r, k, hp⟩
    · rwa [Sys.step_ended hn]
    obtain ⟨q, hq, hfollows⟩ := h.follows t
    rw [hp] at hfollows
    have hdoes := RelayCmd.does o hfollows.1 (fun e he => (h.rows e he).1) (h.marks t) hq
    have hacked : ∀ id, c.sh.Acked id → (r.exec o (c.thr t).1 c.sh).2.2.Acked id :=
      fun id ⟨p, hp, hid⟩ => ⟨p, hdoes.log.subset hp, hid⟩
    rw [Sys.step_await hp]
    refine ⟨?_, ?_, fun u => ?_, fun u => ?_⟩
    · rw [hdoes.rows]
      split
      · intro e he
        obtain ⟨row, hrow, rfl⟩ := mem_map.mp he
        have hmarked := (h.marks t).apply row
        refine ⟨(h.rows row hrow).1.marked hmarked.eventType hmarked.aggregateType, fun hs => ?_⟩
        rw [hmarked.id]
        refine hacked _ ?_
        rcases hmarked.status with hsame | ⟨hfailed, -⟩ | ⟨-, hack⟩
        · exact (h.rows row hrow).2 (by simpa [OutboxEventEntity.Settled, hsame] using hs)
        · simp [OutboxEventEntity.Settled, hfailed] at hs
        · exact hack
      · exact fun e he => (h.rows e he).imp_right fun hs he => hacked _ (hs he)
    · rw [hdoes.rows]
      split
      · have hids : ∀ e ∈ c.sh.rows, ((·.id) ∘ (c.thr t).1.apply) e = e.id :=
          fun e _ => ((h.marks t).apply e).id
        rw [RelaySession.view, map_map, map_congr_left hids]
        exact h.nodup
      · exact h.nodup
    · by_cases hut : u = t
      · subst hut
        simpa using hdoes.marks.mono hacked
      · simpa [hut] using (h.marks u).mono hacked
    · by_cases hut : u = t
      · subst hut
        exact ⟨_, hdoes.acked, by simpa using hfollows.step hdoes.possible⟩
      · obtain ⟨q', hq', hfollows'⟩ := h.follows u
        exact ⟨q', fun id hid => hacked id (hq' id hid), by simpa [hut] using hfollows'⟩

lemma routed_append (h : Routed s) (hevent : event.Known) (service : RelayService) :
    Routed { s with log := s.log ++ [(event, service.relay.message event)] } ↔
      event.eventType = service.kind.eventType := by
  obtain ⟨kind, hkind⟩ := hevent
  constructor
  · intro hrouted
    have htopic := hrouted _ (mem_append_right _ (mem_singleton_self _)) kind
      hkind.eventType
    rw [hkind.eventType, (topic_eq_iff hkind service).mp htopic]
  · intro hown p hp kind' hkind'
    rcases mem_append.mp hp with hp | hp
    · exact h p hp kind' hkind'
    · rw [mem_singleton.mp hp] at hkind' ⊢
      have hsame := EventKind.eventType_injective (hkind'.symm.trans hkind.eventType)
      have hservice := EventKind.eventType_injective (hkind.eventType.symm.trans hown)
      rw [hsame]
      exact (topic_eq_iff hkind service).mpr hservice

/-- One event of a schedule: the messages stay routed exactly if a message that is taken is for an
event of its sender. -/
lemma Relaying.routed_step (h : Relaying c) (hrouted : Routed c.sh) :
    Routed (Sys.step c e).sh ↔ OwnEvent calls c e := by
  cases e with
  | world event =>
    refine iff_of_true ?_ trivial
    intro p hp
    change p ∈ (c.sh.store event).log at hp
    unfold SharedOutbox.store at hp
    split at hp
    all_goals exact hrouted p hp
  | turn t o =>
    show _ ↔ ∀ event ∈ (c.thr t).2.next?.bind RelayCmd.sent?, o.fault ≠ some .refused →
      event.eventType = (calls t).service.kind.eventType
    rcases (c.thr t).2.ended_or_awaits with hn | ⟨r, k, hp⟩
    · rw [Sys.step_ended hn, hn]
      exact iff_of_true hrouted nofun
    · obtain ⟨q, -, hfollows⟩ := h.follows t
      rw [hp] at hfollows
      rw [Sys.step_await hp, hp]
      show Routed (r.exec o (c.thr t).1 c.sh).2.2 ↔ ∀ event ∈ r.sent?, _
      cases hsent : r.sent? with
      | none =>
        refine iff_of_true ?_ nofun
        intro p hp
        rw [exec_log_eq hsent] at hp
        exact hrouted p hp
      | some event =>
        cases r with
        | send =>
          cases hsent
          obtain ⟨⟨hknown, rfl⟩, -⟩ := hfollows
          have happend := routed_append hrouted hknown (calls t).service
          by_cases hrefused : o.fault = some .refused
          · refine iff_of_true ?_ fun _ _ h => absurd hrefused h
            intro p hp
            rw [exec_send_log, if_pos hrefused] at hp
            exact hrouted p hp
          · unfold Routed at happend ⊢
            rw [exec_send_log, if_neg hrefused, happend]
            constructor
            · intro hown e he _
              cases he
              exact hown
            · intro hown
              exact hown event rfl hrefused
        | _ => cases hsent

lemma Relaying.start : Relaying (Sys.start {} : (relaySys calls).Config) where
  rows e he := by cases he
  nodup := nodup_nil
  marks t x hx := by cases hx
  follows t := ⟨none, nofun, relayCall_follows (calls t)⟩

/-- In every run, all messages have the topics of their events exactly if each message that the
broker takes is for an event of the service that sends it. -/
theorem routed_iff (calls : Tid → RelayCall) (es : List (relaySys calls).Event) :
    Steps.Always Sys.step (fun c : (relaySys calls).Config => Routed c.sh) (Sys.start {}) es ↔
      Steps.Along Sys.step (OwnEvent calls) (Sys.start {}) es :=
  Steps.always_iff_along (fun c e h _ => h.step e) (fun c e h hrouted => h.routed_step hrouted)
    Relaying.start fun p hp => by cases hp

end Runs

/-! ## Two events -/

def crossedCalls (t : Tid) : RelayCall := { service := if t = 0 then .ledger else .outbox }

def crossedRun : List (relaySys crossedCalls).Event :=
  [.world (.order 1 "o-1" { json := "order" } 1)] ++ List.replicate 5 (.turn 0 {}) ++
    [.world (.transfer 2 "a-1" { json := "transfer" } 2)] ++ List.replicate 5 (.turn 1 {})

def crossedEnd : (relaySys crossedCalls).Config := Sys.run (Sys.start {}) crossedRun

/-- The order goes to the topic of the transfers, and the transfer to one that nothing reads. -/
theorem routed_to_other_topic : crossedEnd.sh.log.map (fun p => (p.1.eventType, p.2.topic)) =
        [("order.created", "ledger.transfers.v1"),
          ("ledger.transfer.completed.v1", "ledger.transfers.v1s.events")] ∧
      ¬ Routed crossedEnd.sh := by
  refine (and_iff_left_of_imp fun hlog h => ?_).mpr (by decide +kernel)
  have hmem : ("order.created", "ledger.transfers.v1") ∈
      crossedEnd.sh.log.map fun p => (p.1.eventType, p.2.topic) := by
    rw [hlog]
    exact mem_cons_self
  obtain ⟨p, hp, heq⟩ := mem_map.mp hmem
  obtain ⟨htype, htopic⟩ := Prod.mk.inj heq
  have hbad := h p hp .order htype
  rw [htopic] at hbad
  exact absurd hbad (by decide)

end CleanArch
